import GlideMq.Proofs.FreshIds

/-!
# A flow is added whole or not at all

`addFlow` checks the custom ids of the children before it writes. The automatic ids are taken
later, while the children are written.
-/

namespace GlideMq

open Queue

/-- Everything but the id counter. -/
def Queue.exceptId (s : Queue) : Queue := { s with idKey := none }

/-! ## Ids, before they are taken -/

/-- The first of the next automatic ids that is free. -/
def firstFreeId (used : JobId → Bool) : Nat → Option String → Option (Option String × JobId)
  | 0, _ => none
  | tries + 1, id =>
    match Lua.incr id with
    | none => none
    | some n =>
      if used (printId n) then firstFreeId used tries (some n.repr)
      else some (some n.repr, printId n)

/-- The id that a flow's job takes, and the `id` key after it. -/
def takeFlowId (used : JobId → Bool) (id : Option String) :
    Option JobId → Option (Option String × JobId)
  | some J => if used J then none else some (idKeyAfter id (some J), J)
  | none => firstFreeId used 1000 id

/-- Each of the jobs finds an id, in turn: a custom one is still free, an automatic one is found. -/
def IdsLast (used : QueueName → JobId → Bool) (ids : QueueName → Option String) :
    List (QueueName × Option JobId) → Bool
  | [] => true
  | (q, c) :: rest =>
    match takeFlowId (used q) (ids q) c with
    | none => false
    | some (id, J) =>
      IdsLast (Function.update used q fun K => K = J || used q K) (Function.update ids q id) rest

def Queue.uses (s : Queue) (J : JobId) : Bool := (s.jobs J).isSome

theorem uses_eq_false {s : Queue} {J : JobId} : s.uses J = false ↔ s.jobs J = none := by
  simp [Queue.uses]

/-- What an allocation does, against the ids that the hashes say are free. -/
structure Takes (s : Queue) (found : Option (Option String × JobId)) (r : Queue × AddResult) :
    Prop where
  hit : ∀ id J, found = some (id, J) → r = ({ s with idKey := id }, .added J)
  miss : found = none → ∀ J, r.2 ≠ .added J
  kept : r.1.exceptId = s.exceptId

theorem takes_some {s : Queue} (id : Option String) (J : JobId) :
    Takes s (some (id, J)) ({ s with idKey := id }, .added J) :=
  ⟨by rintro _ _ ⟨⟩; rfl, nofun, rfl⟩

theorem takes_none {s t : Queue} {r : AddResult} (hr : ∀ J, r ≠ .added J)
    (ht : t.exceptId = s.exceptId) : Takes s none (t, r) :=
  ⟨nofun, fun _ => hr, ht⟩

theorem skipUsedIds_takes (s : Queue) :
    ∀ (retries : Nat) (n : Int),
      Takes s
        (if s.uses (printId n) then firstFreeId s.uses retries (some n.repr)
          else some (some n.repr, printId n))
        (skipUsedIds retries (s.setIdKey n.repr) (printId n))
  | 0, n => by
    unfold skipUsedIds firstFreeId
    by_cases hfree : s.jobs (printId n) = none
    · have hjobs : (s.setIdKey n.repr).jobs (printId n) = none := hfree
      rw [if_pos hjobs, uses_eq_false.mpr hfree]
      exact takes_some _ _
    · have hjobs : (s.setIdKey n.repr).jobs (printId n) ≠ none := hfree
      have huses : s.uses (printId n) = true := by
        simpa [Queue.uses, Option.isSome_iff_ne_none] using hfree
      rw [if_neg hjobs, huses]
      exact takes_none (by simp) rfl
  | retries + 1, n => by
    unfold skipUsedIds
    by_cases hfree : s.jobs (printId n) = none
    · have hjobs : (s.setIdKey n.repr).jobs (printId n) = none := hfree
      rw [if_pos hjobs, uses_eq_false.mpr hfree]
      exact takes_some _ _
    · have hjobs : (s.setIdKey n.repr).jobs (printId n) ≠ none := hfree
      have huses : s.uses (printId n) = true := by
        simpa [Queue.uses, Option.isSome_iff_ne_none] using hfree
      rw [if_neg hjobs, huses, if_pos rfl, firstFreeId]
      have hkey : (s.setIdKey n.repr).idKey = some n.repr := rfl
      cases hincr : Lua.incr (some n.repr) with
      | none =>
        have hnone : incrId (s.setIdKey n.repr) = none := by
          unfold incrId
          rw [hkey, hincr]
          rfl
        rw [hnone]
        exact takes_none (by simp) rfl
      | some m =>
        have hsome : incrId (s.setIdKey n.repr) = some (s.setIdKey m.repr, printId m) := by
          unfold incrId
          rw [hkey, hincr]
          rfl
        rw [hsome]
        exact skipUsedIds_takes s retries m

theorem allocateFlowId_takes (s : Queue) (c : Option JobId) :
    Takes s (takeFlowId s.uses s.idKey c) (allocateFlowId s c) := by
  unfold takeFlowId allocateFlowId
  cases c with
  | some J =>
    by_cases hfree : s.jobs J = none
    · have hadvance : advanceIdCounter s J = { s with idKey := idKeyAfter s.idKey (some J) } := by
        unfold advanceIdCounter
        simp only [idKeyAfter]
        split <;> rfl
      simp only [if_pos hfree, uses_eq_false.mpr hfree, hadvance]
      exact takes_some _ _
    · have huses : s.uses J = true := by
        simpa [Queue.uses, Option.isSome_iff_ne_none] using hfree
      simp only [if_neg hfree, huses, if_true]
      exact takes_none (by simp) rfl
  | none =>
    unfold firstFreeId incrId
    cases Lua.incr s.idKey with
    | none => exact takes_none (by simp) rfl
    | some n => exact skipUsedIds_takes s 999 n

/-! ## The child loop -/

def usedIds (S : Sys) (q : QueueName) : JobId → Bool := (S q).uses

def idKeys (S : Sys) (q : QueueName) : Option String := (S q).idKey

theorem createFlowChild_jobs_self (s : Queue) (J : JobId) (c : FlowChild) (q : QueueName) (P : JobId)
    (t t' : Int) : (createFlowChild s J c q P t t').uses J = true := by
  simp [createFlowChild, Queue.uses]

theorem usedIds_afterChild {S : Sys} {c : FlowChild} {id : Option String} {J : JobId} (a : FlowArgs)
    (P : JobId) :
    usedIds (afterChild a P S c { S c.queue with idKey := id } J) =
      Function.update (usedIds S) c.queue fun K => K = J || usedIds S c.queue K := by
  funext q K
  have hdeps : usedIds (afterChild a P S c { S c.queue with idKey := id } J) q K =
      (Function.update S c.queue (createFlowChild { S c.queue with idKey := id } J c a.queue P
        a.parent.timestamp a.parent.serverNow) q).uses K := by
    unfold usedIds Queue.uses afterChild
    rw [onQueue_saddDeps_jobs]
  rw [hdeps]
  by_cases hq : q = c.queue
  · subst hq
    simp only [Function.update_self]
    by_cases hK : K = J
    · subst hK
      simp [createFlowChild_jobs_self]
    · simp [Queue.uses, usedIds, createFlowChild_jobs_of_ne hK, hK]
  · simp [hq, usedIds]

theorem idKeys_afterChild {S : Sys} {c : FlowChild} {id : Option String} {J : JobId} (a : FlowArgs)
    (P : JobId) :
    idKeys (afterChild a P S c { S c.queue with idKey := id } J) =
      Function.update (idKeys S) c.queue id := by
  funext q
  have hdeps : idKeys (afterChild a P S c { S c.queue with idKey := id } J) q =
      (Function.update S c.queue (createFlowChild { S c.queue with idKey := id } J c a.queue P
        a.parent.timestamp a.parent.serverNow) q).idKey := by
    unfold idKeys afterChild onQueue
    by_cases hq : q = a.queue
    · subst hq
      simp
    · simp [hq]
  rw [hdeps]
  by_cases hq : q = c.queue
  · subst hq
    simp
  · simp [hq, idKeys]

def FlowResult.isAdded : FlowResult → Bool
  | .added _ _ => true
  | _ => false

/-- The loop adds all the children, where their ids last, or it stops on the way. -/
theorem addFlowChildren_isAdded (a : FlowArgs) (P : JobId) :
    ∀ (cs : List FlowChild) (S : Sys) (ids : List JobId),
      (addFlowChildren a P cs S ids).2.isAdded =
        IdsLast (usedIds S) (idKeys S) (cs.map fun c => (c.queue, c.customId))
  | [], _, _ => rfl
  | c :: cs, S, ids => by
    have htakes := allocateFlowId_takes (S c.queue) c.customId
    rw [addFlowChildren, List.map_cons, IdsLast]
    cases hf : takeFlowId (S c.queue).uses (S c.queue).idKey c.customId with
    | some p =>
      obtain ⟨id, J⟩ := p
      have hfound : takeFlowId (usedIds S c.queue) (idKeys S c.queue) c.customId = some (id, J) := hf
      rw [htakes.hit id J hf, hfound]
      simp only
      have ih := addFlowChildren_isAdded a P cs
        (afterChild a P S c { S c.queue with idKey := id } J) (ids ++ [J])
      rw [usedIds_afterChild, idKeys_afterChild] at ih
      exact ih
    | none =>
      have hfound : takeFlowId (usedIds S c.queue) (idKeys S c.queue) c.customId = none := hf
      have hmiss := htakes.miss hf
      rw [hfound]
      rcases hr : allocateFlowId (S c.queue) c.customId with ⟨s, r⟩
      rw [hr] at hmiss
      cases r with
      | added J => exact absurd rfl (hmiss J)
      | _ => rfl

/-! ## The flow -/

/-- A flow that is not added changes nothing but id counters. -/
def AllOrNothing (S : Sys) (r : Sys × FlowResult) : Prop :=
  r.2.isAdded = false → ∀ q, (r.1 q).exceptId = (S q).exceptId

/-- The flow is turned away before it is written, or the ids of its children last. -/
def FlowIdsLast (S : Sys) (a : FlowArgs) : Prop :=
  a.parent.opts.exceeds ∨ maxPriority < a.parent.priority ∨
    (∃ c ∈ a.children, maxPriority < c.priority ∨ c.opts.exceeds) ∨
    ∀ id P, takeFlowId (usedIds S a.queue) (idKeys S a.queue) a.parent.customId = some (id, P) →
      childIdsTaken S a.queue P a.children [] ∨
        IdsLast (Function.update (usedIds S) a.queue fun K => K = P || usedIds S a.queue K)
          (Function.update (idKeys S) a.queue id) (a.children.map fun c => (c.queue, c.customId))

theorem exceptId_update {S : Sys} {q : QueueName} {s : Queue} (h : s.exceptId = (S q).exceptId) :
    ∀ p, (Function.update S q s p).exceptId = (S p).exceptId := by
  intro p
  by_cases hp : p = q
  · subst hp
    simpa using h
  · simp [hp]

theorem childIdsTaken_congr {S T : Sys} (h : ∀ q, (T q).jobs = (S q).jobs) (q : QueueName) (P : JobId) :
    ∀ (cs : List FlowChild) (seen : List (QueueName × JobId)),
      childIdsTaken T q P cs seen = childIdsTaken S q P cs seen
  | [], _ => rfl
  | c :: cs, seen => by
    unfold childIdsTaken
    cases c.customId with
    | none => exact childIdsTaken_congr h q P cs seen
    | some J => simp only [h, childIdsTaken_congr h q P cs]

theorem childIdsTaken_setId (S : Sys) (q : QueueName) (id : Option String) (P : JobId)
    (cs : List FlowChild) :
    childIdsTaken (Function.update S q { S q with idKey := id }) q P cs [] =
      childIdsTaken S q P cs [] := by
  refine childIdsTaken_congr (fun p => ?_) q P cs []
  by_cases hp : p = q
  · subst hp
    simp
  · simp [hp]

/-- The system with the parent's hash. -/
def afterParent (S : Sys) (a : FlowArgs) (id : Option String) (P : JobId) : Sys :=
  onQueue (Function.update S a.queue { S a.queue with idKey := id }) a.queue
    (createFlowParent · P a.parent)

theorem usedIds_afterParent (S : Sys) (a : FlowArgs) (id : Option String) (P : JobId) :
    usedIds (afterParent S a id P) =
      Function.update (usedIds S) a.queue fun K => K = P || usedIds S a.queue K := by
  funext q K
  unfold usedIds Queue.uses afterParent onQueue
  by_cases hq : q = a.queue
  · subst hq
    simp only [Function.update_self, createFlowParent_jobs]
    by_cases hK : K = P
    · subst hK
      simp
    · simp [hK]
  · simp [hq]

theorem idKeys_afterParent (S : Sys) (a : FlowArgs) (id : Option String) (P : JobId) :
    idKeys (afterParent S a id P) = Function.update (idKeys S) a.queue id := by
  funext q
  unfold idKeys afterParent onQueue
  by_cases hq : q = a.queue
  · subst hq
    simp
  · simp [hq]

/-- `addFlow` after the checks that read the arguments only. -/
theorem addFlow_checked {S : Sys} {a : FlowArgs} (hcost : ¬ a.parent.opts.exceeds)
    (hpriority : ¬ maxPriority < a.parent.priority)
    (hchildren : ∀ c ∈ a.children, ¬ (maxPriority < c.priority ∨ c.opts.exceeds)) {id : Option String}
    {P : JobId}
    (hP : takeFlowId (usedIds S a.queue) (idKeys S a.queue) a.parent.customId = some (id, P))
    (hfree : ¬ childIdsTaken S a.queue P a.children []) :
    (addFlow S a).2.isAdded = IdsLast
        (Function.update (usedIds S) a.queue fun K => K = P || usedIds S a.queue K)
        (Function.update (idKeys S) a.queue id) (a.children.map fun c => (c.queue, c.customId)) ∧
      ((addFlow S a).1 a.queue).jobs P ≠ none := by
  have htakes := allocateFlowId_takes (S a.queue) a.parent.customId
  have hnone : a.children.find? (fun c => maxPriority < c.priority ∨ c.opts.exceeds) = none := by
    rw [List.find?_eq_none]
    intro c hc
    simpa using hchildren c hc
  have htaken : ¬ childIdsTaken (Function.update S a.queue { S a.queue with idKey := id }) a.queue P
      a.children [] := by
    rw [childIdsTaken_setId]
    exact hfree
  have hloop := addFlowChildren_isAdded a P a.children (afterParent S a id P) []
  rw [usedIds_afterParent, idKeys_afterParent] at hloop
  have hparent : ((afterParent S a id P) a.queue).jobs P ≠ none := by
    unfold afterParent onQueue
    simp [createFlowParent_jobs]
  have hkeeps := (addFlowChildren_keeps a P a.children (afterParent S a id P) []).1
  have hstays : ((addFlowChildren a P a.children (afterParent S a id P) []).1 a.queue).jobs P ≠ none :=
    fun h => hparent (hkeeps.none h)
  unfold addFlow
  rw [if_neg hcost, if_neg hpriority, hnone, htakes.hit id P hP]
  simp only [htaken, Bool.false_eq_true, if_false]
  rw [← hloop]
  unfold afterParent at hloop hstays ⊢
  split
  · rename_i T Q ids heq
    rw [heq] at hstays ⊢
    refine ⟨rfl, ?_⟩
    rw [onQueue_foldl_saddDeps_jobs]
    exact hstays
  · exact ⟨rfl, hstays⟩

/-- `addFlow` is all or nothing exactly for the flows that are turned away before the parent is
written, or whose children all find an id. -/
theorem addFlow_all_or_nothing_iff (S : Sys) (a : FlowArgs) :
    AllOrNothing S (addFlow S a) ↔ FlowIdsLast S a := by
  have hturned {r : FlowResult} {T : Sys} (hr : addFlow S a = (T, r))
      (hT : ∀ q, (T q).exceptId = (S q).exceptId) (hlast : FlowIdsLast S a) :
      AllOrNothing S (addFlow S a) ↔ FlowIdsLast S a :=
    iff_of_true (fun _ => by rw [hr]; exact hT) hlast
  by_cases hcost : a.parent.opts.exceeds
  · exact hturned (by unfold addFlow; rw [if_pos hcost]) (fun _ => rfl) (Or.inl hcost)
  by_cases hpriority : maxPriority < a.parent.priority
  · exact hturned (by unfold addFlow; rw [if_neg hcost, if_pos hpriority]) (fun _ => rfl)
      (Or.inr (Or.inl hpriority))
  by_cases hchildren : ∃ c ∈ a.children, maxPriority < c.priority ∨ c.opts.exceeds
  · cases hfind : a.children.find? (fun c => maxPriority < c.priority ∨ c.opts.exceeds) with
    | none =>
      obtain ⟨c, hc, hbad⟩ := hchildren
      have := List.find?_eq_none.mp hfind c hc
      exact absurd hbad (by simpa using this)
    | some c =>
      exact hturned (by unfold addFlow; rw [if_neg hcost, if_neg hpriority, hfind]) (fun _ => rfl)
        (Or.inr (Or.inr (Or.inl hchildren)))
  have hnone : a.children.find? (fun c => maxPriority < c.priority ∨ c.opts.exceeds) = none := by
    rw [List.find?_eq_none]
    intro c hc
    simpa using fun hbad => hchildren ⟨c, hc, hbad⟩
  have htakes := allocateFlowId_takes (S a.queue) a.parent.customId
  cases hf : takeFlowId (S a.queue).uses (S a.queue).idKey a.parent.customId with
  | none =>
    refine iff_of_true (fun _ => ?_) (Or.inr (Or.inr (Or.inr fun id P hP => ?_)))
    · have hmiss := htakes.miss hf
      have hkept := exceptId_update htakes.kept
      unfold addFlow
      rw [if_neg hcost, if_neg hpriority, hnone]
      rcases hr : allocateFlowId (S a.queue) a.parent.customId with ⟨s, r⟩
      rw [hr] at hmiss hkept
      cases r with
      | added J => exact absurd rfl (hmiss J)
      | _ => exact hkept
    · exact absurd (hf.symm.trans hP) nofun
  | some p =>
    obtain ⟨id, P⟩ := p
    have hP : takeFlowId (usedIds S a.queue) (idKeys S a.queue) a.parent.customId = some (id, P) := hf
    by_cases htaken : childIdsTaken S a.queue P a.children []
    · refine iff_of_true (fun _ => ?_) (Or.inr (Or.inr (Or.inr fun id' P' hP' => ?_)))
      · have htaken' : childIdsTaken (Function.update S a.queue { S a.queue with idKey := id }) a.queue
            P a.children [] := by
          rw [childIdsTaken_setId]
          exact htaken
        unfold addFlow
        rw [if_neg hcost, if_neg hpriority, hnone, htakes.hit id P hf]
        simp only [htaken', if_true]
        exact exceptId_update rfl
      · obtain ⟨rfl, rfl⟩ : id = id' ∧ P = P' := by simpa using hP.symm.trans hP'
        exact Or.inl htaken
    · obtain ⟨hadded, hstays⟩ := addFlow_checked hcost hpriority
        (fun c hc hbad => hchildren ⟨c, hc, hbad⟩) hP htaken
      have hfree : (S a.queue).jobs P = none := by
        refine allocateFlowId_free (c := a.parent.customId) ?_
        rw [htakes.hit id P hf]
      constructor
      · intro hall
        refine Or.inr (Or.inr (Or.inr fun id' P' hP' => ?_))
        obtain ⟨rfl, rfl⟩ : id = id' ∧ P = P' := by simpa using hP.symm.trans hP'
        refine Or.inr ?_
        rw [← hadded]
        by_contra hnot
        have hsame := congrArg (Queue.jobs · P) (hall (by simpa using hnot) a.queue)
        exact hstays (hsame.trans hfree)
      · rintro (h | h | h | h) hnot
        · exact absurd h hcost
        · exact absurd h hpriority
        · exact absurd h hchildren
        · rcases h id P hP with h | h
          · exact absurd h htaken
          · rw [hadded, h] at hnot
            cases hnot

/-- A flow of two children. The first takes the automatic id `1`, the second asks for it. -/
def flowOfTwo : FlowArgs :=
  { queue := "q"
    parent := { timestamp := 0, serverNow := 0, customId := some "p" }
    children := [{ queue := "q" }, { queue := "q", customId := some "1" }] }

theorem addFlow_leaves_half : ¬ AllOrNothing emptySys (addFlow emptySys flowOfTwo) := by
  intro h
  have hsame := congrArg (Queue.jobs · "p") (h (by decide) "q")
  revert hsame
  decide

end GlideMq
