import GlideMq.Proofs.ChainPops

/-!
# The order of the pops

The priority list as a whole is in order as long as no promotion pushes a job behind which a job with a
larger number waits, and every pop takes the one that is first in line.
-/

namespace GlideMq

open Queue Redis

/-! ## Pops -/

theorem rpopMany_priority (n : Nat) :
    ∀ (s : Queue) (results : List JobId), ∃ popped,
      (rpopMany .priority n s results).2 = results ++ popped ∧
        s.priorityList = (rpopMany .priority n s results).1.priorityList ++ popped.reverse ∧
        (rpopMany .priority n s results).1.jobs = s.jobs := by
  induction n with
  | zero =>
    intro s results
    exact ⟨[], by simp [rpopMany], by simp [rpopMany], rfl⟩
  | succ n ih =>
    intro s results
    rw [rpopMany]
    have hlist : s.list .priority = s.priorityList := rfl
    rw [hlist]
    cases hlast : s.priorityList.getLast? with
    | none => exact ⟨[], by simp, by simp, rfl⟩
    | some J =>
      obtain ⟨popped, hids, hrest, hjobs⟩ := ih s.dropPriority (results ++ [J])
      refine ⟨J :: popped, ?_, ?_, hjobs⟩
      · exact hids.trans (by simp)
      · have hdrop : s.priorityList = s.dropPriority.priorityList ++ [J] := by
          obtain ⟨front, hfront⟩ := List.getLast?_eq_some_iff.mp hlast
          have hdropped : s.dropPriority.priorityList = front := by
            unfold dropPriority
            rw [hfront, List.dropLast_concat]
          rw [hdropped, hfront]
        have hsame : (s.drop .priority) = s.dropPriority := rfl
        rw [hsame, List.reverse_cons, ← List.append_assoc, ← hrest, ← hdrop]

theorem rpopMany_eq_nil {n : Nat} {s : Queue} (h : (rpopMany .priority n s []).2 = []) :
    n = 0 ∨ s.priorityList = [] := by
  cases n with
  | zero => exact Or.inl rfl
  | succ n =>
    right
    rw [rpopMany] at h
    have hlist : s.list .priority = s.priorityList := rfl
    rw [hlist] at h
    cases hlast : s.priorityList.getLast? with
    | none => simpa using hlast
    | some J =>
      rw [hlast] at h
      obtain ⟨popped, hids, -, -⟩ := rpopMany_priority n (s.drop .priority) ([] ++ [J])
      have := hids.symm.trans h
      simp at this

theorem rpopMany_lifo (n : Nat) (s : Queue) (results : List JobId) :
    (rpopMany .lifo n s results).1.priorityList = s.priorityList ∧
      (rpopMany .lifo n s results).1.jobs = s.jobs := by
  induction n generalizing s results with
  | zero => exact ⟨rfl, rfl⟩
  | succ n ih =>
    rw [rpopMany]
    split
    · exact ⟨rfl, rfl⟩
    · exact ih _ _

/-- The jobs that a call pops from the priority list, in the order of the pops. -/
def Call.pops (s : Queue) : Call → List JobId
  | .rpopAndReserve .priority group count => (GlideMq.rpopAndReserve s .priority group count).2
  | .popLists count => if s.priorityList = [] then [] else (GlideMq.popLists s count).2
  | .popListsReserve count => if s.priorityList = [] then [] else (GlideMq.popListsReserve s count).2
  | .completeAndFetchNext a =>
    if (s.job a.jobId).revoked then [] else chainPops (settleInChain s a) a.fetch
  | .failAndFetchNext a consumer =>
    if consumer = "" then [] else chainPops (failJobCore (beginChain s) a false).1 (a.fetch consumer)
  | _ => []

theorem popsOff_rpopMany (n : Nat) (s : Queue) :
    PopsOff s (rpopMany .priority n s []).1 (rpopMany .priority n s []).2 := by
  obtain ⟨popped, hids, hlist, hjobs⟩ := rpopMany_priority n s []
  rw [List.nil_append] at hids
  exact ⟨by rw [hids]; exact hlist, .of_jobs hjobs⟩

theorem PopsOff.reserve {s : Queue} {r : Queue × List JobId} {ids : List JobId}
    (h : PopsOff s r.1 ids) : PopsOff s (reserve r).1 ids := by
  unfold GlideMq.reserve
  split
  · exact h
  · exact h.keepsList (.of_jobs rfl rfl)

theorem reserve_ids (r : Queue × List JobId) : (reserve r).2 = r.2 := by
  unfold reserve
  split <;> rfl

theorem popsOff_popBoth (s : Queue) (count : Nat) :
    PopsOff s (popBoth s count).1 (if s.priorityList = [] then [] else (popBoth s count).2) := by
  have hpop := popsOff_rpopMany count s
  unfold popBoth
  rcases hr : rpopMany .priority count s [] with ⟨t, ids⟩
  rw [hr] at hpop
  cases ids with
  | nil =>
    simp only
    obtain ⟨hlist, hjobs⟩ := rpopMany_lifo count t []
    have hsame : PopsOff s (rpopMany .lifo count t []).1 [] := hpop.keepsList (.of_jobs hjobs hlist)
    split
    · exact hsame
    · rename_i hne
      have hnil : (rpopMany .priority count s []).2 = [] := by rw [hr]
      rcases rpopMany_eq_nil hnil with rfl | hempty
      · exact hsame
      · exact absurd hempty hne
  | cons J ids =>
    simp only
    split
    · rename_i hempty
      have hlist := hpop.list
      rw [hempty] at hlist
      simp at hlist
    · exact hpop

theorem popsOff_call (s : Queue) (k : ListKey) (group : Group) (count : Nat) :
    PopsOff s (Call.run s (.rpopAndReserve k group count)) (Call.pops s (.rpopAndReserve k group count)) := by
  have hlifo (n : Nat) : PopsOff s (reserve (rpopMany .lifo n s [])).1 [] := by
    obtain ⟨hlist, hjobs⟩ := rpopMany_lifo n s []
    exact PopsOff.reserve (.none (.of_jobs hjobs hlist))
  have hpriority (n : Nat) : PopsOff s (reserve (rpopMany .priority n s [])).1
      (reserve (rpopMany .priority n s [])).2 := by
    rw [reserve_ids]
    exact (popsOff_rpopMany n s).reserve
  cases k with
  | priority =>
    simp only [Call.run, Call.pops, rpopAndReserve]
    split
    · exact .none (.refl s)
    split
    · split
      · exact .none (.refl s)
      · exact hpriority _
    · exact hpriority _
  | lifo =>
    simp only [Call.run, Call.pops, rpopAndReserve]
    split
    · exact .none (.refl s)
    split
    · split
      · exact .none (.refl s)
      · exact hlifo _
    · exact hlifo _

theorem popsOff_popLists (s : Queue) (count : Nat) :
    PopsOff s (Call.run s (.popLists count)) (Call.pops s (.popLists count)) := by
  have hboth := popsOff_popBoth s count
  simp only [Call.run, Call.pops, popLists]
  split
  · simp only [ite_self]
    exact .none (.refl s)
  · exact hboth.keepsList (.of_jobs rfl rfl)

theorem popsOff_popListsReserve (s : Queue) (count : Nat) :
    PopsOff s (Call.run s (.popListsReserve count)) (Call.pops s (.popListsReserve count)) := by
  have hboth := popsOff_popBoth s count
  simp only [Call.run, Call.pops, popListsReserve]
  split
  · simp only [ite_self]
    exact .none (.refl s)
  · rw [reserve_ids]
    exact hboth.reserve

/-- A chain call pops from the list as it was before the call. -/
theorem chain_pops_list (s : Queue) (a : CompleteNextArgs) :
    s.priorityList = (Call.run s (.completeAndFetchNext a)).priorityList ++
      (Call.pops s (.completeAndFetchNext a)).reverse := by
  simp only [Call.run, Call.pops]
  cases hrevoked : (s.job a.jobId).revoked with
  | true =>
    have hself : (completeAndFetchNext s a).1 = s := by
      unfold completeAndFetchNext
      simp only [hrevoked, if_true]
    simp [hself]
  | false =>
    have hlist : (settleInChain s a).priorityList = s.priorityList := by
      unfold settleInChain
      simp only
      split
      · exact (list_forgetListClaim _ _ _ .priority).trans (by cases a.entryId <;> rfl)
      · exact (list_completeInChain _ _ _ .priority).trans (by cases a.entryId <;> rfl)
    rw [← hlist]
    exact (completeAndFetchNext_popsOff hrevoked).list

theorem fail_pops_list (s : Queue) (a : FailArgs) (consumer : String) :
    s.priorityList = (Call.run s (.failAndFetchNext a consumer)).priorityList ++
      (Call.pops s (.failAndFetchNext a consumer)).reverse := by
  have hlist : (failJobCore (beginChain s) a false).1.priorityList = s.priorityList :=
    list_failJobCore (beginChain s) a false .priority
  rw [← hlist]
  exact (failAndFetchNext_popsOff a consumer).list

/-! ## Runs -/

/-- A call that promotes no job past one with a larger number. An add makes no job under the id of a job of
the list. -/
def Call.KeepsOrder (s : Queue) : Call → Prop
  | .addJob a => a.refused = false → AddsUnlisted s a.customJobId
  | .dedup a => a.refused = false → dedupDecision s a ≠ .skip → AddsUnlisted s a.customJobId
  | .promote now _ => PromotesInOrder s now
  | .changePriority _ _ _ => True
  | .rpopAndReserve _ _ _ | .popLists _ | .popListsReserve _ => True
  | .readGroup _ _ | .moveToActive _ => True
  | .complete a => SettlesOther s a.jobId
  | .completeAndFetchNext a => SettlesOther s a.jobId
  | .fail a _ => SettlesOther s a.jobId
  | .failAndFetchNext a _ => SettlesOther s a.jobId
  | _ => False

/-- Adds and flows, promotion ticks, changes of priority, pops and what workers do with the popped jobs, and any
call on other queues. -/
def SysCall.KeepsOrder (q : QueueName) (S : Sys) : SysCall → Prop
  | .on q' c => q' = q → c.KeepsOrder (S q)
  | .addFlow _ | .registerParent _ _ => True

/-- The jobs that a call put at the left end of the list, first one first. -/
def pushed (s t : Queue) : List JobId :=
  (t.priorityList.take (t.priorityList.length - s.priorityList.length)).reverse

/-- The server, and the jobs that were promoted to the list of the queue so far. -/
def historyStep (q : QueueName) (r : Sys × List JobId) (c : SysCall) : Sys × List JobId :=
  (sysStep r.1 c, r.2 ++ pushed (r.1 q) (sysStep r.1 c q))

/-- The list is in order, and its jobs stand in the order of their promotion. -/
structure Lined (s : Queue) (history : List JobId) : Prop where
  order : ListInOrder s
  history : s.priorityList.Sublist history.reverse

section

variable {s t u : Queue} {history ids : List JobId}

theorem Lined.shrink (h : Lined s history) (ht : ListInOrder t) (hsub : t.priorityList.Sublist s.priorityList) :
    Lined t (history ++ pushed s t) := by
  have hnone : pushed s t = [] := by
    unfold pushed
    rw [Nat.sub_eq_zero_of_le hsub.length_le]
    rfl
  exact ⟨ht, by rw [hnone, List.append_nil]; exact hsub.trans h.history⟩

theorem PopsOff.inOrder (h : PopsOff s t ids) (hs : ListInOrder s) : ListInOrder t := by
  refine hs.of_sublist ?_ (fun K _ => h.keeps.priority K) fun K _ => h.keeps.listed K
  rw [h.list]
  exact List.sublist_append_left _ _

theorem Lined.pop (h : Lined s history) (hu : StandsBy s u) (ht : PopsOff u t ids) :
    Lined t (history ++ pushed s t) := by
  refine h.shrink (ht.inOrder (hu.inOrder h.order)) ?_
  rw [← hu.list, ht.list]
  exact List.sublist_append_left _ _

theorem Lined.pop_only (h : Lined s history) (ht : PopsOff s t ids) : Lined t (history ++ pushed s t) := by
  refine h.shrink (ht.inOrder h.order) ?_
  rw [ht.list]
  exact List.sublist_append_left _ _

theorem Lined.keep (h : Lined s history) (ht : KeepsList s t) : Lined t (history ++ pushed s t) :=
  h.pop_only (.none ht)

theorem Lined.step {c : Call} (h : Lined s history) (hc : c.KeepsOrder s) :
    Lined (c.run s) (history ++ pushed s (c.run s)) := by
  cases c with
  | addJob a =>
    obtain ⟨hord, hlist⟩ := addJob_inOrder h.order hc
    exact h.shrink hord (by rw [Call.run, hlist])
  | dedup a =>
    obtain ⟨hord, hlist⟩ := dedup_inOrder h.order hc
    exact h.shrink hord (by rw [Call.run, hlist])
  | promote now serverNow =>
    obtain ⟨hord, new, hlist⟩ := promote_inOrder h.order serverNow hc
    refine ⟨hord, ?_⟩
    have hnew : pushed s (promote s now serverNow).1 = new.reverse := by
      unfold pushed
      rw [hlist, List.length_append, Nat.add_sub_cancel, List.take_left]
    change (promote s now serverNow).1.priorityList.Sublist
      (history ++ pushed s (promote s now serverNow).1).reverse
    rw [hnew, hlist, List.reverse_append, List.reverse_reverse]
    exact h.history.append_left new
  | changePriority J newPriority group =>
    obtain ⟨hord, hsub⟩ := changePriority_inOrder h.order J newPriority group
    exact h.shrink hord hsub
  | rpopAndReserve k group count => exact h.pop_only (popsOff_call s k group count)
  | popLists count => exact h.pop_only (popsOff_popLists s count)
  | popListsReserve count => exact h.pop_only (popsOff_popListsReserve s count)
  | readGroup group consumer =>
    refine h.keep ?_
    simp only [Call.run, GlideMq.readGroup]
    split
    · exact .refl s
    · exact .of_jobs rfl rfl
  | moveToActive a => exact h.keep (moveToActive_keepsList s a)
  | complete a =>
    exact h.pop ((StandsBy.start h.order hc.2).complete hc.1) (.none (.refl _))
  | fail a requeueOnly =>
    exact h.pop ((StandsBy.start h.order hc.2).failJobCore hc.1 requeueOnly) (.none (.refl _))
  | completeAndFetchNext a =>
    cases hrevoked : (s.job a.jobId).revoked with
    | true =>
      have hself : Call.run s (.completeAndFetchNext a) = s := by
        simp only [Call.run, completeAndFetchNext, hrevoked, if_true]
      rw [hself]
      exact h.shrink h.order (List.Sublist.refl _)
    | false => exact h.pop (settleInChain_standsBy h.order hc) (completeAndFetchNext_popsOff hrevoked)
  | failAndFetchNext a consumer =>
    exact h.pop ((StandsBy.beginChain h.order hc).failJobCore hc.1 false) (failAndFetchNext_popsOff a consumer)
  | _ => exact hc.elim

end

theorem keepsList_update {S T : Sys} {q : QueueName} {t : Queue} (h : ∀ p, KeepsList (S p) (T p))
    (ht : KeepsList (T q) t) (p : QueueName) : KeepsList (S p) (Function.update T q t p) :=
  Machine.forall_update (P := fun p t => KeepsList (S p) t) h ((h q).trans ht) p

theorem registerParent_keepsList (S : Sys) (child parent : DepMember) (q : QueueName) :
    KeepsList (S q) ((registerParent S child parent).1 q) := by
  unfold registerParent
  split
  · exact .refl _
  · have hchild := keepsList_update (t := (S child.queue).saddParents child.job parent) (fun p => .refl (S p))
      (.of_jobs rfl rfl)
    have hparent := keepsList_update (q := parent.queue)
      (t := (onQueue S child.queue (·.saddParents child.job parent) parent.queue).saddDeps parent.job child) hchild
      (.of_jobs rfl rfl)
    simp only
    split
    · exact keepsList_update hparent
        (.parents (parentFrame_completeParentDependency _ _ _) (completeParentDependency_releases _ _ _)) q
    · exact hparent q

def LinedAt (q : QueueName) (r : Sys × List JobId) : Prop := Lined (r.1 q) r.2

theorem Lined.sysStep {q : QueueName} {r : Sys × List JobId} {c : SysCall} (h : LinedAt q r)
    (hc : c.KeepsOrder q r.1) : LinedAt q (historyStep q r c) := by
  unfold LinedAt at h ⊢
  unfold historyStep
  cases c with
  | on q' c =>
    by_cases hq : q' = q
    · subst hq
      have hself : GlideMq.sysStep r.1 (.on q' c) q' = c.run (r.1 q') := by
        simp [GlideMq.sysStep, onQueue]
      simp only [hself]
      exact h.step (hc rfl)
    · have hother : GlideMq.sysStep r.1 (.on q' c) q = r.1 q := by
        simp [GlideMq.sysStep, onQueue, Function.update_of_ne (Ne.symm hq)]
      simp only [hother]
      exact h.shrink h.order (List.Sublist.refl _)
  | addFlow a =>
    have hkeeps := addFlow_keepsLists r.1 a
    exact h.shrink (hkeeps.inOrder h.order) (by rw [← hkeeps.list q]; exact List.Sublist.refl _)
  | registerParent child parent =>
    have hkeeps := registerParent_keepsList r.1 child parent q
    exact h.shrink (h.order.keeps hkeeps.toKeepsListed hkeeps.list) (by rw [← hkeeps.list]; exact List.Sublist.refl _)

/-- `J` has the least number among itself and the `others`, and all of them were promoted after it. -/
structure FirstInLine (s : Queue) (history : List JobId) (J : JobId) (others : List JobId) : Prop where
  least : ∀ K ∈ others, (s.job J).priority ≤ (s.job K).priority
  oldest : ∃ before after, history = before ++ J :: after ∧ others.reverse.Sublist after

theorem Lined.firstInLine {s t : Queue} {history ids as bs : List JobId} (h : Lined s history) {J : JobId}
    (ht : s.priorityList = t.priorityList ++ ids.reverse) (hids : ids = as ++ J :: bs) :
    FirstInLine s history J (t.priorityList ++ bs.reverse) := by
  have hlist : s.priorityList = (t.priorityList ++ bs.reverse) ++ (J :: as.reverse) := by
    rw [ht, hids]
    simp
  constructor
  · intro K hK
    have hsorted := h.order.sorted
    rw [hlist, List.pairwise_append] at hsorted
    exact hsorted.2.2 K hK J List.mem_cons_self
  · have hsub : (as ++ (J :: (t.priorityList ++ bs.reverse).reverse)).Sublist history := by
      have hrev := h.history.reverse
      rw [hlist, List.reverse_reverse] at hrev
      simpa using hrev
    have htail := (List.sublist_append_right as _).trans hsub
    obtain ⟨front, back, hsplit, hmem, hback⟩ := List.cons_sublist_iff.mp htail
    obtain ⟨before, middle, hfront⟩ := List.append_of_mem hmem
    refine ⟨before, middle ++ back, ?_, hback.trans (List.sublist_append_right _ _)⟩
    rw [hsplit, hfront]
    simp

/-- In a run whose promotion ticks never promote past a job with a larger number, every pop takes a
job with the least number, and the one that was promoted first. -/
theorem pops_in_order {S : Sys} {q : QueueName} (hempty : (S q).priorityList = []) {calls : List SysCall}
    (hmeets : Machine.Meets (historyStep q) (fun r c => c.KeepsOrder q r.1) (S, []) calls) {c : Call}
    {as bs : List JobId} {J : JobId}
    (hpops : c.pops ((Machine.run (historyStep q) (S, []) calls).1 q) = as ++ J :: bs) :
    FirstInLine ((Machine.run (historyStep q) (S, []) calls).1 q) (Machine.run (historyStep q) (S, []) calls).2 J
      ((c.run ((Machine.run (historyStep q) (S, []) calls).1 q)).priorityList ++ bs.reverse) := by
  have hstart : Lined (S q) [] := by
    refine ⟨⟨?_, ?_⟩, ?_⟩ <;> simp [hempty]
  have hlined : LinedAt q (Machine.run (historyStep q) (S, []) calls) :=
    Machine.invariant (fun r d hr hd => Lined.sysStep hr hd) (show LinedAt q (S, []) from hstart) hmeets
  cases c with
  | rpopAndReserve k group count => exact hlined.firstInLine (popsOff_call _ k group count).list hpops
  | popLists count => exact hlined.firstInLine (popsOff_popLists _ count).list hpops
  | popListsReserve count => exact hlined.firstInLine (popsOff_popListsReserve _ count).list hpops
  | completeAndFetchNext a => exact hlined.firstInLine (chain_pops_list _ a) hpops
  | failAndFetchNext a consumer => exact hlined.firstInLine (fail_pops_list _ a consumer) hpops
  | _ => simp [Call.pops] at hpops

/-- Adds a job with a priority. -/
def addWith (priority : Nat) : SysCall := .on "q" (.addJob { timestamp := 1, serverNow := 1, priority })

def promoteAt (now : Int) : SysCall := .on "q" (.promote now now)

def popOne : Call := .rpopAndReserve .priority "g" 1

/-- Three jobs are promoted in one tick, and a worker runs the first one. -/
def threeInLine : List SysCall :=
  [addWith 5, addWith 2, addWith 2, promoteAt 9, .on "q" popOne,
    .on "q" (.moveToActive { jobId := "2", entryId := none, group := "g", timestamp := 10, serverNow := 10 })]

/-- The worker completes it, and fetches the next one. -/
def completeFirst : Call :=
  .completeAndFetchNext
    { jobId := "2", entryId := none, timestamp := 11, serverNow := 11, group := "g", consumer := "w" }

theorem threeInLine_keepsOrder :
    Machine.Meets (historyStep "q") (fun r c => c.KeepsOrder "q" r.1) (emptySys, []) threeInLine := by
  refine ⟨fun _ _ _ _ _ _ => List.not_mem_nil, fun _ _ _ _ _ _ => List.not_mem_nil,
    fun _ _ _ _ _ _ => List.not_mem_nil, fun _ => ?_, fun _ => trivial, fun _ => trivial, trivial⟩
  intro p m ⟨x, hx, hlow, hhigh⟩ _ _
  have hitems : ((Machine.run (historyStep "q") (emptySys, []) (threeInLine.take 3)).1 "q").scheduled.items =
      [("2", 2 * priorityShift), ("3", 2 * priorityShift), ("1", 5 * priorityShift)] := by
    decide +kernel
  have hmem : (m, x) ∈ [("2", 2 * priorityShift), ("3", 2 * priorityShift), ("1", 5 * priorityShift)] := hitems ▸ hx
  unfold priorityShift at hmem hlow hhigh
  simp only [List.mem_cons, List.not_mem_nil, or_false, Prod.mk.injEq] at hmem
  refine ⟨?_, fun K hK => absurd hK List.not_mem_nil⟩
  rcases hmem with ⟨rfl, rfl⟩ | ⟨rfl, rfl⟩ | ⟨rfl, rfl⟩
  · obtain rfl : p = 2 := by omega
    decide +kernel
  · obtain rfl : p = 2 := by omega
    decide +kernel
  · obtain rfl : p = 5 := by omega
    decide +kernel

theorem chain_pops_in_order :
    FirstInLine ((Machine.run (historyStep "q") (emptySys, []) threeInLine).1 "q") ["2", "3", "1"] "3" ["1"] := by
  have hpops : completeFirst.pops ((Machine.run (historyStep "q") (emptySys, []) threeInLine).1 "q") =
      [] ++ "3" :: [] := by
    decide +kernel
  have hhistory : (Machine.run (historyStep "q") (emptySys, []) threeInLine).2 = ["2", "3", "1"] := by decide +kernel
  have hrest : (completeFirst.run ((Machine.run (historyStep "q") (emptySys, []) threeInLine).1 "q")).priorityList =
      ["1"] := by
    decide +kernel
  have hfirst := pops_in_order (S := emptySys) (q := "q") rfl threeInLine_keepsOrder hpops
  rw [hhistory, hrest] at hfirst
  exact hfirst

/-- A job of priority 1 that is promoted one tick after a job of priority 5 is popped after it. -/
theorem pops_out_of_order :
    let r := Machine.run (historyStep "q") (emptySys, []) [addWith 5, promoteAt 9, addWith 1, promoteAt 10]
    popOne.pops (r.1 "q") = ["1"] ∧ (popOne.run (r.1 "q")).priorityList = ["2"] ∧
      ¬ FirstInLine (r.1 "q") r.2 "1" ["2"] := by
  refine ⟨by decide +kernel, by decide +kernel, fun h => ?_⟩
  have hleast := h.least "2" (by decide)
  revert hleast
  decide +kernel

end GlideMq
