import GlideMq.Proofs.Core
import Mathlib.Logic.Relation

/-!
# What group promotion does

Every write of the group machinery is one of a few steps, so a property that each step keeps
survives any release, promotion or sweep.
-/

namespace GlideMq

open Queue

/-! ## Steps -/

/-- The writes that end a job as failed, without the clocks. -/
def endFailed (s : Queue) (J : JobId) (x : Int) (reason : String) (t : Int) : Queue :=
  (s.zaddFailed J x).setFailed J reason t

inductive GroupStep (s : Queue) : Queue → Prop
  /-- A write that the core does not see. -/
  | quiet {t} (h : t.core = s.core) : GroupStep s t
  | limit (gk : GroupKey) (x : Int) : GroupStep s (s.zaddRatelimited gk x)
  | skip (gk : GroupKey) : GroupStep s (skipToNext s gk (s.groups gk).nextSeq).1
  /-- The head of a wait queue is a job that is deleted. -/
  | tombstone {gk J x} (hq : (s.groupq gk).first? = some (J, x)) (hj : s.jobs J = none) :
      GroupStep s (consumeOrderedTombstone (s.zremGroupq gk J) gk (s.groups gk).nextSeq J x).1
  /-- A member that is not parked leaves the wait queue. -/
  | drop {gk J} (hq : J ∈ s.groupq gk) (hst : s.stateOf J ≠ some .groupWaiting) :
      GroupStep s (s.zremGroupq gk J)
  /-- A parked job that comes too early goes back. -/
  | putBack {gk J} (hq : J ∈ s.groupq gk) (x : Int) :
      GroupStep s ((s.zremGroupq gk J).zaddGroupq gk J x)
  | promote {gk J} (hq : J ∈ s.groupq gk) (hst : s.stateOf J = some .groupWaiting) :
      GroupStep s (promoteJobOfGroup (s.zremGroupq gk J) J)
  /-- A member that is over the capacity of its bucket fails. -/
  | failParked {gk J t x r y} (hq : J ∈ s.groupq gk) (hj : s.jobs J ≠ none)
      (hcap : 0 < (s.groups gk).tbCapacity) (hcost : (s.groups gk).tbCapacity < (s.job J).cost.getD 1000)
      (h : t.core = (closeOrderingHole (endFailed (s.zremGroupq gk J) J x r y) J).core) :
      GroupStep s t

/-- Any number of steps. -/
abbrev GroupSteps : Queue → Queue → Prop := Relation.ReflTransGen GroupStep

theorem GroupSteps.one {s t : Queue} (h : GroupStep s t) : GroupSteps s t :=
  Relation.ReflTransGen.single h

theorem GroupSteps.of_core {s t : Queue} (h : t.core = s.core) : GroupSteps s t := .one (.quiet h)

theorem GroupSteps.keeps {I : Queue → Prop} (hI : ∀ s t, GroupStep s t → I s → I t) {s t : Queue}
    (h : GroupSteps s t) (hs : I s) : I t := by
  induction h with
  | refl => exact hs
  | tail _ hstep ih => exact hI _ _ hstep ih

/-! ## Promotion -/

/-- The group of a job whose hole is closed. -/
def GroupHash.closeHole (g : GroupHash) (j : Job) : GroupHash :=
  let g := { g with skip := g.skip.insert j.orderingSeq }
  if j.retainedSlot then g.decrActive else g

theorem closeOrderingHole_groups (s : Queue) (J : JobId) (gk : GroupKey) :
    (closeOrderingHole s J).groups gk =
      if (s.job J).groupKey = some gk ∧ (s.job J).orderingSeq ≠ 0 then
        (s.groups gk).closeHole (s.job J)
      else s.groups gk := by
  unfold closeOrderingHole GroupHash.closeHole
  simp only [getD_jobs]
  cases hkey : (s.job J).groupKey with
  | none => simp
  | some k =>
    by_cases hz : (s.job J).orderingSeq = 0
    · simp [hz]
    · by_cases hgk : gk = k <;> by_cases hr : (s.job J).retainedSlot <;>
        simp [hz, hr, hgk, eq_comm (a := k), clearRetainedSlot]

theorem nextSeq_closeOrderingHole (s : Queue) (J : JobId) (gk : GroupKey) :
    ((closeOrderingHole s J).groups gk).nextSeq = (s.groups gk).nextSeq := by
  rw [closeOrderingHole_groups]
  split
  · unfold GroupHash.closeHole
    simp only
    split <;> rfl
  · rfl

theorem core_failOversize (s : Queue) (J : JobId) (gk : GroupKey) (now : Int) :
    (failOversize s J gk now).core = (endFailed s J now costReason now).core := by
  unfold failOversize endFailed
  simp only [core_advanceRepeatAfterComplete]
  exact core_setFailed (core_markOrderingDone _ _ _ _) J _ _

theorem core_failHead (s : Queue) (gk : GroupKey) (J : JobId) (now : Int) :
    (failHead s gk J now).core =
      (closeOrderingHole (endFailed (s.zremGroupq gk J) J now costReason now) J).core := by
  unfold failHead
  refine core_closeOrderingHole ?_ J
  rw [core_recordFailed, core_noteActivationFailure, core_failOversize]

theorem nextSeq_failHead (s : Queue) (gk : GroupKey) (J : JobId) (now : Int) :
    ((failHead s gk J now).groups gk).nextSeq = (s.groups gk).nextSeq := by
  rw [group_of_core GroupHash.nextSeq (fun _ => rfl) (core_failHead s gk J now),
    nextSeq_closeOrderingHole]
  rfl

theorem nextSeq_refill (s : Queue) (gk : GroupKey) (t : Int) :
    ((refill s gk t).1.groups gk).nextSeq = (s.groups gk).nextSeq :=
  group_of_core GroupHash.nextSeq (fun _ => rfl) (core_refill s gk t) gk

theorem nextSeq_consumeOrderedTombstone {s : Queue} {gk : GroupKey} {n : Nat}
    (hn : n = (s.groups gk).nextSeq) (J : JobId) (x : Int) :
    (consumeOrderedTombstone s gk n J x).2 =
      ((consumeOrderedTombstone s gk n J x).1.groups gk).nextSeq := by
  unfold consumeOrderedTombstone
  split
  · exact hn
  · simp [setNextSeq]

theorem tbCapacity_failHead (s : Queue) (gk : GroupKey) (J : JobId) (now : Int) :
    ((failHead s gk J now).groups gk).tbCapacity = (s.groups gk).tbCapacity := by
  rw [group_of_core GroupHash.tbCapacity (fun _ => rfl) (core_failHead s gk J now),
    closeOrderingHole_groups]
  split
  · unfold GroupHash.closeHole
    simp only
    split <;> rfl
  · rfl

theorem tbCapacity_consumeOrderedTombstone (s : Queue) (gk : GroupKey) (n : Nat) (J : JobId)
    (x : Int) :
    ((consumeOrderedTombstone s gk n J x).1.groups gk).tbCapacity = (s.groups gk).tbCapacity := by
  unfold consumeOrderedTombstone
  split
  · rfl
  · have hmark := group_of_core GroupHash.tbCapacity (fun _ => rfl)
      (core_markOrderingDone s J (some gk) (some n)) gk
    simpa [setNextSeq, advancePastSkips] using hmark

theorem peekHead_steps (gk : GroupKey) (now tokens : Int) :
    ∀ (passes : Nat) (s : Queue) (n : Nat), n = (s.groups gk).nextSeq →
      0 < (s.groups gk).tbCapacity →
      GroupSteps s (peekHead gk now tokens passes s n).1 ∧
        (peekHead gk now tokens passes s n).2.1 =
          ((peekHead gk now tokens passes s n).1.groups gk).nextSeq
  | 0, s, n, hn, _ => ⟨.refl, hn⟩
  | passes + 1, s, n, hn, hcap => by
    rw [peekHead]
    split
    · exact ⟨.refl, hn⟩
    · rename_i J score hq
      split
      · rename_i hj
        have hnext := nextSeq_consumeOrderedTombstone (s := s.zremGroupq gk J) hn J score
        obtain ⟨hsteps, heq⟩ := peekHead_steps gk now tokens passes _ _ hnext
          (by rw [tbCapacity_consumeOrderedTombstone]; exact hcap)
        refine ⟨.head ?_ hsteps, heq⟩
        rw [hn]
        exact .tombstone hq hj
      · rename_i job hj
        have hjob : s.job J = job := by simp [Queue.job, hj]
        simp only
        split
        · rename_i hcost
          have hnext := nextSeq_failHead s gk J now
          obtain ⟨hsteps, heq⟩ := peekHead_steps gk now tokens passes _ n (hn.trans hnext.symm)
            (by rw [tbCapacity_failHead]; exact hcap)
          refine ⟨.head (.failParked (Redis.SortedSet.mem_of_first? hq) (by simp [hj]) hcap ?_
            (core_failHead s gk J now)) hsteps, heq⟩
          rwa [hjob]
        · split
          · split
            · exact ⟨.refl, hn⟩
            · exact ⟨.one (.limit gk _), hn⟩
          · exact ⟨.refl, hn⟩

theorem tokenGate_steps (s : Queue) (gk : GroupKey) (now serverNow : Int) :
    GroupSteps s (tokenGate s gk now serverNow).1 ∧
      (tokenGate s gk now serverNow).2.1 =
        ((tokenGate s gk now serverNow).1.groups gk).nextSeq := by
  unfold tokenGate
  simp only
  split
  · rename_i hgate
    have hrefill : GroupSteps s (refill s gk serverNow).1 := .of_core (core_refill s gk serverNow)
    have hcap := group_of_core GroupHash.tbCapacity (fun _ => rfl) (core_refill s gk serverNow) gk
    obtain ⟨hsteps, heq⟩ := peekHead_steps gk now (refill s gk serverNow).2 10
      (refill s gk serverNow).1 (s.groups gk).nextSeq (nextSeq_refill s gk serverNow).symm
      (by rw [hcap]; exact hgate.2)
    exact ⟨hrefill.trans hsteps, heq⟩
  · exact ⟨.refl, rfl⟩

theorem promoteLoop_steps (gk : GroupKey) :
    ∀ (iter left : Nat) (s : Queue) (n : Nat), GroupSteps s (promoteLoop gk iter left s n)
  | 0, _, s, _ => by rw [promoteLoop]
  | _ + 1, 0, s, _ => by rw [promoteLoop]
  | iter + 1, left + 1, s, n => by
    rw [promoteLoop]
    split
    · exact .refl
    · rename_i J score hq
      have hmem := Redis.SortedSet.mem_of_first? hq
      simp only
      split
      · rename_i hst
        exact .head (.drop hmem hst) (promoteLoop_steps gk iter (left + 1) _ n)
      · rename_i hst
        split
        · exact .one (.putBack hmem _)
        · exact .head (.promote hmem (not_not.mp hst)) (promoteLoop_steps gk iter left _ _)

theorem promoteFromGroupq_steps (s : Queue) (gk : GroupKey) (active now serverNow : Int) :
    GroupSteps s (promoteFromGroupq s gk active now serverNow) := by
  unfold promoteFromGroupq
  simp only
  split
  · exact .refl
  split
  · exact .refl
  split
  · exact .one (.limit gk _)
  obtain ⟨hgate, hnext⟩ := tokenGate_steps s gk now serverNow
  split
  · rename_i heq
    rwa [heq] at hgate
  · rename_i heq
    rw [heq] at hgate
    exact hgate.tail (.limit gk now)
  · rename_i heq
    rw [heq] at hgate hnext
    simp only at hgate hnext
    rw [hnext]
    exact (hgate.tail (.skip gk)).trans (promoteLoop_steps gk _ _ _ _)

theorem releaseKeepingSlot_steps (s : Queue) (J : JobId) (now serverNow : Int)
    (hint : Option GroupKey) :
    GroupSteps s (releaseGroupSlotAndPromote s J now serverNow hint true) := by
  unfold releaseGroupSlotAndPromote
  simp only
  split
  · exact .refl
  · exact promoteFromGroupq_steps s _ _ now serverNow

/-- The queue after the slot is given back, before the promotion. -/
def afterRelease (s : Queue) (J : JobId) (hint : Option GroupKey) : Queue :=
  match hint <|> (s.job J).groupKey with
  | none => s
  | some gk => releaseSlot s J gk

theorem releaseGroupSlotAndPromote_steps (s : Queue) (J : JobId) (now serverNow : Int)
    (hint : Option GroupKey) :
    GroupSteps (afterRelease s J hint)
      (releaseGroupSlotAndPromote s J now serverNow hint false) := by
  unfold releaseGroupSlotAndPromote afterRelease
  cases hint <|> (s.job J).groupKey with
  | none => exact .refl
  | some gk => exact promoteFromGroupq_steps _ gk _ now serverNow

theorem closeOrderingHoleAndPromote_steps (s : Queue) (J : JobId) (now serverNow : Int) :
    GroupSteps (closeOrderingHole s J) (closeOrderingHoleAndPromote s J now serverNow) := by
  unfold closeOrderingHoleAndPromote
  simp only
  split
  · exact .refl
  · split
    · exact .refl
    · exact releaseKeepingSlot_steps _ J now serverNow _

/-! ## Jobs and entries -/

@[simp] theorem markOrderingDone_jobs (s : Queue) (J : JobId) (k : Option GroupKey)
    (n : Option Nat) : (markOrderingDone s J k n).jobs = s.jobs := by
  unfold markOrderingDone
  simp only
  repeat' split
  all_goals rfl

@[simp] theorem markOrderingDone_stream (s : Queue) (J : JobId) (k : Option GroupKey)
    (n : Option Nat) : (markOrderingDone s J k n).stream = s.stream := by
  unfold markOrderingDone
  simp only
  repeat' split
  all_goals rfl

@[simp] theorem consumeOrderedTombstone_jobs (s : Queue) (gk : GroupKey) (n : Nat) (J : JobId)
    (x : Int) : (consumeOrderedTombstone s gk n J x).1.jobs = s.jobs := by
  unfold consumeOrderedTombstone
  split
  · rfl
  · simp [setNextSeq, advancePastSkips]

@[simp] theorem consumeOrderedTombstone_stream (s : Queue) (gk : GroupKey) (n : Nat) (J : JobId)
    (x : Int) : (consumeOrderedTombstone s gk n J x).1.stream = s.stream := by
  unfold consumeOrderedTombstone
  split
  · rfl
  · simp [setNextSeq, advancePastSkips]

@[simp] theorem skipToNext_jobs (s : Queue) (gk : GroupKey) (n : Nat) :
    (skipToNext s gk n).1.jobs = s.jobs := by
  unfold skipToNext
  simp only
  repeat' split
  all_goals rfl

@[simp] theorem skipToNext_stream (s : Queue) (gk : GroupKey) (n : Nat) :
    (skipToNext s gk n).1.stream = s.stream := by
  unfold skipToNext
  simp only
  repeat' split
  all_goals rfl

@[simp] theorem closeOrderingHole_stream (s : Queue) (J : JobId) :
    (closeOrderingHole s J).stream = s.stream := by
  unfold closeOrderingHole
  simp only
  repeat' split
  all_goals rfl

@[simp] theorem stateOf_hmod (s : Queue) (J K : JobId) (f : Job → Job) (hf : ∀ j, (f j).state = j.state) :
    (s.hmod J f).stateOf K = s.stateOf K := by
  unfold Queue.stateOf
  simp only [hmod_jobs, Function.update_apply]
  split
  · rename_i h; subst h
    cases s.jobs K <;> simp [hf]
  · rfl

theorem stateOf_hset (s : Queue) (J K : JobId) (f : Job → Job) :
    (s.hset J f).stateOf K = if K = J then (f (s.job J)).state else s.stateOf K := by
  unfold Queue.stateOf
  simp only [hset_jobs, Function.update_apply]
  split <;> simp [Queue.job]

@[simp] theorem closeOrderingHole_stateOf (s : Queue) (J K : JobId) :
    (closeOrderingHole s J).stateOf K = s.stateOf K := by
  unfold closeOrderingHole
  simp only
  repeat' split
  all_goals
    first
    | rfl
    | exact stateOf_hmod _ J K _ fun _ => rfl

@[simp] theorem skipToNext_stateOf (s : Queue) (gk : GroupKey) (n : Nat) (J : JobId) :
    (skipToNext s gk n).1.stateOf J = s.stateOf J := by
  unfold Queue.stateOf
  rw [skipToNext_jobs]

theorem stateOf_endFailed (s : Queue) (J K : JobId) (x : Int) (r : String) (y : Int) :
    (endFailed s J x r y).stateOf K = if K = J then some .failed else s.stateOf K := by
  unfold endFailed Queue.setFailed
  rw [stateOf_hset]
  rfl

/-- What a step of the group machinery may do to the state of a job. -/
theorem GroupStep.stateOf {s t : Queue} (h : GroupStep s t) (J : JobId) :
    t.stateOf J = s.stateOf J ∨
      (s.stateOf J = some .groupWaiting ∧ t.stateOf J = some .waiting) ∨
      (t.stateOf J = some .failed ∧ ∃ gk, J ∈ s.groupq gk ∧ 0 < (s.groups gk).tbCapacity ∧
        (s.groups gk).tbCapacity < (s.job J).cost.getD 1000) := by
  cases h with
  | quiet h => exact Or.inl (stateOf_of_core h J)
  | limit gk x => exact Or.inl rfl
  | skip gk => exact Or.inl (skipToNext_stateOf s gk _ J)
  | tombstone hq hj =>
    refine Or.inl ?_
    unfold Queue.stateOf
    rw [consumeOrderedTombstone_jobs]
    rfl
  | drop hq hst => exact Or.inl rfl
  | putBack hq x => exact Or.inl rfl
  | @promote gk K hq hst =>
    unfold promoteJobOfGroup Queue.setState
    rw [stateOf_hset]
    by_cases hJ : J = K
    · subst hJ; simp [hst]
    · simp [hJ]; exact Or.inl rfl
  | @failParked gk K t x r y hq hj hcap hcost h =>
    rw [stateOf_of_core h, closeOrderingHole_stateOf, stateOf_endFailed]
    by_cases hJ : J = K
    · subst hJ
      exact Or.inr (Or.inr ⟨if_pos rfl, gk, hq, hcap, hcost⟩)
    · exact Or.inl (if_neg hJ)

theorem GroupStep.extends {s t : Queue} (h : GroupStep s t) : s.stream.Extends t.stream := by
  cases h with
  | quiet h => exact .of_eq (entries_of_core h) (lastId_of_core h)
  | skip gk => rw [skipToNext_stream]; exact .refl _
  | tombstone hq hj => rw [consumeOrderedTombstone_stream]; exact .refl _
  | @promote gk J hq hst => exact Redis.Stream.extends_xadd s.stream ⟨J, none⟩
  | @failParked gk J t x r y hq hj hcap hcost h =>
    refine .of_eq ((entries_of_core h).trans ?_) ((lastId_of_core h).trans ?_)
    · rw [closeOrderingHole_stream]; rfl
    · rw [closeOrderingHole_stream]; rfl
  | _ => exact .refl _

theorem GroupSteps.extends {s t : Queue} (h : GroupSteps s t) : s.stream.Extends t.stream := by
  refine h.keeps (I := fun u => s.stream.Extends u.stream) ?_ (.refl _)
  exact fun u v hstep hu => hu.trans hstep.extends

theorem GroupSteps.failed {s t : Queue} (h : GroupSteps s t) {J : JobId}
    (hst : s.stateOf J = some .failed) : t.stateOf J = some .failed := by
  refine h.keeps (I := fun u => u.stateOf J = some .failed) ?_ hst
  intro u v hstep hu
  rcases hstep.stateOf J with heq | ⟨hw, _⟩ | ⟨hf, _⟩
  · exact heq.trans hu
  · rw [hu] at hw; cases hw
  · exact hf

end GlideMq
