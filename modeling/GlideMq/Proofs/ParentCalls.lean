import GlideMq.Model.Calls
import GlideMq.Proofs.ParentRelease

/-!
# Calls on a parent

The functions that register children, report them as done, or send a parent into its wait. Along any
run of them a parent counts each child once and is released once.
-/

namespace GlideMq

open Queue

section

variable {P J K : JobId} {s t : Queue}

/-! ## Registration -/

theorem saddDeps_passes (hs : ParentInv s P) (K : JobId) (m : DepMember) :
    Passes P s (s.saddDeps K m) := by
  by_cases hK : P = K
  · subst hK
    by_cases hm : m ∈ s.deps P
    · have hsame : Same P s (s.saddDeps P m) :=
        .of_keys rfl (by simp [List.insert_of_mem hm]) (fun _ h => h) id rfl
      exact hsame.passes hs
    · have hdeps : (s.saddDeps P m).deps P = m :: s.deps P := by
        simp [List.insert_of_not_mem hm]
      have hnew : m ∉ (s.job P).depdone := fun h => hm (hs.counts.job.done_registered m h)
      have hcounts : Counts (s.saddDeps P m) P := by
        refine ⟨?_, hs.counts.job.counted, hs.counts.job.once, fun m' hm' => ?_⟩
        · rw [hdeps]
          exact List.nodup_cons.mpr ⟨hm, hs.counts.registered⟩
        · rw [hdeps]
          exact List.mem_cons_of_mem m (hs.counts.job.done_registered m' hm')
      have hbase : ParentBase (s.saddDeps P m) P := ⟨hs.here, hcounts, hs.keyed, hs.unfinished⟩
      refine ⟨⟨hbase, fun _ _ hall => hnew ?_, hs.parked⟩, Iff.rfl, le_rfl, fun _ _ hb => hb⟩
      exact hall m (by simp [hdeps])
  · have hsame : Same P s (s.saddDeps K m) :=
      .of_keys rfl (by simp [hK]) (fun _ h => h) id rfl
    exact hsame.passes hs

theorem registerChildDep_phase (hs : ParentInv s P) (K : JobId) (m : DepMember) :
    Phase (s.stateOf P = some .waitingChildren) s.stream.lastId (registerChildDep s K m).1 P := by
  have hreg := Phase.of_passes (saddDeps_passes hs K m)
  unfold registerChildDep
  simp only
  split
  · exact hreg
  by_cases hK : P = K
  · subst hK
    have hearly := Records.countEarly hreg.inv.toParentBase
    have hdone := depdone_countEarlyDeps hreg.inv.here
    split
    · exact hreg.release hearly
    · rename_i hcounted
      exact hreg.records_nothing hearly (hdone (by simpa using hcounted))
  · split
    · exact hreg.apart ((Apart.countEarlyDeps hK _).trans (.releaseParentIfReady hK _))
    · exact hreg.apart (.countEarlyDeps hK _)

theorem Phase.healParent {w : Prop} {b : Nat} {r : Queue × Nat} (h : Phase w b r.1 P) (K : JobId) :
    Phase w b (healParent r K).1 P := by
  have hindex {u : Queue} (hu : Phase w b u P) : Phase w b (u.sremDepsEarly K) P :=
    hu.apart (.of_stream (.of_keys rfl rfl (fun _ h => h) id rfl) rfl)
  have hcount : Phase w b
      (if (countEarlyDeps r.1 K).2 then (releaseParentIfReady (countEarlyDeps r.1 K).1 K).1
        else (countEarlyDeps r.1 K).1) P := by
    by_cases hK : P = K
    · subst hK
      have hearly := Records.countEarly h.inv.toParentBase
      have hdone := depdone_countEarlyDeps h.inv.here
      split
      · exact h.release hearly
      · rename_i hcounted
        exact h.records_nothing hearly (hdone (by simpa using hcounted))
    · split
      · exact h.apart ((Apart.countEarlyDeps hK _).trans (.releaseParentIfReady hK _))
      · exact h.apart (.countEarlyDeps hK _)
  unfold GlideMq.healParent
  simp only
  split
  · exact hindex h
  generalize hu : (if (countEarlyDeps r.1 K).2 then
    (releaseParentIfReady (countEarlyDeps r.1 K).1 K).1 else (countEarlyDeps r.1 K).1) = u at hcount ⊢
  split
  · exact hindex hcount
  · exact hcount

theorem healEarlyDeps_phase (hs : ParentInv s P) (page : List JobId) :
    Phase (s.stateOf P = some .waitingChildren) s.stream.lastId (healEarlyDeps s page).1 P := by
  have hfold (l : List JobId) (r : Queue × Nat)
      (hr : Phase (s.stateOf P = some .waitingChildren) s.stream.lastId r.1 P) :
      Phase (s.stateOf P = some .waitingChildren) s.stream.lastId (l.foldl healParent r).1 P := by
    induction l generalizing r with
    | nil => exact hr
    | cons K l ih => exact ih _ (hr.healParent K)
  exact hfold _ (s, 0) (.start hs)

/-! ## Adding a child -/

theorem core_allocateId (s : Queue) (c : Option JobId) : (allocateId s c).1.core = s.core := by
  unfold allocateId advanceIdCounter incrId
  repeat' split
  all_goals
    first
    | rfl
    | (rename_i h; obtain ⟨_, _, h⟩ := Option.map_eq_some_iff.mp h; cases h; rfl)

theorem issueSeq_same (s : Queue) (a : AddArgs) :
    Same P s (match a.orderingKey with
      | none => (issueSeq s a.orderingKey).1
      | some k => upsertGroupConfig (issueSeq s a.orderingKey).1 k (issueSeq s a.orderingKey).2 a.group a.serverNow) := by
  have hissue : Same P s (issueSeq s a.orderingKey).1 := by
    unfold issueSeq
    split <;> exact .of_keys rfl rfl (fun _ h => h) id rfl
  have hkeys (n : Nat) (gk : GroupKey) (u : Queue) :
      Same P u (upsertGroupConfig u gk n a.group a.serverNow) :=
    .of_keys rfl rfl (fun _ h => h) id rfl
  split
  · exact hissue
  · exact hissue.trans (hkeys _ _ _)

theorem createJob_passes (hs : ParentInv s P) (hne : P ≠ J) (a : AddArgs) (ids : List JobId) :
    Passes P s (createJob s J a ids) := by
  have hhash := (issueSeq_same (P := P) s a).trans (.hset hne (a.fields (issueSeq s a.orderingKey).2 ids))
  have hcreated := hhash.passes hs
  unfold createJob registerInDeps
  simp only
  split
  · split
    · exact hcreated.trans (saddDeps_passes hcreated.inv _ _)
    · exact hcreated
  · exact hcreated

theorem Same.enqueueNew (hne : P ≠ J) (x d : Int) (n : Nat) (lifo : Bool) :
    Same P s (enqueueNew s J x d n lifo) := by
  unfold GlideMq.enqueueNew
  repeat' split
  · exact .of_keys rfl rfl (fun _ h => h) id rfl
  · exact .of_keys rfl rfl (fun _ h => h) id rfl
  · exact .of_keys rfl rfl (fun _ h => h) id rfl
  · exact .xadd hne

theorem addJob_passes (hs : ParentInv s P) (a : AddArgs)
    (hne : (allocateId s a.customJobId).2 ≠ .added P) : Passes P s (addJob s a).1 := by
  have hid : Same P s (allocateId s a.customJobId).1 := .of_core (core_allocateId s _)
  unfold addJob
  split
  · exact .refl hs
  split
  · exact .refl hs
  split
  · rename_i u J heq
    rw [heq] at hid hne
    have hJ : P ≠ J := fun h => hne (by rw [h])
    have hcreate := createJob_passes (hid.inv hs) hJ a []
    exact ((hid.passes hs).trans hcreate).trans ((Same.enqueueNew hJ _ _ _ _).passes hcreate.inv)
  · exact hid.passes hs

/-! ## Completing a child -/

theorem Same.afterRelease (hne : P ≠ J) (hint : Option GroupKey) :
    Same P s (afterRelease s J hint) := by
  unfold GlideMq.afterRelease releaseSlot clearRetainedSlot
  split
  · exact .of_core rfl
  · exact (Same.hmod hne _).trans (.of_keys rfl rfl (fun _ h => h) id rfl)

theorem release_passes (hs : ParentInv s P) (hne : P ≠ J) (now serverNow : Int)
    (hint : Option GroupKey) :
    Passes P s (releaseGroupSlotAndPromote s J now serverNow hint false) := by
  have hslot : Passes P s (GlideMq.afterRelease s J hint) := (Same.afterRelease hne hint).passes hs
  exact hslot.trans ((releaseGroupSlotAndPromote_steps s J now serverNow hint).passes hslot.inv)

theorem Same.markCompleted (hne : P ≠ J) (r : Retention) (x : Int) :
    Same P s (markCompleted s J r x) := by
  have hadd : Same P s (s.zaddCompleted J x) := by
    refine .of_keys rfl rfl (fun _ h => h) (fun h => ?_) rfl
    exact (Redis.SortedSet.mem_add.mp h).resolve_left hne
  unfold GlideMq.markCompleted setCompleted
  split
  · exact .of_core rfl
  · exact hadd.trans (.hset hne _)

theorem Same.unlinkJob (hne : P ≠ J) : Same P s (s.unlinkJob J) :=
  .of_keys (by simp [hne]) rfl (fun _ h => h) id rfl

theorem Same.removeExcessJobs {ids : List JobId} (hids : P ∉ ids) :
    Same P s (removeExcessJobs s .completed ids) := by
  have hunlink (l : List JobId) (u : Queue) (hl : P ∉ l) : Same P u (l.foldl Queue.unlinkJob u) := by
    induction l generalizing u with
    | nil => exact .of_core rfl
    | cons K l ih =>
      simp only [List.mem_cons, not_or] at hl
      exact (Same.unlinkJob hl.1).trans (ih _ hl.2)
  have hrem (l : List JobId) (u : Queue) :
      Same P u (l.foldl (fun u K => u.zremTerminal .completed K) u) := by
    induction l generalizing u with
    | nil => exact .of_core rfl
    | cons K l ih =>
      refine Same.trans ?_ (ih _)
      exact .of_keys rfl rfl (fun _ h => h) (fun h => (Redis.SortedSet.mem_rem.mp h).2) rfl
  exact (hunlink ids s hids).trans (hrem ids _)

theorem Same.retain (hP : P ∉ s.completed) (hne : P ≠ J) (r : Retention) (x : Int) :
    Same P s (retain s .completed J r x) := by
  have hcount (u : Queue) (hu : P ∉ u.completed) (n : Nat) :
      Same P u (retainCount u .completed n) := by
    unfold retainCount
    simp only
    split
    · exact .removeExcessJobs fun h => hu (Redis.SortedSet.mem_of_mem_take h)
    · exact .of_core rfl
  cases r with
  | keep => exact .of_core rfl
  | remove => exact .unlinkJob hne
  | count n => exact hcount s hP n
  | ageCount age n =>
    have hage : Same P s (retainAge s .completed age x) := by
      unfold retainAge
      split
      · exact .removeExcessJobs fun h => hP (Redis.SortedSet.mem_of_mem_rangeByScore h)
      · exact .of_core rfl
    exact hage.trans (hcount _ (fun h => hP (hage.completed h)) n)

theorem Apart.settleListClaim (s : Queue) (J : JobId) (e : Option Nat) :
    Apart P s (settleListClaim s J e) := by
  unfold GlideMq.settleListClaim decrListActive
  simp only
  repeat' split
  all_goals exact .of_stream (.of_keys rfl rfl (fun _ h => h) id rfl) rfl

theorem Same.forgetListClaim (s : Queue) (J : JobId) (e : Option Nat) :
    Same P s (forgetListClaim s J e) := by
  unfold GlideMq.forgetListClaim
  split <;> exact .of_keys rfl rfl (fun _ h => h) id rfl

theorem Same.recordCompletedUnless (skip : Bool) (x y : Int) :
    Same P s (if skip then s else recordCompleted s x y) := by
  split <;> exact .of_core rfl

theorem complete_phase (hs : ParentInv s P) (a : CompleteArgs) (hne : P ≠ a.jobId) :
    Phase (s.stateOf P = some .waitingChildren) s.stream.lastId (complete s a).1 P := by
  unfold complete
  simp only
  split
  · exact .start hs
  have hack := (Same.ackDel (s := s) (P := P) a.group a.entryId).passes hs
  split
  · exact .of_passes (hack.trans ((Same.forgetListClaim _ _ _).passes hack.inv))
  have hmark := hack.trans (((Same.markCompleted hne a.retention a.timestamp).trans
    (.of_core (core_markOrderingDone _ a.jobId none none))).passes hack.inv)
  have hrelease := hmark.trans (release_passes hmark.inv hne a.timestamp a.serverNow none)
  have hnotify := hrelease.trans (((Same.recordCompletedUnless a.skipMetrics a.timestamp
    (a.timestamp - (s.job a.jobId).processedOn.getD a.timestamp)).trans
      (Apart.enqueueTreeParentNotifies _ a.jobId (s.job a.jobId).parentQueue
        (s.job a.jobId).parentId (s.job a.jobId).replacedIds).same).passes hrelease.inv)
  have hretain := hnotify.trans ((Same.retain hnotify.inv.unfinished hne a.retention
    a.timestamp).passes hnotify.inv)
  exact ((Phase.of_passes hretain).completeParents _ _ _ _).apart (.settleListClaim _ _ _)

/-! ## Completing a child in a chain call -/

/-- What `completeAndFetchNext` does before it fetches. -/
def completeForNext (s : Queue) (a : CompleteNextArgs) : Queue :=
  let J := a.jobId
  let cur := s.job J
  if cur.revoked then s
  else
    let s := ackDel (beginChain s) a.group a.entryId
    if cur.state = none then forgetListClaim s J a.entryId else (completeInChain s a cur).1

theorem completeAndFetchNext_eq (s : Queue) (a : CompleteNextArgs)
    (h : (s.job a.jobId).revoked = false) :
    (completeAndFetchNext s a).1 =
      (((if (completeForNext s a).paused then completeForNext s a
        else (fetchNextForChain (completeForNext s a) a.fetch).1).setActivationFailures none)
          |>.setChainListsEmpty false) := by
  unfold completeAndFetchNext completeForNext finishChainReply
  simp only [h, Bool.false_eq_true, if_false]
  by_cases hst : (s.job a.jobId).state = none
  · simp only [if_pos hst]
    split <;> rfl
  · simp only [if_neg hst]
    split <;> rfl

theorem completeForNext_phase (hs : ParentInv s P) (a : CompleteNextArgs) (hne : P ≠ a.jobId) :
    Phase (s.stateOf P = some .waitingChildren) s.stream.lastId (completeForNext s a) P := by
  unfold completeForNext
  simp only
  split
  · exact .start hs
  have hack : Passes P s (ackDel (beginChain s) a.group a.entryId) := by
    have hbegin : Same P s (beginChain s) := .of_core rfl
    exact (hbegin.trans (.ackDel a.group a.entryId)).passes hs
  split
  · exact .of_passes (hack.trans ((Same.forgetListClaim _ _ _).passes hack.inv))
  unfold completeInChain
  simp only
  have hdone (u : Queue) : Same P u (markDoneByHints u a) := by
    unfold markDoneByHints
    repeat' split
    all_goals
      first
      | exact .of_core (core_markOrderingDone _ _ _ _)
      | exact .of_core rfl
  have hmark := hack.trans (((Same.markCompleted hne a.retention a.timestamp).trans
    (hdone _)).passes hack.inv)
  have hrelease : Passes P s (if a.groupKey ≠ .absent then
      releaseGroupSlotAndPromote (markDoneByHints (markCompleted (ackDel (beginChain s) a.group
        a.entryId) a.jobId a.retention a.timestamp) a) a.jobId a.timestamp a.serverNow
        a.groupKey.value false
      else markDoneByHints (markCompleted (ackDel (beginChain s) a.group a.entryId) a.jobId
        a.retention a.timestamp) a) := by
    split
    · exact hmark.trans (release_passes hmark.inv hne _ _ _)
    · exact hmark
  have hnotify := hrelease.trans (((Same.recordCompletedUnless a.skipMetrics a.timestamp
    (a.timestamp - a.processedOn.getD ((s.job a.jobId).processedOn.getD a.timestamp))).trans
      ((Apart.enqueueTreeParentNotifies _ a.jobId (s.job a.jobId).parentQueue
        (s.job a.jobId).parentId (s.job a.jobId).replacedIds).same.trans
          (Apart.settleListClaim _ a.jobId a.entryId).same)).passes hrelease.inv)
  have hretain := hnotify.trans ((Same.retain hnotify.inv.unfinished hne a.retention
    a.timestamp).passes hnotify.inv)
  exact (Phase.of_passes hretain).completeParents _ _ _ _

/-! ## Waiting for children -/

theorem GroupStep.same_of_unparked (h : GroupStep s t) (hq : ∀ gk, P ∉ s.groupq gk) :
    Same P s t := by
  -- A job in no wait queue is out of reach of the group machinery.
  have hne {gk : GroupKey} {K : JobId} (hK : K ∈ s.groupq gk) : P ≠ K := by
    rintro rfl
    exact hq gk hK
  cases h with
  | quiet h => exact .of_core h
  | limit gk x => exact .of_keys rfl rfl (fun _ h => h) id rfl
  | skip gk => exact .skip gk _
  | @tombstone gk K x _ _ => exact (Same.zremGroupq gk K).trans (.tombstone gk _ K x)
  | @drop gk K _ _ => exact .zremGroupq gk K
  | @putBack gk K hK x => exact (Same.zremGroupq gk K).trans (.zaddGroupq (hne hK) gk x)
  | @promote gk K hK _ =>
    unfold promoteJobOfGroup
    exact (Same.zremGroupq gk K).trans ((Same.xadd (hne hK)).trans (.hset (hne hK) _))
  | @failParked gk K t x r y hK _ _ _ h =>
    exact (Same.zremGroupq gk K).trans ((Same.endFailed (hne hK) x r y).trans
      ((Same.closeOrderingHole (hne hK)).trans (.of_core h)))

theorem GroupSteps.same_of_unparked (h : GroupSteps s t) (hq : ∀ gk, P ∉ s.groupq gk) :
    Same P s t := by
  refine h.keeps (I := fun u => Same P s u) (fun u v hstep hu => ?_) (.of_core rfl)
  exact hu.trans (hstep.same_of_unparked fun gk hk => hq gk (hu.groupq gk hk))

theorem keepOrReleaseSlot_passes (hs : ParentInv s P) (hne : P ≠ J) (now serverNow : Int) :
    Passes P s (keepOrReleaseSlot s J now serverNow) := by
  unfold keepOrReleaseSlot
  split
  · exact (Same.hset hne _).passes hs
  · exact release_passes hs hne now serverNow none

theorem moveToWaitingChildren_passes (hs : ParentInv s P) (a : PostponeArgs) (hne : P ≠ a.jobId) :
    Passes P s (moveToWaitingChildren s a).1 := by
  unfold moveToWaitingChildren
  simp only
  split
  · exact .refl hs
  split
  · exact .refl hs
  have hset : Passes P s ((ackDel s a.group a.entryId).setState a.jobId .waitingChildren) :=
    ((Same.ackDel a.group a.entryId).trans (.hset hne _)).passes hs
  have hslot := hset.trans (keepOrReleaseSlot_passes hset.inv hne a.now a.serverNow)
  have hcount := hslot.trans ((Apart.countEarlyDeps hne _).same.passes hslot.inv)
  split
  · exact hcount.trans (((Same.hset hne _).trans ((Same.xadd hne).trans
      (Apart.settleListClaim _ a.jobId a.entryId).same)).passes hcount.inv)
  · exact hcount.trans ((Apart.settleListClaim _ a.jobId a.entryId).same.passes hcount.inv)

theorem Moves.keepOrReleaseSlot (hP : s.jobs P ≠ none) (hq : ∀ gk, P ∉ s.groupq gk)
    (now serverNow : Int) :
    Moves P s (keepOrReleaseSlot s P now serverNow) ∧
      (keepOrReleaseSlot s P now serverNow).stateOf P = s.stateOf P ∧
      (∀ gk, P ∉ (keepOrReleaseSlot s P now serverNow).groupq gk) ∧
      ∀ b, newEntries b s P = [] → newEntries b (keepOrReleaseSlot s P now serverNow) P = [] := by
  unfold GlideMq.keepOrReleaseSlot
  split
  · refine ⟨.hset hP fun _ => rfl, ?_, hq, fun b hb => hb⟩
    rw [stateOf_hset, if_pos rfl, stateOf_eq]
  · have hslot : Moves P s (GlideMq.afterRelease s P none) := by
      unfold GlideMq.afterRelease releaseSlot clearRetainedSlot
      split
      · exact (Same.of_core rfl).moves
      · refine ⟨?_, rfl, id, le_rfl⟩
        simp only [hgroup_jobs, zremReturning_jobs, hmod_jobs, Function.update_self]
        rw [Option.map_map]
        rfl
    have hstate : (GlideMq.afterRelease s P none).stateOf P = s.stateOf P := by
      unfold GlideMq.afterRelease releaseSlot clearRetainedSlot
      split
      · rfl
      · exact stateOf_hmod s P P _ fun _ => rfl
    have hkeys : (GlideMq.afterRelease s P none).groupq = s.groupq ∧
        (GlideMq.afterRelease s P none).stream = s.stream := by
      unfold GlideMq.afterRelease releaseSlot clearRetainedSlot
      split <;> exact ⟨rfl, rfl⟩
    have hsame := (releaseGroupSlotAndPromote_steps s P now serverNow none).same_of_unparked
      (P := P) (by rw [hkeys.1]; exact hq)
    refine ⟨hslot.trans hsame.moves, hsame.stateOf.trans hstate, fun gk hk => ?_, fun b hb => ?_⟩
    · exact hq gk (by rw [← hkeys.1]; exact hsame.groupq gk hk)
    · exact hsame.newEntries (by rw [newEntries_of_stream hkeys.2]; exact hb)

theorem moveToWaitingChildren_phase (hs : ParentInv s P) (a : PostponeArgs) (hP : a.jobId = P)
    (hactive : s.stateOf P = some .active) :
    Phase True s.stream.lastId (moveToWaitingChildren s a).1 P := by
  -- The parent starts to wait, unless every member is done by then.
  subst hP
  have hunparked (gk : GroupKey) : a.jobId ∉ s.groupq gk := by
    intro hq
    rcases (hs.parked gk hq).2 with h | h <;> rw [hactive] at h <;> cases h
  unfold moveToWaitingChildren
  simp only [hactive, reduceCtorEq, if_false, ne_eq, not_true]
  have hack : Same a.jobId s (ackDel s a.group a.entryId) := .ackDel a.group a.entryId
  have hinv := hack.inv hs
  generalize ackDel s a.group a.entryId = s₁ at hack hinv ⊢
  have hwait : Moves a.jobId s₁ (s₁.setState a.jobId .waitingChildren) :=
    .hset hinv.here fun _ => rfl
  obtain ⟨hslot, hstate, hq, hnew⟩ := Moves.keepOrReleaseSlot
    (s := s₁.setState a.jobId .waitingChildren) (by simp [setState])
    (fun gk h => hunparked gk (hack.groupq gk h)) a.now a.serverNow
  have hbase := (hwait.trans hslot).base hinv.toParentBase
  have hlast : s.stream.lastId ≤ s₁.stream.lastId := hack.lastId
  have hlast' : s.stream.lastId ≤ (keepOrReleaseSlot (s₁.setState a.jobId .waitingChildren) a.jobId
      a.now a.serverNow).stream.lastId := le_trans hlast (hwait.trans hslot).lastId
  have hnew' := hnew s.stream.lastId (hack.newEntries (newEntries_lastId s a.jobId))
  have hwaiting : (keepOrReleaseSlot (s₁.setState a.jobId .waitingChildren) a.jobId a.now
      a.serverNow).stateOf a.jobId = some .waitingChildren := by
    rw [hstate, setState, stateOf_hset, if_pos rfl]
  generalize keepOrReleaseSlot (s₁.setState a.jobId .waitingChildren) a.jobId a.now a.serverNow = s₂
    at hbase hq hlast' hnew' hwaiting ⊢
  have hearly := Records.countEarly hbase
  generalize (countEarlyDeps s₂ a.jobId).1 = s₃ at hearly ⊢
  have hready := hearly.counts.remaining_le_zero
  have hlast₃ : s.stream.lastId ≤ s₃.stream.lastId := by rw [hearly.stream]; exact hlast'
  have hnew₃ : newEntries s.stream.lastId s₃ a.jobId = [] := by
    rw [newEntries_of_stream hearly.stream]
    exact hnew'
  have hq₃ (gk : GroupKey) : a.jobId ∉ s₃.groupq gk := by rw [hearly.groupq]; exact hq gk
  unfold remainingDeps at hready
  split
  · rename_i hle
    refine Phase.apart ?_ (.settleListClaim _ _ _)
    exact .released (hearly.base hbase) hq₃ hlast₃ hnew₃ (hready.mp (by omega))
  · rename_i hlt
    refine Phase.apart ⟨⟨hearly.base hbase, fun _ _ hall => hlt ?_, fun gk h => absurd h (hq₃ gk)⟩,
      hlast₃, fun _ => Or.inl ⟨hearly.state.trans hwaiting, hnew₃⟩, fun h => absurd trivial h⟩
      (.settleListClaim _ _ _)
    have := hready.mpr hall
    omega

/-! ## New parents -/

/-- A job that has not been a parent yet. Members may be registered already. -/
structure NewParent (s : Queue) (P : JobId) : Prop where
  here : s.jobs P ≠ none
  blank : (s.job P).depsCompleted = 0 ∧ (s.job P).depdone = []
  registered : (s.deps P).Nodup
  keyed : (s.job P).groupKey ≠ none → 0 < (s.job P).orderingSeq
  unfinished : P ∉ s.completed
  unparked : ∀ gk, P ∉ s.groupq gk

theorem NewParent.inv (h : NewParent s P) : ParentInv s P where
  here := h.here
  counts := by
    refine ⟨h.registered, ?_, ?_, ?_⟩ <;> simp [h.blank]
  keyed := h.keyed
  unfinished := h.unfinished
  waits := fun _ hne hall => by
    obtain ⟨m, hm⟩ := List.exists_mem_of_ne_nil _ hne
    have := hall m hm
    simp [h.blank] at this
  parked gk hq := absurd hq (h.unparked gk)

/-- What is left of a job's keys before the job exists. -/
structure Unused (s : Queue) (P : JobId) : Prop where
  jobs : s.jobs P = none
  registered : (s.deps P).Nodup
  unfinished : P ∉ s.completed
  unparked : ∀ gk, P ∉ s.groupq gk

theorem createFlowParent_new (h : Unused s P) (p : FlowParent) :
    NewParent (createFlowParent s P p) P := by
  have hkey : p.opts.orderingKey ≠ none → 0 < (issueSeq s p.opts.orderingKey).2 := by
    unfold issueSeq
    cases p.opts.orderingKey <;> simp
  have hissue : (issueSeq s p.opts.orderingKey).1.jobs = s.jobs ∧
      (issueSeq s p.opts.orderingKey).1.deps = s.deps ∧
      (issueSeq s p.opts.orderingKey).1.completed = s.completed ∧
      (issueSeq s p.opts.orderingKey).1.groupq = s.groupq := by
    unfold issueSeq
    split <;> exact ⟨rfl, rfl, rfl, rfl⟩
  unfold createFlowParent
  simp only
  generalize issueSeq s p.opts.orderingKey = r at hkey hissue ⊢
  have hgroup (u : Queue) : (upsertFlowGroup u p.opts true p.serverNow).jobs = u.jobs ∧
      (upsertFlowGroup u p.opts true p.serverNow).deps = u.deps ∧
      (upsertFlowGroup u p.opts true p.serverNow).completed = u.completed ∧
      (upsertFlowGroup u p.opts true p.serverNow).groupq = u.groupq := by
    unfold upsertFlowGroup
    split <;> exact ⟨rfl, rfl, rfl, rfl⟩
  obtain ⟨hjobs, hdeps, hcompleted, hgroupq⟩ := hgroup r.1
  refine ⟨by simp, ?_, ?_, ?_, ?_, ?_⟩
  · simp [Queue.job, hjobs, hissue, h.jobs, flowFields]
  · simpa [hdeps, hissue] using h.registered
  · simp only [Queue.job, hset_jobs, Function.update_self, Option.getD_some, hjobs, hissue, h.jobs,
      Option.getD_none, flowFields]
    cases hopt : p.opts.orderingKey with
    | none => simp
    | some k => simpa [hopt] using hkey
  · simpa [hcompleted, hissue] using h.unfinished
  · simpa [hgroupq, hissue] using h.unparked

/-! ## Runs -/

end

/-- The calls around one parent: what registers its children and reports them as done, what starts
the parent and sends it into its wait, and any call on another queue. -/
inductive ParentCall where
  | addJob (k : QueueName) (a : AddArgs)
  | registerChildDep (k : QueueName) (parentId : JobId) (m : DepMember)
  | registerParent (child parent : DepMember)
  | completeChild (k : QueueName) (parentId : JobId) (m : DepMember)
  | complete (k : QueueName) (a : CompleteArgs)
  | completeForNext (k : QueueName) (a : CompleteNextArgs)
  | healEarlyDeps (k : QueueName) (page : List JobId)
  | moveToActive (k : QueueName) (a : MoveArgs)
  | moveToWaitingChildren (k : QueueName) (a : PostponeArgs)
  | elsewhere (k : QueueName) (c : Call)

def parentStep (S : Sys) : ParentCall → Sys
  | .addJob k a => onQueue S k fun s => (addJob s a).1
  | .registerChildDep k parentId m => onQueue S k fun s => (registerChildDep s parentId m).1
  | .registerParent child parent => (registerParent S child parent).1
  | .completeChild k parentId m => onQueue S k fun s => (completeChild s parentId m).1
  | .complete k a => onQueue S k fun s => (complete s a).1
  | .completeForNext k a => onQueue S k (completeForNext · a)
  | .healEarlyDeps k page => onQueue S k fun s => (healEarlyDeps s page).1
  | .moveToActive k a => onQueue S k fun s => (moveToActive s a).1
  | .moveToWaitingChildren k a => onQueue S k fun s => (moveToWaitingChildren s a).1
  | .elsewhere k c => onQueue S k (Call.run · c)

/-- The parent itself is not completed, and its id is not given to another job. -/
def ParentCall.About (P : DepMember) (S : Sys) : ParentCall → Prop
  | .addJob k a => k = P.queue → (allocateId (S k) a.customJobId).2 ≠ .added P.job
  | .complete k a => k = P.queue → a.jobId ≠ P.job
  | .completeForNext k a => k = P.queue → a.jobId ≠ P.job
  | .elsewhere k _ => k ≠ P.queue
  | _ => True

/-- The calls during which the parent is in its wait. -/
def WaitsDuring (P : DepMember) (S : Sys) (c : ParentCall) : Prop :=
  (S P.queue).stateOf P.job = some .waitingChildren ∨
    (S P.queue).stateOf P.job = some .active ∧
      ∃ a, c = .moveToWaitingChildren P.queue a ∧ a.jobId = P.job

theorem onQueue_phase {S : Sys} {P : DepMember} {w : Prop} {b : Nat} (k : QueueName)
    (f : Queue → Queue) (hs : Phase w b (S P.queue) P.job)
    (hf : k = P.queue → Phase w b (f (S P.queue)) P.job) :
    Phase w b (onQueue S k f P.queue) P.job := by
  unfold onQueue
  by_cases hk : P.queue = k
  · subst hk
    simpa using hf rfl
  · simpa [hk] using hs

theorem registerParent_phase {S : Sys} {P : DepMember} (hs : ParentInv (S P.queue) P.job)
    (child parent : DepMember) :
    Phase ((S P.queue).stateOf P.job = some .waitingChildren) (S P.queue).stream.lastId
      ((registerParent S child parent).1 P.queue) P.job := by
  unfold registerParent
  split
  · exact .start hs
  have hpasses : Passes P.job (S P.queue)
      (onQueue (onQueue S child.queue (·.saddParents child.job parent)) parent.queue
        (·.saddDeps parent.job child) P.queue) := by
    have hsame : Same P.job (S P.queue)
        (onQueue S child.queue (·.saddParents child.job parent) P.queue) := by
      unfold onQueue
      by_cases hk : P.queue = child.queue
      · simp only [hk, Function.update_self]
        exact .of_keys rfl rfl (fun _ h => h) id rfl
      · simp only [Function.update_of_ne hk]
        exact .of_core rfl
    have hinv := hsame.inv hs
    refine (hsame.passes hs).trans ?_
    generalize onQueue S child.queue (·.saddParents child.job parent) = T at hinv ⊢
    unfold onQueue
    by_cases hk : P.queue = parent.queue
    · rw [← hk, Function.update_self]
      exact saddDeps_passes hinv _ _
    · rw [Function.update_of_ne hk]
      exact .refl hinv
  have hdeps := Phase.of_passes hpasses
  simp only
  split
  · exact onQueue_phase parent.queue (fun s => (completeParentDependency s parent.job child).1) hdeps
      fun _ => hdeps.complete _ _
  · exact hdeps

theorem parentStep_phase {S : Sys} {P : DepMember} (hs : ParentInv (S P.queue) P.job)
    {c : ParentCall} (hc : c.About P S) :
    Phase (WaitsDuring P S c) (S P.queue).stream.lastId (parentStep S c P.queue) P.job := by
  have hwait (h : ∀ a, c ≠ .moveToWaitingChildren P.queue a) :
      WaitsDuring P S c = ((S P.queue).stateOf P.job = some .waitingChildren) := by
    simp [WaitsDuring, h]
  have hstart := Phase.start hs
  cases c with
  | addJob k a =>
    rw [hwait (by simp)]
    refine onQueue_phase k (fun s => (GlideMq.addJob s a).1) hstart fun hk =>
      .of_passes (addJob_passes hs a ?_)
    subst hk
    exact hc rfl
  | registerChildDep k parentId m =>
    rw [hwait (by simp)]
    exact onQueue_phase k (fun s => (GlideMq.registerChildDep s parentId m).1) hstart fun _ =>
      registerChildDep_phase hs parentId m
  | registerParent child parent =>
    rw [hwait (by simp)]
    exact registerParent_phase hs child parent
  | completeChild k parentId m =>
    rw [hwait (by simp)]
    exact onQueue_phase k (fun s => (GlideMq.completeChild s parentId m).1) hstart fun _ =>
      hstart.complete parentId m
  | complete k a =>
    rw [hwait (by simp)]
    exact onQueue_phase k (fun s => (GlideMq.complete s a).1) hstart fun hk =>
      complete_phase hs a (hc hk).symm
  | completeForNext k a =>
    rw [hwait (by simp)]
    exact onQueue_phase k (GlideMq.completeForNext · a) hstart fun hk =>
      completeForNext_phase hs a (hc hk).symm
  | healEarlyDeps k page =>
    rw [hwait (by simp)]
    exact onQueue_phase k (fun s => (GlideMq.healEarlyDeps s page).1) hstart fun _ =>
      healEarlyDeps_phase hs page
  | moveToActive k a =>
    rw [hwait (by simp)]
    exact onQueue_phase k (fun s => (GlideMq.moveToActive s a).1) hstart fun _ =>
      .of_passes (moveToActive_passes hs a)
  | elsewhere k c =>
    rw [hwait (by simp)]
    exact onQueue_phase k (Call.run · c) hstart fun hk => absurd hk hc
  | moveToWaitingChildren k a =>
    by_cases hown : k = P.queue ∧ a.jobId = P.job ∧ (S P.queue).stateOf P.job = some .active
    · obtain ⟨rfl, hJ, hactive⟩ := hown
      have hw : WaitsDuring P S (.moveToWaitingChildren P.queue a) = True :=
        eq_true (Or.inr ⟨hactive, a, rfl, hJ⟩)
      rw [hw]
      have hstep : parentStep S (.moveToWaitingChildren P.queue a) P.queue =
          (GlideMq.moveToWaitingChildren (S P.queue) a).1 := by
        simp [parentStep, onQueue]
      rw [hstep]
      exact moveToWaitingChildren_phase hs a hJ hactive
    · have hw : WaitsDuring P S (.moveToWaitingChildren k a) =
          ((S P.queue).stateOf P.job = some .waitingChildren) := by
        refine propext ⟨fun h => h.resolve_right ?_, Or.inl⟩
        rintro ⟨hactive, b, hcall, hJ⟩
        simp only [ParentCall.moveToWaitingChildren.injEq] at hcall
        exact hown ⟨hcall.1, by rw [hcall.2]; exact hJ, hactive⟩
      rw [hw]
      refine onQueue_phase k (fun s => (GlideMq.moveToWaitingChildren s a).1) hstart fun hk =>
        .of_passes ?_
      by_cases hJ : a.jobId = P.job
      · have hstate : (S P.queue).stateOf a.jobId ≠ some .active := by
          rw [hJ]
          exact fun h => hown ⟨hk, hJ, h⟩
        unfold GlideMq.moveToWaitingChildren
        simp only [hstate, ne_eq, not_false_eq_true, if_true]
        split <;> exact .refl hs
      · exact moveToWaitingChildren_passes hs a (Ne.symm hJ)

def ParentKept (P : DepMember) (S : Sys) : Prop := ParentInv (S P.queue) P.job

theorem parentStep_kept {P : DepMember} (S : Sys) (c : ParentCall) (hs : ParentKept P S)
    (hc : c.About P S) : ParentKept P (parentStep S c) := (parentStep_phase hs hc).inv

/-- In every state of a run each registered member is counted once, and a parent with members that
waits has one left. Each call of its wait leaves it there, or releases it once with every member
done. -/
theorem parent_released_once {S : Sys} {P : DepMember} (hnew : NewParent (S P.queue) P.job)
    (calls : List ParentCall)
    (hmeets : Machine.Meets parentStep (fun T c => c.About P T) S calls) :
    let T := Machine.run parentStep S calls
    Counts (T P.queue) P.job ∧
    ((T P.queue).stateOf P.job = some .waitingChildren → (T P.queue).deps P.job ≠ [] →
      ¬ AllDone (T P.queue) P.job) ∧
    ∀ c : ParentCall, c.About P T → WaitsDuring P T c →
      Episode (T P.queue).stream.lastId (parentStep T c P.queue) P.job := by
  have hinv : ParentKept P (Machine.run parentStep S calls) :=
    Machine.invariant parentStep_kept hnew.inv hmeets
  exact ⟨hinv.counts, hinv.waits, fun c hc hw => (parentStep_phase hinv hc).episode hw⟩

/-- The parent of a flow whose children are registered later. -/
def loneParent : Sys :=
  (addFlow emptySys { queue := "q", parent := { timestamp := 0, serverNow := 0 }, children := [] }).1

theorem loneParent_new : NewParent (loneParent "q") "1" where
  here := by decide
  blank := by decide
  registered := by decide
  keyed := by decide
  unfinished := by decide
  unparked gk := Redis.SortedSet.not_mem_empty "1"

/-- A parent with two children: the first is done, and the end of the second releases it. -/
theorem parent_released_once_of_two :
    let T := Machine.run parentStep loneParent [.registerChildDep "q" "1" ⟨"p", "7"⟩,
      .registerChildDep "q" "1" ⟨"p", "8"⟩, .completeChild "q" "1" ⟨"p", "7"⟩]
    let after := parentStep T (.completeChild "q" "1" ⟨"p", "8"⟩) "q"
    ((T "q").stateOf "1" = some .waitingChildren ∧ after.stateOf "1" = some .waiting) ∧
      Episode (T "q").stream.lastId after "1" :=
  ⟨by decide +kernel, (parent_released_once (P := ⟨"q", "1"⟩) loneParent_new
    [.registerChildDep "q" "1" ⟨"p", "7"⟩, .registerChildDep "q" "1" ⟨"p", "8"⟩,
      .completeChild "q" "1" ⟨"p", "7"⟩]
    ⟨trivial, trivial, trivial, trivial⟩).2.2 (.completeChild "q" "1" ⟨"p", "8"⟩) trivial
      (Or.inl (by decide +kernel))⟩

/-- Until its first member is registered, a flow's parent waits with nothing left to wait for. -/
theorem parent_without_members_waits :
    let T := parentStep loneParent (.completeChild "q" "1" ⟨"p", "7"⟩)
    NewParent (loneParent "q") "1" ∧ (T "q").stateOf "1" = some .waitingChildren ∧
      AllDone (T "q") "1" :=
  ⟨loneParent_new, by decide, by unfold AllDone; decide⟩

end GlideMq
