import GlideMq.Proofs.PriorityList

/-!
# What a chain call pops

A chain call settles a job, and then pops from the priority list until it has a job that may start. But for
the pops it leaves the list as it is, and the jobs of the list keep their numbers.
-/

namespace GlideMq

open Queue Redis

/-! ## Writes that the list does not see -/

/-- The list is as it was, and its jobs have kept their numbers. -/
structure KeepsList (s t : Queue) : Prop extends KeepsListed s t where
  list : t.priorityList = s.priorityList

section

variable {s t u : Queue} {J K : JobId} {gk : GroupKey} {now serverNow : Int}

theorem KeepsList.refl (s : Queue) : KeepsList s s := ⟨.refl s, rfl⟩

theorem KeepsList.trans (h : KeepsList s t) (h' : KeepsList t u) : KeepsList s u :=
  ⟨h.toKeepsListed.trans h'.toKeepsListed, h'.list.trans h.list⟩

theorem KeepsList.of_jobs (hjobs : t.jobs = s.jobs) (hlist : t.priorityList = s.priorityList) : KeepsList s t :=
  ⟨.of_jobs hjobs, hlist⟩

theorem KeepsList.of_frame (h : t.frame = s.frame) (hst : ∀ J, Settled (s.stateOf J) → Settled (t.stateOf J)) :
    KeepsList s t := ⟨KeepsListed.of_frame h hst, list_of_frame h .priority⟩

theorem KeepsList.quiet (hframe : t.frame = s.frame) (hcore : t.core = s.core) : KeepsList s t := by
  refine .of_frame hframe fun J hJ => ?_
  rwa [stateOf_of_core hcore]

theorem KeepsList.hset (s : Queue) (J : JobId) {f : Job → Job} (hpriority : ∀ j, (f j).priority = j.priority)
    (hlifo : ∀ j, (f j).lifo = j.lifo) (hst : ∀ j, Settled j.state → Settled (f j).state) :
    KeepsList s (s.hset J f) := by
  have hjob (K : JobId) : (s.hset J f).job K = s.job K ∨ (s.hset J f).job K = f (s.job K) := by
    by_cases hK : K = J
    · subst hK
      exact .inr (by simp [Queue.job])
    · exact .inl (by simp [Queue.job, Function.update_of_ne hK])
  refine ⟨⟨fun K => ?_, fun K => ?_, fun K hK => ⟨?_, ?_⟩⟩, rfl⟩
  · rcases hjob K with h | h <;> rw [h]
    exact hpriority _
  · rcases hjob K with h | h <;> rw [h]
    exact hlifo _
  · rw [hset_jobs, Function.update_apply]
    split
    · exact Option.some_ne_none _
    · exact hK.1
  · have hsettled := hK.2
    rw [stateOf_eq] at hsettled ⊢
    rcases hjob K with h | h <;> rw [h]
    · exact hsettled
    · exact hst _ hsettled

theorem KeepsList.parents (hframe : t.parentFrame = s.parentFrame) (hr : Releases s t) : KeepsList s t := by
  refine ⟨⟨fun K => ?_, fun K => ?_, fun K hK => ⟨?_, hr.settled hK.2⟩⟩, list_of_parentFrame hframe .priority⟩
  · exact parentFrame_job Job.priority (fun _ => rfl) hframe K
  · exact parentFrame_job Job.lifo (fun _ => rfl) hframe K
  · exact fun hn => hK.1 ((parentFrame_jobs_none hframe K).mp hn)

theorem settled_active : Settled (some .active) := ⟨nofun, nofun⟩

theorem settled_groupWaiting : Settled (some .groupWaiting) := ⟨nofun, nofun⟩

theorem KeepsList.activate (s : Queue) (J : JobId) (now : Int) (listSourced : Bool) :
    KeepsList s (activate s J now listSourced) :=
  .hset s J (fun _ => rfl) (fun _ => rfl) fun _ _ => settled_active

theorem KeepsList.chargeGroup (s : Queue) (gk : GroupKey) (cost now : Int) :
    KeepsList s (chargeGroup s gk cost now) := .of_jobs rfl rfl

theorem KeepsList.bookStart (s : Queue) (gk : GroupKey) (J : JobId) (seq : Nat) (p q : Prop) [Decidable p]
    [Decidable q] :
    KeepsList s (if q then (if p then s else takeSlot s gk seq).zremGroupq gk J
      else if p then s else takeSlot s gk seq) := by
  have hslot : KeepsList s (if p then s else takeSlot s gk seq) := by
    split
    · exact .refl s
    · exact .of_jobs rfl rfl
  split
  · exact hslot.trans (.of_jobs rfl rfl)
  · exact hslot

theorem KeepsList.incrListActive (s : Queue) (ids : List JobId) : KeepsList s (incrListActive s ids) := .of_jobs rfl rfl

theorem KeepsList.park (s : Queue) (gk : GroupKey) (J : JobId) (x : Int) : KeepsList s (park s gk J x) :=
  KeepsList.trans (t := s.zaddGroupq gk J x) (.of_jobs rfl rfl) ⟨keepsListed_setState _ J settled_groupWaiting, rfl⟩

theorem KeepsList.setFailed (s : Queue) (J : JobId) (reason : String) (x : Int) :
    KeepsList s (s.setFailed J reason x) :=
  .hset s J (fun _ => rfl) (fun _ => rfl) fun _ _ => settled_failed

theorem KeepsList.skipToNext (s : Queue) (gk : GroupKey) (n : Nat) : KeepsList s (skipToNext s gk n).1 :=
  .of_jobs (skipToNext_jobs s gk n) (list_of_frame (frame_skipToNext s gk n) .priority)

theorem KeepsList.refill (s : Queue) (gk : GroupKey) (x : Int) : KeepsList s (refill s gk x).1 :=
  .quiet (frame_refill s gk x) (core_refill s gk x)

theorem KeepsList.closeHole (s : Queue) (J : JobId) (now serverNow : Int) :
    KeepsList s (closeOrderingHoleAndPromote s J now serverNow) :=
  ⟨keepsListed_closeHole s J now serverNow,
    list_of_frame (frame_closeOrderingHoleAndPromote s J now serverNow) .priority⟩

theorem KeepsList.expireJob (hJ : s.jobs J ≠ none) (st : Option JobState) (k : Option GroupKey) (n : Option Nat)
    (g : Option GroupKey) : KeepsList s (expireJob s J now serverNow st k n g) :=
  .of_frame (frame_expireJob hJ now serverNow st k n g) fun K hK => settled_expireJob s J K now serverNow st k n g hK

theorem frame_recordFailedUnless (skip : Bool) (s : Queue) (x y : Int) :
    (recordFailedUnless skip s x y).frame = s.frame := by
  unfold recordFailedUnless
  split <;> simp

theorem KeepsList.markOrderingDone (s : Queue) (J : JobId) (k : Option GroupKey) (n : Option Nat) :
    KeepsList s (markOrderingDone s J k n) := .quiet (by simp) (by simp)

theorem KeepsList.advanceRepeatAfterComplete (s : Queue) (J : JobId) (x : Int) :
    KeepsList s (advanceRepeatAfterComplete s J x) := .quiet (by simp) (by simp)

theorem KeepsList.noteFailure (s : Queue) (J : JobId) (reason : String) (skip : Bool) (x y : Int) :
    KeepsList s (recordFailedUnless skip (noteActivationFailure s J reason) x y) :=
  .quiet (by rw [frame_recordFailedUnless]; simp) (by rw [core_recordFailedUnless]; simp)

theorem KeepsList.failOversize (s : Queue) (J : JobId) (gk : GroupKey) (x : Int) :
    KeepsList s (failOversize s J gk x) := by
  have hadd : KeepsList s (s.zaddFailed J x) := .of_jobs rfl rfl
  have hmark := hadd.trans (.markOrderingDone _ J (some gk) (some (s.job J).orderingSeq))
  exact (hmark.trans (.setFailed _ J costReason x)).trans (.advanceRepeatAfterComplete _ J x)

theorem KeepsList.failOversizePriority (s : Queue) (a : FetchArgs) (J : JobId) (gk : GroupKey) :
    KeepsList s (failOversizePriority s a J gk) := by
  have hadd : KeepsList s (s.zaddFailed J a.timestamp) := .of_jobs rfl rfl
  have hfailed := (hadd.trans (.setFailed _ J costReason a.timestamp)).trans
    (.advanceRepeatAfterComplete _ J a.timestamp)
  unfold GlideMq.failOversizePriority
  simp only
  split
  · exact ((hfailed.trans (.noteFailure _ J costReason _ _ _)).trans (.markOrderingDone _ J _ _)).trans
      (.closeHole _ J a.timestamp a.serverNow)
  · exact hfailed.trans (.noteFailure _ J costReason _ _ _)

/-! ## The phases -/

theorem fetchPriorityInGroup_keepsList (s : Queue) (a : FetchArgs) (J : JobId) (gk : GroupKey) :
    KeepsList s (fetchPriorityInGroup s a J gk).1 := by
  have hskip := KeepsList.skipToNext s gk (s.groups gk).nextSeq
  unfold fetchPriorityInGroup
  simp only
  generalize GlideMq.skipToNext s gk (s.groups gk).nextSeq = r at *
  split
  · exact hskip.trans (.park _ gk J _)
  have hrefill : KeepsList s (refill r.1 gk a.serverNow).1 := hskip.trans (.refill r.1 gk a.serverNow)
  split
  · exact hrefill.trans (.failOversizePriority _ a J gk)
  generalize (if (tokenDelay (r.1.groups gk) (refill r.1 gk a.serverNow).2
    ((s.job J).cost.getD 1000)).isSome = true then none else _) = rl
  split
  · exact hrefill.trans (.trans (.park _ gk J _) (.of_jobs rfl rfl))
  · have hcharge := hrefill.trans (.chargeGroup _ gk ((s.job J).cost.getD 1000) a.timestamp)
    exact ((hcharge.trans (.activate _ J a.timestamp true)).trans (.bookStart _ gk J _ _ _)).trans
      (.incrListActive _ [J])

theorem activateFromList_keepsList (s : Queue) (J : JobId) (now : Int) :
    KeepsList s (activateFromList s J now).1 :=
  (KeepsList.activate s J now true).trans (.of_jobs rfl rfl)

theorem jobs_ne_none_of_job {st : JobState} (h : (s.job J).state = some st) : s.jobs J ≠ none :=
  jobs_ne_none_of_stateOf ((stateOf_eq s J).trans h)

theorem exists_of_state (h : (s.job J).state ≠ none) : s.jobs J ≠ none := by
  obtain ⟨st, hst⟩ := Option.ne_none_iff_exists'.mp h
  exact jobs_ne_none_of_job hst

theorem fetchPriority_keepsList (s : Queue) (a : FetchArgs) (J : JobId) :
    KeepsList s (fetchPriority s a J).1 := by
  unfold fetchPriority
  simp only
  split
  · exact .refl s
  rename_i hwaits
  simp only [not_or] at hwaits
  split
  · exact .expireJob (exists_of_state hwaits.1) _ _ _ _
  split
  · exact fetchPriorityInGroup_keepsList s a J _
  · exact activateFromList_keepsList s J a.timestamp

theorem fetchLifo_keepsList (s : Queue) (a : FetchArgs) (J : JobId) : KeepsList s (fetchLifo s a J).1 := by
  unfold fetchLifo
  simp only
  split
  · exact .refl s
  rename_i hwaits
  simp only [not_or] at hwaits
  split
  · exact .expireJob (exists_of_state hwaits.1) _ _ _ _
  · exact activateFromList_keepsList s J a.timestamp

theorem KeepsList.ackDel (s : Queue) (group : Group) (e : Option Nat) : KeepsList s (ackDel s group e) := by
  cases e <;> exact .of_jobs rfl rfl

theorem streamPhase_keepsList (a : FetchArgs) (listsEmpty : Bool) (attempts : Nat) (s : Queue) :
    KeepsList s (streamPhase a listsEmpty attempts s).1 := by
  induction attempts generalizing s with
  | zero => exact .refl s
  | succ attempts ih =>
    unfold streamPhase
    simp only
    split
    · exact .of_jobs rfl rfl
    · rename_i e _
      have hdeliver : KeepsList s (s.deliver a.group a.consumer e) := .of_jobs rfl rfl
      split
      · exact hdeliver
      rename_i hexists
      split
      · exact hdeliver
      split
      · exact (hdeliver.trans (.ackDel _ _ _)).trans (ih _)
      split
      · exact ((hdeliver.trans (.expireJob (exists_of_state hexists) _ _ _ _)).trans (.ackDel _ _ _)).trans (ih _)
      · exact hdeliver

theorem keepsList_skipIf (s : Queue) (gk : GroupKey) (seq : Nat) :
    KeepsList s (if 0 < seq then GlideMq.skipToNext s gk (s.groups gk).nextSeq else (s, 0)).1 := by
  split
  · exact .skipToNext s gk _
  · exact .refl s

theorem fetchStreamInGroup_keepsList (s : Queue) (a : FetchArgs) (J : JobId) (e : Nat) (gk : GroupKey) :
    KeepsList s (fetchStreamInGroup s a J e gk).1 := by
  have hskip := keepsList_skipIf s gk (s.job J).orderingSeq
  unfold fetchStreamInGroup
  simp only
  generalize (if 0 < (s.job J).orderingSeq then GlideMq.skipToNext s gk (s.groups gk).nextSeq else (s, 0)) = r at *
  split
  · exact (hskip.trans (.ackDel _ _ _)).trans (.park _ gk J _)
  split
  · exact (hskip.trans (.ackDel _ _ _)).trans (.park _ gk J _)
  have hrefill : KeepsList s (refill r.1 gk a.serverNow).1 := hskip.trans (.refill r.1 gk a.serverNow)
  split
  · have hfailed := (hrefill.trans (.ackDel _ a.group (some e))).trans (.failOversize _ J gk a.timestamp)
    exact (hfailed.trans (.noteFailure _ J costReason _ _ _)).trans (.closeHole _ J a.timestamp a.serverNow)
  split
  · exact ((hrefill.trans (.ackDel _ _ _)).trans (.park _ gk J _)).trans (.of_jobs rfl rfl)
  · have hcharge := hrefill.trans (.chargeGroup _ gk ((s.job J).cost.getD 1000) a.timestamp)
    exact (hcharge.trans (.bookStart _ gk J _ _ _)).trans (.activate _ J a.timestamp false)

theorem fetchStream_keepsList (s : Queue) (a : FetchArgs) (listsEmpty : Bool) :
    KeepsList s (fetchStream s a listsEmpty).1 := by
  have hphase := streamPhase_keepsList a listsEmpty 3 s
  unfold fetchStream
  split
  · rename_i heq
    rw [heq] at hphase
    exact hphase
  · rename_i heq
    rw [heq] at hphase
    split
    · exact hphase.trans (fetchStreamInGroup_keepsList _ a _ _ _)
    · exact hphase.trans (.activate _ _ a.timestamp false)

theorem claimInGroup_keepsList (s : Queue) (a : MoveArgs) (gk : GroupKey) : KeepsList s (claimInGroup s a gk).1 := by
  have hskip := keepsList_skipIf s gk (s.job a.jobId).orderingSeq
  unfold claimInGroup
  simp only
  generalize (if 0 < (s.job a.jobId).orderingSeq then GlideMq.skipToNext s gk (s.groups gk).nextSeq else (s, 0)) = r
    at *
  split
  · exact (hskip.trans (.ackDel _ _ _)).trans (.park _ gk _ _)
  split
  · exact (hskip.trans (.ackDel _ _ _)).trans (.park _ gk _ _)
  have hrefill : KeepsList s (refill r.1 gk a.serverNow).1 := hskip.trans (.refill r.1 gk a.serverNow)
  have hack := hrefill.trans (.ackDel _ a.group a.entryId)
  split
  · exact (hack.trans (.failOversize _ a.jobId gk a.timestamp)).trans (.closeHole _ a.jobId a.timestamp a.serverNow)
  split
  · exact (hack.trans (.park _ gk _ _)).trans (.of_jobs rfl rfl)
  · have hcharge := hrefill.trans (.chargeGroup _ gk ((s.job a.jobId).cost.getD 1000) a.timestamp)
    exact (hcharge.trans (.bookStart _ gk _ _ _ _)).trans (.activate _ _ a.timestamp _)

theorem moveToActive_keepsList (s : Queue) (a : MoveArgs) : KeepsList s (moveToActive s a).1 := by
  have hclaim : KeepsList s (moveToActiveClaim s a).1 := by
    unfold moveToActiveClaim
    simp only
    split
    · exact .refl s
    rename_i job hj
    split
    · exact .ackDel s _ _
    split
    · exact .refl s
    split
    · exact .refl s
    split
    · exact .trans (.expireJob (by simp [hj]) _ _ _ _) (.ackDel _ _ _)
    split
    · exact .refl s
    split
    · exact claimInGroup_keepsList s a _
    · exact .activate s _ _ _
  unfold moveToActive
  simp only
  repeat' split
  · exact hclaim.trans (.of_jobs rfl rfl)
  · exact hclaim.trans (.of_jobs rfl rfl)
  · exact hclaim
  · exact hclaim

/-! ## Pops -/

/-- Nothing but the popped jobs leaves the list, and the jobs keep their numbers. -/
structure PopsOff (s t : Queue) (ids : List JobId) : Prop where
  list : s.priorityList = t.priorityList ++ ids.reverse
  keeps : KeepsListed s t

theorem PopsOff.none (h : KeepsList s t) : PopsOff s t [] := ⟨by simp [h.list], h.toKeepsListed⟩

theorem PopsOff.after {ids : List JobId} (h : PopsOff t u ids) (hk : KeepsList s t) : PopsOff s u ids :=
  ⟨hk.list.symm.trans h.list, hk.toKeepsListed.trans h.keeps⟩

theorem PopsOff.keepsList {ids : List JobId} (h : PopsOff s t ids) (hk : KeepsList t u) : PopsOff s u ids :=
  ⟨by rw [hk.list]; exact h.list, h.keeps.trans hk.toKeepsListed⟩

theorem priorityList_drop (h : s.priorityList.getLast? = some J) :
    s.priorityList = (s.drop .priority).priorityList ++ [J] := by
  obtain ⟨front, hfront⟩ := List.getLast?_eq_some_iff.mp h
  have hdropped : (s.drop .priority).priorityList = s.priorityList.dropLast := rfl
  rw [hdropped, hfront, List.dropLast_concat]

theorem PopsOff.pop {ids : List JobId} (hlast : s.priorityList.getLast? = some J)
    (h : PopsOff (s.drop .priority) t ids) : PopsOff s t (J :: ids) := by
  refine ⟨?_, KeepsListed.trans (t := s.drop .priority) (.of_jobs rfl) h.keeps⟩
  rw [priorityList_drop hlast, h.list]
  simp

/-- The jobs that the attempts at the priority list pop. -/
def popsOfPhase (a : FetchArgs) : Nat → Queue → List JobId
  | 0, _ => []
  | attempts + 1, s =>
    match s.priorityList.getLast? with
    | none => []
    | some J =>
      match fetchPriority (s.drop .priority) a J with
      | (_, some _) => [J]
      | (s, none) => J :: popsOfPhase a attempts s

theorem listPhase_popsOff (a : FetchArgs) (attempts : Nat) (s : Queue) :
    PopsOff s (listPhase .priority (fetchPriority · a) attempts s).1 (popsOfPhase a attempts s) := by
  induction attempts generalizing s with
  | zero => exact .none (.refl s)
  | succ attempts ih =>
    unfold listPhase popsOfPhase
    have hlist : s.list .priority = s.priorityList := rfl
    rw [hlist]
    cases hlast : s.priorityList.getLast? with
    | none => exact .none (.refl s)
    | some J =>
      have hfetch := fetchPriority_keepsList (s.drop .priority) a J
      simp only
      rcases hr : fetchPriority (s.drop .priority) a J with ⟨t, next⟩
      rw [hr] at hfetch
      cases next with
      | some next => exact .pop hlast (.none hfetch)
      | none => exact .pop hlast ((ih t).after hfetch)

theorem lifoPhase_keepsList (a : FetchArgs) (attempts : Nat) (s : Queue) :
    KeepsList s (listPhase .lifo (fetchLifo · a) attempts s).1 := by
  induction attempts generalizing s with
  | zero => exact .refl s
  | succ attempts ih =>
    unfold listPhase
    split
    · exact .refl s
    · rename_i J _
      have hdrop : KeepsList s (s.drop .lifo) := .of_jobs rfl rfl
      have hfetch := hdrop.trans (fetchLifo_keepsList (s.drop .lifo) a J)
      split
      · rename_i heq
        rwa [heq] at hfetch
      · rename_i heq
        rw [heq] at hfetch
        exact hfetch.trans (ih _)

/-- The jobs that the search for the next job pops from the priority list. -/
def fetchPops (s : Queue) (a : FetchArgs) : List JobId :=
  if 0 < s.globalConcurrency ∧ s.globalConcurrency ≤ claimedCount s a.group then [] else popsOfPhase a 3 s

theorem fetchNextForChain_popsOff (s : Queue) (a : FetchArgs) :
    PopsOff s (fetchNextForChain s a).1 (fetchPops s a) := by
  unfold fetchNextForChain fetchPops
  split
  · exact .none (.refl s)
  have hphase := listPhase_popsOff a 3 s
  split
  · rename_i heq
    rwa [heq] at hphase
  · rename_i u _ heq
    rw [heq] at hphase
    have hlifo := lifoPhase_keepsList a 3 u
    split
    · rename_i heq'
      rw [heq'] at hlifo
      exact hphase.keepsList hlifo
    · rename_i heq'
      rw [heq'] at hlifo
      exact (hphase.keepsList hlifo).keepsList (fetchStream_keepsList _ a _)

/-! ## Settling -/

/-- A job that has not ended, and that no group has parked. -/
structure Queue.ToRun (s : Queue) (K : JobId) : Prop where
  completed : K ∉ s.completed
  failed : K ∉ s.failed
  parked : ∀ gk, K ∉ s.groupq gk

theorem Queue.ToRun.of_sets (h : s.ToRun K) (hcompleted : t.completed = s.completed) (hfailed : t.failed = s.failed)
    (hgroupq : t.groupq = s.groupq) : t.ToRun K := by
  obtain ⟨hc, hf, hg⟩ := h
  exact ⟨by rwa [hcompleted], by rwa [hfailed], by rwa [hgroupq]⟩

theorem Queue.ToRun.of_core (h : s.ToRun K) (hcore : t.core = s.core) : t.ToRun K :=
  h.of_sets (key_of_core Queue.completed (fun _ => rfl) hcore) (key_of_core Queue.failed (fun _ => rfl) hcore)
    (key_of_core Queue.groupq (fun _ => rfl) hcore)

theorem Queue.ToRun.zremGroupq (h : s.ToRun K) : (s.zremGroupq gk J).ToRun K := by
  refine ⟨h.completed, h.failed, fun k hk => ?_⟩
  simp only [zremGroupq_groupq, Function.update_apply] at hk
  split at hk
  · exact h.parked _ (SortedSet.mem_rem.mp hk).2
  · exact h.parked _ hk

theorem Queue.ToRun.closeOrderingHole (h : s.ToRun K) : (closeOrderingHole s J).ToRun K := by
  unfold GlideMq.closeOrderingHole
  simp only
  repeat' split
  all_goals exact h.of_sets rfl rfl rfl

theorem Queue.ToRun.skipToNext (h : s.ToRun K) {n : Nat} : (skipToNext s gk n).1.ToRun K := by
  unfold GlideMq.skipToNext
  simp only
  repeat' split
  all_goals exact h.of_sets rfl rfl rfl

theorem Queue.ToRun.consumeOrderedTombstone (h : s.ToRun K) {n : Nat} {x : Int} :
    (consumeOrderedTombstone s gk n J x).1.ToRun K := by
  unfold GlideMq.consumeOrderedTombstone
  split
  · exact h
  · exact (h.of_core (core_markOrderingDone s J (some gk) (some n))).of_sets rfl rfl rfl

theorem Queue.ToRun.zaddFailed (h : s.ToRun K) (hne : K ≠ J) (x : Int) : (s.zaddFailed J x).ToRun K :=
  ⟨h.completed, fun hmem => (SortedSet.mem_add.mp hmem).elim hne h.failed, h.parked⟩

theorem GroupStep.toRun (h : GroupStep s t) (hK : s.ToRun K) : t.ToRun K := by
  -- Only what a group has parked is failed or parked again.
  cases h with
  | quiet h => exact hK.of_core h
  | limit gk x => exact hK.of_sets rfl rfl rfl
  | skip gk => exact hK.skipToNext
  | tombstone hq hj => exact hK.zremGroupq.consumeOrderedTombstone
  | drop hq hst => exact hK.zremGroupq
  | @putBack gk J hq x =>
    have hne : K ≠ J := by
      rintro rfl
      exact hK.parked gk hq
    have hleft : (s.zremGroupq gk J).ToRun K := hK.zremGroupq
    refine ⟨hK.completed, hK.failed, fun k hk => ?_⟩
    simp only [zaddGroupq_groupq, Function.update_apply] at hk
    split at hk
    · exact (SortedSet.mem_add.mp hk).elim hne (hleft.parked gk)
    · exact hleft.parked k hk
  | promote hq hst => exact hK.zremGroupq.of_sets rfl rfl rfl
  | @failParked gk J _ x r y hq hj hcap hcost h =>
    have hne : K ≠ J := by
      rintro rfl
      exact hK.parked gk hq
    have hended : (endFailed (s.zremGroupq gk J) J x r y).ToRun K :=
      (hK.zremGroupq.zaddFailed hne x).of_sets rfl rfl rfl
    exact hended.closeOrderingHole.of_core h

theorem GroupSteps.toRun (h : GroupSteps s t) (hK : s.ToRun K) : t.ToRun K :=
  h.keeps (fun _ _ hstep hu => hstep.toRun hu) hK

/-- The list is as it was, and its jobs are there with their numbers, and are still to run. -/
structure StandsBy (s t : Queue) : Prop where
  list : t.priorityList = s.priorityList
  priority : ∀ K ∈ s.priorityList, (t.job K).priority = (s.job K).priority
  listed : ∀ K ∈ s.priorityList, Listed t K
  toRun : ∀ K ∈ s.priorityList, t.ToRun K

theorem StandsBy.start (h : ListInOrder s) (hrun : ∀ K ∈ s.priorityList, s.ToRun K) : StandsBy s s :=
  ⟨rfl, fun _ _ => rfl, h.listed, hrun⟩

theorem StandsBy.inOrder (h : StandsBy s t) (hs : ListInOrder s) : ListInOrder t := by
  have hmem {K : JobId} (hK : K ∈ t.priorityList) : K ∈ s.priorityList := by rwa [← h.list]
  exact hs.of_sublist (h.list ▸ List.Sublist.refl _) (fun K hK => h.priority K (hmem hK)) fun K hK _ =>
    h.listed K (hmem hK)

theorem StandsBy.keeps (h : StandsBy s t) (hk : KeepsList t u) (hrun : ∀ K, t.ToRun K → u.ToRun K) : StandsBy s u where
  list := hk.list.trans h.list
  priority K hK := (hk.priority K).trans (h.priority K hK)
  listed K hK := hk.listed K (h.listed K hK)
  toRun K hK := hrun K (h.toRun K hK)

theorem StandsBy.others (h : StandsBy s t) (hlist : u.priorityList = t.priorityList)
    (hjobs : ∀ K ∈ s.priorityList, u.jobs K = t.jobs K) (hrun : ∀ K ∈ s.priorityList, t.ToRun K → u.ToRun K) :
    StandsBy s u where
  list := hlist.trans h.list
  priority K hK := by
    have hpriority := h.priority K hK
    unfold Queue.job at hpriority ⊢
    rwa [hjobs K hK]
  listed K hK := by
    have hlisted := h.listed K hK
    unfold Listed Queue.stateOf at hlisted ⊢
    rwa [hjobs K hK]
  toRun K hK := hrun K hK (h.toRun K hK)

theorem StandsBy.ite {p : Prop} [Decidable p] (ht : StandsBy s t) (hu : StandsBy s u) :
    StandsBy s (if p then t else u) := by
  split
  · exact ht
  · exact hu

theorem StandsBy.of_keys (h : StandsBy s t) (hjobs : u.jobs = t.jobs) (hlist : u.priorityList = t.priorityList)
    (hcompleted : u.completed = t.completed) (hfailed : u.failed = t.failed) (hgroupq : u.groupq = t.groupq) :
    StandsBy s u :=
  h.keeps (.of_jobs hjobs hlist) fun _ hK => hK.of_sets hcompleted hfailed hgroupq

theorem StandsBy.quiet (h : StandsBy s t) (hframe : u.frame = t.frame) (hcore : u.core = t.core) : StandsBy s u :=
  h.keeps (.quiet hframe hcore) fun _ hK => hK.of_core hcore

theorem StandsBy.parents (h : StandsBy s t) (hframe : u.parentFrame = t.parentFrame) (hr : Releases t u) :
    StandsBy s u := by
  have hself (q : Queue) : q.parentFrame.completed = q.completed ∧ q.parentFrame.failed = q.failed ∧
      q.parentFrame.groupq = q.groupq := ⟨rfl, rfl, rfl⟩
  obtain ⟨hcompleted, hfailed, hgroupq⟩ := hself u
  rw [hframe] at hcompleted hfailed hgroupq
  exact h.keeps (.parents hframe hr) fun K hK => hK.of_sets hcompleted.symm hfailed.symm hgroupq.symm

theorem StandsBy.release (h : StandsBy s t) (J : JobId) (now serverNow : Int) (hint : Option GroupKey) :
    StandsBy s (releaseGroupSlotAndPromote t J now serverNow hint false) := by
  have hsteps := releaseGroupSlotAndPromote_steps t J now serverNow hint
  refine h.keeps (.of_frame (frame_releaseGroupSlotAndPromote t J now serverNow hint false) fun K hK => ?_)
    fun K hK => hsteps.toRun ?_
  · apply hsteps.settled
    rwa [stateOf_afterRelease]
  · unfold afterRelease
    split
    · exact hK
    · exact hK.of_sets rfl rfl rfl

theorem StandsBy.ackDel (h : StandsBy s t) (group : Group) (e : Option Nat) : StandsBy s (ackDel t group e) := by
  cases e <;> exact h.of_keys rfl rfl rfl rfl rfl

theorem StandsBy.settleListClaim (h : StandsBy s t) (J : JobId) (e : Option Nat) :
    StandsBy s (settleListClaim t J e) := by
  unfold GlideMq.settleListClaim decrListActive
  simp only
  repeat' split
  all_goals exact h.of_keys rfl rfl rfl rfl rfl

theorem StandsBy.forgetListClaim (h : StandsBy s t) (J : JobId) (e : Option Nat) :
    StandsBy s (forgetListClaim t J e) := by
  unfold GlideMq.forgetListClaim
  split
  · exact h.of_keys rfl rfl rfl rfl rfl
  · exact h

theorem StandsBy.hset (h : StandsBy s t) (hJ : J ∉ s.priorityList) (f : Job → Job) : StandsBy s (t.hset J f) := by
  refine h.others rfl (fun K hK => ?_) fun K _ hrun => hrun.of_sets rfl rfl rfl
  rw [hset_jobs, Function.update_of_ne]
  rintro rfl
  exact hJ hK

theorem StandsBy.unlinkJob (h : StandsBy s t) (hJ : J ∉ s.priorityList) : StandsBy s (t.unlinkJob J) := by
  refine h.others rfl (fun K hK => ?_) fun K _ hrun => hrun.of_sets rfl rfl rfl
  rw [unlinkJob_jobs, Function.update_of_ne]
  rintro rfl
  exact hJ hK

theorem StandsBy.zremTerminal (h : StandsBy s t) (k : TerminalSet) (J : JobId) : StandsBy s (t.zremTerminal k J) := by
  refine h.others (by cases k <;> rfl) (fun K _ => by cases k <;> rfl) fun K _ hrun => ?_
  cases k with
  | completed => exact ⟨fun hmem => hrun.completed (SortedSet.mem_rem.mp hmem).2, hrun.failed, hrun.parked⟩
  | failed => exact ⟨hrun.completed, fun hmem => hrun.failed (SortedSet.mem_rem.mp hmem).2, hrun.parked⟩

theorem StandsBy.removeExcessJobs (h : StandsBy s t) (k : TerminalSet) {ids : List JobId}
    (hids : ∀ J ∈ ids, J ∈ t.terminalSet k) : StandsBy s (removeExcessJobs t k ids) := by
  have hout : ∀ J ∈ ids, J ∉ s.priorityList := by
    intro J hJ hmem
    have hrun := h.toRun J hmem
    have hended := hids J hJ
    cases k with
    | completed => exact hrun.completed hended
    | failed => exact hrun.failed hended
  have hunlink (l : List JobId) (hl : ∀ J ∈ l, J ∉ s.priorityList) {v : Queue} (hv : StandsBy s v) :
      StandsBy s (l.foldl Queue.unlinkJob v) := by
    induction l generalizing v with
    | nil => exact hv
    | cons J l ih =>
      obtain ⟨hJ, hl⟩ := List.forall_mem_cons.mp hl
      exact ih hl (hv.unlinkJob hJ)
  have hrem (l : List JobId) {v : Queue} (hv : StandsBy s v) :
      StandsBy s (l.foldl (fun q J => q.zremTerminal k J) v) := by
    induction l generalizing v with
    | nil => exact hv
    | cons J l ih => exact ih (hv.zremTerminal k J)
  exact hrem ids (hunlink ids hout h)

theorem StandsBy.retainCount (h : StandsBy s t) (k : TerminalSet) (n : Nat) : StandsBy s (retainCount t k n) := by
  unfold GlideMq.retainCount
  simp only
  split
  · exact h.removeExcessJobs k fun J hJ => SortedSet.mem_of_mem_take hJ
  · exact h

theorem StandsBy.retain (h : StandsBy s t) (k : TerminalSet) (hJ : J ∉ s.priorityList) (r : Retention) (x : Int) :
    StandsBy s (retain t k J r x) := by
  unfold GlideMq.retain
  cases r with
  | keep => exact h
  | remove => exact h.unlinkJob hJ
  | count n => exact h.retainCount k n
  | ageCount age n =>
    refine StandsBy.retainCount ?_ k n
    unfold retainAge
    split
    · exact h.removeExcessJobs k fun J hJ => SortedSet.mem_of_mem_rangeByScore hJ
    · exact h

theorem StandsBy.markCompleted (h : StandsBy s t) (hJ : J ∉ s.priorityList) (r : Retention) (x : Int) :
    StandsBy s (markCompleted t J r x) := by
  unfold GlideMq.markCompleted
  split
  · exact h
  · have hadd : StandsBy s (t.zaddCompleted J x) := by
      refine h.others rfl (fun _ _ => rfl) fun K hK hrun => ⟨fun hmem => ?_, hrun.failed, hrun.parked⟩
      refine (SortedSet.mem_add.mp hmem).elim ?_ hrun.completed
      rintro rfl
      exact hJ hK
    exact hadd.hset hJ _

theorem StandsBy.markFailed (h : StandsBy s t) {a : FailArgs} (hJ : a.jobId ∉ s.priorityList) :
    StandsBy s (markFailed t a) := by
  unfold GlideMq.markFailed
  split
  · exact h
  · have hadd : StandsBy s (t.zaddFailed a.jobId a.timestamp) := by
      refine h.others rfl (fun _ _ => rfl) fun K hK hrun => hrun.zaddFailed ?_ _
      rintro rfl
      exact hJ hK
    exact hadd.hset hJ _

theorem StandsBy.markOrderingDone (h : StandsBy s t) (J : JobId) (k : Option GroupKey) (n : Option Nat) :
    StandsBy s (markOrderingDone t J k n) := h.quiet (by simp) (by simp)

theorem StandsBy.record (h : StandsBy s t) (skip : Bool) (x y : Int) :
    StandsBy s (if skip then t else recordCompleted t x y) ∧ StandsBy s (if skip then t else recordFailed t x y) := by
  constructor <;> split
  · exact h
  · exact h.of_keys rfl rfl rfl rfl rfl
  · exact h
  · exact h.of_keys rfl rfl rfl rfl rfl

theorem StandsBy.markDoneByHints (h : StandsBy s t) (a : CompleteNextArgs) : StandsBy s (markDoneByHints t a) := by
  unfold GlideMq.markDoneByHints
  split
  · exact h.markOrderingDone _ _ _
  split
  · exact h.markOrderingDone _ _ _
  · exact h

theorem StandsBy.enqueueTreeParentNotifies (h : StandsBy s t) (J : JobId) (q : Option QueueName) (p : Option JobId)
    (ids : List JobId) : StandsBy s (enqueueTreeParentNotifies t J q p ids).1 :=
  h.parents (parentFrame_enqueueTreeParentNotifies t J q p ids) (.of_life (life_enqueueTreeParentNotifies t J q p ids))

theorem StandsBy.completeParents (h : StandsBy s t) (J : JobId) (q : Option QueueName) (p : Option JobId)
    (ns : List ParentNotify) : StandsBy s (completeParents t J q p ns).1 :=
  h.parents (parentFrame_completeParents t J q p ns) (completeParents_releases t J q p ns)

theorem StandsBy.completeInChain (h : StandsBy s t) {a : CompleteNextArgs} (hJ : a.jobId ∉ s.priorityList) (cur : Job) :
    StandsBy s (completeInChain t a cur).1 := by
  have hmarked := (h.markCompleted hJ a.retention a.timestamp).markDoneByHints a
  unfold GlideMq.completeInChain
  simp only
  refine StandsBy.completeParents (StandsBy.retain (StandsBy.settleListClaim (StandsBy.enqueueTreeParentNotifies
    (StandsBy.record ?_ _ _ _).1 _ _ _ _) _ _) _ hJ _ _) _ _ _ _
  split
  · exact hmarked.release _ _ _ _
  · exact hmarked

theorem StandsBy.complete (h : StandsBy s t) {a : CompleteArgs} (hJ : a.jobId ∉ s.priorityList) :
    StandsBy s (complete t a).1 := by
  have hack := h.ackDel a.group a.entryId
  unfold GlideMq.complete
  simp only
  split
  · exact h
  split
  · exact hack.forgetListClaim _ _
  have hmarked := ((hack.markCompleted hJ a.retention a.timestamp).markOrderingDone a.jobId none none).release a.jobId
    a.timestamp a.serverNow none
  exact StandsBy.settleListClaim (StandsBy.completeParents (StandsBy.retain (StandsBy.enqueueTreeParentNotifies
    (hmarked.record a.skipMetrics _ _).1 _ _ _ _) _ hJ _ _) _ _ _ _) _ _

theorem StandsBy.failRetry (h : StandsBy s t) {a : FailArgs} (hJ : a.jobId ∉ s.priorityList) (requeueOnly : Bool) :
    StandsBy s (failRetry t a requeueOnly) := by
  unfold GlideMq.failRetry
  simp only
  refine StandsBy.settleListClaim ?_ _ _
  have hfallback : StandsBy s (if ¬ requeueOnly ∧ (t.job a.jobId).opts.fallbacks then
      t.hset a.jobId fun j => { j with fallbackIndex := j.fallbackIndex + 1 } else t) := by
    split
    · exact h.hset hJ _
    · exact h
  generalize (if ¬ requeueOnly ∧ (t.job a.jobId).opts.fallbacks then
      t.hset a.jobId fun j => { j with fallbackIndex := j.fallbackIndex + 1 } else t) = u at hfallback ⊢
  have hscheduled (x : Int) : StandsBy s (u.zaddScheduled a.jobId x) := hfallback.of_keys rfl rfl rfl rfl rfl
  exact .ite (((hscheduled _).hset hJ _).hset hJ _) (((hscheduled _).hset hJ _).release _ _ _ _)

theorem StandsBy.failFinal (h : StandsBy s t) {a : FailArgs} (hJ : a.jobId ∉ s.priorityList) (processedOn : Int) :
    StandsBy s (failFinal t a processedOn) := by
  have hmarked := ((h.markFailed hJ).markOrderingDone a.jobId none none).release a.jobId a.timestamp a.serverNow none
  exact StandsBy.settleListClaim (((hmarked.record a.skipMetrics _ _).2).retain .failed hJ _ _) _ _

theorem StandsBy.failJobCore (h : StandsBy s t) {a : FailArgs} (hJ : a.jobId ∉ s.priorityList) (requeueOnly : Bool) :
    StandsBy s (failJobCore t a requeueOnly).1 := by
  have hack := h.ackDel a.group a.entryId
  unfold GlideMq.failJobCore
  simp only
  split
  · exact hack.forgetListClaim _ _
  have hcounted : StandsBy s (if requeueOnly then GlideMq.ackDel t a.group a.entryId
      else (GlideMq.ackDel t a.group a.entryId).hset a.jobId fun j => { j with attemptsMade := j.attemptsMade + 1 }) := by
    split
    · exact hack
    · exact hack.hset hJ _
  rw [apply_ite Prod.fst]
  exact .ite (hcounted.failRetry hJ requeueOnly) (hcounted.failFinal hJ _)

end

/-! ## Chain calls -/

/-- The queue of a chain call when its job is settled. -/
def settleInChain (s : Queue) (a : CompleteNextArgs) : Queue :=
  let t := ackDel (beginChain s) a.group a.entryId
  if (s.job a.jobId).state = none then forgetListClaim t a.jobId a.entryId
  else (completeInChain t a (s.job a.jobId)).1

/-- The job that a chain call settles is not in the list, and the jobs of the list are still to run. -/
def SettlesOther (s : Queue) (J : JobId) : Prop := J ∉ s.priorityList ∧ ∀ K ∈ s.priorityList, s.ToRun K

section

variable {s : Queue}

theorem StandsBy.beginChain (h : ListInOrder s) {J : JobId} (hs : SettlesOther s J) : StandsBy s (beginChain s) :=
  (StandsBy.start h hs.2).of_keys rfl rfl rfl rfl rfl

theorem settleInChain_standsBy (h : ListInOrder s) {a : CompleteNextArgs} (hs : SettlesOther s a.jobId) :
    StandsBy s (settleInChain s a) := by
  have hack := (StandsBy.beginChain h hs).ackDel a.group a.entryId
  unfold settleInChain
  simp only
  split
  · exact hack.forgetListClaim _ _
  · exact hack.completeInChain hs.1 _

/-- The jobs that a search pops, unless the queue is paused. -/
def chainPops (s : Queue) (a : FetchArgs) : List JobId := if s.paused then [] else fetchPops s a

theorem chain_popsOff (s : Queue) (a : FetchArgs) :
    PopsOff s (if s.paused then (s, ChainNext.none) else fetchNextForChain s a).1 (chainPops s a) := by
  unfold chainPops
  split
  · exact .none (.refl s)
  · exact fetchNextForChain_popsOff s a

theorem finishChainReply_keepsList (s : Queue) (next : ChainNext) (ns : List ParentNotify) :
    KeepsList s (finishChainReply s next ns).1 := .of_jobs rfl rfl

theorem completeAndFetchNext_popsOff {a : CompleteNextArgs} (hrevoked : (s.job a.jobId).revoked = false) :
    PopsOff (settleInChain s a) (completeAndFetchNext s a).1 (chainPops (settleInChain s a) a.fetch) := by
  have hpops := chain_popsOff (settleInChain s a) a.fetch
  have hend : (completeAndFetchNext s a).1 = (finishChainReply (if (settleInChain s a).paused
      then (settleInChain s a, ChainNext.none) else fetchNextForChain (settleInChain s a) a.fetch).1 .none []).1 := by
    unfold completeAndFetchNext settleInChain
    simp only [hrevoked, Bool.false_eq_true, if_false]
    split <;> rfl
  rw [hend]
  exact hpops.keepsList (finishChainReply_keepsList _ _ _)

theorem failAndFetchNext_popsOff (a : FailArgs) (consumer : String) :
    PopsOff (failJobCore (beginChain s) a false).1 (failAndFetchNext s a consumer).1
      (if consumer = "" then [] else chainPops (failJobCore (beginChain s) a false).1 (a.fetch consumer)) := by
  unfold failAndFetchNext
  simp only
  refine PopsOff.keepsList ?_ (finishChainReply_keepsList _ _ _)
  by_cases hconsumer : consumer = ""
  · simp only [hconsumer, true_or, if_true]
    exact .none (.refl _)
  · simp only [hconsumer, false_or, if_false]
    exact chain_popsOff _ _

end

end GlideMq
