import GlideMq.Model.Promote

/-!
# What group promotion leaves alone

Releasing a slot, closing a hole and promoting parked jobs touch the group, its wait queue, the
stream, the failed set and the outcome fields of job hashes, and nothing else.
-/

namespace GlideMq

open Queue

/-! ## Frames -/

/-- The fields of a job hash that group promotion leaves alone. -/
def Job.fixed (j : Job) : Job :=
  { j with state := none, failedReason := none, finishedOn := none, retainedSlot := false }

/-- The keys that group promotion leaves alone. -/
def Queue.frame (s : Queue) : Queue :=
  { s with
    jobs := fun J => (s.jobs J).map Job.fixed
    stream := ∅
    failed := ∅
    ratelimited := ∅
    groupq := fun _ => ∅
    returning := fun _ => ∅
    groups := fun _ => {}
    orderdone := fun _ => 0
    orderdonePending := fun _ => []
    schedulers := fun _ => none
    metricsFailed := fun _ => none
    activationFailures := none }

section

variable {s t : Queue}

theorem frame_jobs_eq (h : t.frame = s.frame) (J : JobId) :
    (t.jobs J).map Job.fixed = (s.jobs J).map Job.fixed := congrFun (congrArg Queue.jobs h) J

theorem frame_jobs_none (h : t.frame = s.frame) (J : JobId) : t.jobs J = none ↔ s.jobs J = none := by
  have := congrArg Option.isSome (frame_jobs_eq h J)
  simp only [Option.isSome_map] at this
  rw [← Option.not_isSome_iff_eq_none, ← Option.not_isSome_iff_eq_none, this]

theorem frame_idKey (h : t.frame = s.frame) : t.idKey = s.idKey := by
  have := congrArg Queue.idKey h; exact this

theorem frame_job {α : Type} (f : Job → α) (hf : ∀ j, f j.fixed = f j) (h : t.frame = s.frame)
    (J : JobId) : f (t.job J) = f (s.job J) := by
  have := frame_jobs_eq h J
  unfold Queue.job
  cases ht : t.jobs J <;> cases hs : s.jobs J <;> simp [ht, hs] at this ⊢
  rename_i a b
  rw [← hf a, ← hf b, this]

end

/-! ## Commands -/

theorem frame_hmod (s : Queue) (J : JobId) (f : Job → Job) (hf : ∀ j, (f j).fixed = j.fixed) :
    (s.hmod J f).frame = s.frame := by
  have : (fun K => ((s.hmod J f).jobs K).map Job.fixed) = fun K => (s.jobs K).map Job.fixed := by
    funext K
    simp only [hmod_jobs, Function.update_apply]
    split
    · rename_i h; subst h
      cases s.jobs K <;> simp [hf]
    · rfl
  unfold Queue.frame
  rw [this]; rfl

theorem hset_eq_hmod {s : Queue} {J : JobId} (h : s.jobs J ≠ none) (f : Job → Job) :
    s.hset J f = s.hmod J f := by
  obtain ⟨j, hj⟩ := Option.ne_none_iff_exists'.mp h
  simp [hset, hmod, hj]

theorem frame_hset {s : Queue} {J : JobId} (h : s.jobs J ≠ none) (f : Job → Job)
    (hf : ∀ j, (f j).fixed = j.fixed) : (s.hset J f).frame = s.frame := by
  rw [hset_eq_hmod h]; exact frame_hmod s J f hf

theorem frame_setState {s : Queue} {J : JobId} (h : s.jobs J ≠ none) (st : JobState) :
    (s.setState J st).frame = s.frame := frame_hset h _ fun _ => rfl

theorem frame_setFailed {s : Queue} {J : JobId} (h : s.jobs J ≠ none) (reason : String) (t : Int) :
    (s.setFailed J reason t).frame = s.frame := frame_hset h _ fun _ => rfl

@[simp] theorem frame_hgroup (s : Queue) (gk : GroupKey) (f : GroupHash → GroupHash) :
    (s.hgroup gk f).frame = s.frame := rfl
@[simp] theorem frame_zremGroupq (s : Queue) (gk : GroupKey) (J : JobId) :
    (s.zremGroupq gk J).frame = s.frame := rfl
@[simp] theorem frame_zaddGroupq (s : Queue) (gk : GroupKey) (J : JobId) (x : Int) :
    (s.zaddGroupq gk J x).frame = s.frame := rfl
@[simp] theorem frame_zremReturning (s : Queue) (gk : GroupKey) (J : JobId) :
    (s.zremReturning gk J).frame = s.frame := rfl
@[simp] theorem frame_zaddRatelimited (s : Queue) (gk : GroupKey) (x : Int) :
    (s.zaddRatelimited gk x).frame = s.frame := rfl
@[simp] theorem frame_zaddFailed (s : Queue) (J : JobId) (x : Int) :
    (s.zaddFailed J x).frame = s.frame := rfl
@[simp] theorem frame_xaddJob (s : Queue) (J : JobId) : (s.xaddJob J).frame = s.frame := rfl
@[simp] theorem frame_recordFailed (s : Queue) (t d : Int) : (recordFailed s t d).frame = s.frame :=
  rfl
@[simp] theorem frame_setNextSeq (s : Queue) (gk : GroupKey) (n : Nat) :
    (setNextSeq s gk n).frame = s.frame := rfl
@[simp] theorem frame_advancePastSkips (s : Queue) (gk : GroupKey) (n : Nat) :
    (advancePastSkips s gk n).frame = s.frame := rfl
@[simp] theorem frame_refill (s : Queue) (gk : GroupKey) (t : Int) :
    (refill s gk t).1.frame = s.frame := rfl

@[simp] theorem frame_markOrderingDone (s : Queue) (J : JobId) (k : Option GroupKey)
    (n : Option Nat) : (markOrderingDone s J k n).frame = s.frame := by
  unfold markOrderingDone
  simp only
  repeat' split
  all_goals rfl

@[simp] theorem frame_advanceRepeatAfterComplete (s : Queue) (J : JobId) (t : Int) :
    (advanceRepeatAfterComplete s J t).frame = s.frame := by
  unfold advanceRepeatAfterComplete
  repeat' split
  all_goals rfl

@[simp] theorem frame_noteActivationFailure (s : Queue) (J : JobId) (r : String) :
    (noteActivationFailure s J r).frame = s.frame := by
  unfold noteActivationFailure
  split <;> rfl

@[simp] theorem frame_consumeOrderedTombstone (s : Queue) (gk : GroupKey) (n : Nat) (J : JobId)
    (x : Int) : (consumeOrderedTombstone s gk n J x).1.frame = s.frame := by
  unfold consumeOrderedTombstone
  split
  · rfl
  · exact frame_markOrderingDone s J _ _

@[simp] theorem frame_skipToNext (s : Queue) (gk : GroupKey) (n : Nat) :
    (skipToNext s gk n).1.frame = s.frame := by
  unfold skipToNext
  simp only
  repeat' split
  all_goals rfl

@[simp] theorem frame_clearRetainedSlot (s : Queue) (J : JobId) :
    (clearRetainedSlot s J).frame = s.frame := frame_hmod _ _ _ fun _ => rfl

@[simp] theorem frame_closeOrderingHole (s : Queue) (J : JobId) :
    (closeOrderingHole s J).frame = s.frame := by
  unfold closeOrderingHole
  simp only
  split
  · rfl
  split
  · rfl
  split
  · rw [frame_hgroup, frame_clearRetainedSlot]; rfl
  · rfl

/-! ## Promotion -/

theorem frame_failOversize {s : Queue} {J : JobId} (h : s.jobs J ≠ none) (gk : GroupKey) (t : Int) :
    (failOversize s J gk t).frame = s.frame := by
  unfold failOversize
  rw [frame_advanceRepeatAfterComplete, frame_setFailed, frame_markOrderingDone, frame_zaddFailed]
  exact fun hn => h ((frame_jobs_none (frame_markOrderingDone (s.zaddFailed J t) J _ _) J).mp hn)

theorem frame_failHead {s : Queue} {gk : GroupKey} {J : JobId} (h : s.jobs J ≠ none) (t : Int) :
    (failHead s gk J t).frame = s.frame := by
  unfold failHead
  simp only [frame_closeOrderingHole, frame_recordFailed, frame_noteActivationFailure]
  exact frame_failOversize (by exact h) gk t

theorem frame_peekHead (gk : GroupKey) (now tokens : Int) :
    ∀ (passes : Nat) (s : Queue) (n : Nat), (peekHead gk now tokens passes s n).1.frame = s.frame
  | 0, s, n => rfl
  | passes + 1, s, n => by
    rw [peekHead]
    split
    · rfl
    · rename_i J score _
      split
      · rw [frame_peekHead, frame_consumeOrderedTombstone, frame_zremGroupq]
      · rename_i job hjob
        simp only
        split
        · rw [frame_peekHead, frame_failHead (by simp [hjob])]
        · split
          · split <;> rfl
          · rfl

@[simp] theorem frame_tokenGate (s : Queue) (gk : GroupKey) (now serverNow : Int) :
    (tokenGate s gk now serverNow).1.frame = s.frame := by
  unfold tokenGate
  simp only
  split
  · rw [frame_peekHead, frame_refill]
  · rfl

theorem jobs_ne_none_of_stateOf {s : Queue} {J : JobId} {st : JobState} (h : s.stateOf J = some st) :
    s.jobs J ≠ none := by
  intro hn; simp [Queue.stateOf, hn] at h

theorem frame_promoteJobOfGroup {s : Queue} {J : JobId} (h : s.jobs J ≠ none) :
    (promoteJobOfGroup s J).frame = s.frame := by
  unfold promoteJobOfGroup
  rw [frame_setState (by exact h), frame_xaddJob]

@[simp] theorem frame_promoteLoop (gk : GroupKey) :
    ∀ (iter left : Nat) (s : Queue) (n : Nat), (promoteLoop gk iter left s n).frame = s.frame
  | 0, _, s, _ => by rw [promoteLoop]
  | _ + 1, 0, s, _ => by rw [promoteLoop]
  | iter + 1, left + 1, s, n => by
    rw [promoteLoop]
    split
    · rfl
    · rename_i J _ _
      simp only
      split
      · rw [frame_promoteLoop, frame_zremGroupq]
      · rename_i hst
        split
        · rfl
        · rw [frame_promoteLoop, frame_promoteJobOfGroup, frame_zremGroupq]
          exact jobs_ne_none_of_stateOf (not_not.mp hst)

@[simp] theorem frame_promoteFromGroupq (s : Queue) (gk : GroupKey) (active now serverNow : Int) :
    (promoteFromGroupq s gk active now serverNow).frame = s.frame := by
  unfold promoteFromGroupq
  simp only
  split
  · rfl
  split
  · rfl
  split
  · rfl
  have htoken := frame_tokenGate s gk now serverNow
  split
  all_goals
    rename_i heq
    rw [heq] at htoken
  · exact htoken
  · exact htoken
  · rw [frame_promoteLoop, frame_skipToNext]; exact htoken

@[simp] theorem frame_releaseSlot (s : Queue) (J : JobId) (gk : GroupKey) :
    (releaseSlot s J gk).frame = s.frame := by
  unfold releaseSlot
  rw [frame_hgroup, frame_zremReturning, frame_clearRetainedSlot]

@[simp] theorem frame_releaseGroupSlotAndPromote (s : Queue) (J : JobId) (now serverNow : Int)
    (hint : Option GroupKey) (keepSlot : Bool) :
    (releaseGroupSlotAndPromote s J now serverNow hint keepSlot).frame = s.frame := by
  unfold releaseGroupSlotAndPromote
  simp only
  split
  · rfl
  · split <;> simp

@[simp] theorem frame_closeOrderingHoleAndPromote (s : Queue) (J : JobId) (now serverNow : Int) :
    (closeOrderingHoleAndPromote s J now serverNow).frame = s.frame := by
  unfold closeOrderingHoleAndPromote
  simp only
  split
  · simp
  · split <;> simp

/-! ## Expiry -/

theorem frame_expireJob {s : Queue} {J : JobId} (h : s.jobs J ≠ none) (now serverNow : Int)
    (st : Option JobState) (k : Option GroupKey) (n : Option Nat) (g : Option GroupKey) :
    (expireJob s J now serverNow st k n g).frame = s.frame := by
  unfold expireJob
  have hfail : ((s.zaddFailed J now).setFailed J "expired" now).frame = s.frame :=
    frame_setFailed (by exact h) _ _
  split
  · rfl
  · simp only
    split <;> simp [hfail]

theorem frame_checkExpired (s : Queue) (J : JobId) (now serverNow : Int) :
    (checkExpired s J now serverNow).1.frame = s.frame := by
  unfold checkExpired
  split
  · rename_i h
    refine frame_expireJob ?_ _ _ _ _ _ _
    intro hn
    simp [Queue.job, hn, isExpired] at h
  · rfl

end GlideMq
