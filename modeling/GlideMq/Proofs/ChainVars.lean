import GlideMq.Model.Chain
import GlideMq.Proofs.Core

/-!
# The variables of a chain call

A chain call notes the jobs that failed at activation. No function reads the notes, so a function
does the same with and without them. The same holds for the failure metrics.
-/

namespace GlideMq

open Queue

/-- The queue without the variables of a chain call, and without the failure metrics if `m` is
set. -/
def Queue.blank (m : Bool) (s : Queue) : Queue :=
  { s with
    activationFailures := none
    chainListsEmpty := false
    metricsFailed := if m then fun _ => none else s.metricsFailed }

section

variable {m : Bool} {s t : Queue}

theorem key_of_blank {α : Type} (f : Queue → α) (hf : ∀ q, f (q.blank m) = f q)
    (h : t.blank m = s.blank m) : f t = f s := by
  rw [← hf, h, hf]

theorem jobs_of_blank (h : t.blank m = s.blank m) : t.jobs = s.jobs :=
  key_of_blank Queue.jobs (fun _ => rfl) h

theorem groups_of_blank (h : t.blank m = s.blank m) : t.groups = s.groups :=
  key_of_blank Queue.groups (fun _ => rfl) h

theorem groupq_of_blank (h : t.blank m = s.blank m) : t.groupq = s.groupq :=
  key_of_blank Queue.groupq (fun _ => rfl) h

theorem job_of_blank (h : t.blank m = s.blank m) (J : JobId) : t.job J = s.job J := by
  unfold Queue.job
  rw [jobs_of_blank h]

theorem stateOf_of_blank (h : t.blank m = s.blank m) (J : JobId) : t.stateOf J = s.stateOf J := by
  unfold Queue.stateOf
  rw [jobs_of_blank h]

theorem blank_congr {f : Queue → Queue} (hf : ∀ q, (f q).blank m = (f (q.blank m)).blank m)
    (h : t.blank m = s.blank m) : (f t).blank m = (f s).blank m := by
  rw [hf t, hf s, h]

end

/-! ## Writes -/

section

variable (m : Bool) (s : Queue)

@[simp] theorem blank_noteActivationFailure (J : JobId) (r : String) :
    (noteActivationFailure s J r).blank m = s.blank m := by
  unfold noteActivationFailure
  split <;> rfl

@[simp] theorem blank_recordFailed (x d : Int) : (recordFailed s x d).blank true = s.blank true := rfl

@[simp] theorem blank_beginChain : (beginChain s).blank m = s.blank m := rfl

end

section

variable {m : Bool} {s t : Queue} (h : t.blank m = s.blank m)

include h

theorem blank_hset (J : JobId) (f : Job → Job) : (t.hset J f).blank m = (s.hset J f).blank m :=
  blank_congr (f := (hset · J f)) (fun _ => by cases m <;> rfl) h

theorem blank_hmod (J : JobId) (f : Job → Job) : (t.hmod J f).blank m = (s.hmod J f).blank m :=
  blank_congr (f := (hmod · J f)) (fun _ => by cases m <;> rfl) h

theorem blank_hgroup (gk : GroupKey) (f : GroupHash → GroupHash) :
    (t.hgroup gk f).blank m = (s.hgroup gk f).blank m :=
  blank_congr (f := (hgroup · gk f)) (fun _ => by cases m <;> rfl) h

theorem blank_zaddFailed (J : JobId) (x : Int) :
    (t.zaddFailed J x).blank m = (s.zaddFailed J x).blank m :=
  blank_congr (f := (zaddFailed · J x)) (fun _ => by cases m <;> rfl) h

theorem blank_zaddRatelimited (gk : GroupKey) (x : Int) :
    (t.zaddRatelimited gk x).blank m = (s.zaddRatelimited gk x).blank m :=
  blank_congr (f := (zaddRatelimited · gk x)) (fun _ => by cases m <;> rfl) h

theorem blank_zremGroupq (gk : GroupKey) (J : JobId) :
    (t.zremGroupq gk J).blank m = (s.zremGroupq gk J).blank m :=
  blank_congr (f := (zremGroupq · gk J)) (fun _ => by cases m <;> rfl) h

theorem blank_zaddGroupq (gk : GroupKey) (J : JobId) (x : Int) :
    (t.zaddGroupq gk J x).blank m = (s.zaddGroupq gk J x).blank m :=
  blank_congr (f := (zaddGroupq · gk J x)) (fun _ => by cases m <;> rfl) h

theorem blank_zremReturning (gk : GroupKey) (J : JobId) :
    (t.zremReturning gk J).blank m = (s.zremReturning gk J).blank m :=
  blank_congr (f := (zremReturning · gk J)) (fun _ => by cases m <;> rfl) h

theorem blank_ackDel (group : Group) (e : Option Nat) :
    (ackDel t group e).blank m = (ackDel s group e).blank m :=
  blank_congr (f := (ackDel · group e)) (fun q => by cases e <;> cases m <;> rfl) h

theorem blank_recordFailed_congr (x d : Int) :
    (recordFailed t x d).blank m = (recordFailed s x d).blank m :=
  blank_congr (f := (recordFailed · x d)) (fun _ => by cases m <;> rfl) h

theorem blank_markOrderingDone (J : JobId) (k : Option GroupKey) (n : Option Nat) :
    (markOrderingDone t J k n).blank m = (markOrderingDone s J k n).blank m := by
  refine blank_congr (f := (markOrderingDone · J k n)) (fun q => ?_) h
  unfold markOrderingDone
  simp only
  have hjobs : (q.blank m).jobs = q.jobs := rfl
  rw [hjobs]
  cases k <|> ((q.jobs J).getD {}).orderingKey <|> ((q.jobs J).getD {}).groupKey with
  | none => cases m <;> rfl
  | some key =>
    simp only
    have hdone : (q.blank m).orderdone = q.orderdone := rfl
    have hpending : (q.blank m).orderdonePending = q.orderdonePending := rfl
    rw [hdone, hpending]
    repeat' split
    all_goals cases m <;> rfl

theorem blank_advanceRepeatAfterComplete (J : JobId) (x : Int) :
    (advanceRepeatAfterComplete t J x).blank m = (advanceRepeatAfterComplete s J x).blank m := by
  refine blank_congr (f := (advanceRepeatAfterComplete · J x)) (fun q => ?_) h
  unfold advanceRepeatAfterComplete
  have hjobs : (q.blank m).jobs = q.jobs := rfl
  have hschedulers : (q.blank m).schedulers = q.schedulers := rfl
  rw [hjobs, hschedulers]
  repeat' split
  all_goals cases m <;> rfl

theorem blank_failOversize (J : JobId) (gk : GroupKey) (now : Int) :
    (failOversize t J gk now).blank m = (failOversize s J gk now).blank m := by
  have hadd := blank_zaddFailed h J now
  unfold failOversize
  simp only
  rw [job_of_blank hadd]
  exact blank_advanceRepeatAfterComplete
    (blank_hset (blank_markOrderingDone hadd J (some gk) _) J _) J now

theorem blank_skipToNext (gk : GroupKey) (n : Nat) :
    (skipToNext t gk n).1.blank m = (skipToNext s gk n).1.blank m ∧
      (skipToNext t gk n).2 = (skipToNext s gk n).2 := by
  unfold skipToNext
  simp only
  split
  · exact ⟨h, rfl⟩
  · have hadvance : (advancePastSkips t gk n).blank m = (advancePastSkips s gk n).blank m :=
      blank_hgroup h gk _
    rw [groups_of_blank h]
    refine ⟨?_, rfl⟩
    simp only
    split
    · exact blank_hgroup hadvance gk _
    · exact hadvance

theorem blank_refill (gk : GroupKey) (x : Int) :
    (refill t gk x).1.blank m = (refill s gk x).1.blank m ∧ (refill t gk x).2 = (refill s gk x).2 := by
  unfold refill
  rw [groups_of_blank h]
  exact ⟨blank_hgroup h gk _, rfl⟩

theorem blank_consumeOrderedTombstone (gk : GroupKey) (n : Nat) (J : JobId) (x : Int) :
    (consumeOrderedTombstone t gk n J x).1.blank m =
        (consumeOrderedTombstone s gk n J x).1.blank m ∧
      (consumeOrderedTombstone t gk n J x).2 = (consumeOrderedTombstone s gk n J x).2 := by
  unfold consumeOrderedTombstone
  split
  · exact ⟨h, rfl⟩
  · have hdone := blank_markOrderingDone h J (some gk) (some n)
    simp only
    rw [groups_of_blank hdone]
    exact ⟨blank_hgroup (blank_hgroup hdone gk _) gk _, rfl⟩

theorem blank_clearRetainedSlot (J : JobId) :
    (clearRetainedSlot t J).blank m = (clearRetainedSlot s J).blank m := blank_hmod h J _

theorem blank_closeOrderingHole (J : JobId) :
    (closeOrderingHole t J).blank m = (closeOrderingHole s J).blank m := by
  refine blank_congr (f := (closeOrderingHole · J)) (fun q => ?_) h
  unfold closeOrderingHole
  have hjobs : (q.blank m).jobs = q.jobs := rfl
  simp only [hjobs]
  repeat' split
  all_goals cases m <;> rfl

/-! ## Promotion -/

theorem blank_failHead (gk : GroupKey) (J : JobId) (now : Int) :
    (failHead t gk J now).blank m = (failHead s gk J now).blank m := by
  have hfail := blank_failOversize (blank_zremGroupq h gk J) J gk now
  unfold failHead
  simp only
  rw [job_of_blank h]
  refine blank_closeOrderingHole (blank_recordFailed_congr ?_ now _) J
  rwa [blank_noteActivationFailure, blank_noteActivationFailure]

omit h in
theorem blank_peekHead (gk : GroupKey) (now tokens : Int) (passes : Nat) :
    ∀ {s t : Queue}, t.blank m = s.blank m → ∀ n : Nat,
      (peekHead gk now tokens passes t n).1.blank m = (peekHead gk now tokens passes s n).1.blank m ∧
        (peekHead gk now tokens passes t n).2 = (peekHead gk now tokens passes s n).2 := by
  induction passes with
  | zero => exact fun h n => ⟨h, rfl⟩
  | succ passes ih =>
    intro s t h n
    rw [peekHead, peekHead, groupq_of_blank h, jobs_of_blank h, groups_of_blank h]
    split
    · exact ⟨h, rfl⟩
    · rename_i J score hq
      split
      · obtain ⟨htomb, hnext⟩ := blank_consumeOrderedTombstone (blank_zremGroupq h gk J) gk n J score
        simp only
        rw [hnext]
        exact ih htomb _
      · simp only
        split
        · exact ih (blank_failHead h gk J now) n
        split
        · split
          · exact ⟨h, rfl⟩
          · exact ⟨blank_zaddRatelimited h gk _, rfl⟩
        · exact ⟨h, rfl⟩

theorem blank_tokenGate (gk : GroupKey) (now serverNow : Int) :
    (tokenGate t gk now serverNow).1.blank m = (tokenGate s gk now serverNow).1.blank m ∧
      (tokenGate t gk now serverNow).2 = (tokenGate s gk now serverNow).2 := by
  obtain ⟨hrefill, htokens⟩ := blank_refill h gk serverNow
  unfold tokenGate
  simp only [groups_of_blank h]
  split
  · rw [htokens]
    exact blank_peekHead gk now _ 10 hrefill _
  · exact ⟨h, rfl⟩

omit h in
theorem blank_promoteLoop (gk : GroupKey) (iter : Nat) :
    ∀ (left : Nat) {s t : Queue}, t.blank m = s.blank m → ∀ n : Nat,
      (promoteLoop gk iter left t n).blank m = (promoteLoop gk iter left s n).blank m := by
  induction iter with
  | zero => exact fun left s t h n => by rwa [promoteLoop, promoteLoop]
  | succ iter ih =>
    intro left s t h n
    cases left with
    | zero => rwa [promoteLoop, promoteLoop]
    | succ left =>
      rw [promoteLoop, promoteLoop, groupq_of_blank h]
      split
      · exact h
      · rename_i J score hq
        have hrem := blank_zremGroupq h gk J
        have hpromote : (promoteJobOfGroup (t.zremGroupq gk J) J).blank m =
            (promoteJobOfGroup (s.zremGroupq gk J) J).blank m :=
          blank_congr (f := (promoteJobOfGroup · J)) (fun _ => by cases m <;> rfl) hrem
        simp only
        rw [stateOf_of_blank hrem, job_of_blank hrem]
        split
        · exact ih (left + 1) hrem n
        split
        · exact blank_zaddGroupq hrem gk J _
        · exact ih left hpromote _

theorem blank_promoteFromGroupq (gk : GroupKey) (active now serverNow : Int) :
    (promoteFromGroupq t gk active now serverNow).blank m =
      (promoteFromGroupq s gk active now serverNow).blank m := by
  unfold promoteFromGroupq
  simp only [groups_of_blank h, groupq_of_blank h]
  split
  · exact h
  split
  · exact h
  split
  · exact blank_zaddRatelimited h gk _
  obtain ⟨hgate, hresult⟩ := blank_tokenGate h gk now serverNow
  generalize tokenGate t gk now serverNow = r at *
  generalize tokenGate s gk now serverNow = r' at *
  obtain ⟨u, n, check⟩ := r
  obtain ⟨u', n', check'⟩ := r'
  simp only [Prod.mk.injEq] at hgate hresult
  obtain ⟨rfl, rfl⟩ := hresult
  cases check with
  | wait => exact hgate
  | again => exact blank_zaddRatelimited hgate gk now
  | pass =>
    obtain ⟨hskip, hnext⟩ := blank_skipToNext hgate gk n
    simp only
    rw [hnext]
    exact blank_promoteLoop gk _ _ hskip _

theorem blank_releaseGroupSlotAndPromote (J : JobId) (now serverNow : Int)
    (hint : Option GroupKey) (keepSlot : Bool) :
    (releaseGroupSlotAndPromote t J now serverNow hint keepSlot).blank m =
      (releaseGroupSlotAndPromote s J now serverNow hint keepSlot).blank m := by
  unfold releaseGroupSlotAndPromote
  simp only [job_of_blank h, groups_of_blank h]
  split
  · exact h
  · rename_i gk hgk
    have hreleased : (releaseSlot t J gk).blank m = (releaseSlot s J gk).blank m :=
      blank_hgroup (blank_zremReturning (blank_clearRetainedSlot h J) gk J) gk _
    split
    · exact blank_promoteFromGroupq h gk _ now serverNow
    · exact blank_promoteFromGroupq hreleased gk _ now serverNow

theorem blank_closeOrderingHoleAndPromote (J : JobId) (now serverNow : Int) :
    (closeOrderingHoleAndPromote t J now serverNow).blank m =
      (closeOrderingHoleAndPromote s J now serverNow).blank m := by
  have hclosed := blank_closeOrderingHole h J
  have hlimited : (closeOrderingHole t J).ratelimited = (closeOrderingHole s J).ratelimited :=
    key_of_blank Queue.ratelimited (fun _ => rfl) hclosed
  unfold closeOrderingHoleAndPromote
  simp only [job_of_blank hclosed, hlimited]
  split
  · exact hclosed
  split
  · exact hclosed
  · exact blank_releaseGroupSlotAndPromote hclosed J now serverNow _ true

end

end GlideMq
