import GlideMq.Proofs.IssuedSeqs

/-!
# Distinct sequences

No two jobs of an ordering key have one sequence, whichever calls gave them out: an add, a flow, a
deduplicated add or a retry.
-/

namespace GlideMq

open Queue Redis

/-- A sequence of a key belongs to one job. -/
def SeqsDistinct (s : Queue) : Prop :=
  ∀ J K k, (s.job J).groupKey = some k → (s.job K).groupKey = some k → 0 < (s.job J).orderingSeq →
    (s.job J).orderingSeq = (s.job K).orderingSeq → J = K

section

variable {s₀ s t : Queue} {c : Option Call} {J K : JobId}

theorem SeqsDistinct.keep (h : SeqsDistinct s)
    (hjobs : ∀ J, (t.job J).order = (s.job J).order ∨ (t.job J).order = (none, none, 0)) : SeqsDistinct t := by
  intro J K k hJ hK hpos heq
  have hgone : ∀ {J}, (t.job J).order = (none, none, 0) → (t.job J).groupKey ≠ some k := by
    intro J horder hkey
    simp [Job.order, hkey] at horder
  rcases hjobs J with hsame | hnone
  · rcases hjobs K with hsame' | hnone'
    · simp only [Job.order, Prod.mk.injEq] at hsame hsame'
      rw [hsame.1] at hJ
      rw [hsame'.1] at hK
      rw [hsame.2.2] at hpos heq
      rw [hsame'.2.2] at heq
      exact h J K k hJ hK hpos heq
    · exact absurd hK (hgone hnone')
  · exact absurd hJ (hgone hnone)

theorem SeqsDistinct.of_life (h : SeqsDistinct s) (ht : t.life = s.life) : SeqsDistinct t :=
  h.keep fun J => .inl (order_of_life ht J)

theorem SeqsDistinct.of_frame (h : SeqsDistinct s) (ht : t.frame = s.frame) : SeqsDistinct t :=
  h.keep fun J => .inl (order_of_frame ht J)

theorem SeqsDistinct.of_jobs (h : SeqsDistinct s) (hj : t.jobs = s.jobs) : SeqsDistinct t := by
  refine h.keep fun J => .inl ?_
  unfold Queue.job
  rw [hj]

theorem SeqsDistinct.unlink (h : SeqsDistinct s) (J : JobId) : SeqsDistinct (s.unlinkJob J) := by
  refine h.keep fun K => ?_
  by_cases hK : K = J
  · subst hK
    exact .inr (order_of_jobs_none (by simp))
  · exact .inl (by simp [Queue.job, hK])

theorem SeqsDistinct.hset (h : SeqsDistinct s) (J : JobId) {f : Job → Job}
    (hf : ∀ j, (f j).order = j.order) : SeqsDistinct (s.hset J f) := by
  refine h.keep fun K => .inl ?_
  unfold Queue.job
  simp only [hset_jobs, Function.update_apply]
  split
  · rename_i hK
    subst hK
    exact hf _
  · rfl

theorem SeqsDistinct.doSlot (h : SeqsDistinct s) (J : JobId) (slot : Slot) : SeqsDistinct (s.doSlot J slot) := by
  cases slot with
  | leave => exact h
  | retain => exact h.hset J (f := fun j => { j with retainedSlot := true }) fun _ => rfl
  | release hint =>
    change SeqsDistinct (afterRelease s J hint)
    unfold afterRelease
    split
    · exact h
    · exact h.of_frame (frame_releaseSlot s J _)
  | closeHole => exact h.of_frame (frame_closeOrderingHole s J)
  | undo =>
    change SeqsDistinct (undoClaim s J)
    unfold undoClaim
    simp only
    split
    · exact h
    · exact h.of_jobs rfl
  | take gk => exact h.of_jobs rfl

theorem SeqsDistinct.apply (h : SeqsDistinct s) (m : Move) : SeqsDistinct (m.apply s) := by
  have hput : SeqsDistinct ((m.detach s).put m.job m.place) :=
    h.of_jobs ((put_jobs _ _ _).trans (detach_jobs s m))
  have hstate : SeqsDistinct (((m.detach s).put m.job m.place).setState m.job m.state) :=
    hput.hset m.job fun _ => rfl
  exact hstate.doSlot m.job m.slot

theorem SeqsDistinct.withdraw (h : SeqsDistinct s) (m : Move) : SeqsDistinct (m.withdraw s) :=
  (h.of_jobs (detach_jobs s m)).doSlot m.job m.slot

theorem SeqsDistinct.issue (h : SeqsDistinct s) (hissued : SeqsIssued s)
    (hnew : ∀ k, (t.job J).groupKey = some k →
      s.ordering k < (t.job J).orderingSeq ∨ (t.job J).order = (s.job J).order)
    (hjobs : ∀ K, K ≠ J → t.jobs K = s.jobs K) : SeqsDistinct t := by
  have hjob : ∀ {K}, K ≠ J → t.job K = s.job K := by
    intro K hK
    unfold Queue.job
    rw [hjobs K hK]
  -- A sequence that was not issued yet belongs to nobody else.
  have hfresh : ∀ K k, K ≠ J → (s.job K).groupKey = some k → s.ordering k < (t.job J).orderingSeq →
      (s.job K).orderingSeq ≠ (t.job J).orderingSeq := by
    intro K k hK hkey hlt heq
    have hle := hissued.issued K k hkey
    omega
  intro A B k hA hB hpos heq
  by_cases hAJ : A = J <;> by_cases hBJ : B = J
  · rw [hAJ, hBJ]
  · subst hAJ
    rw [hjob hBJ] at hB heq
    rcases hnew k hA with hlt | hsame
    · exact absurd heq.symm (hfresh B k hBJ hB hlt)
    · simp only [Job.order, Prod.mk.injEq] at hsame
      rw [hsame.1] at hA
      rw [hsame.2.2] at hpos heq
      exact h A B k hA hB hpos heq
  · subst hBJ
    rw [hjob hAJ] at hA hpos heq
    rcases hnew k hB with hlt | hsame
    · exact absurd heq (hfresh A k hAJ hA hlt)
    · simp only [Job.order, Prod.mk.injEq] at hsame
      rw [hsame.1] at hB
      rw [hsame.2.2] at heq
      exact h A B k hA hB hpos heq
  · rw [hjob hAJ] at hA hpos heq
    rw [hjob hBJ] at hB heq
    exact h A B k hA hB hpos heq

theorem lt_issueSeq (s : Queue) (k : GroupKey) : s.ordering k < (issueSeq s (some k)).2 := by
  simp [issueSeq]

theorem SeqsDistinct.create (h : SeqsDistinct s) (hissued : SeqsIssued s) {n : NewJob} (hn : n.Ok) :
    SeqsDistinct (s.create J n) := by
  have hjob : (s.create J n).job J = n.fields (issueSeq s n.key).2 (s.job J) := by
    unfold Queue.create issueSeq Queue.job
    cases n.key <;> simp
  have hlife := hn.job (issueSeq s n.key).2 (s.job J)
  rw [← hjob] at hlife
  have hgk : ((s.create J n).job J).groupKey =
      if n.key.isSome then n.key else (s.job J).groupKey := congrArg Job.groupKey hlife
  have hok : ((s.create J n).job J).life.orderingKey = (s.job J).life.orderingKey := by rw [hlife]
  have hok' : ((s.create J n).job J).orderingKey = (s.job J).orderingKey := hok
  have hseq : ((s.create J n).job J).orderingSeq =
      if n.key.isSome then (issueSeq s n.key).2 else (s.job J).orderingSeq :=
    congrArg Job.orderingSeq hlife
  refine h.issue (J := J) hissued ?_ fun K hK => create_jobs_of_ne hK n
  intro k hk
  cases hkey : n.key with
  | none => exact .inr (by simp [Job.order, hgk, hok', hseq, hkey])
  | some k' =>
    rw [hgk, hkey] at hk
    obtain rfl : k' = k := by simpa using hk
    refine .inl ?_
    rw [hseq, hkey]
    exact lt_issueSeq s k'

theorem SeqsDistinct.retry (h : SeqsDistinct s) (hissued : SeqsIssued s) (J : JobId) (timestamp : Int) :
    SeqsDistinct (retryFailedJob s J timestamp) := by
  generalize hkey : (if 0 < (s.job J).orderingSeq then (s.job J).groupKey else none) = key
  have hretry : (if 0 < (s.job J).orderingSeq then (s.job J).orderingKey <|> (s.job J).groupKey
      else none) = key := by
    rw [hissued.noKey J, ← hkey]
    rfl
  have horder : ((retryFailedJob s J timestamp).job J).order =
      ((s.job J).groupKey, (s.job J).orderingKey,
        if key.isSome then (issueSeq s key).2 else (s.job J).orderingSeq) := by
    unfold retryFailedJob
    simp only [hretry]
    unfold issueSeq
    cases key <;> simp [Queue.job, Job.order]
  refine h.issue (J := J) hissued ?_ fun K hK => retryFailedJob_jobs_of_ne hK timestamp
  intro k hk
  cases key with
  | none => exact .inr (by simpa [Job.order] using horder)
  | some k' =>
    -- The job is ordered, so it gets the next sequence of its key.
    simp only [Job.order, Prod.mk.injEq] at horder
    obtain ⟨hgk, -, hseq⟩ := horder
    rw [hgk] at hk
    split at hkey
    · obtain rfl : k = k' := by simpa [hk] using hkey
      refine .inl ?_
      rw [hseq]
      exact lt_issueSeq s k
    · cases hkey

/-! ## Runs -/

theorem QStep.seqs_distinct {x y : Cfg} (hstep : QStep s₀ c x y) (hissued : SeqsIssued x.2)
    (h : SeqsDistinct x.2) : SeqsDistinct y.2 := by
  cases hstep with
  | quiet ht => exact h.of_life ht
  | @move _ _ s t m why hh ht => exact (h.apply m).of_life ht
  | @skip _ s gk => exact h.of_frame (frame_skipToNext s gk _)
  | @tombstone _ s gk J x hq hj =>
    exact (h.of_jobs rfl).of_frame (frame_consumeOrderedTombstone (s.zremGroupq gk J) gk _ J x)
  | @ack _ s J group e hst he => cases e <;> exact h.of_jobs rfl
  | @flag _ s J timestamp serverNow group hc hj =>
    exact h.hset J (f := fun j => { j with revoked := true }) fun _ => rfl
  | @take s t m why ht => exact (h.withdraw m).of_life ht
  | @empty s J src hsrc => exact h.of_jobs (takeFrom_jobs s J src)
  | @unend _ s J t hst => cases t <;> exact h.of_jobs rfl
  | @delete s J => exact h.unlink J
  | @sweep _ s J t hmem => cases t <;> exact (h.unlink J).of_jobs rfl
  | @drain _ s t J hc ht => exact ((h.of_frame (frame_closeOrderingHole s J)).unlink J).of_life ht
  | clearList k hgone => cases k <;> exact h.of_jobs rfl
  | @pop s k J hlast hreach hc => cases k <;> exact h.of_jobs rfl
  | discard hreach hc hst => exact h
  | @reserve _ s k J hlast => cases k <;> exact h.of_jobs rfl
  | @retry _ s t J timestamp hc hmem hj ht =>
    have hrem : SeqsDistinct (s.zremFailed J) := h.of_jobs rfl
    have hremIssued : SeqsIssued (s.zremFailed J) := hissued.of_jobs rfl rfl
    exact (hrem.retry hremIssued J timestamp).of_life ht
  | @create s t J n hc hn hfree ht => exact (h.create hissued hn).of_life ht
  | @enqueue s J p st hst hp hc => exact h.of_jobs (put_jobs s J p)
  | limit | unlimit | unpark | repark | unclaim | unsuspend | unschedule | clearScheduled | record =>
    exact h.of_jobs rfl

theorem QSteps.seqs_distinct {x y : Cfg} (hsteps : QSteps s₀ c x y) (hissued : SeqsIssued x.2)
    (h : SeqsDistinct x.2) : SeqsIssued y.2 ∧ SeqsDistinct y.2 := by
  induction hsteps with
  | refl => exact ⟨hissued, h⟩
  | tail _ hstep ih => exact ⟨hstep.seqs_issued ih.1, hstep.seqs_distinct ih.1 ih.2⟩

end

/-- In every state that the server can reach, two jobs of an ordering key have different sequences,
unless neither of them has one. -/
theorem seqs_distinct_run (calls : List SysCall) (q : QueueName) {J K : JobId} {k : GroupKey} :
    let s := Machine.run sysStep emptySys calls q
    (s.job J).groupKey = some k → (s.job K).groupKey = some k → J ≠ K → 0 < (s.job J).orderingSeq →
      (s.job J).orderingSeq ≠ (s.job K).orderingSeq := by
  have hempty : ∀ q, SeqsIssued (emptySys q) ∧ SeqsDistinct (emptySys q) :=
    fun _ => ⟨⟨fun _ => rfl, fun _ _ hk => by cases hk⟩, fun _ _ _ hk => by cases hk⟩
  have hrun := @Machine.invariant_all _ _ sysStep (fun S => ∀ q, SeqsIssued (S q) ∧ SeqsDistinct (S q))
    (fun S call h q => (sysStep_qsteps S call q).seqs_distinct (h q).1 (h q).2) _ calls hempty
  intro s hJ hK hne hpos heq
  exact hne ((hrun q).2 J K k hJ hK hpos heq)

/-- Two adds to one key. -/
def twoOrderedAdds : List SysCall :=
  [.on "q" (.addJob { timestamp := 1, serverNow := 1, orderingKey := some "k" }),
    .on "q" (.addJob { timestamp := 2, serverNow := 2, orderingKey := some "k", delay := 5 })]

theorem two_adds_distinct :
    let s := Machine.run sysStep emptySys twoOrderedAdds "q"
    (s.job "1").orderingSeq ≠ (s.job "2").orderingSeq :=
  seqs_distinct_run twoOrderedAdds "q" (k := "k") (by decide) (by decide) (by decide) (by decide)

end GlideMq
