import GlideMq.Proofs.SandboxRuns
import Mathlib.Algebra.Order.BigOperators.Group.Finset

/-!
# No call is lost in the sandbox pool

While a call is not settled there is something that brings the pool on: a call that goes on, a grace
period that ends, or a thread that answers or ends. Every such event does so, and after at most four
for each call all of them are settled.
-/

namespace GlideMq.Sandbox

/-- What is still to happen to a call. While it runs, its grace period may end first. -/
def Run.weight {V : Type} (x : Run V) : Nat :=
  match x.phase with
  | .waiting => 4
  | .acquired _ => 3
  | .running _ => if x.graceTimer then 2 else 1
  | .settled => 0

section

variable {V : Type} {p : Pool V} {slot : Nat → Slot} {r : Nat} {w : Nat}

namespace Pool

/-- What brings the pool on: the next microtask, the answer of a thread that runs a call, the end of
the grace period of such a call, and the end of a thread that runs a call or was terminated while
others wait for it. -/
inductive Advance (p : Pool V) : Event V → Prop where
  | resume (hq : p.microtasks ≠ []) : Advance p .resume
  | completed (r w : Nat) (result : V) (hq : p.microtasks = []) (hphase : (p.run r).phase = .running w) :
    Advance p (.message w (.completed (p.run r).invocationId result))
  | failed (r w : Nat) (error : String) (stack errorName : Option String) (discarded : Bool)
    (delayedUntil : Option UsageReport.JSNumber) (hq : p.microtasks = []) (hphase : (p.run r).phase = .running w) :
    Advance p (.message w (.failed (p.run r).invocationId error stack errorName discarded delayedUntil))
  | graceExpired (r w : Nat) (hq : p.microtasks = []) (hphase : (p.run r).phase = .running w)
    (htimer : (p.run r).graceTimer = true) : Advance p (.graceExpired r)
  | ended (w : Nat) (e : Event V) (he : (∃ code, e = .exit w code) ∨ ∃ error, e = .error w error)
    (hq : p.microtasks = [])
    (hw : (∃ r, (p.run r).phase = .running w) ∨
      p.waiters ≠ [] ∧ w ∈ p.workers ∧ (p.worker w).terminationError.isSome) : Advance p e

/-- What is still to happen to the calls. -/
def pending (p : Pool V) : Nat := ∑ r ∈ Finset.range p.runs, (p.run r).weight

/-! ## Every advance settles a call or brings it on -/

theorem weight_le (x : Run V) : x.weight ≤ 4 := by
  unfold Run.weight
  split
  · exact Nat.le_refl _
  · omega
  · split <;> omega
  · omega

theorem weight_of_settled {x : Run V} (hphase : x.phase = .settled) : x.weight = 0 := by
  simp [Run.weight, hphase]

theorem weight_of_running {x : Run V} (hphase : x.phase = .running w) : 1 ≤ x.weight ∧ x.weight ≤ 2 := by
  simp only [Run.weight, hphase]
  split <;> omega

/-- No event puts a call back, but for a signal that starts a grace period. -/
theorem step_weight (h : p.Ok) (e : Event V) (he : ∀ r, e ≠ .abort r) {r : Nat} (hr : r < p.runs) :
    ((p.step e).run r).weight ≤ (p.run r).weight := by
  obtain ⟨slot, hcore, -, -⟩ := id h
  generalize hx : (p.step e).run r = x
  have hstep := run_step h e r
  rw [hx] at hstep
  cases hstep with
  | refused job hnew | tooLate job hnew | given job w hnew | queued job hnew => exact absurd hnew (by omega)
  | woken e w rest hq =>
    simp [Run.weight, ((hcore.waiting r).mp (Or.inl (by simp [hq]))).2]
  | started w hphase =>
    simp only [Run.weight, hphase]
    split <;> omega
  | told => exact absurd rfl (he r)
  | expired =>
    simp only [Run.weight]
    split <;> simp
    split <;> omega
  | dropped | left | shut | completed | failed | lost => simp [Run.weight]
  | same | asked | answered => exact Nat.le_refl _

theorem Core.lt_runs (h : p.Core slot none) (hphase : (p.run r).phase ≠ .waiting) : r < p.runs := by
  by_contra hle
  exact hphase (h.unborn r (Nat.le_of_not_lt hle)).1

theorem resume_weight (h : p.Ok) (hq : p.microtasks ≠ []) :
    ∃ r < p.runs, (p.resume.run r).weight < (p.run r).weight := by
  obtain ⟨slot, hcore, -, -⟩ := h
  obtain ⟨r, rest, hhead⟩ := List.exists_cons_of_ne_nil hq
  obtain ⟨w, hphase⟩ := hcore.microtasks r (by simp [hhead])
  refine ⟨r, hcore.lt_runs (by simp [hphase]), ?_⟩
  have hweight : (p.run r).weight = 3 := by simp [Run.weight, hphase]
  rw [hweight]
  unfold resume
  simp only [hhead, resumeRun, hphase]
  split
  · rw [weight_of_settled (by simp [reject, settle, modifyRun])]
    omega
  · -- A processor that starts is at most to be told to stop.
    have hrunning : ((process { p with microtasks := rest } r w).run r).phase = .running w := by
      unfold process
      simp only
      split
      · simp [abortHandler, send, modifyRun, modifyWorker]
      · simp [send, modifyRun, modifyWorker]
    have hle := (weight_of_running hrunning).2
    omega

theorem message_weight (h : p.Ok) (hphase : (p.run r).phase = .running w) (m : ChildToMain V)
    (hm : (∃ result, m = .completed (p.run r).invocationId result) ∨
      ∃ error stack errorName discarded delayedUntil,
        m = .failed (p.run r).invocationId error stack errorName discarded delayedUntil) :
    ((p.message w m).run r).phase = .settled := by
  obtain ⟨slot, hcore, hended, -⟩ := h
  have hslot := (hcore.running r w).mp hphase
  have hfits := hcore.fits w
  rw [hslot] at hfits
  unfold message
  rw [hfits.2.2.2.1, List.foldl_cons, List.foldl_nil]
  rcases hm with ⟨result, rfl⟩ | ⟨error, stack, errorName, discarded, delayedUntil, rfl⟩
  · simp [onMessage, settle, modifyRun]
  · simp [onMessage, reject, settle, modifyRun]

theorem graceExpired_weight (hphase : (p.run r).phase = .running w) (htimer : (p.run r).graceTimer = true) :
    ((p.graceExpired r).run r).weight < (p.run r).weight := by
  have hnew : (p.graceExpired r).run r = { p.run r with graceTimer := false } := by
    unfold graceExpired
    simp only [htimer, if_true, modifyRun, Function.update_self, hphase]
    split <;> simp [terminate, modifyWorker]
  rw [hnew]
  simp [Run.weight, hphase, htimer]

theorem removeAndCleanup_weight (h : p.Ok) (hq : p.microtasks = [])
    (hw : (∃ r, (p.run r).phase = .running w) ∨
      p.waiters ≠ [] ∧ w ∈ p.workers ∧ (p.worker w).terminationError.isSome) (error : JSError) :
    w < p.spawned ∧ ∃ r < p.runs,
      ((p.removeAndCleanup w error).run r).weight < (p.run r).weight := by
  -- The end of a thread settles its call, and the first waiter gets a new one.
  obtain ⟨slot, hcore, hended, hfull⟩ := h
  have hheld : ∀ r, slot w ≠ .acquired r := by
    intro r hslot
    have hmem := hcore.postponed r w ((hcore.acquired r w).mpr hslot)
    simp [hq] at hmem
  have hlive : (slot w).IsLive := by
    rcases hw with ⟨r, hphase⟩ | ⟨-, hmem, -⟩
    · rw [(hcore.running r w).mp hphase]
      trivial
    · exact hcore.member w hmem
  have hspawned : w < p.spawned := by
    by_contra hle
    rw [(hcore.absent w).mpr (Nat.le_of_not_lt hle)] at hlive
    exact hlive
  refine ⟨hspawned, ?_⟩
  rcases hcore.removeAndCleanup_eq hspawned hheld (hended w) error with ⟨-, hgone⟩ | ⟨heq, -, hretired⟩
  · simp [hgone, Slot.IsLive] at hlive
  rw [heq]
  rcases hw with ⟨r, hphase⟩ | ⟨hq, hmem, -⟩
  · refine ⟨r, hcore.lt_runs (by simp [hphase]), ?_⟩
    have hsettled : ((p.retired w error).run r).phase = .settled := by
      rcases hcore.retired_run (hended w) hlive error r with hsame | ⟨-, hnew⟩
      · have hslot := (hretired.running r w).mp (by rw [hsame, hphase])
        simp at hslot
      · rw [hnew]
    rcases wakeWaiter_run (p.retired w error) r with hsame | ⟨w', rest, hhead, -⟩
    · rw [hsame, weight_of_settled hsettled]
      exact (weight_of_running hphase).1
    · have hwaiting := ((hcore.waiting r).mp (Or.inl (by simpa using congrArg (r ∈ ·) hhead))).2
      simp [hphase] at hwaiting
  · obtain ⟨r, rest, hhead⟩ := List.exists_cons_of_ne_nil hq
    obtain ⟨hruns, hphase⟩ := (hcore.waiting r).mp (Or.inl (by simp [hhead]))
    refine ⟨r, hruns, ?_⟩
    have hopen := (hfull hq).1
    unfold wakeWaiter
    simp only [retired_closed, hopen, Bool.false_eq_true, if_false, retired_waiters, hhead]
    rw [grant_run, if_pos rfl]
    simp [Run.weight, hphase]

theorem Advance.lowers {e : Event V} (h : p.Ok) (hadvance : p.Advance e) : (p.step e).pending < p.pending := by
  have hruns : (p.step e).runs = p.runs := by
    rcases (step_counts h e).runs with hsame | ⟨⟨job, rfl⟩, -⟩
    · exact hsame
    · cases hadvance with
      | ended w e he => rcases he with ⟨code, he⟩ | ⟨error, he⟩ <;> cases he
  have hsignal : ∀ r, e ≠ .abort r := by
    rintro r rfl
    cases hadvance with
    | ended w e he => rcases he with ⟨code, he⟩ | ⟨error, he⟩ <;> cases he
  have hone : ∃ r < p.runs, ((p.step e).run r).weight < (p.run r).weight := by
    obtain ⟨slot, hcore, -, -⟩ := id h
    cases hadvance with
    | resume hq =>
      have hstep : p.step .resume = p.resume := by simp [step, Event.isMacrotask, handle]
      rw [hstep]
      exact resume_weight h hq
    | completed r w result hq hphase =>
      refine ⟨r, hcore.lt_runs (by simp [hphase]), ?_⟩
      simp only [step, hq, ne_eq, not_true_eq_false, and_false, if_false, handle]
      rw [weight_of_settled (message_weight h hphase _ (Or.inl ⟨result, rfl⟩))]
      exact (weight_of_running hphase).1
    | failed r w error stack errorName discarded delayedUntil hq hphase =>
      refine ⟨r, hcore.lt_runs (by simp [hphase]), ?_⟩
      simp only [step, hq, ne_eq, not_true_eq_false, and_false, if_false, handle]
      rw [weight_of_settled (message_weight h hphase _ (Or.inr ⟨_, _, _, _, _, rfl⟩))]
      exact (weight_of_running hphase).1
    | graceExpired r w hq hphase htimer =>
      refine ⟨r, hcore.lt_runs (by simp [hphase]), ?_⟩
      simp only [step, hq, ne_eq, not_true_eq_false, and_false, if_false, handle]
      exact graceExpired_weight hphase htimer
    | ended w e he hq hw =>
      rcases he with ⟨code, rfl⟩ | ⟨error, rfl⟩
      · obtain ⟨hspawned, hweight⟩ := removeAndCleanup_weight h hq hw (exitError code)
        simpa [step, hq, handle, hspawned] using hweight
      · obtain ⟨hspawned, hweight⟩ := removeAndCleanup_weight h hq hw error
        simpa [step, hq, handle, hspawned] using hweight
  unfold pending
  rw [hruns]
  apply Finset.sum_lt_sum
  · intro r hr
    exact step_weight h e hsignal (Finset.mem_range.mp hr)
  · obtain ⟨r, hr, hlt⟩ := hone
    exact ⟨r, Finset.mem_range.mpr hr, hlt⟩

/-! ## Something can always happen -/

theorem exists_advance (h : p.Ok) (hmax : 0 < p.maxWorkers) {r : Nat} (hr : r < p.runs)
    (hopen : (p.run r).outcomes = []) : ∃ e, p.Advance e := by
  obtain ⟨slot, hcore, hended, hfull⟩ := h
  by_cases hq : p.microtasks = []
  swap
  · exact ⟨.resume, .resume hq⟩
  have hnotAcquired : ∀ r w, (p.run r).phase ≠ .acquired w := by
    intro r w hphase
    have hmem := hcore.postponed r w hphase
    simp [hq] at hmem
  cases hphase : (p.run r).phase with
  | acquired w => exact absurd hphase (hnotAcquired r w)
  | running w => exact ⟨.exit w none, .ended w _ (Or.inl ⟨none, rfl⟩) hq (Or.inl ⟨r, hphase⟩)⟩
  | settled =>
    have hone := hcore.settled r hphase
    simp [hopen] at hone
  | waiting =>
    have hmem : r ∈ p.waiters := by simpa using (hcore.waiting r).mpr ⟨hr, hphase⟩
    have hwaiters := List.ne_nil_of_mem hmem
    obtain ⟨-, hlength, hbusy⟩ := hfull hwaiters
    obtain ⟨w, hw⟩ := List.exists_mem_of_length_pos (Nat.lt_of_lt_of_le hmax hlength)
    have hlive := hcore.member w hw
    have hfits := hcore.fits w
    refine ⟨.exit w none, .ended w _ (Or.inl ⟨none, rfl⟩) hq ?_⟩
    cases hslot : slot w with
    | acquired r' => exact absurd ((hcore.acquired r' w).mpr hslot) (hnotAcquired r' w)
    | running r' => exact Or.inl ⟨r', (hcore.running r' w).mpr hslot⟩
    | leaving =>
      rw [hslot] at hfits
      exact Or.inr ⟨hwaiters, hw, hfits.2.1⟩
    | ended => exact absurd hslot (hended w)
    | idle =>
      rw [hslot] at hfits
      have hidle := hbusy w hw
      simp [hfits.1] at hidle
    | absent | gone => simp [hslot, Slot.IsLive] at hlive

theorem pending_le (p : Pool V) : p.pending ≤ 4 * p.runs := by
  unfold pending
  have hsum := Finset.sum_le_card_nsmul _ _ 4 fun r (_ : r ∈ Finset.range p.runs) => weight_le (p.run r)
  simpa [Nat.mul_comm] using hsum

/-- From every state that a pool with room for a thread can reach: a run in which something brings the
pool on at every step is at most four steps long for each call, and where it can go no further every
call is settled. -/
theorem all_calls_settle (maxWorkers abortGraceMs nextInvocationId : Nat) (data : Data V) (events : List (Event V))
    (hmax : 0 < maxWorkers) (later : List (Event V)) :
    let p := Machine.run Pool.step (Pool.new maxWorkers abortGraceMs nextInvocationId data) events
    let q := Machine.run Pool.step p later
    Machine.Meets Pool.step Advance p later →
      later.length ≤ 4 * p.runs ∧
        ((¬∃ e, q.Advance e) → ∀ r < q.runs, (q.run r).outcomes.length = 1) := by
  intro p q hadvance
  have hsound : p.Sound := (sound_new maxWorkers abortGraceMs nextInvocationId data).run events
  have hlength : later.length + q.pending ≤ p.pending :=
    @Machine.length_le_of_lowers _ _ Pool.step Advance Ok pending (fun _ e h _ => h.step e)
      (fun _ e h hadvance => hadvance.lowers h) p later hsound.ok hadvance
  have hpending := pending_le p
  refine ⟨by omega, fun hstuck r hr => ?_⟩
  have hq : q.Sound := hsound.run later
  have hroom : 0 < q.maxWorkers := by
    rw [run_maxWorkers hsound later, run_maxWorkers (sound_new _ _ _ _) events]
    exact hmax
  by_contra hne
  have hopen : (q.run r).outcomes = [] := by
    obtain ⟨slot, hcore, -, -⟩ := hq.ok
    by_cases hphase : (q.run r).phase = .settled
    · exact absurd (hcore.settled r hphase) hne
    · exact (hcore.unsettled r hphase).1
  exact hstuck (exists_advance hq.ok hroom hr hopen)

/-- Two calls on a pool of one thread. The first is told to stop and does not, so its grace period ends
and the thread is stopped. The second gets a new one. -/
theorem two_calls_settle :
    let p := Machine.run Pool.step (Pool.new 1 5000 0 (.other ()))
      [.run { data := .other (), abortSignal := some false }, .resume, .run { data := .other () }, .abort 0]
    let later : List (Event Unit) := [.graceExpired 0, .exit 0 none, .resume, .message 1 (.completed "2" ())]
    let q := Machine.run Pool.step p later
    later.length ≤ 4 * p.runs ∧ ((¬∃ e, q.Advance e) → ∀ r < q.runs, (q.run r).outcomes.length = 1) :=
  all_calls_settle 1 5000 0 (.other ())
    [.run { data := .other (), abortSignal := some false }, .resume, .run { data := .other () }, .abort 0]
    (by decide) [.graceExpired 0, .exit 0 none, .resume, .message 1 (.completed "2" ())]
    ⟨.graceExpired 0 0 rfl rfl rfl, .ended 0 _ (Or.inl ⟨none, rfl⟩) rfl (Or.inl ⟨0, rfl⟩), .resume (by decide),
      .completed 1 1 () rfl rfl, trivial⟩

end Pool

end

end GlideMq.Sandbox
