import GlideMq.Lua.Text
import GlideMq.Proofs.SandboxSteps

/-!
# Runs of the sandbox pool

Along every run of events: where a call is, the order in which waiters are served, what a call may
be settled with, and which requests of a processor reach its job.
-/

namespace GlideMq.Sandbox

section

variable {V : Type} {p : Pool V} {slot : Nat → Slot} {r : Nat} {w : Nat}

/-- The message names the invocation. -/
def ChildToMain.Names (invocationId : String) : ChildToMain V → Prop
  | .completed id _ => id = invocationId
  | .failed id .. => id = invocationId
  | .proxyRequest id _ => ∃ n, id = invocationId ++ ":" ++ n

namespace Pool

/-! ## Invocations -/

/-- A call that was not started has no invocation, two started ones have different ones. -/
structure Ids (p : Pool V) : Prop where
  unstarted : ∀ r, (p.run r).phase = .waiting ∨ (∃ w, (p.run r).phase = .acquired w) → (p.run r).invocationId = ""
  issued : ∀ r, (p.run r).invocationId ≠ "" → ∃ k ≤ p.nextInvocationId, (p.run r).invocationId = toString k
  distinct : ∀ r r', (p.run r).invocationId ≠ "" → (p.run r).invocationId = (p.run r').invocationId → r = r'

theorem step_id (h : p.Ok) (hids : p.Ids) (e : Event V) (r : Nat) :
    ((p.step e).run r).invocationId = (p.run r).invocationId ∨
      ((p.step e).run r).invocationId = toString (p.nextInvocationId + 1) ∧ p.microtasks.head? = some r ∧
        p.nextInvocationId + 1 ≤ (p.step e).nextInvocationId := by
  obtain ⟨slot, hcore, -, -⟩ := id h
  have hborn : r = p.runs → (p.run r).invocationId = "" := by
    intro hr
    exact hids.unstarted r (Or.inl (hcore.unborn r (Nat.le_of_eq hr.symm)).1)
  generalize hx : (p.step e).run r = x
  have hstep := run_step h e r
  rw [hx] at hstep
  cases hstep with
  | refused job hr | tooLate job hr | given job w hr | queued job hr => exact Or.inl (hborn hr).symm
  | started w hphase _ hhead =>
    refine Or.inr ⟨rfl, hhead, ?_⟩
    have hrun : p.step .resume = p.resume := by simp [step, Event.isMacrotask, handle]
    rw [hrun] at hx
    have hrunning : (p.resume.run r).phase = .running w := by rw [hx]
    have hnext := resume_next h hphase hrunning
    exact Nat.le_of_eq hnext.symm
  | same | woken | dropped | left | told | shut | expired | completed | failed | lost | asked | answered =>
    exact Or.inl rfl

theorem Ids.step (hids : p.Ids) (h : p.Ok) (e : Event V) : (p.step e).Ids := by
  obtain ⟨slot, hcore, -, -⟩ := id h
  have hnext := (step_counts h e).nextInvocationId
  -- An invocation that was given before is not the next one.
  have hfresh : ∀ r, (p.run r).invocationId ≠ toString (p.nextInvocationId + 1) := by
    intro r heq
    obtain ⟨k, hk, hid⟩ := hids.issued r (by rw [heq]; exact Nat.repr_ne_empty)
    have hsame := Lua.repr_injective (hid.symm.trans heq)
    omega
  constructor
  · intro r
    have hold := hids.unstarted r
    generalize hx : (p.step e).run r = x
    have hstep := run_step h e r
    rw [hx] at hstep
    cases hstep with
    | same => exact hold
    | refused | tooLate | dropped | left | shut | completed | failed | lost | started => simp
    | given | queued => simp
    | woken e w rest hq =>
      intro _
      exact hold (Or.inl ((hcore.waiting r).mp (Or.inl (by simp [hq]))).2)
    | told | expired | asked | answered => exact hold
  · intro r hne
    rcases step_id h hids e r with hsame | ⟨hnew, -, hle⟩
    · rw [hsame] at hne ⊢
      obtain ⟨k, hk, hid⟩ := hids.issued r hne
      exact ⟨k, hk.trans hnext, hid⟩
    · exact ⟨_, hle, hnew⟩
  · intro r r' hne heq
    rcases step_id h hids e r with hsame | ⟨hnew, hhead, -⟩
    · rcases step_id h hids e r' with hsame' | ⟨hnew', -, -⟩
      · rw [hsame] at hne heq
        rw [hsame'] at heq
        exact hids.distinct r r' hne heq
      · rw [hsame, hnew'] at heq
        exact absurd heq (hfresh r)
    · rcases step_id h hids e r' with hsame' | ⟨hnew', hhead', -⟩
      · rw [hsame', hnew] at heq
        exact absurd heq.symm (hfresh r')
      · rw [hhead] at hhead'
        exact Option.some.inj hhead'

/-! ## The order of the waiters -/

/-- A call that came later than one that waits was not started: it waits too or gave up. -/
def InOrder (p : Pool V) : Prop :=
  ∀ r ∈ p.waiters, ∀ r', r < r' → (p.run r').phase = .waiting ∨
    (p.run r').phase = .settled ∧ (p.run r').outcomes = [.rejected abortedError] ∧ (p.run r').invocationId = ""

theorem InOrder.step (horder : p.InOrder) (h : p.Ok) (hids : p.Ids) (e : Event V) : (p.step e).InOrder := by
  obtain ⟨slot, hcore, -, hfull⟩ := id h
  obtain ⟨slot', hcore', -, hfull'⟩ := h.step e
  intro r hr r' hlt
  obtain ⟨hruns', hwaiting⟩ := (hcore'.waiting r).mp (Or.inl hr)
  have hopen := (hfull' (List.ne_nil_of_mem hr)).1
  -- Whoever waits after the event waited before it, or just came.
  have hbefore : r ∈ p.waiters ∨ r = p.runs := by
    by_cases hruns : r < p.runs
    · generalize hx : (p.step e).run r = x at hwaiting
      have hstep := run_step h e r
      rw [hx] at hstep
      have hold : (p.run r).phase = .waiting → r ∈ p.waiters := fun hphase => by
        simpa using (hcore.waiting r).mpr ⟨hruns, hphase⟩
      cases hstep with
      | queued job hnew => exact Or.inr hnew
      | refused | tooLate | given | woken | started | dropped | left | shut | completed | failed | lost =>
        simp at hwaiting
      | told timer hphase => exact absurd hwaiting hphase
      | same | expired | asked | answered => exact Or.inl (hold hwaiting)
    · have hle := (step_counts h e).runs_le
      exact Or.inr (by omega)
  have hold : (p.run r').phase = .waiting ∨
      (p.run r').phase = .settled ∧ (p.run r').outcomes = [.rejected abortedError] ∧
        (p.run r').invocationId = "" := by
    rcases hbefore with hmem | hnew
    · exact horder r hmem r' hlt
    · exact Or.inl (hcore.unborn r' (by omega)).1
  have hnotHead : ∀ rest, p.waiters ≠ r' :: rest := by
    intro rest hq
    have hsorted := hcore.sorted
    have hr' : r' < p.runs := ((hcore.waiting r').mp (Or.inl (by simp [hq]))).1
    rw [hq, List.pairwise_cons] at hsorted
    rcases hbefore with hmem | hnew
    · rw [hq, List.mem_cons] at hmem
      rcases hmem with heq | hmem
      · omega
      · have := hsorted.1 r hmem
        omega
    · omega
  generalize hx : (p.step e).run r' = x
  have hstep := run_step h e r'
  rw [hx] at hstep
  cases hstep with
  | same | expired | answered => exact hold
  | refused job hr' hclosed =>
    rcases hbefore with hmem | hnew
    · rw [hfull.closed hclosed] at hmem
      simp at hmem
    · omega
  | tooLate => exact Or.inr ⟨rfl, rfl, rfl⟩
  | given job w hr' hq =>
    rcases hbefore with hmem | hnew
    · simp [hq] at hmem
    · omega
  | queued => exact Or.inl rfl
  | woken e w rest hq => exact absurd hq (hnotHead rest)
  | started w hphase | dropped w hphase | completed w result hphase =>
    rcases hold with hw | ⟨hs, -⟩
    · simp [hphase] at hw
    · simp [hphase] at hs
  | failed w error stack errorName discarded delayedUntil hphase | lost w error e he hphase =>
    rcases hold with hw | ⟨hs, -⟩
    · simp [hphase] at hw
    · simp [hphase] at hs
  | asked w id method job hphase =>
    rcases hold with hw | ⟨hs, -⟩
    · simp [hphase] at hw
    · simp [hphase] at hs
  | left hr' =>
    refine Or.inr ⟨rfl, rfl, ?_⟩
    exact hids.unstarted r' (Or.inl ((hcore.waiting r').mp (Or.inl hr')).2)
  | told timer hphase => exact hold.imp (fun hw => hw) (fun hs => hs)
  | shut hr' =>
    simp only [Pool.step, Event.isMacrotask, handle, Bool.false_eq_true, false_and, if_false] at hopen
    unfold close at hopen
    split at hopen
    · rename_i hclosed
      simp [hclosed] at hopen
    · rename_i hnot
      have hnodup : p.waiters.Nodup := hcore.sorted.imp (fun hlt => Nat.ne_of_lt hlt)
      simp only at hopen
      rw [foldl_reject { p with closed := true } closedError hnodup] at hopen
      simp at hopen

/-! ## Terminated threads -/

/-- The time of a call runs only after its signal, and only when it is over a thread that still runs
the call is terminated. -/
structure Graceful (p : Pool V) : Prop where
  timer : ∀ r, (p.run r).graceTimer = true → (p.run r).job.aborted = true
  terminated : ∀ r w error, (p.run r).phase = .running w → (p.worker w).terminationError = some error →
    error = graceError p.abortGraceMs ∧ (p.run r).job.aborted = true

theorem step_aborted (h : p.Ok) (e : Event V) (r : Nat) (haborted : (p.run r).job.aborted = true) :
    ((p.step e).run r).job.aborted = true := by
  obtain ⟨slot, hcore, -, -⟩ := id h
  have hborn : r ≠ p.runs := by
    intro hr
    have hnone := (hcore.unborn r (by omega)).2
    simp [Job.aborted, hnone] at haborted
  generalize hx : (p.step e).run r = x
  have hstep := run_step h e r
  rw [hx] at hstep
  cases hstep with
  | refused job hr | tooLate job hr | given job w hr | queued job hr => exact absurd hr hborn
  | left | told => simp [Job.aborted]
  | asked w id method job hphase hid hjob =>
    simp only [Job.aborted, hjob.1]
    exact haborted
  | failed | same | woken | started | dropped | shut | expired | completed | lost | answered => exact haborted

theorem step_running (h : p.Ok) (e : Event V) {r w : Nat} (hrunning : ((p.step e).run r).phase = .running w) :
    (p.run r).phase = .running w ∨ (p.run r).phase = .acquired w := by
  generalize hx : (p.step e).run r = x at hrunning
  have hstep := run_step h e r
  rw [hx] at hstep
  cases hstep with
  | refused | tooLate | given | queued | woken | dropped | left | shut | completed | failed | lost => simp at hrunning
  | started w' hphase =>
    simp only [Phase.running.injEq] at hrunning
    exact Or.inr (hrunning ▸ hphase)
  | same | told | expired | asked | answered => exact Or.inl hrunning

theorem Graceful.step (hgrace : p.Graceful) (h : p.Ok) (e : Event V) : (p.step e).Graceful := by
  obtain ⟨slot, hcore, -, -⟩ := id h
  constructor
  · intro r
    have haborted := step_aborted h e r
    generalize hx : (p.step e).run r = x at haborted ⊢
    have hstep := run_step h e r
    rw [hx] at hstep
    cases hstep with
    | refused | tooLate | given | queued | expired | completed | failed | lost => simp
    | told => simp [Job.aborted]
    | same | woken | started | dropped | left | shut | asked | answered =>
      exact fun htimer => haborted (hgrace.timer r htimer)
  · intro r w error hrunning herror
    rw [(step_counts h e).abortGraceMs]
    rcases step_termination p e w with hsame | hnone | ⟨r', he, htimer, hphase, hterm⟩
    · rw [hsame] at herror
      rcases step_running h e hrunning with hrunning | hacquired
      · obtain ⟨hgraceError, haborted⟩ := hgrace.terminated r w error hrunning herror
        exact ⟨hgraceError, step_aborted h e r haborted⟩
      · have hfits := hcore.fits w
        rw [(hcore.acquired r w).mp hacquired] at hfits
        simp [hfits.2.1] at herror
    · simp [hnone] at herror
    · rw [hterm] at herror
      refine ⟨(Option.some.inj herror).symm, ?_⟩
      have hsame : r = r' := by
        rcases step_running h e hrunning with hrunning | hacquired
        · have hslot := (hcore.running r w).mp hrunning
          rw [(hcore.running r' w).mp hphase] at hslot
          exact (Slot.running.inj hslot).symm
        · have hslot := (hcore.acquired r w).mp hacquired
          simp [(hcore.running r' w).mp hphase] at hslot
      subst hsame
      exact step_aborted h e r (hgrace.timer r htimer)

/-! ## Every run -/

/-- What holds in every state that a new pool can reach. -/
structure Sound (p : Pool V) : Prop where
  ok : p.Ok
  ids : p.Ids
  order : p.InOrder
  grace : p.Graceful

theorem Sound.step (h : p.Sound) (e : Event V) : (p.step e).Sound :=
  ⟨h.ok.step e, h.ids.step h.ok e, h.order.step h.ok h.ids e, h.grace.step h.ok e⟩

theorem sound_new (maxWorkers abortGraceMs nextInvocationId : Nat) (data : Data V) :
    (Pool.new maxWorkers abortGraceMs nextInvocationId data).Sound := by
  refine ⟨new_ok maxWorkers abortGraceMs nextInvocationId data, ⟨fun _ _ => rfl, ?_, ?_⟩, ?_, ?_, ?_⟩
  · simp [Pool.new]
  · simp [Pool.new]
  · simp [InOrder, Pool.new]
  · simp [Pool.new]
  · simp [Pool.new]

theorem Sound.run (h : p.Sound) (events : List (Event V)) : (Machine.run Pool.step p events).Sound :=
  @Machine.invariant_all _ _ Pool.step Sound (fun _ e h => Sound.step h e) p events h

theorem run_maxWorkers (h : p.Sound) (events : List (Event V)) :
    (Machine.run Pool.step p events).maxWorkers = p.maxWorkers := by
  induction events generalizing p with
  | nil => rfl
  | cons e events ih => exact (ih (h.step e)).trans (step_counts h.ok e).maxWorkers

/-! ## Where a call is -/

/-- The thread was given to the call, which is not settled. -/
def Holds (p : Pool V) (w r : Nat) : Prop := (p.run r).phase = .acquired w ∨ (p.run r).phase = .running w

theorem Core.holds_iff (h : p.Core slot none) (w r : Nat) :
    p.Holds w r ↔ slot w = .acquired r ∨ slot w = .running r :=
  or_congr (h.acquired r w) (h.running r w)

theorem Core.holds_unique (h : p.Core slot none) {w r r' : Nat} (hr : p.Holds w r) (hr' : p.Holds w r') : r = r' := by
  rw [h.holds_iff] at hr hr'
  grind

theorem Core.busy_of_holds (h : p.Core slot none) {w r : Nat} (hr : p.Holds w r) :
    (p.worker w).busy = true ∧ (p.worker w).cleaned = false := by
  have hfits := h.fits w
  rcases (h.holds_iff w r).mp hr with hslot | hslot
  · rw [hslot] at hfits
    exact ⟨hfits.1, hfits.2.2.2.2.2⟩
  · rw [hslot] at hfits
    exact ⟨hfits.1, hfits.2.2.2.2⟩

/-- Never more threads than allowed, never two calls on one thread. Every call is in one place: it
waits once in the queue, is held by one live thread, or was settled once. -/
theorem each_call_in_one_place (maxWorkers abortGraceMs nextInvocationId : Nat) (data : Data V)
    (events : List (Event V)) :
    let p := Machine.run Pool.step (Pool.new maxWorkers abortGraceMs nextInvocationId data) events
    p.workers.length ≤ maxWorkers ∧ p.workers.Nodup ∧
      (∀ w r r', p.Holds w r → p.Holds w r' → r = r') ∧
      ∀ r < p.runs,
        p.waiters.count r = 1 ∧ (¬∃ w, p.Holds w r) ∧ (p.run r).outcomes = [] ∨
        p.waiters.count r = 0 ∧
          (∃! w, p.Holds w r ∧ (p.worker w).busy = true ∧ (p.worker w).cleaned = false) ∧
          (p.run r).outcomes = [] ∨
        p.waiters.count r = 0 ∧ (¬∃ w, p.Holds w r) ∧ (p.run r).outcomes.length = 1 := by
  intro p
  have hsound : p.Sound := (sound_new maxWorkers abortGraceMs nextInvocationId data).run events
  have hmax : p.maxWorkers = maxWorkers := run_maxWorkers (sound_new _ _ _ _) events
  obtain ⟨slot, hcore, hended, hfull⟩ := hsound.ok
  have hnodup : p.waiters.Nodup := hcore.sorted.imp (fun hlt => Nat.ne_of_lt hlt)
  refine ⟨hmax ▸ hcore.capacity, hcore.workers_nodup, fun w r r' hr hr' => hcore.holds_unique hr hr', ?_⟩
  intro r hruns
  have hqueue : r ∈ p.waiters ↔ (p.run r).phase = .waiting := by
    simpa [hruns] using hcore.waiting r
  cases hphase : (p.run r).phase with
  | waiting =>
    refine Or.inl ⟨List.count_eq_one_of_mem hnodup (hqueue.mpr hphase), ?_, ?_⟩
    · simp [Holds, hphase]
    · exact (hcore.unsettled r (by simp [hphase])).1
  | acquired w =>
    have hholds : p.Holds w r := Or.inl hphase
    refine Or.inr (Or.inl ⟨?_, ⟨w, ⟨hholds, hcore.busy_of_holds hholds⟩, ?_⟩, ?_⟩)
    · exact List.count_eq_zero.mpr (by simp [hqueue, hphase])
    · rintro w' ⟨hw', -⟩
      simpa [Holds, hphase, eq_comm] using hw'
    · exact (hcore.unsettled r (by simp [hphase])).1
  | running w =>
    have hholds : p.Holds w r := Or.inr hphase
    refine Or.inr (Or.inl ⟨?_, ⟨w, ⟨hholds, hcore.busy_of_holds hholds⟩, ?_⟩, ?_⟩)
    · exact List.count_eq_zero.mpr (by simp [hqueue, hphase])
    · rintro w' ⟨hw', -⟩
      simpa [Holds, hphase, eq_comm] using hw'
    · exact (hcore.unsettled r (by simp [hphase])).1
  | settled =>
    refine Or.inr (Or.inr ⟨?_, ?_, hcore.settled r hphase⟩)
    · exact List.count_eq_zero.mpr (by simp [hqueue, hphase])
    · simp [Holds, hphase]

/-- Calls wait only while every thread that is allowed exists and is held by a call or on its way
out. Among them nobody is overtaken: of the calls that came later than one that waits, none was
started. -/
theorem waits_in_turn (maxWorkers abortGraceMs nextInvocationId : Nat) (data : Data V) (events : List (Event V))
    (r : Nat) :
    let p := Machine.run Pool.step (Pool.new maxWorkers abortGraceMs nextInvocationId data) events
    r ∈ p.waiters →
      p.closed = false ∧ p.workers.length = maxWorkers ∧
        (∀ w ∈ p.workers, (∃ r', p.Holds w r') ∨ (p.worker w).terminationError.isSome) ∧
        ∀ r' < p.runs, r < r' →
          r' ∈ p.waiters ∨ (p.run r').outcomes = [.rejected abortedError] ∧ (p.run r').invocationId = "" := by
  intro p hr
  have hsound : p.Sound := (sound_new maxWorkers abortGraceMs nextInvocationId data).run events
  have hmax : p.maxWorkers = maxWorkers := run_maxWorkers (sound_new _ _ _ _) events
  have horder := hsound.order r hr
  obtain ⟨slot, hcore, hended, hfull⟩ := hsound.ok
  obtain ⟨hopen, hlength, hbusy⟩ := hfull (List.ne_nil_of_mem hr)
  have hcapacity := hcore.capacity
  refine ⟨hopen, by omega, ?_, ?_⟩
  · intro w hw
    have hfits := hcore.fits w
    have hlive := hcore.member w hw
    cases hslot : slot w with
    | acquired r' => exact Or.inl ⟨r', (hcore.holds_iff w r').mpr (Or.inl hslot)⟩
    | running r' => exact Or.inl ⟨r', (hcore.holds_iff w r').mpr (Or.inr hslot)⟩
    | leaving =>
      rw [hslot] at hfits
      exact Or.inr hfits.2.1
    | ended => exact absurd hslot (hended w)
    | idle =>
      rw [hslot] at hfits
      have hidle := hbusy w hw
      simp [hfits.1] at hidle
    | absent | gone => simp [hslot, Slot.IsLive] at hlive
  · intro r' hruns hlt
    rcases horder r' hlt with hwaiting | ⟨-, houtcomes, hid⟩
    · exact Or.inl (by simpa using (hcore.waiting r').mpr ⟨hruns, hwaiting⟩)
    · exact Or.inr ⟨houtcomes, hid⟩

/-- Four calls on a pool of one thread: the second and the third wait, the fourth was aborted. -/
theorem second_call_waits_in_turn :
    let events : List (Event Unit) := [.run { data := .other () }, .resume, .run { data := .other () },
      .run { data := .other () }, .run { data := .other (), abortSignal := some false }, .abort 3]
    let p := Machine.run Pool.step (Pool.new 1 5000 0 (.other ())) events
    (p.waiters = [1, 2] ∧ p.runs = 4 ∧ (p.run 0).phase = .running 0) ∧
      p.closed = false ∧ p.workers.length = 1 ∧
      (∀ w ∈ p.workers, (∃ r', p.Holds w r') ∨ (p.worker w).terminationError.isSome) ∧
      ∀ r' < p.runs, 1 < r' →
        r' ∈ p.waiters ∨ (p.run r').outcomes = [.rejected abortedError] ∧ (p.run r').invocationId = "" :=
  ⟨by decide, waits_in_turn 1 5000 0 (.other ()) [.run { data := .other () }, .resume,
    .run { data := .other () }, .run { data := .other () },
    .run { data := .other (), abortSignal := some false }, .abort 3] 1 (by decide)⟩

/-! ## What a call is settled with -/

/-- The events that may settle a call, with what. Only the thread that runs it answers for it. -/
inductive Cause (p : Pool V) (r : Nat) : Event V → Outcome V → Prop where
  | refused (job : Job V) (hr : r = p.runs) (hclosed : p.closed = true) :
    Cause p r (.run job) (.rejected closedError)
  | tooLate (job : Job V) (hr : r = p.runs) (haborted : job.aborted = true) :
    Cause p r (.run job) (.rejected abortedError)
  | dropped (w : Nat) (hphase : (p.run r).phase = .acquired w) (haborted : (p.run r).job.aborted = true) :
    Cause p r .resume (.rejected abortedError)
  | left (hr : r ∈ p.waiters) : Cause p r (.abort r) (.rejected abortedError)
  | shut (hr : r ∈ p.waiters) : Cause p r .close (.rejected closedError)
  | completed (w : Nat) (result : V) (hphase : (p.run r).phase = .running w) :
    Cause p r (.message w (.completed (p.run r).invocationId result)) (.resolved result)
  | failed (w : Nat) (error : String) (stack errorName : Option String) (discarded : Bool)
    (delayedUntil : Option UsageReport.JSNumber) (hphase : (p.run r).phase = .running w) :
    Cause p r (.message w (.failed (p.run r).invocationId error stack errorName discarded delayedUntil))
      (.rejected (failedError error stack errorName delayedUntil))
  | exited (w : Nat) (code : Option Int) (hphase : (p.run r).phase = .running w) :
    Cause p r (.exit w code) (.rejected (exitError code))
  | crashed (w : Nat) (error : JSError) (hphase : (p.run r).phase = .running w) :
    Cause p r (.error w error) (.rejected error)
  | terminated (w : Nat) (e : Event V) (he : (∃ code, e = .exit w code) ∨ ∃ error, e = .error w error)
    (hphase : (p.run r).phase = .running w) (haborted : (p.run r).job.aborted = true) :
    Cause p r e (.rejected (graceError p.abortGraceMs))

/-- A call keeps what it was settled with, or is settled now for a reason. -/
theorem step_outcome (h : p.Sound) (e : Event V) (r : Nat) :
    ((p.step e).run r).outcomes = (p.run r).outcomes ∨
      (p.run r).outcomes = [] ∧ ∃ o, ((p.step e).run r).outcomes = [o] ∧ Cause p r e o := by
  obtain ⟨slot, hcore, -, -⟩ := h.ok
  have hnew : r = p.runs → (p.run r).outcomes = [] := by
    intro hr
    exact (hcore.unsettled r (by simp [(hcore.unborn r (by omega)).1])).1
  have hopen : (p.run r).phase ≠ .settled → (p.run r).outcomes = [] := fun hphase => (hcore.unsettled r hphase).1
  generalize hx : (p.step e).run r = x
  have hstep := run_step h.ok e r
  rw [hx] at hstep
  cases hstep with
  | same | woken | started | told | expired | asked | answered => exact Or.inl rfl
  | refused job hr hclosed => exact Or.inr ⟨hnew hr, _, rfl, .refused job hr hclosed⟩
  | tooLate job hr haborted => exact Or.inr ⟨hnew hr, _, rfl, .tooLate job hr haborted⟩
  | given job w hr => exact Or.inl (hnew hr).symm
  | queued job hr => exact Or.inl (hnew hr).symm
  | dropped w hphase haborted => exact Or.inr ⟨hopen (by simp [hphase]), _, rfl, .dropped w hphase haborted⟩
  | left hr =>
    have hphase := ((hcore.waiting r).mp (Or.inl hr)).2
    exact Or.inr ⟨hopen (by simp [hphase]), _, rfl, .left hr⟩
  | shut hr =>
    have hphase := ((hcore.waiting r).mp (Or.inl hr)).2
    exact Or.inr ⟨hopen (by simp [hphase]), _, rfl, .shut hr⟩
  | completed w result hphase => exact Or.inr ⟨hopen (by simp [hphase]), _, rfl, .completed w result hphase⟩
  | failed w error stack errorName discarded delayedUntil hphase =>
    exact Or.inr ⟨hopen (by simp [hphase]), _, rfl, .failed w error stack errorName discarded delayedUntil hphase⟩
  | lost w error e he hphase =>
    refine Or.inr ⟨hopen (by simp [hphase]), _, rfl, ?_⟩
    cases hterm : (p.worker w).terminationError with
    | some reason =>
      obtain ⟨rfl, haborted⟩ := h.grace.terminated r w reason hphase hterm
      refine .terminated w e ?_ hphase haborted
      rcases he with rfl | ⟨code, rfl, -⟩
      · exact Or.inr ⟨error, rfl⟩
      · exact Or.inl ⟨code, rfl⟩
    | none =>
      rcases he with rfl | ⟨code, rfl, rfl⟩
      · exact .crashed w error hphase
      · exact .exited w code hphase

/-- Whatever a call is settled with has its cause in the run: its own thread answered or ended while
it ran the call, its own signal fired, or the pool was closed. -/
theorem outcome_has_cause (maxWorkers abortGraceMs nextInvocationId : Nat) (data : Data V) (events : List (Event V))
    (r : Nat) (o : Outcome V)
    (ho : o ∈ ((Machine.run Pool.step (Pool.new maxWorkers abortGraceMs nextInvocationId data) events).run r).outcomes) :
    ∃ before e after, events = before ++ e :: after ∧
      Cause (Machine.run Pool.step (Pool.new maxWorkers abortGraceMs nextInvocationId data) before) r e o := by
  have hsound := sound_new maxWorkers abortGraceMs nextInvocationId data
  have hnone : ((Pool.new maxWorkers abortGraceMs nextInvocationId data).run r).outcomes = [] := rfl
  induction events using List.reverseRecOn with
  | nil => simp [hnone] at ho
  | append_singleton events e ih =>
    rw [Machine.run_append, Machine.run_cons, Machine.run_nil] at ho
    rcases step_outcome (hsound.run events) e r with hsame | ⟨-, o', hone, hcause⟩
    · rw [hsame] at ho
      obtain ⟨before, e', after, hevents, hcause⟩ := ih ho
      exact ⟨before, e', after ++ [e], by simp [hevents], hcause⟩
    · rw [hone, List.mem_singleton] at ho
      exact ⟨events, e, [], rfl, ho ▸ hcause⟩

/-- The call of a pool of one thread that answers. -/
theorem answer_has_cause :
    ∃ before e after,
      [.run { data := .other () }, .resume, .message 0 (.completed "1" ())] = before ++ e :: after ∧
        Cause (Machine.run Pool.step (Pool.new 1 5000 0 (.other ())) before) 0 e (.resolved ()) :=
  outcome_has_cause 1 5000 0 (.other ()) [.run { data := .other () }, .resume, .message 0 (.completed "1" ())] 0
    (.resolved ()) (List.mem_singleton.mpr rfl)

/-! ## What reaches a job -/

/-- What an event adds to the calls on a job, and to its outcomes. -/
structure Adds (x y : Run V) : Prop where
  calls : ∃ new, y.job.calls = x.job.calls ++ new ∧ (x.job.aborted = true → ∀ call ∈ new, call.IsNote) ∧
    (x.phase = .settled → new = [])
  aborted : x.job.aborted = true → y.job.aborted = true
  settled : x.phase = .settled → y.phase = .settled ∧ y.outcomes = x.outcomes

theorem Adds.of_job {x y : Run V} (hcalls : y.job.calls = x.job.calls)
    (haborted : x.job.aborted = true → y.job.aborted = true)
    (hsettled : x.phase = .settled → y.phase = .settled ∧ y.outcomes = x.outcomes) : Adds x y :=
  ⟨⟨[], by simp [hcalls], by simp, by simp⟩, haborted, hsettled⟩

theorem Adds.trans {x y z : Run V} (h : Adds x y) (h' : Adds y z) : Adds x z := by
  obtain ⟨⟨new, hcalls, hnotes, hnone⟩, haborted, hsettled⟩ := h
  obtain ⟨⟨new', hcalls', hnotes', hnone'⟩, haborted', hsettled'⟩ := h'
  refine ⟨⟨new ++ new', by rw [hcalls', hcalls, List.append_assoc], ?_, ?_⟩, fun ha => haborted' (haborted ha), ?_⟩
  · intro ha call hcall
    rcases List.mem_append.mp hcall with hmem | hmem
    · exact hnotes ha call hmem
    · exact hnotes' (haborted ha) call hmem
  · intro hs
    rw [hnone hs, hnone' (hsettled hs).1]
    rfl
  · intro hs
    obtain ⟨hphase, houtcomes⟩ := hsettled hs
    exact ⟨(hsettled' hphase).1, (hsettled' hphase).2.trans houtcomes⟩

theorem step_adds (h : p.Ok) (e : Event V) (r : Nat) (hr : r < p.runs) : Adds (p.run r) ((p.step e).run r) := by
  obtain ⟨slot, hcore, -, -⟩ := id h
  have hwaiting : r ∈ p.waiters → (p.run r).phase ≠ .settled := by
    intro hmem
    simp [((hcore.waiting r).mp (Or.inl hmem)).2]
  generalize hx : (p.step e).run r = x
  have hstep := run_step h e r
  rw [hx] at hstep
  cases hstep with
  | refused job hnew | tooLate job hnew | given job w hnew | queued job hnew => exact absurd hnew (by omega)
  | woken e w rest hq => exact .of_job rfl id (fun hs => absurd hs (hwaiting (by simp [hq])))
  | started w hphase | dropped w hphase => exact .of_job rfl id (fun hs => by simp [hphase] at hs)
  | left hmem => exact .of_job rfl (fun _ => by simp [Job.aborted]) (fun hs => absurd hs (hwaiting hmem))
  | told => exact .of_job rfl (fun _ => by simp [Job.aborted]) (fun hs => ⟨hs, rfl⟩)
  | shut hmem => exact .of_job rfl id (fun hs => absurd hs (hwaiting hmem))
  | completed w result hphase => exact .of_job rfl id (fun hs => by simp [hphase] at hs)
  | failed w error stack errorName discarded delayedUntil hphase =>
    exact .of_job rfl id (fun hs => by simp [hphase] at hs)
  | lost w error e he hphase => exact .of_job rfl id (fun hs => by simp [hphase] at hs)
  | asked w id method job hphase hid hjob =>
    obtain ⟨hsignal, new, hcalls, hnotes⟩ := hjob
    refine ⟨⟨new, hcalls, hnotes, fun hs => ?_⟩, fun ha => ?_, fun hs => ⟨hs, rfl⟩⟩
    · simp [hphase] at hs
    · simpa [Job.aborted, hsignal] using ha
  | same | expired | answered => exact .of_job rfl id (fun hs => ⟨hs, rfl⟩)

theorem run_adds (h : p.Sound) (events : List (Event V)) (r : Nat) (hr : r < p.runs) :
    Adds (p.run r) ((Machine.run Pool.step p events).run r) := by
  obtain ⟨hadds, -⟩ : Adds (p.run r) ((Machine.run Pool.step p events).run r) ∧
      r < (Machine.run Pool.step p events).runs := by
    induction events using List.reverseRecOn with
    | nil => exact ⟨.of_job rfl id (fun hs => ⟨hs, rfl⟩), hr⟩
    | append_singleton events e ih =>
      rw [Machine.run_append, Machine.run_cons, Machine.run_nil]
      refine ⟨ih.1.trans (step_adds (h.run events).ok e r ih.2), ?_⟩
      exact Nat.lt_of_lt_of_le ih.2 (step_counts (h.run events).ok e).runs_le.1
  exact hadds

/-- Once the signal of a job has fired, its processor can do no more than log and discard: it reaches
neither its progress, its data nor its delay. Once its call is settled nothing reaches the job, and
the call is not settled again. -/
theorem writes_end_with_the_signal (maxWorkers abortGraceMs nextInvocationId : Nat) (data : Data V)
    (events later : List (Event V)) (r : Nat) :
    let p := Machine.run Pool.step (Pool.new maxWorkers abortGraceMs nextInvocationId data) events
    let q := Machine.run Pool.step p later
    r < p.runs →
      ∃ new, (q.run r).job.calls = (p.run r).job.calls ++ new ∧
        ((p.run r).job.aborted = true → ∀ call ∈ new, call.IsNote) ∧
        ((p.run r).outcomes ≠ [] → new = [] ∧ (q.run r).outcomes = (p.run r).outcomes) := by
  intro p q hr
  have hsound : p.Sound := (sound_new maxWorkers abortGraceMs nextInvocationId data).run events
  obtain ⟨⟨new, hcalls, hnotes, hnone⟩, -, hsettled⟩ := run_adds hsound later r hr
  obtain ⟨slot, hcore, -, -⟩ := hsound.ok
  have hphase : (p.run r).outcomes ≠ [] → (p.run r).phase = .settled := by
    intro hne
    by_contra hopen
    exact hne (hcore.unsettled r hopen).1
  exact ⟨new, hcalls, hnotes, fun hne => ⟨hnone (hphase hne), (hsettled (hphase hne)).2⟩⟩

/-- A job whose signal fires while it runs. -/
theorem writes_of_aborted_end :
    let p := Machine.run Pool.step (Pool.new 1 5000 0 (.other ()))
      [.run { abortSignal := some false, data := .other () }, .resume, .abort 0]
    let q := Machine.run Pool.step p
      [.message 0 (.proxyRequest "1:1" (.updateProgress ())), .message 0 (.proxyRequest "1:2" (.log ()))]
    ∃ new, (q.run 0).job.calls = (p.run 0).job.calls ++ new ∧
      ((p.run 0).job.aborted = true → ∀ call ∈ new, call.IsNote) ∧
      ((p.run 0).outcomes ≠ [] → new = [] ∧ (q.run 0).outcomes = (p.run 0).outcomes) :=
  writes_end_with_the_signal 1 5000 0 (.other ())
    [.run { abortSignal := some false, data := .other () }, .resume, .abort 0]
    [.message 0 (.proxyRequest "1:1" (.updateProgress ())), .message 0 (.proxyRequest "1:2" (.log ()))] 0 (by decide)

/-! ## Messages of other invocations -/

theorem Ids.colon (h : p.Ids) (r : Nat) : ':' ∉ (p.run r).invocationId.toList := by
  -- An invocation id is a number, so it ends at the first colon.
  by_cases hid : (p.run r).invocationId = ""
  · simp [hid]
  · obtain ⟨k, -, hk⟩ := h.issued r hid
    intro hcolon
    have hdigits := Lua.isDigits_repr k
    rw [hk] at hcolon
    simp only [Lua.isDigits, Bool.and_eq_true, List.all_eq_true] at hdigits
    exact absurd (hdigits.2 ':' hcolon) (by decide)

/-- A message that names the invocation of a call changes nothing unless it comes from the thread that
runs the call: neither a late answer nor a late request reaches the call that runs there now. -/
theorem late_messages_are_ignored (maxWorkers abortGraceMs nextInvocationId : Nat) (data : Data V)
    (events : List (Event V)) (r w : Nat) (m : ChildToMain V) :
    let p := Machine.run Pool.step (Pool.new maxWorkers abortGraceMs nextInvocationId data) events
    (p.run r).invocationId ≠ "" → (p.run r).phase ≠ .running w → m.Names (p.run r).invocationId →
      p.step (.message w m) = p := by
  intro p hstarted hphase hnames
  have hsound : p.Sound := (sound_new maxWorkers abortGraceMs nextInvocationId data).run events
  obtain ⟨slot, hcore, hended, -⟩ := hsound.ok
  unfold Pool.step
  split
  · rfl
  simp only [handle, message]
  rcases hcore.listeners hended w with hnone | ⟨r₀, hslot, hone⟩
  · rw [hnone, List.foldl_nil]
  rw [hone, List.foldl_cons, List.foldl_nil]
  have hne : (p.run r).invocationId ≠ (p.run r₀).invocationId := by
    intro heq
    have hsame := hsound.ids.distinct r r₀ hstarted heq
    exact hphase (hsame ▸ (hcore.running r₀ w).mpr hslot)
  cases m with
  | completed id result =>
    simp only [onMessage]
    rw [if_neg]
    rintro rfl
    exact hne hnames.symm
  | failed id error stack errorName discarded delayedUntil =>
    simp only [onMessage]
    rw [if_neg]
    rintro rfl
    exact hne hnames.symm
  | proxyRequest id method =>
    simp only [onMessage]
    rw [if_neg]
    rintro ⟨rest, hrest⟩
    obtain ⟨n, rfl⟩ := hnames
    simp only [String.toList_append] at hrest
    have hcolon : ":".toList = [':'] := rfl
    rw [hcolon, List.append_assoc, List.append_assoc, List.singleton_append, List.singleton_append] at hrest
    have hleft := Text.splitFirst_append (r := rest) (hsound.ids.colon r₀)
    rw [hrest, Text.splitFirst_append (hsound.ids.colon r)] at hleft
    simp only [Option.some.injEq, Prod.mk.injEq] at hleft
    exact hne (String.toList_inj.mp hleft.1)

/-- A request of the first call that comes while its thread runs the second. -/
theorem request_of_ended_call_is_ignored :
    let p := Machine.run Pool.step (Pool.new 1 5000 0 (.other ()))
      [.run { data := .other () }, .resume, .message 0 (.completed "1" ()), .run { data := .other () }, .resume]
    p.step (.message 0 (.proxyRequest "1:1" (.updateProgress ()))) = p :=
  late_messages_are_ignored 1 5000 0 (.other ())
    [.run { data := .other () }, .resume, .message 0 (.completed "1" ()), .run { data := .other () }, .resume] 0 0
    (.proxyRequest "1:1" (.updateProgress ())) (by decide) (by decide) ⟨"1", by decide⟩

end Pool

end

end GlideMq.Sandbox
