import GlideMq.Proofs.SandboxPool

/-!
# What an event does to a call of `run`

One lemma says all that an event can make of a call, another what it does to the counters.
-/

namespace GlideMq.Sandbox

section

variable {V : Type}

/-- A call that does not change the state of the job. -/
def JobCall.IsNote : JobCall V → Prop
  | .log _ | .discard => True
  | _ => False

/-- What a request of the processor may add to the calls on its job. -/
def Job.Asked (job job' : Job V) : Prop :=
  job'.abortSignal = job.abortSignal ∧
    ∃ new, job'.calls = job.calls ++ new ∧ (job.aborted = true → ∀ call ∈ new, call.IsNote)

/-- What one event can make of a call. -/
inductive RunStep (p : Pool V) (r : Nat) : Event V → Run V → Prop where
  | same (e : Event V) : RunStep p r e (p.run r)
  | refused (job : Job V) (hr : r = p.runs) (hclosed : p.closed = true) :
    RunStep p r (.run job) { job, phase := .settled, outcomes := [.rejected closedError] }
  | tooLate (job : Job V) (hr : r = p.runs) (haborted : job.aborted = true) :
    RunStep p r (.run job) { job, phase := .settled, outcomes := [.rejected abortedError] }
  | given (job : Job V) (w : Nat) (hr : r = p.runs) (hq : p.waiters = []) :
    RunStep p r (.run job) { job, phase := .acquired w }
  | queued (job : Job V) (hr : r = p.runs) : RunStep p r (.run job) { job }
  | woken (e : Event V) (w : Nat) (rest : List Nat) (hq : p.waiters = r :: rest) :
    RunStep p r e { p.run r with phase := .acquired w }
  | started (w : Nat) (hphase : (p.run r).phase = .acquired w) (haborted : (p.run r).job.aborted = false)
    (hhead : p.microtasks.head? = some r) :
    RunStep p r .resume
      { p.run r with phase := .running w, invocationId := toString (p.nextInvocationId + 1) }
  | dropped (w : Nat) (hphase : (p.run r).phase = .acquired w) (haborted : (p.run r).job.aborted = true) :
    RunStep p r .resume { p.run r with phase := .settled, outcomes := [.rejected abortedError] }
  | left (hr : r ∈ p.waiters) :
    RunStep p r (.abort r)
      { p.run r with
        job := { (p.run r).job with abortSignal := some true }
        phase := .settled, outcomes := [.rejected abortedError] }
  | told (timer : Bool) (hphase : (p.run r).phase ≠ .waiting) :
    RunStep p r (.abort r)
      { p.run r with job := { (p.run r).job with abortSignal := some true }, graceTimer := timer }
  | shut (hr : r ∈ p.waiters) :
    RunStep p r .close { p.run r with phase := .settled, outcomes := [.rejected closedError] }
  | expired : RunStep p r (.graceExpired r) { p.run r with graceTimer := false }
  | completed (w : Nat) (result : V) (hphase : (p.run r).phase = .running w) :
    RunStep p r (.message w (.completed (p.run r).invocationId result))
      { p.run r with phase := .settled, graceTimer := false, cleaned := true, outcomes := [.resolved result] }
  | failed (w : Nat) (error : String) (stack errorName : Option String) (discarded : Bool)
    (delayedUntil : Option UsageReport.JSNumber) (hphase : (p.run r).phase = .running w) :
    RunStep p r (.message w (.failed (p.run r).invocationId error stack errorName discarded delayedUntil))
      { p.run r with
        job := { (p.run r).job with discarded := (p.run r).job.discarded || discarded }
        phase := .settled, graceTimer := false, cleaned := true
        outcomes := [.rejected (failedError error stack errorName delayedUntil)] }
  | lost (w : Nat) (error : JSError) (e : Event V) (he : e = .error w error ∨ ∃ code, e = .exit w code ∧ error = exitError code)
    (hphase : (p.run r).phase = .running w) :
    RunStep p r e
      { p.run r with
        phase := .settled, graceTimer := false, cleaned := true
        outcomes := [.rejected ((p.worker w).terminationError.getD error)] }
  | asked (w : Nat) (id : String) (method : Method V) (job : Job V) (hphase : (p.run r).phase = .running w)
    (hid : ((p.run r).invocationId ++ ":").toList <+: id.toList) (hjob : (p.run r).job.Asked job) :
    RunStep p r (.message w (.proxyRequest id method)) { p.run r with job }
  | answered (i : Nat) (data : Data V) :
    RunStep p r (.endCall i none) { p.run r with job := { (p.run r).job with data } }

variable {p : Pool V} {slot : Nat → Slot} {r : Nat} {w : Nat}

namespace Pool

/-! ## What a released or a lost worker does to the waiters -/

theorem grant_run (r' : Nat) : (p.grant r w).run r' =
    if r' = r then { p.run r with phase := .acquired w } else p.run r' := by
  simp only [grant, modifyRun, modifyWorker, Function.update_apply]

theorem release_run (p : Pool V) (w : Nat) (r : Nat) : (p.release w).run r = p.run r ∨
    ∃ rest, p.waiters = r :: rest ∧ (p.release w).run r = { p.run r with phase := .acquired w } := by
  unfold release
  simp only
  split
  · exact Or.inl rfl
  split
  · exact Or.inl rfl
  · rename_i r' rest hq
    rw [grant_run]
    split_ifs with hr
    · subst hr
      exact Or.inr ⟨rest, hq, rfl⟩
    · exact Or.inl rfl

theorem wakeWaiter_run (p : Pool V) (r : Nat) : p.wakeWaiter.run r = p.run r ∨
    ∃ w rest, p.waiters = r :: rest ∧ p.wakeWaiter.run r = { p.run r with phase := .acquired w } := by
  unfold wakeWaiter
  split
  · exact Or.inl rfl
  split
  · exact Or.inl rfl
  · rename_i r' rest hq
    rw [grant_run]
    split_ifs with hr
    · subst hr
      exact Or.inr ⟨p.spawned, rest, hq, rfl⟩
    · exact Or.inl rfl

/-! ## One event -/

theorem run_step_start (h : p.Ok) (job : Job V) (r : Nat) : RunStep p r (.run job) ((p.startRun job).run r) := by
  obtain ⟨slot, hcore, hended, hfull⟩ := h
  have hold : r ≠ p.runs → RunStep p r (.run job) (Function.update p.run p.runs { job } r) := by
    intro hr
    rw [Function.update_of_ne hr]
    exact .same _
  unfold startRun
  simp only
  split
  · rename_i hclosed
    simp only [reject, settle, modifyRun, Function.update_idem, Function.update_self, Function.update_apply]
    split_ifs with hr
    · exact .refused job hr hclosed
    · exact .same _
  split
  · rename_i haborted
    simp only [reject, settle, modifyRun, Function.update_idem, Function.update_self, Function.update_apply]
    split_ifs with hr
    · exact .tooLate job hr haborted
    · exact .same _
  unfold acquire
  split
  · rename_i idle hidle
    rw [grant_run]
    split_ifs with hr
    · simp only [Function.update_self]
      refine .given job idle hr ?_
      by_contra hq
      have hbusy := (hfull hq).2.2 idle (List.mem_of_find?_eq_some hidle)
      have hidle' := List.find?_some hidle
      simp [hbusy] at hidle'
    · exact hold hr
  split
  · rename_i hlt
    rw [grant_run]
    split_ifs with hr
    · simp only [spawn, Function.update_self]
      refine .given job p.spawned hr ?_
      by_contra hq
      exact absurd hlt (Nat.not_lt_of_le (hfull hq).2.1)
    · exact hold hr
  · by_cases hr : r = p.runs
    · subst hr
      simp only [Function.update_self]
      exact .queued job rfl
    · exact hold hr

theorem run_step_resume (h : p.Ok) (r : Nat) : RunStep p r .resume (p.resume.run r) := by
  obtain ⟨slot, hcore, hended, hfull⟩ := h
  unfold resume
  split
  · exact .same _
  rename_i r₀ rest hq
  obtain ⟨w, hphase⟩ := hcore.microtasks r₀ (by simp [hq])
  simp only [resumeRun, hphase]
  split
  · rename_i haborted
    have hwaiters : r₀ ∉ p.waiters := by
      intro hr
      have hwaiting := ((hcore.waiting r₀).mp (Or.inl hr)).2
      simp [hphase] at hwaiting
    simp only [reject, settle, modifyRun, Function.update_apply]
    rcases release_run { p with microtasks := rest } w r₀ with hsame | ⟨rest', hhead, -⟩
    · split_ifs with hr
      · subst hr
        rw [hsame, (hcore.unsettled r (by simp [hphase])).1]
        exact .dropped w hphase haborted
      · rcases release_run { p with microtasks := rest } w r with hsame' | ⟨rest', hhead, hgrant⟩
        · rw [hsame']
          exact .same _
        · rw [hgrant]
          exact .woken _ w rest' hhead
    · simp only at hhead
      simp [hhead] at hwaiters
  · rename_i haborted
    have haborted' : (p.run r₀).job.aborted = false := by simpa using haborted
    have hsame : ∀ x y : Pool V, (if (p.run r₀).job.aborted then x else y) = y := by simp [haborted']
    unfold process
    simp only [modifyRun, modifyWorker, send, Function.update_self, hsame, Function.update_apply]
    split_ifs with hr
    · subst hr
      exact .started w hphase haborted' (by simp [hq])
    · exact .same _

theorem run_step_abort (h : p.Ok) (r₀ r : Nat) : RunStep p r (.abort r₀) ((p.abort r₀).run r) := by
  obtain ⟨slot, hcore, hended, hfull⟩ := h
  unfold abort
  split
  · rename_i hsignal
    have hphase : ((p.modifyJob r₀ fun job => { job with abortSignal := some true }).run r₀).phase =
        (p.run r₀).phase := by simp [modifyJob, modifyRun]
    simp only [hphase]
    split
    · rename_i hwaiting
      have hruns : r₀ < p.runs := by
        by_contra hle
        have hnone := (hcore.unborn r₀ (Nat.le_of_not_lt hle)).2
        simp [hsignal] at hnone
      have hr := (hcore.waiting r₀).mpr ⟨hruns, hwaiting⟩
      simp only [reduceCtorEq, or_false] at hr
      simp only [reject, settle, modifyJob, modifyRun, Function.update_idem, Function.update_self,
        Function.update_apply]
      split_ifs with heq
      · subst heq
        rw [(hcore.unsettled r (by simp [hwaiting])).1]
        exact .left hr
      · exact .same _
    · rename_i w hrunning
      simp only [abortHandler, send, modifyJob, modifyRun, Function.update_idem, Function.update_self,
        Function.update_apply]
      split_ifs with heq
      · subst heq
        exact .told true (by simp [hrunning])
      · exact .same _
    · rename_i hwaiting _
      simp only [modifyJob, modifyRun, Function.update_apply]
      split_ifs with heq
      · subst heq
        exact .told (p.run r).graceTimer hwaiting
      · exact .same _
  · exact .same _

theorem run_step_timer (r₀ r : Nat) : RunStep p r (.graceExpired r₀) ((p.graceExpired r₀).run r) := by
  have htimer : RunStep p r (.graceExpired r₀) ((p.modifyRun r₀ fun x => { x with graceTimer := false }).run r) := by
    simp only [modifyRun, Function.update_apply]
    split_ifs with heq
    · subst heq
      exact .expired
    · exact .same _
  unfold graceExpired
  split
  · simp only
    split
    · split
      · exact htimer
      · exact htimer
    · exact htimer
  · exact .same _

theorem run_step_close (h : p.Ok) (r : Nat) : RunStep p r .close (p.close.run r) := by
  obtain ⟨slot, hcore, hended, hfull⟩ := h
  unfold close
  split
  · exact .same _
  have hnodup : p.waiters.Nodup := hcore.sorted.imp (fun hlt => Nat.ne_of_lt hlt)
  simp only
  rw [foldl_reject { p with closed := true } closedError hnodup]
  simp only
  split_ifs with hr
  · have hwaiting := ((hcore.waiting r).mp (Or.inl hr)).2
    rw [(hcore.unsettled r (by simp [hwaiting])).1]
    exact .shut hr
  · exact .same _

theorem Core.retired_run (h : p.Core slot none) (hended : slot w ≠ .ended) (hlive : (slot w).IsLive) (error : JSError)
    (r : Nat) : (p.retired w error).run r = p.run r ∨
      (p.run r).phase = .running w ∧ (p.retired w error).run r =
        { p.run r with
          phase := .settled, graceTimer := false, cleaned := true
          outcomes := [.rejected ((p.worker w).terminationError.getD error)] } := by
  have hfits := h.fits w
  unfold retired
  split
  · rename_i r₀ hreject
    have hslot : slot w = .running r₀ := by
      cases hs : slot w with
      | running r' =>
        rw [hs] at hfits
        rw [hfits.2.1] at hreject
        exact congrArg Slot.running (Option.some.inj hreject)
      | ended => exact absurd hs hended
      | absent | gone => simp [hs, Slot.IsLive] at hlive
      | idle | acquired _ | leaving =>
        rw [hs] at hfits
        simp [hfits.2.2.1] at hreject
    have hphase := (h.running r₀ w).mpr hslot
    obtain ⟨houtcomes, hcleaned⟩ := h.unsettled r₀ (by simp [hphase])
    simp only [cleanup, hcleaned, Bool.false_eq_true, if_false, reject, settle, modifyRun, modifyWorker,
      Function.update_idem, Function.update_self, Function.update_apply]
    split_ifs with hr
    · subst hr
      exact Or.inr ⟨hphase, by simp [houtcomes]⟩
    · exact Or.inl rfl
  · exact Or.inl rfl

theorem run_step_lost (h : p.Ok) (hq : p.microtasks = []) (hw : w < p.spawned) (error : JSError) (e : Event V)
    (he : e = .error w error ∨ ∃ code, e = .exit w code ∧ error = exitError code) (r : Nat) :
    RunStep p r e ((p.removeAndCleanup w error).run r) := by
  obtain ⟨slot, hcore, hended, hfull⟩ := h
  have hheld : ∀ r, slot w ≠ .acquired r := by
    intro r hslot
    have hmem := hcore.postponed r w ((hcore.acquired r w).mpr hslot)
    simp [hq] at hmem
  rcases hcore.removeAndCleanup_eq hw hheld (hended w) error with ⟨heq, -⟩ | ⟨heq, hlive, hretired⟩
  · rw [heq]
    exact .same _
  rw [heq]
  have hrun := hcore.retired_run (hended w) hlive error r
  rcases wakeWaiter_run (p.retired w error) r with hsame | ⟨w', rest, hhead, hgrant⟩
  · rw [hsame]
    rcases hrun with hrun | ⟨hphase, hrun⟩
    · rw [hrun]
      exact .same _
    · rw [hrun]
      exact .lost w error e he hphase
  · rw [retired_waiters] at hhead
    rw [hgrant]
    rcases hrun with hrun | ⟨hphase, -⟩
    · rw [hrun]
      exact .woken e w' rest hhead
    · have hwaiting := ((hcore.waiting r).mp (Or.inl (by simp [hhead]))).2
      simp [hphase] at hwaiting

theorem Core.finish_run (h : p.Core slot none) {r₀ : Nat} (hw : slot w = .running r₀) (f : Job V → Job V)
    (o : Outcome V) (r : Nat) :
    ((((p.cleanup r₀ w).release w).modifyJob r₀ f).settle r₀ o).run r =
        (if r = r₀ then { p.run r with
          job := f (p.run r).job
          phase := .settled, graceTimer := false, cleaned := true, outcomes := [o] } else p.run r) ∨
      ∃ rest, p.waiters = r :: rest ∧
        ((((p.cleanup r₀ w).release w).modifyJob r₀ f).settle r₀ o).run r = { p.run r with phase := .acquired w } := by
  -- The answer of a thread settles the call that it runs, and its release may wake a waiter.
  have hphase := (h.running r₀ w).mpr hw
  obtain ⟨houtcomes, hcleaned⟩ := h.unsettled r₀ (by simp [hphase])
  have hclean : ∀ r', (p.cleanup r₀ w).run r' =
      if r' = r₀ then { p.run r₀ with cleaned := true, graceTimer := false } else p.run r' := by
    intro r'
    simp only [cleanup, hcleaned, Bool.false_eq_true, if_false, modifyRun, modifyWorker, Function.update_apply]
  have hwaiters : r₀ ∉ p.waiters := by
    intro hr
    have hwaiting := ((h.waiting r₀).mp (Or.inl hr)).2
    simp [hphase] at hwaiting
  have hrelease := release_run (p.cleanup r₀ w) w r
  rw [(cleanup_fields p r₀ w).1, hclean] at hrelease
  simp only [settle, modifyJob, modifyRun, Function.update_idem, Function.update_self, Function.update_apply]
  split_ifs at hrelease ⊢ with hr
  · subst hr
    rcases hrelease with hsame | ⟨rest, hhead, -⟩
    · rw [hsame]
      exact Or.inl (by simp [houtcomes])
    · simp [hhead] at hwaiters
  · rcases hrelease with hsame | ⟨rest, hhead, hgrant⟩
    · exact Or.inl hsame
    · exact Or.inr ⟨rest, hhead, hgrant⟩

theorem handleProxyRequest_run (p : Pool V) (w : Nat) (r₀ : Nat) (id : String) (method : Method V) (r : Nat) :
    (p.handleProxyRequest w r₀ id method).run r = p.run r ∨
      r = r₀ ∧ ∃ job, (p.run r).job.Asked job ∧
        (p.handleProxyRequest w r₀ id method).run r = { p.run r with job } := by
  -- Every request that is not refused calls one thing on the job.
  have hcall : ∀ (f : Job V → Job V) (call : JobCall V) (q : Pool V),
      q.run = (p.modifyJob r₀ f).run → (f (p.run r₀).job).abortSignal = (p.run r₀).job.abortSignal →
      (f (p.run r₀).job).calls = (p.run r₀).job.calls ++ [call] →
      ((p.run r₀).job.aborted = true → call.IsNote) →
      q.run r = p.run r ∨ r = r₀ ∧ ∃ job, (p.run r).job.Asked job ∧ q.run r = { p.run r with job } := by
    intro f call q hq hsignal hcalls hnote
    rw [hq]
    simp only [modifyJob, modifyRun, Function.update_apply]
    split_ifs with hr
    · subst hr
      refine Or.inr ⟨rfl, _, ⟨hsignal, [call], hcalls, ?_⟩, rfl⟩
      simpa using hnote
    · exact Or.inl rfl
  have hstart : ∀ call : JobCall V, ((p.run r₀).job.aborted = true → call.IsNote) →
      (p.startCall w r₀ id call).run r = p.run r ∨
        r = r₀ ∧ ∃ job, (p.run r).job.Asked job ∧ (p.startCall w r₀ id call).run r = { p.run r with job } :=
    fun call hnote => hcall (fun job => { job with calls := job.calls ++ [call] }) call _ rfl rfl rfl hnote
  unfold handleProxyRequest
  simp only
  split
  · exact Or.inl rfl
  rename_i hallowed
  cases method with
  | log message => exact hstart _ (fun _ => trivial)
  | updateProgress progress => exact hstart _ (fun haborted => absurd haborted (by simpa [Method.name] using hallowed))
  | updateData data => exact hstart _ (fun haborted => absurd haborted (by simpa [Method.name] using hallowed))
  | discard =>
    exact hcall (fun job => { job with discarded := true, calls := job.calls ++ [.discard] }) .discard _ rfl rfl rfl
      (fun _ => trivial)
  | moveToDelayed timestamp nextStep =>
    have hmove : ∀ t next, ((p.requestMoveToDelayed r₀ t next).send w (.proxyResponse id none)).run r = p.run r ∨
        r = r₀ ∧ ∃ job, (p.run r).job.Asked job ∧
          ((p.requestMoveToDelayed r₀ t next).send w (.proxyResponse id none)).run r = { p.run r with job } :=
      fun t next => hcall
        (fun job => { job with
          data := next.getD job.data, calls := job.calls ++ [.requestMoveToDelayed ⌊t.val⌋ next] })
        (.requestMoveToDelayed ⌊t.val⌋ next) _ rfl rfl rfl
        (fun haborted => absurd haborted (by simpa [Method.name] using hallowed))
    simp only
    split
    · exact Or.inl rfl
    split
    · exact Or.inl rfl
    split
    · exact hmove _ _
    · exact hmove _ _
    · exact Or.inl rfl
  | unknown name => exact Or.inl rfl

theorem run_step_message (h : p.Ok) (w : Nat) (m : ChildToMain V) (r : Nat) :
    RunStep p r (.message w m) ((p.message w m).run r) := by
  obtain ⟨slot, hcore, hended, hfull⟩ := h
  unfold message
  rcases hcore.listeners hended w with hnone | ⟨r₀, hslot, hone⟩
  · rw [hnone]
    exact .same _
  rw [hone, List.foldl_cons, List.foldl_nil]
  have hphase := (hcore.running r₀ w).mpr hslot
  have hsame : ∀ q : Pool V, q.modifyJob r₀ (fun job => job) = q := by
    intro q
    simp [modifyJob, modifyRun]
  cases m with
  | completed id result =>
    simp only [onMessage]
    split
    · rename_i hid
      have hrun := hcore.finish_run hslot (fun job => job) (.resolved result) r
      rw [hsame] at hrun
      rcases hrun with hrun | ⟨rest, hhead, hrun⟩
      · rw [hrun]
        split_ifs with hr
        · subst hr hid
          exact .completed w result hphase
        · exact .same _
      · rw [hrun]
        exact .woken _ w rest hhead
    · exact .same _
  | failed id error stack errorName discarded delayedUntil =>
    simp only [onMessage]
    split
    · rename_i hid
      have hflag : ∀ q : Pool V, (if discarded then q.modifyJob r₀ fun job => { job with discarded := true } else q) =
          q.modifyJob r₀ fun job => { job with discarded := job.discarded || discarded } := by
        intro q
        cases discarded with
        | true => simp
        | false => simp [hsame]
      rw [hflag]
      rcases hcore.finish_run hslot (fun job => { job with discarded := job.discarded || discarded })
        (.rejected (failedError error stack errorName delayedUntil)) r with hrun | ⟨rest, hhead, hrun⟩
      · rw [reject, hrun]
        split_ifs with hr
        · subst hr hid
          exact .failed w error stack errorName discarded delayedUntil hphase
        · exact .same _
      · rw [reject, hrun]
        exact .woken _ w rest hhead
    · exact .same _
  | proxyRequest id method =>
    simp only [onMessage]
    split
    · rename_i hid
      rcases handleProxyRequest_run p w r₀ id method r with hrun | ⟨rfl, job, hjob, hrun⟩
      · rw [hrun]
        exact .same _
      · rw [hrun]
        exact .asked w id method job hphase hid hjob
    · exact .same _

theorem run_step_end_call (i : Nat) (error : Option String) (r : Nat) :
    RunStep p r (.endCall i error) ((p.endCall i error).run r) := by
  unfold endCall
  split
  · exact .same _
  · simp only
    split
    · simp only [send, modifyJob, modifyRun, Function.update_apply]
      split_ifs with hr
      · subst hr
        exact .answered i _
      · exact .same _
    · exact .same _

/-- Every event makes one of these steps of every call. -/
theorem run_step (h : p.Ok) (e : Event V) (r : Nat) : RunStep p r e ((p.step e).run r) := by
  unfold step
  split
  · exact .same _
  rename_i hmacro
  cases e with
  | run job => exact run_step_start h job r
  | resume => exact run_step_resume h r
  | abort r₀ => exact run_step_abort h r₀ r
  | endCall i error => exact run_step_end_call i error r
  | otherInvocation => exact .same _
  | close => exact run_step_close h r
  | terminated =>
    simp only [handle, terminated]
    split
    · exact .same _
    · exact .same _
  | graceExpired r₀ => exact run_step_timer r₀ r
  | message w m => exact run_step_message h w m r
  | exit w code =>
    simp only [handle]
    split
    · exact run_step_lost h (by simpa [Event.isMacrotask] using hmacro) ‹_› _ _ (Or.inr ⟨code, rfl, rfl⟩) r
    · exact .same _
  | error w error =>
    simp only [handle]
    split
    · exact run_step_lost h (by simpa [Event.isMacrotask] using hmacro) ‹_› _ _ (Or.inl rfl) r
    · exact .same _

/-! ## What stays -/

/-- The size of the pool and the counters. -/
structure Keeps (p q : Pool V) : Prop where
  maxWorkers : q.maxWorkers = p.maxWorkers
  abortGraceMs : q.abortGraceMs = p.abortGraceMs
  nextInvocationId : q.nextInvocationId = p.nextInvocationId
  runs : q.runs = p.runs

theorem Keeps.refl (p : Pool V) : p.Keeps p := ⟨rfl, rfl, rfl, rfl⟩

theorem Keeps.trans {q q' : Pool V} (h : p.Keeps q) (h' : q.Keeps q') : p.Keeps q' :=
  ⟨h'.maxWorkers.trans h.maxWorkers, h'.abortGraceMs.trans h.abortGraceMs,
    h'.nextInvocationId.trans h.nextInvocationId, h'.runs.trans h.runs⟩

theorem keeps_release (p : Pool V) (w : Nat) : p.Keeps (p.release w) := by
  unfold release
  simp only
  split
  · exact ⟨rfl, rfl, rfl, rfl⟩
  · split <;> exact ⟨rfl, rfl, rfl, rfl⟩

theorem keeps_cleanup (p : Pool V) (r : Nat) (w : Nat) : p.Keeps (p.cleanup r w) := by
  unfold cleanup
  split <;> exact ⟨rfl, rfl, rfl, rfl⟩

theorem keeps_wakeWaiter (p : Pool V) : p.Keeps p.wakeWaiter := by
  unfold wakeWaiter
  split
  · exact .refl p
  · split <;> exact ⟨rfl, rfl, rfl, rfl⟩

theorem keeps_retired (p : Pool V) (w : Nat) (error : JSError) : p.Keeps (p.retired w error) := by
  unfold retired
  split
  · obtain ⟨hmax, hgrace, hnext, hruns⟩ := keeps_cleanup p _ w
    exact ⟨hmax, hgrace, hnext, hruns⟩
  · exact ⟨rfl, rfl, rfl, rfl⟩

theorem keeps_acquire (p : Pool V) (r : Nat) : p.Keeps (p.acquire r) := by
  unfold acquire
  split
  · exact ⟨rfl, rfl, rfl, rfl⟩
  · split <;> exact ⟨rfl, rfl, rfl, rfl⟩

theorem keeps_abort (p : Pool V) (r : Nat) : p.Keeps (p.abort r) := by
  unfold abort
  split
  · simp only
    split <;> exact ⟨rfl, rfl, rfl, rfl⟩
  · exact .refl p

theorem keeps_graceExpired (p : Pool V) (r : Nat) : p.Keeps (p.graceExpired r) := by
  unfold graceExpired
  split
  · simp only
    split
    · split <;> exact ⟨rfl, rfl, rfl, rfl⟩
    · exact ⟨rfl, rfl, rfl, rfl⟩
  · exact .refl p

theorem keeps_handleProxyRequest (p : Pool V) (w : Nat) (r : Nat) (id : String) (method : Method V) :
    p.Keeps (p.handleProxyRequest w r id method) := by
  unfold handleProxyRequest
  simp only
  split
  · exact ⟨rfl, rfl, rfl, rfl⟩
  cases method with
  | moveToDelayed timestamp nextStep =>
    simp only
    split
    · exact ⟨rfl, rfl, rfl, rfl⟩
    · split
      · exact ⟨rfl, rfl, rfl, rfl⟩
      · split <;> exact ⟨rfl, rfl, rfl, rfl⟩
  | log | updateProgress | updateData | discard | unknown => exact ⟨rfl, rfl, rfl, rfl⟩

theorem keeps_onMessage (p : Pool V) (w : Nat) (m : ChildToMain V) (r : Nat) : p.Keeps (p.onMessage w m r) := by
  have hfinish : p.Keeps ((p.cleanup r w).release w) := (keeps_cleanup p r w).trans (keeps_release _ w)
  cases m with
  | completed id result =>
    simp only [onMessage]
    split
    · exact hfinish.trans ⟨rfl, rfl, rfl, rfl⟩
    · exact .refl p
  | failed id error stack errorName discarded delayedUntil =>
    simp only [onMessage]
    split
    · refine hfinish.trans ?_
      split <;> exact ⟨rfl, rfl, rfl, rfl⟩
    · exact .refl p
  | proxyRequest id method =>
    simp only [onMessage]
    split
    · exact keeps_handleProxyRequest p w r id method
    · exact .refl p

theorem keeps_message (p : Pool V) (w : Nat) (m : ChildToMain V) : p.Keeps (p.message w m) := by
  unfold message
  generalize (p.worker w).listeners = l
  induction l generalizing p with
  | nil => exact .refl p
  | cons r l ih => exact (keeps_onMessage p w m r).trans (ih _)

theorem keeps_endCall (p : Pool V) (i : Nat) (error : Option String) : p.Keeps (p.endCall i error) := by
  unfold endCall
  split
  · exact .refl p
  · simp only
    split <;> exact ⟨rfl, rfl, rfl, rfl⟩

theorem keeps_close (p : Pool V) : p.Keeps p.close := by
  have hfold : ∀ (l : List Nat) (q : Pool V), q.Keeps (l.foldl (fun q r => q.reject r closedError) q) := by
    intro l
    induction l with
    | nil => exact fun q => .refl q
    | cons r l ih => exact fun q => (Keeps.mk rfl rfl rfl rfl : q.Keeps (q.reject r closedError)).trans (ih _)
  unfold close
  split
  · exact .refl p
  · obtain ⟨hmax, hgrace, hnext, hruns⟩ := hfold p.waiters { p with closed := true }
    exact ⟨hmax, hgrace, hnext, hruns⟩

theorem keeps_removeAndCleanup (h : p.Ok) (hq : p.microtasks = []) (hw : w < p.spawned) (error : JSError) :
    p.Keeps (p.removeAndCleanup w error) := by
  obtain ⟨slot, hcore, hended, -⟩ := h
  have hheld : ∀ r, slot w ≠ .acquired r := by
    intro r hslot
    have hmem := hcore.postponed r w ((hcore.acquired r w).mpr hslot)
    simp [hq] at hmem
  rcases hcore.removeAndCleanup_eq hw hheld (hended w) error with ⟨heq, -⟩ | ⟨heq, -, -⟩
  · rw [heq]
    exact .refl p
  · rw [heq]
    exact (keeps_retired p w error).trans (keeps_wakeWaiter _)

theorem keeps_start (p : Pool V) (job : Job V) :
    Keeps { p with runs := p.runs + 1, run := Function.update p.run p.runs { job } } (p.startRun job) := by
  unfold startRun
  simp only
  split
  · exact ⟨rfl, rfl, rfl, rfl⟩
  split
  · exact ⟨rfl, rfl, rfl, rfl⟩
  · exact keeps_acquire _ _

theorem process_counters (p : Pool V) (r : Nat) (w : Nat) :
    (p.process r w).maxWorkers = p.maxWorkers ∧ (p.process r w).abortGraceMs = p.abortGraceMs ∧
      (p.process r w).runs = p.runs ∧ (p.process r w).nextInvocationId = p.nextInvocationId + 1 := by
  unfold process
  simp only
  split <;> exact ⟨rfl, rfl, rfl, rfl⟩

theorem resume_counters (p : Pool V) :
    p.resume.maxWorkers = p.maxWorkers ∧ p.resume.abortGraceMs = p.abortGraceMs ∧ p.resume.runs = p.runs ∧
      (p.resume.nextInvocationId = p.nextInvocationId ∨ p.resume.nextInvocationId = p.nextInvocationId + 1) := by
  unfold resume
  split
  · exact ⟨rfl, rfl, rfl, Or.inl rfl⟩
  rename_i r rest _
  unfold resumeRun
  split
  · rename_i w _
    split
    · obtain ⟨hmax, hgrace, hnext, hruns⟩ := keeps_release { p with microtasks := rest } w
      exact ⟨hmax, hgrace, hruns, Or.inl hnext⟩
    · obtain ⟨hmax, hgrace, hruns, hnext⟩ := process_counters { p with microtasks := rest } r w
      exact ⟨hmax, hgrace, hruns, Or.inr hnext⟩
  · exact ⟨rfl, rfl, rfl, Or.inl rfl⟩

theorem resume_next (h : p.Ok) {w' : Nat} (hacquired : (p.run r).phase = .acquired w)
    (hrunning : (p.resume.run r).phase = .running w') : p.resume.nextInvocationId = p.nextInvocationId + 1 := by
  obtain ⟨slot, hcore, -, -⟩ := h
  unfold resume at hrunning ⊢
  cases hq : p.microtasks with
  | nil => simp [hq, hacquired] at hrunning
  | cons r₀ rest =>
    obtain ⟨w₀, hphase⟩ := hcore.microtasks r₀ (by simp [hq])
    simp only [hq, resumeRun, hphase] at hrunning ⊢
    split at hrunning
    · exfalso
      simp only [reject, settle, modifyRun, Function.update_apply] at hrunning
      split_ifs at hrunning
      rcases release_run { p with microtasks := rest } w₀ r with hsame | ⟨rest', -, hgrant⟩
      · rw [hsame] at hrunning
        simp [hacquired] at hrunning
      · simp [hgrant] at hrunning
    · rename_i haborted
      rw [if_neg haborted]
      exact (process_counters { p with microtasks := rest } r₀ w₀).2.2.2

/-- What an event does to the size of the pool and the counters. -/
structure Counts (p : Pool V) (e : Event V) (q : Pool V) : Prop where
  maxWorkers : q.maxWorkers = p.maxWorkers
  abortGraceMs : q.abortGraceMs = p.abortGraceMs
  nextInvocationId : p.nextInvocationId ≤ q.nextInvocationId
  runs : q.runs = p.runs ∨ (∃ job, e = .run job) ∧ q.runs = p.runs + 1

theorem Keeps.counts {q : Pool V} (h : p.Keeps q) (e : Event V) : p.Counts e q :=
  ⟨h.maxWorkers, h.abortGraceMs, Nat.le_of_eq h.nextInvocationId.symm, Or.inl h.runs⟩

theorem step_counts (h : p.Ok) (e : Event V) : p.Counts e (p.step e) := by
  unfold step
  split
  · exact (Keeps.refl p).counts e
  rename_i hmacro
  cases e with
  | run job =>
    obtain ⟨hmax, hgrace, hnext, hruns⟩ := keeps_start p job
    exact ⟨hmax, hgrace, Nat.le_of_eq hnext.symm, Or.inr ⟨⟨job, rfl⟩, hruns⟩⟩
  | resume =>
    obtain ⟨hmax, hgrace, hruns, hnext⟩ := resume_counters p
    exact ⟨hmax, hgrace, by simp only [handle]; omega, Or.inl hruns⟩
  | abort r => exact (keeps_abort p r).counts _
  | endCall i error => exact (keeps_endCall p i error).counts _
  | otherInvocation => exact ⟨rfl, rfl, Nat.le_succ _, Or.inl rfl⟩
  | close => exact (keeps_close p).counts _
  | terminated =>
    refine Keeps.counts ?_ _
    simp only [handle, terminated]
    split <;> exact ⟨rfl, rfl, rfl, rfl⟩
  | graceExpired r => exact (keeps_graceExpired p r).counts _
  | message w m => exact (keeps_message p w m).counts _
  | exit w code =>
    refine Keeps.counts ?_ _
    simp only [handle]
    split
    · exact keeps_removeAndCleanup h (by simpa [Event.isMacrotask] using hmacro) ‹_› _
    · exact .refl p
  | error w error =>
    refine Keeps.counts ?_ _
    simp only [handle]
    split
    · exact keeps_removeAndCleanup h (by simpa [Event.isMacrotask] using hmacro) ‹_› _
    · exact .refl p

theorem Counts.runs_le {e : Event V} {q : Pool V} (h : p.Counts e q) : p.runs ≤ q.runs ∧ q.runs ≤ p.runs + 1 := by
  rcases h.runs with hsame | ⟨-, hnew⟩ <;> omega

/-! ## Why a thread is terminated -/

/-- No thread is told to end. -/
def Spares (p q : Pool V) : Prop :=
  ∀ w, (q.worker w).terminationError = (p.worker w).terminationError ∨ (q.worker w).terminationError = none

theorem Spares.of_eq {q : Pool V} (h : q.worker = p.worker) : p.Spares q := fun w => Or.inl (by rw [h])

theorem Spares.trans {q q' : Pool V} (h : p.Spares q) (h' : q.Spares q') : p.Spares q' := by
  intro w
  rcases h' w with hsame | hnone
  · rw [hsame]
    exact h w
  · exact Or.inr hnone

theorem spares_modifyWorker (p : Pool V) (w : Nat) {f : PoolWorker → PoolWorker}
    (hf : ∀ pw, (f pw).terminationError = pw.terminationError) : p.Spares (p.modifyWorker w f) := by
  intro w'
  simp only [modifyWorker, Function.update_apply]
  split_ifs with hw
  · exact Or.inl (by rw [hf, hw])
  · exact Or.inl rfl

theorem spares_spawn (p : Pool V) : p.Spares p.spawn := by
  intro w'
  simp only [spawn, Function.update_apply]
  split_ifs
  · exact Or.inr rfl
  · exact Or.inl rfl

theorem spares_grant (p : Pool V) (r w : Nat) : p.Spares (p.grant r w) :=
  (spares_modifyWorker p w (f := fun pw => { pw with busy := true }) fun _ => rfl).trans (.of_eq rfl)

theorem spares_release (p : Pool V) (w : Nat) : p.Spares (p.release w) := by
  have hreject := spares_modifyWorker p w (f := fun pw => { pw with currentReject := none }) fun _ => rfl
  unfold release
  simp only
  split
  · exact hreject
  have hidle := hreject.trans (spares_modifyWorker _ w (f := fun pw => { pw with busy := false }) fun _ => rfl)
  split
  · exact hidle
  · exact (hidle.trans (.of_eq rfl)).trans (spares_grant _ _ _)

theorem spares_cleanup (p : Pool V) (r w : Nat) : p.Spares (p.cleanup r w) := by
  unfold cleanup
  split
  · exact .of_eq rfl
  · exact (Spares.of_eq rfl).trans (spares_modifyWorker _ w fun _ => rfl)

theorem spares_wakeWaiter (p : Pool V) : p.Spares p.wakeWaiter := by
  unfold wakeWaiter
  split
  · exact .of_eq rfl
  · split
    · exact .of_eq rfl
    · exact ((spares_spawn p).trans (.of_eq rfl)).trans (spares_grant _ _ _)

theorem spares_callCurrentCleanup (p : Pool V) (w : Nat) : p.Spares (p.callCurrentCleanup w) := by
  unfold callCurrentCleanup
  split
  · exact spares_cleanup _ _ _
  · exact .of_eq rfl

theorem spares_callCurrentReject (p : Pool V) (w : Nat) (error : JSError) :
    p.Spares (p.callCurrentReject w error) := by
  unfold callCurrentReject
  split
  · exact (Spares.of_eq rfl).trans
      (spares_modifyWorker _ w (f := fun pw => { pw with currentReject := none }) fun _ => rfl)
  · exact .of_eq rfl

theorem spares_removeAndCleanup (p : Pool V) (w : Nat) (error : JSError) : p.Spares (p.removeAndCleanup w error) := by
  have hcleaned := spares_modifyWorker p w (f := fun pw => { pw with cleaned := true }) fun _ => rfl
  unfold removeAndCleanup
  split
  · exact .of_eq rfl
  · apply Spares.trans _ (spares_wakeWaiter _)
    apply Spares.trans _ (spares_callCurrentReject _ w error)
    apply Spares.trans _ (spares_callCurrentCleanup _ w)
    exact hcleaned.trans (.of_eq rfl)

theorem spares_acquire (p : Pool V) (r : Nat) : p.Spares (p.acquire r) := by
  unfold acquire
  split
  · exact spares_grant _ _ _
  split
  · exact (spares_spawn p).trans (spares_grant _ _ _)
  · exact .of_eq rfl

theorem spares_start (p : Pool V) (job : Job V) : p.Spares (p.startRun job) := by
  unfold startRun
  simp only
  split
  · exact .of_eq rfl
  split
  · exact .of_eq rfl
  · exact (Spares.of_eq rfl).trans (spares_acquire _ _)

theorem spares_process (p : Pool V) (r w : Nat) : p.Spares (p.process r w) := by
  have hstarted := (Spares.of_eq (p := p) (q := { p with nextInvocationId := p.nextInvocationId + 1 }.modifyRun r
    fun x => { x with phase := .running w, invocationId := toString (p.nextInvocationId + 1) }) rfl).trans
      (spares_modifyWorker _ w (f := fun pw =>
        { pw with currentReject := some r, currentCleanup := some r, listeners := pw.listeners ++ [r] }) fun _ => rfl)
  unfold process
  simp only
  split
  · exact hstarted.trans (.of_eq rfl)
  · exact hstarted.trans (.of_eq rfl)

theorem spares_resume (p : Pool V) : p.Spares p.resume := by
  unfold resume
  split
  · exact .of_eq rfl
  unfold resumeRun
  split
  · split
    · rename_i r rest _ _ w _ _
      exact ((Spares.of_eq rfl).trans (spares_release { p with microtasks := rest } w)).trans (.of_eq rfl)
    · exact (Spares.of_eq rfl).trans (spares_process _ _ _)
  · exact .of_eq rfl

theorem spares_onMessage (p : Pool V) (w : Nat) (m : ChildToMain V) (r : Nat) : p.Spares (p.onMessage w m r) := by
  have hfinish := (spares_cleanup p r w).trans (spares_release _ w)
  cases m with
  | completed id result =>
    simp only [onMessage]
    split
    · exact hfinish.trans (.of_eq rfl)
    · exact .of_eq rfl
  | failed id error stack errorName discarded delayedUntil =>
    simp only [onMessage]
    split
    · refine hfinish.trans ?_
      split <;> exact .of_eq rfl
    · exact .of_eq rfl
  | proxyRequest id method =>
    simp only [onMessage]
    split
    · unfold handleProxyRequest
      simp only
      split
      · exact .of_eq rfl
      cases method with
      | moveToDelayed timestamp nextStep =>
        simp only
        split
        · exact .of_eq rfl
        · split
          · exact .of_eq rfl
          · split <;> exact .of_eq rfl
      | log | updateProgress | updateData | discard | unknown => exact .of_eq rfl
    · exact .of_eq rfl

theorem spares_message (p : Pool V) (w : Nat) (m : ChildToMain V) : p.Spares (p.message w m) := by
  unfold message
  generalize (p.worker w).listeners = l
  induction l generalizing p with
  | nil => exact .of_eq rfl
  | cons r l ih => exact (spares_onMessage p w m r).trans (ih _)

theorem step_termination (p : Pool V) (e : Event V) (w : Nat) :
    ((p.step e).worker w).terminationError = (p.worker w).terminationError ∨
      ((p.step e).worker w).terminationError = none ∨
      ∃ r, e = .graceExpired r ∧ (p.run r).graceTimer = true ∧ (p.run r).phase = .running w ∧
        ((p.step e).worker w).terminationError = some (graceError p.abortGraceMs) := by
  have hspares : ∀ {q : Pool V}, p.Spares q → (q.worker w).terminationError = (p.worker w).terminationError ∨
      (q.worker w).terminationError = none ∨
      ∃ r, e = .graceExpired r ∧ (p.run r).graceTimer = true ∧ (p.run r).phase = .running w ∧
        (q.worker w).terminationError = some (graceError p.abortGraceMs) :=
    fun hq => (hq w).imp (fun hsame => hsame) Or.inl
  unfold step
  split
  · exact Or.inl rfl
  cases e with
  | run job => exact hspares (spares_start p job)
  | resume => exact hspares (spares_resume p)
  | abort r =>
    apply hspares
    simp only [handle, abort]
    split
    · split <;> exact .of_eq rfl
    · exact .of_eq rfl
  | endCall i error =>
    apply hspares
    simp only [handle, endCall]
    split
    · exact .of_eq rfl
    · split <;> exact .of_eq rfl
  | otherInvocation => exact Or.inl rfl
  | close =>
    apply hspares
    have hfold : ∀ (l : List Nat) (q : Pool V), q.Spares (l.foldl (fun q r => q.reject r closedError) q) := by
      intro l
      induction l with
      | nil => exact fun q => .of_eq rfl
      | cons r l ih => exact fun q => (Spares.of_eq rfl : q.Spares (q.reject r closedError)).trans (ih _)
    simp only [handle, close]
    split
    · exact .of_eq rfl
    · exact ((Spares.of_eq rfl).trans (hfold p.waiters { p with closed := true })).trans (.of_eq rfl)
  | terminated =>
    apply hspares
    simp only [handle, terminated]
    split <;> exact .of_eq rfl
  | graceExpired r =>
    simp only [handle, graceExpired]
    split
    · rename_i htimer
      split
      · rename_i w₀ hphase
        have hphase' : (p.run r).phase = .running w₀ := by simpa [modifyRun] using hphase
        split
        · exact Or.inl rfl
        · simp only [terminate, modifyWorker, Function.update_apply]
          split_ifs with hw
          · subst hw
            exact Or.inr (Or.inr ⟨r, rfl, htimer, hphase', rfl⟩)
          · exact Or.inl rfl
      · exact Or.inl rfl
    · exact Or.inl rfl
  | message w₀ m => exact hspares (spares_message p w₀ m)
  | exit w₀ code =>
    apply hspares
    simp only [handle]
    split
    · exact spares_removeAndCleanup p w₀ _
    · exact .of_eq rfl
  | error w₀ error =>
    apply hspares
    simp only [handle]
    split
    · exact spares_removeAndCleanup p w₀ _
    · exact .of_eq rfl

end Pool

end

end GlideMq.Sandbox
