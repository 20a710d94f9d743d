import GlideMq.Proofs.WorkerRuns

/-!
# Pausing, resuming and closing a worker

What the application and a lost connection do to the poll loop: when the loop is gone for good, that a
worker that was stopped hands back what still comes in, and that nothing happens after a graceful close.
-/

namespace GlideMq.BaseWorker.Worker

variable {w w' : Worker} {i j n fetchCount : Nat} {a : Await}

/-! ## The flags of the application -/

/-- What only the application changes. -/
def app (w : Worker) : Bool × Bool × Bool × Bool × Bool × Closing :=
  (w.initialized, w.running, w.paused, w.closing, w.closed, w.performClose)

/-- The loop goes on, and leaves alone what the application steers. -/
structure GoesOn (w w' : Worker) : Prop where
  app : w'.app = w.app
  pollLoopPromise : w'.pollLoopPromise = w.pollLoopPromise
  loop : w'.loop ≠ .stopped
  /-- Only an open worker tries again later. -/
  retrying : w'.loop = .retrying → w.loop = .retrying ∨ w.closing = false

theorem goesOn_goTo (w : Worker) {l : Loop} (hl : l ≠ .stopped ∧ l ≠ .retrying) : GoesOn w (w.goTo l) :=
  ⟨rfl, rfl, hl.1, fun heq => absurd heq hl.2⟩

theorem app_eq_iff : w'.app = w.app ↔ w'.initialized = w.initialized ∧ w'.running = w.running ∧
    w'.paused = w.paused ∧ w'.closing = w.closing ∧ w'.closed = w.closed ∧ w'.performClose = w.performClose := by
  simp [app]

theorem GoesOn.of_same {w₁ : Worker} (h : GoesOn w₁ w') (happ : w₁.app = w.app)
    (hpromise : w₁.pollLoopPromise = w.pollLoopPromise) (hloop : w₁.loop = w.loop) : GoesOn w w' := by
  refine ⟨h.app.trans happ, h.pollLoopPromise.trans hpromise, h.loop, fun hretrying => ?_⟩
  have hclosing := (app_eq_iff.mp happ).2.2.2.1
  rw [← hloop, ← hclosing]
  exact h.retrying hretrying

theorem app_of_control (h : w'.control = w.control) : w'.app = w.app := by
  have := congrArg app h
  exact this

theorem pollLoopPromise_of_control (h : w'.control = w.control) : w'.pollLoopPromise = w.pollLoopPromise := by
  have := congrArg Worker.pollLoopPromise h
  exact this

theorem loop_of_control (h : w'.control = w.control) : w'.loop = w.loop := by
  have := congrArg Worker.loop h
  exact this

/-! ## The loop goes on -/

theorem noneInLists_goesOn (w : Worker) (afterRead : Bool) (fetchCount : Nat) :
    GoesOn w (w.noneInLists afterRead fetchCount) := by
  unfold noneInLists
  split <;> (apply goesOn_goTo; simp)

theorem tryPopFromLists_goesOn (w : Worker) (afterRead : Bool) (fetchCount : Nat) :
    GoesOn w (w.tryPopFromLists afterRead fetchCount) := by
  unfold tryPopFromLists
  split
  · exact noneInLists_goesOn w afterRead fetchCount
  · simp only
    split <;> (apply goesOn_goTo; simp)

theorem pollLists_goesOn (w : Worker) (now : Int) (fetchCount : Nat) : GoesOn w (w.pollLists now fetchCount) := by
  unfold pollLists
  split
  · apply goesOn_goTo
    simp
  · simp only
    split
    · exact ⟨rfl, rfl, by simp [goTo], by simp [goTo]⟩
    · exact (tryPopFromLists_goesOn _ false fetchCount).of_same rfl rfl rfl

theorem pollSlots_goesOn (w : Worker) (now : Int) : GoesOn w (w.pollSlots now) := by
  unfold pollSlots
  split
  · apply goesOn_goTo
    simp
  · simp only
    split
    · apply goesOn_goTo
      simp
    · split
      · apply goesOn_goTo
        simp
      · exact pollLists_goesOn w now _

theorem pollOnce_goesOn (w : Worker) (now : Int) : GoesOn w (w.pollOnce now) := by
  unfold pollOnce
  split
  · apply goesOn_goTo
    simp
  · split
    · apply goesOn_goTo
      simp
    · exact pollSlots_goesOn w now

theorem pollFailed_goesOn (w : Worker) : GoesOn w w.pollFailed := by
  unfold pollFailed
  split <;> (apply goesOn_goTo; simp)

theorem dispatched_goesOn (h : w.Sound) (hrunning : w.running = true ∨ w.closing = true) (claims : List Claim)
    {l : Loop} (hl : l ≠ .stopped ∧ l ≠ .retrying) : GoesOn w ((w.dispatchAll claims).goTo l) := by
  obtain ⟨-, hcontrol, -⟩ := dispatchAll_steps claims h.slots h.fitting hrunning
  exact (goesOn_goTo _ hl).of_same (app_of_control hcontrol) (pollLoopPromise_of_control hcontrol)
    (loop_of_control hcontrol)

theorem dispatchFromStream_goesOn (h : w.Sound) (hrunning : w.running = true ∨ w.closing = true)
    (claims : List Claim) : GoesOn w (w.dispatchFromStream claims) := by
  cases claims with
  | nil =>
    apply goesOn_goTo
    simp
  | cons c rest =>
    simp only [dispatchFromStream]
    split
    · exact dispatched_goesOn h hrunning [c] (by simp)
    · exact dispatched_goesOn h hrunning (c :: rest) (by simp)

theorem dispatchFromList_goesOn (h : w.Sound) (hrunning : w.running = true ∨ w.closing = true) (afterRead : Bool)
    (fetchCount : Nat) (claims : List Claim) : GoesOn w (w.dispatchFromList afterRead fetchCount claims) := by
  cases claims with
  | nil =>
    apply goesOn_goTo
    simp
  | cons c rest =>
    simp only [dispatchFromList]
    split
    · exact dispatched_goesOn h hrunning [c] (by simp)
    · exact dispatched_goesOn h hrunning (c :: rest) (by simp)

theorem dispatchPopped_goesOn (h : w.Sound) (hrunning : w.running = true ∨ w.closing = true) (afterRead : Bool)
    (fetchCount : Nat) (jobIds : List String) : GoesOn w (w.dispatchPopped afterRead fetchCount jobIds) := by
  unfold dispatchPopped
  split
  · exact noneInLists_goesOn w afterRead fetchCount
  · exact dispatchFromList_goesOn h hrunning afterRead fetchCount _

/-! ## The loop ends -/

/-- What a step of a running loop does to the loop. -/
inductive Rolls (w w' : Worker) : Prop
  | goesOn (h : GoesOn w w')
  /-- Nobody wants it any more. -/
  | ends (happ : w'.app = w.app) (hpolling : w.running = false ∨ w.closing = true)
      (hpromise : w'.pollLoopPromise = w.pollLoopPromise) (hloop : w'.loop = .stopped)
  /-- It was paused, so `resume` may start it again. -/
  | pauses (happ : w'.app = w.app) (hpaused : w.paused = true) (hpromise : w'.pollLoopPromise = false)
      (hloop : w'.loop = .stopped)

theorem turn_rolls (h : w.Sound) (hloop : w.loop ≠ .stopped) (now : Int) : Rolls w (w.turn now) := by
  have hrunning := h.runs (.inr hloop)
  unfold turn
  split
  · unfold turnLoop
    split
    · exact .goesOn (pollOnce_goesOn w now)
    · rename_i hidle
      by_cases hpaused : w.paused = true ∧ w.closing = false
      · exact .pauses rfl hpaused.1 (by simp [hpaused.1, hpaused.2]) rfl
      · refine .ends rfl ?_ ?_ rfl
        · simp only [isPolling] at hidle
          grind
        · simp only
          grind
  · split
    · exact .goesOn ⟨rfl, rfl, hloop, .inl⟩
    · split
      · exact .goesOn (noneInLists_goesOn w _ _)
      · exact .goesOn (dispatchFromList_goesOn h hrunning _ _ _)
  · split
    · exact .goesOn ⟨rfl, rfl, hloop, .inl⟩
    · split
      · exact .goesOn (pollFailed_goesOn w)
      · exact .goesOn (dispatchFromStream_goesOn h hrunning _)
  · exact .goesOn ⟨rfl, rfl, hloop, .inl⟩

theorem reconnect_rolls (w : Worker) (byTimer : Bool) : Rolls w (w.reconnect byTimer) := by
  unfold reconnect
  split
  · exact .goesOn ⟨rfl, rfl, by simp [goTo], by simp [goTo]⟩
  · rename_i hidle
    refine .ends rfl ?_ rfl rfl
    grind

/-- An attempt to reconnect is in flight. -/
def reconnects (w : Worker) : Bool := w.loop = .reconnecting false || w.loop = .reconnecting true

theorem reconnects_of_loop {byTimer : Bool} (hloop : w.loop = .reconnecting byTimer) : w.reconnects = true := by
  cases byTimer <;> simp [reconnects, hloop]

theorem exists_of_reconnects (h : w.reconnects = true) : ∃ byTimer, w.loop = .reconnecting byTimer := by
  simp only [reconnects, Bool.or_eq_true, decide_eq_true_eq] at h
  rcases h with h | h
  · exact ⟨false, h⟩
  · exact ⟨true, h⟩

/-- A loop that reconnects starts again, whether the worker is paused or not. -/
theorem polled_rolls (h : w.Sound) (hloop : w.loop ≠ .stopped) (now : Int) (r : Polled)
    (hrestarts : ¬ (w.reconnects = true ∧ r = .reconnected ∧ w.closing = false)) : Rolls w (w.polled now r) := by
  have hrunning := h.runs (.inr hloop)
  have hstays : Rolls w w := .goesOn ⟨rfl, rfl, hloop, .inl⟩
  have hnaps (l : Loop) (hl : l ≠ .stopped ∧ l ≠ .retrying) : Rolls w (w.goTo l) := .goesOn (goesOn_goTo w hl)
  unfold polled
  split
  · rename_i values _
    have hflags : (w.refreshMetaFlags values).app = w.app ∧
        (w.refreshMetaFlags values).pollLoopPromise = w.pollLoopPromise ∧
          (w.refreshMetaFlags values).loop = w.loop := by
      cases values <;> exact ⟨rfl, rfl, rfl⟩
    simp only
    split
    · exact .goesOn ((goesOn_goTo _ (by simp)).of_same hflags.1 hflags.2.1 hflags.2.2)
    · exact .goesOn ((pollSlots_goesOn _ now).of_same hflags.1 hflags.2.1 hflags.2.2)
  · exact hnaps _ (by simp)
  · exact hnaps _ (by simp)
  · split
    · exact hnaps _ (by simp)
    · exact .goesOn (pollLists_goesOn w now _)
  · exact .goesOn (pollFailed_goesOn w)
  · split
    · exact .goesOn (dispatchPopped_goesOn h hrunning _ _ _)
    · exact hstays
  · exact .goesOn (noneInLists_goesOn w _ _)
  · split
    · exact hstays
    · split
      · exact .goesOn (dispatchPopped_goesOn h hrunning _ _ _)
      · exact hnaps _ (by simp)
  · exact hnaps _ (by simp)
  · split
    · exact .goesOn (dispatchPopped_goesOn h hrunning _ _ _)
    · exact hstays
  · exact .goesOn (dispatchPopped_goesOn h hrunning _ _ _)
  · split
    · exact .goesOn (tryPopFromLists_goesOn w true _)
    · exact hnaps _ (by simp)
  · split
    · exact .goesOn (dispatchFromStream_goesOn h hrunning _)
    · exact hstays
  · exact .goesOn (pollFailed_goesOn w)
  · exact reconnect_rolls w false
  · exact reconnect_rolls w true
  · rename_i hreconnecting
    split
    · exact hstays
    · rename_i hopen
      exact absurd ⟨reconnects_of_loop hreconnecting, rfl, by simpa using hopen⟩ hrestarts
  · split
    · rename_i hopen
      refine .goesOn ⟨rfl, rfl, by simp [goTo], fun _ => .inr ?_⟩
      grind
    · rename_i hidle
      refine .ends rfl ?_ rfl rfl
      grind
  · exact hstays

theorem startLoop_app (w : Worker) (now : Int) : (w.startLoop now).app = w.app := by
  unfold startLoop
  split
  · exact (pollOnce_goesOn w now).app
  · rfl

theorem startLoop_pollLoopPromise (w : Worker) (now : Int) : (w.startLoop now).pollLoopPromise = true := rfl

theorem startLoop_stopped_iff (w : Worker) (now : Int) :
    (w.startLoop now).loop = .stopped ↔ w.isPolling = false := by
  unfold startLoop
  split
  · rename_i hpolling
    have hgoes := (pollOnce_goesOn w now).loop
    simp [hpolling, hgoes]
  · rename_i hidle
    simpa [goTo] using hidle

theorem polled_reconnected (hreconnects : w.reconnects = true) (hopen : w.closing = false) (now : Int) :
    w.polled now .reconnected = { w with commandClient := true, blockingClient := true }.startLoop now := by
  obtain ⟨byTimer, hloop⟩ := exists_of_reconnects hreconnects
  simp only [polled, hloop, hopen]
  rfl

theorem Rolls.app_eq (hr : Rolls w w') : w'.app = w.app := by
  cases hr with
  | goesOn hgoes => exact hgoes.app
  | ends happ => exact happ
  | pauses happ => exact happ

theorem polled_app (h : w.Sound) (now : Int) (r : Polled) : (w.polled now r).app = w.app := by
  by_cases hloop : w.loop = .stopped
  · rw [polled_stopped hloop]
  by_cases hrestarts : w.reconnects = true ∧ r = .reconnected ∧ w.closing = false
  · obtain ⟨hreconnecting, rfl, hopen⟩ := hrestarts
    rw [polled_reconnected hreconnecting hopen]
    exact startLoop_app _ now
  · exact (polled_rolls h hloop now r hrestarts).app_eq

theorem turn_app (h : w.Sound) (now : Int) : (w.turn now).app = w.app := by
  by_cases hloop : w.loop = .stopped
  · rw [turn_stopped hloop]
  · exact (turn_rolls h hloop now).app_eq

/-- Nothing takes a close back, and only `resume` takes a pause back. -/
theorem step_flags (h : w.Sound) (e : Event) :
    (w.closing = true → (w.step e).closing = true) ∧
      (w.paused = true → (∀ now, e ≠ .resume now) → (w.step e).paused = true) := by
  have hkeep (happ : (w.step e).app = w.app) :
      (w.closing = true → (w.step e).closing = true) ∧
        (w.paused = true → (∀ now, e ≠ .resume now) → (w.step e).paused = true) := by
    obtain ⟨-, -, hpaused, hclosing, -, -⟩ := app_eq_iff.mp happ
    rw [hpaused, hclosing]
    exact ⟨id, fun hw _ => hw⟩
  cases e with
  | slot i now r => exact hkeep (app_of_control (h.slot_control i now r))
  | polled now r => exact hkeep (polled_app h now r)
  | turn now => exact hkeep (turn_app h now)
  | initialized now flags =>
    simp only [Worker.step, Worker.init]
    split
    · exact ⟨id, fun hw _ => hw⟩
    · obtain ⟨-, -, hpaused, hclosing, -, -⟩ := app_eq_iff.mp (startLoop_app { w.refreshMetaFlags flags with
        initialized := true, commandClient := true, blockingClient := true, running := true } now)
      rw [hpaused, hclosing]
      cases flags <;> exact ⟨id, fun hw _ => hw⟩
  | tick flags => cases flags <;> exact ⟨id, fun hw _ => hw⟩
  | pause => exact ⟨id, fun _ _ => rfl⟩
  | resume now =>
    refine ⟨fun hclosing => ?_, fun _ hnot => absurd rfl (hnot now)⟩
    simp only [Worker.step, Worker.resumePolling]
    split
    · exact hclosing
    · split
      · exact hclosing
      · rw [(app_eq_iff.mp (startLoop_app { w with paused := false } now)).2.2.2.1]
        exact hclosing
  | close force =>
    simp only [Worker.step, Worker.close]
    split
    · exact ⟨id, fun hw _ => hw⟩
    · split
      · exact ⟨id, fun hw _ => hw⟩
      · exact ⟨fun _ => rfl, fun hw _ => hw⟩
  | closing graceExpired =>
    have hid : (w.closing = true → w.closing = true) ∧
        (w.paused = true → (∀ now, Event.closing graceExpired ≠ .resume now) → w.paused = true) :=
      ⟨id, fun hw _ => hw⟩
    simp only [Worker.step, Worker.stepClose]
    split
    · split
      · exact hid
      · split <;> split <;> exact hid
    · split <;> exact hid
    · split <;> exact hid
    · exact hid
    · exact hid

theorem closing_step (h : w.Sound) (hclosing : w.closing = true) (e : Event) : (w.step e).closing = true :=
  (step_flags h e).1 hclosing

/-! ## A loop that nobody starts again -/

/-- The event starts the loop of a paused worker. -/
def StartsPaused (w : Worker) : Event → Prop
  | .initialized _ _ => w.initialized = false ∧ w.paused = true
  | .polled _ r => w.reconnects = true ∧ r = .reconnected ∧ w.closing = false ∧ w.paused = true
  | _ => False

/-- While it is open the worker polls, or `resume` will start it again. -/
structure Live (w : Worker) : Prop where
  performClose : w.performClose ≠ .no → w.closing = true
  resumes : w.initialized = true → w.closing = false → w.loop = .stopped →
    w.paused = true ∧ w.pollLoopPromise = false

/-- The loop is gone and its promise is still set, so `resume` does not start it again. -/
def Stuck (w : Worker) : Prop :=
  w.closing = true ∨ w.initialized = true ∧ w.loop = .stopped ∧ w.pollLoopPromise = true ∧ w.performClose = .no

theorem Live.of_app (hlive : w.Live) (happ : w'.app = w.app)
    (hresumes : w.initialized = true → w.closing = false → w'.loop = .stopped →
      w.paused = true ∧ w'.pollLoopPromise = false) : w'.Live := by
  obtain ⟨hinitialized, -, hpaused, hclosing, -, hperform⟩ := app_eq_iff.mp happ
  constructor
  · rw [hperform, hclosing]
    exact hlive.performClose
  · rw [hinitialized, hpaused, hclosing]
    exact hresumes

theorem Live.rolls (hlive : w.Live) (h : w.Sound) (hr : Rolls w w') : w'.Live := by
  cases hr with
  | goesOn hgoes => exact hlive.of_app hgoes.app fun _ _ hstopped => absurd hstopped hgoes.loop
  | ends happ hpolling hpromise hloop =>
    apply hlive.of_app happ
    intro hinit hopen _
    have hrunning := h.running hinit
    simp only [hopen, Bool.false_eq_true, or_false] at hrunning hpolling
    simp [hrunning] at hpolling
  | pauses happ hpaused hpromise hloop => exact hlive.of_app happ fun _ _ _ => ⟨hpaused, hpromise⟩

theorem live_startLoop (hperform : w.performClose ≠ .no → w.closing = true)
    (hrunning : w.running = true ∨ w.closing = true) (hunpaused : w.paused = false) (now : Int) :
    (w.startLoop now).Live := by
  obtain ⟨-, -, hpaused, hclosing, -, hperform'⟩ := app_eq_iff.mp (startLoop_app w now)
  constructor
  · rw [hperform', hclosing]
    exact hperform
  · intro _ hopen hstopped
    rw [hclosing] at hopen
    have hidle := (startLoop_stopped_iff w now).mp hstopped
    simp only [isPolling, hunpaused, hopen] at hidle
    simp only [hopen, Bool.false_eq_true, or_false] at hrunning
    simp [hrunning] at hidle

theorem Live.step (hlive : w.Live) (h : w.Sound) (e : Event) (hnot : ¬ w.StartsPaused e) : (w.step e).Live := by
  cases e with
  | slot i now r =>
    have hcontrol := h.slot_control i now r
    apply hlive.of_app (app_of_control hcontrol)
    rw [loop_of_control hcontrol, pollLoopPromise_of_control hcontrol]
    exact hlive.resumes
  | polled now r =>
    by_cases hloop : w.loop = .stopped
    · have hself : w.step (.polled now r) = w := polled_stopped hloop now r
      rw [hself]
      exact hlive
    by_cases hrestarts : w.reconnects = true ∧ r = .reconnected ∧ w.closing = false
    · obtain ⟨hreconnecting, rfl, hopen⟩ := hrestarts
      have hunpaused : w.paused = false := by
        by_contra hpaused
        exact hnot ⟨hreconnecting, rfl, hopen, by simpa using hpaused⟩
      rw [Worker.step, polled_reconnected hreconnecting hopen]
      exact live_startLoop (w := { w with commandClient := true, blockingClient := true }) hlive.performClose
        (h.runs (.inr hloop)) hunpaused now
    · exact hlive.rolls h (polled_rolls h hloop now r hrestarts)
  | turn now =>
    by_cases hloop : w.loop = .stopped
    · have hself : w.step (.turn now) = w := turn_stopped hloop now
      rw [hself]
      exact hlive
    · exact hlive.rolls h (turn_rolls h hloop now)
  | initialized now flags =>
    simp only [Worker.step, Worker.init]
    split
    · exact hlive
    · rename_i hborn
      have hunpaused : w.paused = false := by
        by_contra hpaused
        exact hnot ⟨by simpa using hborn, by simpa using hpaused⟩
      apply live_startLoop
      · cases flags <;> exact hlive.performClose
      · exact .inl rfl
      · cases flags <;> exact hunpaused
  | tick flags =>
    cases flags with
    | none => exact hlive
    | some flags => exact hlive.of_app rfl hlive.resumes
  | pause =>
    refine ⟨hlive.performClose, fun hinit hopen hstopped => ⟨rfl, ?_⟩⟩
    exact (hlive.resumes hinit hopen hstopped).2
  | resume now =>
    simp only [Worker.step, Worker.resumePolling]
    split
    · exact hlive
    · rename_i hborn
      have hinit : w.initialized = true := by simpa using hborn
      split
      · rename_i hpromise
        refine ⟨hlive.performClose, fun _ hopen hstopped => ?_⟩
        have hnone := (hlive.resumes hinit hopen hstopped).2
        simp [hnone] at hpromise
      · exact live_startLoop (w := { w with paused := false }) hlive.performClose (h.running hinit) rfl now
  | close force =>
    simp only [Worker.step, Worker.close]
    split
    · exact hlive
    · split
      · exact hlive.of_app rfl hlive.resumes
      · exact ⟨fun _ => rfl, fun _ hopen => absurd hopen (by simp)⟩
  | closing graceExpired =>
    by_cases hperform : w.performClose = .no
    · have hself : w.step (.closing graceExpired) = w := by
        simp only [Worker.step, Worker.stepClose, hperform]
      rw [hself]
      exact hlive
    · have hclosing := closing_step h (hlive.performClose hperform) (.closing graceExpired)
      exact ⟨fun _ => hclosing, fun _ hopen => by simp [hclosing] at hopen⟩

theorem Stuck.step (hstuck : w.Stuck) (h : w.Sound) (e : Event) : (w.step e).Stuck := by
  rcases hstuck with hclosing | ⟨hinit, hloop, hpromise, hperform⟩
  · exact .inl (closing_step h hclosing e)
  cases e with
  | slot i now r =>
    have hcontrol := h.slot_control i now r
    have happ := app_eq_iff.mp (app_of_control hcontrol)
    refine .inr ⟨happ.1.trans hinit, (loop_of_control hcontrol).trans hloop,
      (pollLoopPromise_of_control hcontrol).trans hpromise, happ.2.2.2.2.2.trans hperform⟩
  | polled now r => exact .inr (by rw [Worker.step, polled_stopped hloop]; exact ⟨hinit, hloop, hpromise, hperform⟩)
  | turn now => exact .inr (by rw [Worker.step, turn_stopped hloop]; exact ⟨hinit, hloop, hpromise, hperform⟩)
  | initialized now flags =>
    simp only [Worker.step, Worker.init, hinit, if_true]
    exact .inr ⟨hinit, hloop, hpromise, hperform⟩
  | tick flags => cases flags <;> exact .inr ⟨hinit, hloop, hpromise, hperform⟩
  | pause => exact .inr ⟨hinit, hloop, hpromise, hperform⟩
  | resume now =>
    have hself : w.step (.resume now) = { w with paused := false } := by
      simp [Worker.step, Worker.resumePolling, hinit, hpromise]
    rw [hself]
    exact .inr ⟨hinit, hloop, hpromise, hperform⟩
  | close force =>
    simp only [Worker.step, Worker.close]
    split
    · exact .inr ⟨hinit, hloop, hpromise, hperform⟩
    · split
      · exact .inr ⟨hinit, hloop, hpromise, hperform⟩
      · exact .inl rfl
  | closing graceExpired =>
    simp only [Worker.step, Worker.stepClose, hperform]
    exact .inr ⟨hinit, hloop, hpromise, hperform⟩

theorem Stuck.run (hstuck : w.Stuck) (h : w.Sound) (events : List Event) : (Machine.run Worker.step w events).Stuck :=
  (@Machine.invariant_all _ _ Worker.step (fun w => w.Sound ∧ w.Stuck)
    (fun _ e h => ⟨(h.1.step e).1, h.2.step h.1 e⟩) w events ⟨h, hstuck⟩).2

theorem StartsPaused.stuck (hlive : w.Live) (h : w.Sound) {e : Event} (hstarts : w.StartsPaused e) : (w.step e).Stuck := by
  by_cases hclosing : w.closing = true
  · exact .inl (closing_step h hclosing e)
  have hperform : w.performClose = .no := by
    by_contra hne
    exact hclosing (hlive.performClose hne)
  -- The loop ends at once, and its promise is set after that.
  have hstuck (w' : Worker) (hinit : w'.initialized = true) (hpaused : w'.paused = true)
      (hperform' : w'.performClose = .no) (now : Int) : (w'.startLoop now).Stuck := by
    have happ := app_eq_iff.mp (startLoop_app w' now)
    have hidle : w'.isPolling = false := by simp [isPolling, hpaused]
    exact .inr ⟨happ.1.trans hinit, (startLoop_stopped_iff w' now).mpr hidle, startLoop_pollLoopPromise w' now,
      happ.2.2.2.2.2.trans hperform'⟩
  cases e with
  | initialized now flags =>
    obtain ⟨hborn, hpaused⟩ := hstarts
    simp only [Worker.step, Worker.init, hborn]
    apply hstuck
    · rfl
    · cases flags <;> exact hpaused
    · cases flags <;> exact hperform
  | polled now r =>
    obtain ⟨hreconnecting, rfl, hopen, hpaused⟩ := hstarts
    obtain ⟨byTimer, hloop⟩ := exists_of_reconnects hreconnecting
    have hinit := h.initialized_of_loop (by simp [hloop])
    rw [Worker.step, polled_reconnected hreconnecting hopen]
    exact hstuck { w with commandClient := true, blockingClient := true } hinit hpaused hperform now
  | slot | turn | tick | pause | resume | close | closing => exact hstarts.elim

theorem live_new (concurrency : Nat) (prefetch : Option Nat) (limited deadLetterQueue commandClientOwned : Bool) :
    (new concurrency prefetch limited deadLetterQueue commandClientOwned).Live :=
  ⟨fun hne => absurd rfl hne, fun hinit => by simp [new] at hinit⟩

theorem live_or_started (h : w.Sound) (hlive : w.Live) (events : List Event) :
    (Machine.run step w events).Live ∨ ∃ before e after, events = before ++ e :: after ∧
      (Machine.run step w before).Live ∧ (Machine.run step w before).StartsPaused e := by
  -- As long as no event starts the loop of a paused worker, `resume` works.
  induction events using List.reverseRecOn with
  | nil => exact .inl hlive
  | append_singleton events e ih =>
    rcases ih with hrun | ⟨before, e', after, rfl, hstart⟩
    · by_cases hstarts : (Machine.run step w events).StartsPaused e
      · exact .inr ⟨events, e, [], rfl, hrun, hstarts⟩
      · refine .inl ?_
        simp only [Machine.run_append, Machine.run_cons, Machine.run_nil]
        exact hrun.step (h.run events) e hstarts
    · exact .inr ⟨before, e', after ++ [e], by simp, hstart⟩

/-- A worker that is open and not paused has lost its poll loop exactly if some event before started the
loop while the worker was paused: the end of `init` or a successful reconnection. -/
theorem polling_lost_iff (concurrency : Nat) (prefetch : Option Nat)
    (limited deadLetterQueue commandClientOwned : Bool) (events : List Event) :
    let start := new concurrency prefetch limited deadLetterQueue commandClientOwned
    let w := Machine.run step start events
    w.initialized = true → w.closing = false → w.paused = false →
      (w.loop = .stopped ↔ ∃ before e after, events = before ++ e :: after ∧
        (Machine.run step start before).StartsPaused e) := by
  intro start w hinit hopen hunpaused
  have hnew : start.Sound := sound_new concurrency prefetch limited deadLetterQueue commandClientOwned
  have hlive : start.Live := live_new concurrency prefetch limited deadLetterQueue commandClientOwned
  constructor
  · intro hstopped
    rcases live_or_started hnew hlive events with hrun | ⟨before, e, after, hevents, -, hstarts⟩
    · have hpaused := (hrun.resumes hinit hopen hstopped).1
      simp [w] at hunpaused
      simp [hunpaused] at hpaused
    · exact ⟨before, e, after, hevents, hstarts⟩
  · rintro ⟨before, e, after, hevents, hstarts⟩
    -- The first such event meets a worker that was live until then.
    have hstuck : w.Stuck := by
      rcases live_or_started hnew hlive before with hrun | ⟨before', e', after', hbefore, hrun, hstarts'⟩
      · have hrest := (hstarts.stuck hrun (hnew.run before)).run ((hnew.run before).step e).1 after
        simpa only [w, hevents, Machine.run_append, Machine.run_cons] using hrest
      · have hrest := (hstarts'.stuck hrun (hnew.run before')).run ((hnew.run before').step e').1 (after' ++ e :: after)
        simpa only [w, hevents, hbefore, List.append_assoc, List.cons_append, Machine.run_append,
          Machine.run_cons] using hrest
    rcases hstuck with hclosing | ⟨-, hloop, -⟩
    · simp [hopen] at hclosing
    · exact hloop

/-- A worker that is paused before the end of `init`, and resumed later. -/
def pausedBeforeInit : List Event := [.pause, .initialized 1000 none, .resume 2000]

/-- It never polls. -/
theorem paused_start_loses_polling :
    (Machine.run step (new 1 none false false true) pausedBeforeInit).loop = .stopped :=
  (polling_lost_iff 1 none false false true pausedBeforeInit (by decide) (by decide) (by decide)).mpr
    ⟨[.pause], .initialized 1000 none, [.resume 2000], rfl, rfl, rfl⟩

end GlideMq.BaseWorker.Worker
