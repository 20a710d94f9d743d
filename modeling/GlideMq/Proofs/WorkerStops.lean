import GlideMq.Proofs.WorkerControl

/-!
# A worker that is stopped

A worker that is paused or closing runs no processor for what still comes in: it hands it back. A
graceful close waits for the poll loop and for the slots, and after it nothing happens.
-/

namespace GlideMq.BaseWorker.Worker

variable {w w' : Worker} {i j n : Nat} {a : Await}

/-! ## A graceful close -/

/-- A forced close, or one whose wait for the poll loop has expired. -/
def Event.isForced : Event → Bool
  | .close force => force
  | .closing graceExpired => graceExpired
  | _ => false

/-- The loop has returned. A timer may have started an attempt to reconnect after it. -/
def LoopOver (w : Worker) : Prop := w.loop = .stopped ∨ w.loop = .reconnecting true

/-- How far a graceful close has come. -/
structure Graceful (w : Worker) : Prop where
  performClose : w.performClose ≠ .no → w.closing = true
  unforced : w.performClose ≠ .starting true
  /-- No timer will start the loop again. -/
  retrying : w.performClose ≠ .no → w.performClose ≠ .starting false → w.initialized = true ∧ w.loop ≠ .retrying
  pollLoopPromise : w.loop ≠ .stopped → w.closed = false → w.pollLoopPromise = true
  settled : w.performClose = .draining ∨ w.performClose = .finishing ∨ w.performClose = .done → w.LoopOver
  drained : w.performClose = .finishing ∨ w.performClose = .done → w.activePromises = []
  closed : w.closed = true → w.performClose = .done

theorem startLoop_closing (hclosing : w.closing = true) (now : Int) :
    w.startLoop now = { w with loop := .stopped, pollLoopPromise := true } := by
  simp [startLoop, isPolling, hclosing, goTo]

/-- Where the close does not go on, the loop and the slots decide. -/
theorem Graceful.of_same (hg : w.Graceful)
    (hsame : w'.initialized = w.initialized ∧ w'.closing = w.closing ∧ w'.closed = w.closed ∧
      w'.performClose = w.performClose)
    (hretrying : w.closing = true → w.loop ≠ .retrying → w'.loop ≠ .retrying)
    (hpromise : w'.loop ≠ .stopped → w.closed = false → w'.pollLoopPromise = true)
    (hover : w.closing = true → w.LoopOver → w'.LoopOver)
    (hactive : w.closing = true → w.LoopOver → w.activePromises = [] → w'.activePromises = []) : w'.Graceful := by
  obtain ⟨hinit, hclosing, hclosed, hperform⟩ := hsame
  have hclose := hg.performClose
  constructor
  · rw [hperform, hclosing]
    exact hclose
  · rw [hperform]
    exact hg.unforced
  · rw [hperform, hinit]
    intro hne hstart
    obtain ⟨hborn, hloop⟩ := hg.retrying hne hstart
    exact ⟨hborn, hretrying (hclose hne) hloop⟩
  · rw [hclosed]
    exact hpromise
  · rw [hperform]
    intro hdone
    exact hover (hclose (by rcases hdone with h | h | h <;> simp [h])) (hg.settled hdone)
  · rw [hperform]
    intro hdone
    exact hactive (hclose (by rcases hdone with h | h <;> simp [h])) (hg.settled (.inr hdone)) (hg.drained hdone)
  · rw [hclosed, hperform]
    exact hg.closed

theorem Graceful.of_flags (hg : w.Graceful)
    (hsame : w'.initialized = w.initialized ∧ w'.closing = w.closing ∧ w'.closed = w.closed ∧
      w'.performClose = w.performClose)
    (hloop : w'.loop = w.loop) (hpromise : w'.pollLoopPromise = w.pollLoopPromise)
    (hactive : w.LoopOver → w.activePromises = [] → w'.activePromises = []) : w'.Graceful := by
  refine hg.of_same hsame ?_ ?_ ?_ fun _ => hactive
  · rw [hloop]
    exact fun _ hnot => hnot
  · rw [hloop, hpromise]
    exact hg.pollLoopPromise
  · unfold LoopOver
    rw [hloop]
    exact fun _ => id

theorem same_of_app (happ : w'.app = w.app) : w'.initialized = w.initialized ∧ w'.closing = w.closing ∧
    w'.closed = w.closed ∧ w'.performClose = w.performClose := by
  obtain ⟨hinit, -, -, hclosing, hclosed, hperform⟩ := app_eq_iff.mp happ
  exact ⟨hinit, hclosing, hclosed, hperform⟩

theorem Graceful.rolls (hg : w.Graceful) (hloop : w.loop ≠ .stopped) (hlive : w.closing = true → ¬ w.LoopOver)
    (hr : Rolls w w') : w'.Graceful := by
  have hdead {P : Prop} (hclosing : w.closing = true) (hover : w.LoopOver) : P := absurd hover (hlive hclosing)
  cases hr with
  | goesOn hgoes =>
    refine hg.of_same (same_of_app hgoes.app) (fun hclosing hnot hretrying => ?_)
      (fun _ hopen => hgoes.pollLoopPromise.trans (hg.pollLoopPromise hloop hopen)) hdead hdead
    rcases hgoes.retrying hretrying with hsame | hopen
    · exact hnot hsame
    · simp [hclosing] at hopen
  | ends happ _ _ hstopped =>
    exact hg.of_same (same_of_app happ) (fun _ _ => by simp [hstopped]) (fun hne => absurd hstopped hne) hdead hdead
  | pauses happ _ _ hstopped =>
    exact hg.of_same (same_of_app happ) (fun _ _ => by simp [hstopped]) (fun hne => absurd hstopped hne) hdead hdead

/-- An attempt that a timer started before the close ends without a trace: all that it changes is where
the loop is, and which clients are left until `performClose` closes them. -/
theorem polled_late (hloop : w.loop = .reconnecting true) (hclosing : w.closing = true) (now : Int) (r : Polled) :
    w.polled now r = w ∨ ∃ commandClient blockingClient,
      w.polled now r = { w with commandClient, blockingClient, loop := .stopped } := by
  unfold polled
  rw [hloop]
  cases r with
  | reconnected => exact .inl (by simp [hclosing])
  | notReconnected commandClient blockingClient => exact .inr ⟨_, _, by simp [hclosing, goTo]; exact ⟨rfl, rfl⟩⟩
  | _ => exact .inl rfl

theorem turn_late (hloop : w.loop = .reconnecting true) (now : Int) : w.turn now = w := by
  unfold turn
  rw [hloop]

theorem Graceful.late (hg : w.Graceful) (hover : w.LoopOver) (hclosing : w.closing = true) (now : Int) (r : Polled) :
    (w.polled now r).Graceful := by
  -- A loop that is over stays so while the worker is closing.
  rcases hover with hloop | hloop
  · rw [polled_stopped hloop]
    exact hg
  · rcases polled_late hloop hclosing now r with hself | ⟨commandClient, blockingClient, hends⟩
    · rw [hself]
      exact hg
    · rw [hends]
      exact hg.of_same ⟨rfl, rfl, rfl, rfl⟩ (fun _ _ => by simp) (fun hne => absurd rfl hne) (fun _ _ => .inl rfl)
        fun _ _ hnone => hnone

theorem Graceful.startLoop (hg : w.Graceful) (now : Int) : (w.startLoop now).Graceful := by
  -- A start of the loop. In a worker that is closing it ends at once.
  by_cases hclosing : w.closing = true
  · rw [startLoop_closing hclosing]
    exact hg.of_same ⟨rfl, rfl, rfl, rfl⟩ (fun _ _ => by simp) (fun _ _ => rfl) (fun _ _ => .inl rfl)
      fun _ _ hnone => hnone
  · have hperform : w.performClose = .no := by
      by_contra hne
      exact hclosing (hg.performClose hne)
    obtain ⟨-, -, hclosed', hperform'⟩ := same_of_app (startLoop_app w now)
    rw [hperform] at hperform'
    constructor
    · simp [hperform']
    · simp [hperform']
    · simp [hperform']
    · exact fun _ _ => startLoop_pollLoopPromise w now
    · simp [hperform']
    · simp [hperform']
    · rw [hclosed', hperform']
      intro hclosed
      simpa [hperform] using hg.closed hclosed

theorem Graceful.init (hg : w.Graceful) (h : w.Sound) (now : Int) (flags : Option (Bool × Bool × Bool)) :
    (w.init now flags).Graceful := by
  unfold Worker.init
  split
  · exact hg
  · rename_i hborn
    have hloop := (h.unborn (by simpa using hborn)).2
    -- The close has come no further than its wait for `init`.
    have hearly : w.performClose = .no ∨ w.performClose = .starting false := by
      by_contra hnot
      rw [not_or] at hnot
      exact hborn (hg.retrying hnot.1 hnot.2).1
    apply Graceful.startLoop
    cases flags <;> exact ⟨hg.performClose, hg.unforced, fun _ _ => ⟨rfl, by simp [refreshMetaFlags, hloop]⟩,
      hg.pollLoopPromise, hg.settled, hg.drained, hg.closed⟩

theorem Graceful.close (hg : w.Graceful) : (w.close false).Graceful := by
  unfold Worker.close
  split
  · exact hg
  · rename_i hopen
    simp only
    split
    · exact hg.of_flags ⟨rfl, rfl, rfl, rfl⟩ rfl rfl fun _ hnone => hnone
    · exact ⟨fun _ => rfl, by simp, by simp, hg.pollLoopPromise, by simp, by simp, fun hclosed => absurd hclosed hopen⟩

theorem Graceful.stepClose (hg : w.Graceful) : (w.stepClose false).Graceful := by
  have hclosing (hne : w.performClose ≠ .no) := hg.performClose hne
  unfold Worker.stepClose
  split
  · rename_i force hperform
    have hforce : force = false := by
      have hunforced := hg.unforced
      simpa [hperform] using hunforced
    have hclosed : w.closed = false := by
      by_contra hnot
      have hdone := hg.closed (by simpa using hnot)
      simp [hperform] at hdone
    split
    · exact hg
    · rename_i hborn
      have hinit : w.initialized = true := by simpa using hborn
      simp only [hforce, Bool.false_eq_true, if_false]
      split
      · exact ⟨fun _ => hclosing (by simp [hperform]), by simp, fun _ _ => ⟨hinit, by simp [goTo]⟩, by simp [goTo],
          by simp, by simp, by simp [goTo, hclosed]⟩
      · rename_i hnot
        exact ⟨fun _ => hclosing (by simp [hperform]), by simp, fun _ _ => ⟨hinit, hnot⟩, hg.pollLoopPromise,
          by simp, by simp, by simp [hclosed]⟩
  · rename_i hperform
    obtain ⟨hinit, hnot⟩ := hg.retrying (by simp [hperform]) (by simp [hperform])
    have hopen : w.closed = false := by
      by_contra hclosed
      have hdone := hg.closed (by simpa using hclosed)
      simp [hperform] at hdone
    split
    · rename_i hended
      have hover : w.LoopOver := by
        by_contra hover
        obtain ⟨hne, hattempt⟩ := not_or.mp hover
        have hpromise := hg.pollLoopPromise hne hopen
        simp [loopEnded, hpromise, hne, hnot, hattempt] at hended
      exact ⟨fun _ => hclosing (by simp [hperform]), by simp, fun _ _ => ⟨hinit, hnot⟩, hg.pollLoopPromise,
        fun _ => hover, by simp, fun hclosed => by simp [hopen] at hclosed⟩
    · exact hg
  · rename_i hperform
    have hrest := hg.retrying (by simp [hperform]) (by simp [hperform])
    split
    · rename_i hnone
      exact ⟨fun _ => hclosing (by simp [hperform]), by simp, fun _ _ => hrest, hg.pollLoopPromise,
        fun _ => hg.settled (.inl hperform), fun _ => hnone, fun hclosed => by simpa [hperform] using hg.closed hclosed⟩
    · exact hg
  · rename_i hperform
    have hrest := hg.retrying (by simp [hperform]) (by simp [hperform])
    exact ⟨fun _ => hclosing (by simp [hperform]), by simp, fun _ _ => hrest, by simp,
      fun _ => hg.settled (.inr (.inl hperform)), fun _ => hg.drained (.inl hperform), fun _ => rfl⟩
  · exact hg

theorem Graceful.step (hg : w.Graceful) (h : w.Sound) (e : Event) (hgrace : e.isForced = false) :
    (w.step e).Graceful := by
  cases e with
  | slot i now r =>
    have hcontrol := h.slot_control i now r
    refine hg.of_flags (same_of_app (app_of_control hcontrol)) (loop_of_control hcontrol)
      (pollLoopPromise_of_control hcontrol) fun _ hnone => ?_
    rw [h.slot_idle hnone i now r]
    exact hnone
  | polled now r =>
    by_cases hloop : w.loop = .stopped
    · have hself : w.step (.polled now r) = w := polled_stopped hloop now r
      rw [hself]
      exact hg
    by_cases hlate : w.closing = true ∧ w.LoopOver
    · exact hg.late hlate.2 hlate.1 now r
    by_cases hrestarts : w.reconnects = true ∧ r = .reconnected ∧ w.closing = false
    · obtain ⟨hreconnecting, rfl, hopen⟩ := hrestarts
      rw [Worker.step, polled_reconnected hreconnecting hopen]
      apply Graceful.startLoop
      exact hg.of_flags ⟨rfl, rfl, rfl, rfl⟩ rfl rfl fun _ hnone => hnone
    · exact hg.rolls hloop (fun hclosing hover => hlate ⟨hclosing, hover⟩) (polled_rolls h hloop now r hrestarts)
  | turn now =>
    by_cases hloop : w.loop = .stopped
    · have hself : w.step (.turn now) = w := turn_stopped hloop now
      rw [hself]
      exact hg
    by_cases hattempt : w.loop = .reconnecting true
    · have hself : w.step (.turn now) = w := turn_late hattempt now
      rw [hself]
      exact hg
    · exact hg.rolls hloop (fun _ hover => hover.elim hloop hattempt) (turn_rolls h hloop now)
  | initialized now flags => exact hg.init h now flags
  | tick flags =>
    cases flags with
    | none => exact hg
    | some flags => exact hg.of_flags ⟨rfl, rfl, rfl, rfl⟩ rfl rfl fun _ hnone => hnone
  | pause => exact hg.of_flags ⟨rfl, rfl, rfl, rfl⟩ rfl rfl fun _ hnone => hnone
  | resume now =>
    simp only [Worker.step, Worker.resumePolling]
    have hunpaused : { w with paused := false }.Graceful :=
      hg.of_flags ⟨rfl, rfl, rfl, rfl⟩ rfl rfl fun _ hnone => hnone
    split
    · exact hg
    · split
      · exact hunpaused
      · exact hunpaused.startLoop now
  | close force =>
    obtain rfl : force = false := hgrace
    exact hg.close
  | closing graceExpired =>
    obtain rfl : graceExpired = false := hgrace
    exact hg.stepClose

/-! ## After the close -/

/-- Nothing is left that could act, but for an attempt to reconnect that ends without a trace. -/
def Ended (w : Worker) : Prop :=
  w.initialized = true ∧ w.closing = true ∧ w.closed = true ∧ w.performClose = .done ∧ w.LoopOver ∧
    w.activePromises = []

theorem Ended.polled (hended : w.Ended) (now : Int) (r : Polled) :
    (w.polled now r).Ended ∧ (w.polled now r).books = w.books := by
  obtain ⟨hinit, hclosing, hclosed, hperform, hover, hnone⟩ := id hended
  rcases hover with hloop | hloop
  · rw [polled_stopped hloop]
    exact ⟨hended, rfl⟩
  · rcases polled_late hloop hclosing now r with hself | ⟨commandClient, blockingClient, hends⟩
    · rw [hself]
      exact ⟨hended, rfl⟩
    · rw [hends]
      exact ⟨⟨hinit, hclosing, hclosed, hperform, .inl rfl, hnone⟩, rfl⟩

theorem Ended.step (hended : w.Ended) (h : w.Sound) (e : Event) : (w.step e).Ended ∧ (w.step e).books = w.books := by
  obtain ⟨hinit, hclosing, hclosed, hperform, hover, hnone⟩ := id hended
  have hsame (hself : w.step e = w) : (w.step e).Ended ∧ (w.step e).books = w.books := by
    rw [hself]
    exact ⟨hended, rfl⟩
  cases e with
  | slot i now r => exact hsame (h.slot_idle hnone i now r)
  | polled now r => exact hended.polled now r
  | turn now => exact hsame (hover.elim (fun hloop => turn_stopped hloop now) fun hloop => turn_late hloop now)
  | initialized now flags => exact hsame (by simp [Worker.step, Worker.init, hinit])
  | tick flags => cases flags <;> exact ⟨⟨hinit, hclosing, hclosed, hperform, hover, hnone⟩, rfl⟩
  | pause => exact ⟨⟨hinit, hclosing, hclosed, hperform, hover, hnone⟩, rfl⟩
  | resume now =>
    simp only [Worker.step, Worker.resumePolling]
    split
    · exact ⟨hended, rfl⟩
    · split
      · exact ⟨⟨hinit, hclosing, hclosed, hperform, hover, hnone⟩, rfl⟩
      · rw [startLoop_closing (w := { w with paused := false }) hclosing]
        exact ⟨⟨hinit, hclosing, hclosed, hperform, .inl rfl, hnone⟩, rfl⟩
  | close force => exact hsame (by simp [Worker.step, Worker.close, hclosed])
  | closing graceExpired => exact hsame (by simp [Worker.step, Worker.stepClose, hperform])

theorem graceful_new (concurrency : Nat) (prefetch : Option Nat) (limited deadLetterQueue commandClientOwned : Bool) :
    (new concurrency prefetch limited deadLetterQueue commandClientOwned).Graceful := by
  constructor <;> simp [new]

/-- When a close that nobody forced is done, no slot is in flight and the poll loop has ended, but for an
attempt to reconnect that a timer started. Every claim that the worker ever had was settled once or was
lost in an event that says why, and whatever comes later, the end of that attempt too, no slot, claim or
call is added. -/
theorem graceful_close_is_final (concurrency : Nat) (prefetch : Option Nat)
    (limited deadLetterQueue commandClientOwned : Bool) (events later : List Event) :
    let start := new concurrency prefetch limited deadLetterQueue commandClientOwned
    let w := Machine.run step start events
    (∀ e ∈ events, e.isForced = false) → w.closed = true →
      w.activePromises = [] ∧ (w.loop = .stopped ∨ w.loop = .reconnecting true) ∧
        (∀ n < w.taken, w.settlements n = 1 ∨ w.settlements n = 0 ∧
          ∃ before e after, events = before ++ e :: after ∧ (Machine.run step start before).Loses e n) ∧
        (Machine.run step w later).books = w.books := by
  intro start w hgrace hclosed
  have hnew : start.Sound := sound_new concurrency prefetch limited deadLetterQueue commandClientOwned
  have hsound : w.Sound := hnew.run events
  have hgraceful : w.Graceful := by
    have hmeets : Machine.Meets step (fun _ e => e.isForced = false) start events := .of_forall hgrace
    have hgnew : start.Graceful := graceful_new concurrency prefetch limited deadLetterQueue commandClientOwned
    exact (@Machine.invariant _ _ step _ (fun w => w.Sound ∧ w.Graceful)
      (fun w e hw hforced => ⟨(hw.1.step e).1, hw.2.step hw.1 e hforced⟩) start events ⟨hnew, hgnew⟩ hmeets).2
  have hdone := hgraceful.closed hclosed
  have hnone := hgraceful.drained (.inr hdone)
  have hover := hgraceful.settled (.inr (.inr hdone))
  refine ⟨hnone, hover, fun n hn => ?_, ?_⟩
  · rcases claims_run hnew rfl events hn with ⟨hheld, -⟩ | ⟨-, hone⟩ | ⟨-, hzero, hlost⟩
    · obtain ⟨i, hi⟩ := hheld.exists
      have hmem : i ∈ w.activePromises := (hsound.slots.inFlight i).mpr hi.1
      rw [hnone] at hmem
      cases hmem
    · exact .inl hone
    · exact .inr ⟨hzero, hlost⟩
  · have hinit := (hgraceful.retrying (by simp [hdone]) (by simp [hdone])).1
    have hended : w.Ended := ⟨hinit, hgraceful.performClose (by simp [hdone]), hclosed, hdone, hover, hnone⟩
    have hrun := @Machine.invariant_all _ _ step (fun w' => w'.Sound ∧ w'.Ended ∧ w'.books = w.books)
      (fun w' e h' => ⟨(h'.1.step e).1, (h'.2.1.step h'.1 e).1, (h'.2.1.step h'.1 e).2.trans h'.2.2⟩) w later
      ⟨hsound, hended, rfl⟩
    exact hrun.2.2

/-- A job that is running when the worker is closed. -/
def closesGracefully : List Event :=
  [.initialized 1000 none, .polled 1000 (.jobIds []), .polled 1001 (.entries [("1-0", some "1")]),
    .slot 0 1002 (.moved (.hash {})), .close false, .closing false, .slot 0 1003 (.processed {}), .slot 0 1004 .done,
    .slot 0 1005 .slept, .turn 1005, .turn 1005, .closing false, .closing false, .closing false]

theorem running_job_outlives_close :
    let w := Machine.run step (new 1 none false false true) closesGracefully
    w.activePromises = [] ∧ w.settlements 0 = 1 ∧ (Machine.run step w [.resume 2000, .close true]).books = w.books := by
  intro w
  obtain ⟨hnone, -, hclaims, hfinal⟩ := graceful_close_is_final 1 none false false true closesGracefully
    [.resume 2000, .close true] (by decide) (by decide)
  refine ⟨hnone, ?_, hfinal⟩
  rcases hclaims 0 (by decide) with hone | ⟨hzero, -⟩
  · exact hone
  · exact absurd hzero (by decide)

/-! ## Handing back -/

/-- The call hands a claim back, or ends one whose job was revoked. -/
def Call.handsBack : Call → Bool
  | .deferActive pausedRestore _ => pausedRestore
  | .failJob maxAttempts requeueOnly => decide (maxAttempts = 0) && !requeueOnly
  | _ => false

/-- What a slot may wait for that hands its claim back. -/
def Await.HandsBack : Await → Prop
  | .last call _ => Call.handsBack call = true
  | .following f _ => ∀ next job, f = .hash next job → next.jobId ≠ ""
  | _ => False

/-- The worker is stopped, and hands back every claim from number `k` on. -/
structure HandsBack (k : Nat) (w : Worker) : Prop where
  stopped : w.closing = true ∨ w.paused = true
  taken : k ≤ w.taken
  slots : ∀ i a, (w.slot i).await = some a → k ≤ (w.slot i).claim → Await.HandsBack a
  log : ∀ e ∈ w.log, k ≤ e.claim → Call.handsBack e.call = true

variable {k : Nat}

theorem HandsBack.of_books (h : w.HandsBack k) (hb : w'.books = w.books)
    (hstopped : w'.closing = true ∨ w'.paused = true) : w'.HandsBack k := by
  simp only [books, Prod.mk.injEq] at hb
  obtain ⟨-, -, -, hslot, htaken, -, hlog⟩ := hb
  constructor
  · exact hstopped
  · rw [htaken]
    exact h.taken
  · rw [hslot]
    exact h.slots
  · rw [hlog]
    exact h.log

theorem HandsBack.of_core (h : w.HandsBack k) (hcore : w'.core = w.core) : w'.HandsBack k := by
  have hclosing := congrArg Worker.closing hcore
  have hpaused := congrArg Worker.paused hcore
  simp only [core] at hclosing hpaused
  refine h.of_books (books_of_core hcore) ?_
  rw [hclosing, hpaused]
  exact h.stopped

theorem HandsBack.setSlot (h : w.HandsBack k) (i : Nat) (s : Slot)
    (hs : ∀ a, s.await = some a → k ≤ s.claim → Await.HandsBack a) : (w.setSlot i s).HandsBack k := by
  refine ⟨h.stopped, h.taken, fun j a ha hk => ?_, h.log⟩
  simp only [Worker.setSlot, Function.update_apply] at ha hk
  split at ha
  · rename_i hj
    rw [if_pos hj] at hk
    exact hs a ha hk
  · rename_i hj
    rw [if_neg hj] at hk
    exact h.slots j a ha hk

theorem HandsBack.await (h : w.HandsBack k) (i : Nat) (ha : k ≤ (w.slot i).claim → Await.HandsBack a) :
    (w.await i a).HandsBack k := by
  apply h.setSlot
  intro b hb hk
  obtain rfl : a = b := by simpa using hb
  exact ha hk

theorem HandsBack.leave (h : w.HandsBack k) (i : Nat) (rejected : Bool) : (w.leave i rejected).HandsBack k := by
  have hset : (w.setSlot i { w.slot i with await := none, rejected }).HandsBack k := h.setSlot i _ (by simp)
  exact ⟨hset.stopped, hset.taken, hset.slots, hset.log⟩

theorem HandsBack.record (h : w.HandsBack k) (i : Nat) (call : Call) (r : Reply)
    (hcall : k ≤ (w.slot i).claim → Call.handsBack call = true) : (w.record i call r).HandsBack k := by
  have hset := h.setSlot i { w.slot i with settled := (w.slot i).settled || settles (w.claimOf i) call r } (h.slots i)
  refine ⟨hset.stopped, hset.taken, hset.slots, fun e he hk => ?_⟩
  simp only [Worker.record, List.mem_append, List.mem_singleton] at he
  rcases he with hold | rfl
  · exact h.log e hold hk
  · exact hcall hk

theorem HandsBack.follow (h : w.HandsBack k) (i : Nat) {f : Fetched} {c : Claim} (hf : f.claim = some c)
    (hnames : ∀ next job, f = .hash next job → next.jobId ≠ "") (guarded : Bool) : (w.follow i f guarded).HandsBack k := by
  have hset : (w.setSlot i { claim := w.taken, settled := false, await := some (.following f guarded) }).HandsBack k := by
    apply h.setSlot
    intro b hb _
    obtain rfl : Await.following f guarded = b := by simpa using hb
    exact hnames
  simp only [Worker.follow, hf]
  exact ⟨hset.stopped, Nat.le_succ_of_le h.taken, hset.slots, hset.log⟩

theorem HandsBack.deferPausedActivation (h : w.HandsBack k) (i : Nat) (undoGroupClaim : Bool) :
    (w.deferPausedActivation i undoGroupClaim).HandsBack k := by
  unfold Worker.deferPausedActivation
  split
  · exact h.await i fun _ => rfl
  · exact h.leave i false

/-- A job that comes with a chain call is named. -/
def Event.Names : Event → Prop
  | .slot _ _ (.fetched (.hash next _)) => next.jobId ≠ ""
  | _ => True

theorem HandsBack.follows (h : w.HandsBack k) {lost : Prop} {r : Reply} (hf : Follows lost r w i w')
    (hold : (w.slot i).claim < k) (hnames : ∀ next job, r = .fetched (.hash next job) → next.jobId ≠ "") :
    w'.HandsBack k := by
  have hcore : w.core.HandsBack k := h.of_core rfl
  have hnot : ¬ k ≤ (w.core.slot i).claim := Nat.not_le.mpr hold
  cases hf with
  | waits a ha hw => exact (hcore.await i fun hk => absurd hk hnot).of_core hw
  | leaves rejected hlost hw => exact (hcore.leave i rejected).of_core hw
  | takes f guarded c hf hsettled hreply hw =>
    refine HandsBack.of_core ?_ (hw.trans (core_follow w i hf guarded).symm)
    apply h.follow i hf
    rintro next job rfl
    exact hnames next job hreply
  | movedToFailed hopen hw =>
    have hrec := hcore.record i .moveToFailed .done fun hk => absurd hk hnot
    refine (hrec.await i fun hk => ?_).of_core hw
    simp only [Worker.record, Worker.setSlot, Function.update_self] at hk
    exact absurd hk hnot

theorem HandsBack.chain (h : w.HandsBack k) (i : Nat) (now : Int) {f : Fetched}
    (hnames : ∀ next job, f = .hash next job → next.jobId ≠ "") : (w.chain i now f).HandsBack k := by
  cases f with
  | none listsEmpty =>
    apply HandsBack.leave
    split
    · exact h.of_core rfl
    · exact h
  | revoked next =>
    simp only [Worker.chain]
    split
    · exact h.await i fun _ => rfl
    · exact h.leave i false
  | hash next job =>
    have hstopped : (w.closing || w.paused) = true := by simpa using h.stopped
    have hjob : next.jobId ≠ "" := hnames next job rfl
    simp only [Worker.chain, hstopped, hjob, ne_eq, not_false_iff, decide_true, Bool.and_self, if_true]
    exact h.deferPausedActivation i true

theorem HandsBack.resume (h : w.HandsBack k) (hsound : w.Sound) (i : Nat) (now : Int) (r : Reply)
    (hnames : Event.Names (.slot i now r)) : (w.resume i now r).HandsBack k := by
  by_cases hlive : ∃ a, (w.slot i).await = some a ∧ a.accepts r = true
  · obtain ⟨a, ha, haccepts⟩ := hlive
    have hin : w.activePromises ≠ [] := by
      intro hnone
      have hmem := (hsound.slots.inFlight i).mpr (by simp [ha])
      rw [hnone] at hmem
      cases hmem
    by_cases hold : (w.slot i).claim < k
    · have hf := resume_follows hsound.fitting ha haccepts (hsound.runs (.inl hin)) now
      have hnamed (next : Claim) (job : Job) (hr : r = .fetched (.hash next job)) : next.jobId ≠ "" := by
        rw [hr] at hnames
        exact hnames
      rcases recorded_cases (hsound.fitting i a ha) r with ⟨call, -, hrec, -⟩ | ⟨-, hrec⟩
      · rw [hrec] at hf
        refine (h.record i call r fun hk => absurd hold (Nat.not_lt.mpr hk)).follows hf ?_ hnamed
        simp only [Worker.record, Worker.setSlot, Function.update_self]
        exact hold
      · rw [hrec] at hf
        exact h.follows hf hold hnamed
    · have hback := h.slots i a ha (Nat.not_lt.mp hold)
      rw [resume_eq w i now r ha haccepts]
      cases a with
      | last call guarded => exact (h.record i call r fun _ => hback).leave i _
      | following f guarded =>
        change HandsBack k (if r = .threw && !guarded then w.leave i true else w.chain i now f)
        split
        · exact h.leave i true
        · exact h.chain i now hback
      | _ => exact hback.elim
  · rw [resume_eq_self w i now r fun a ha => by
      cases haccepts : a.accepts r with
      | false => rfl
      | true => exact absurd ⟨a, ha, haccepts⟩ hlive]
    exact h

theorem HandsBack.dispatchJob (h : w.HandsBack k) (c : Claim) : (w.dispatchJob c).HandsBack k := by
  have hstopped : (w.closing || w.paused) = true := by simpa using h.stopped
  have hslots (s : Slot) (hs : ∀ a, s.await = some a → k ≤ s.claim → Await.HandsBack a) :
      ((w.enter c).setSlot w.dispatched s).HandsBack k := by
    have hset := h.setSlot w.dispatched s hs
    refine ⟨hset.stopped, Nat.le_succ_of_le h.taken, fun j a ha hk => ?_, hset.log⟩
    simp only [Worker.enter, Worker.setSlot, Function.update_idem] at ha hk
    exact hset.slots j a ha hk
  have hleave : ((w.enter c).leave w.dispatched false).HandsBack k := by
    have hset := hslots { (w.enter c).slot w.dispatched with await := none, rejected := false } (by simp)
    exact ⟨hset.stopped, hset.taken, hset.slots, hset.log⟩
  have hdefer : ((w.enter c).deferPausedActivation w.dispatched false).HandsBack k := by
    unfold Worker.deferPausedActivation
    split
    · apply hslots
      intro a ha _
      obtain rfl : Await.last (.deferActive true false) true = a := by simpa using ha
      rfl
    · exact hleave
  change ((w.enter c).processJob w.dispatched).HandsBack k
  unfold processJob
  split
  · exact hleave
  · split
    · exact hdefer
    · rename_i hnot
      exact absurd hstopped hnot

theorem HandsBack.dispatchAll (h : w.HandsBack k) (claims : List Claim) : (w.dispatchAll claims).HandsBack k := by
  induction claims generalizing w with
  | nil => exact h
  | cons c claims ih => exact ih (h.dispatchJob c)

theorem HandsBack.turns (h : w.HandsBack k) (ht : Turns w w') (happ : w'.app = w.app) : w'.HandsBack k := by
  cases ht with
  | idles hi =>
    obtain ⟨-, -, hpaused, hclosing, -, -⟩ := app_eq_iff.mp happ
    apply h.of_books hi.books
    rw [hpaused, hclosing]
    exact h.stopped
  | dispatches claims l hroom hl hw =>
    have hall := h.dispatchAll claims
    rw [hw]
    exact ⟨hall.stopped, hall.taken, hall.slots, hall.log⟩

/-- A worker that is being closed stays stopped, and one that is paused as long as nobody resumes it. -/
theorem stopped_step (h : w.Sound) (hstopped : w.closing = true ∨ w.paused = true) (e : Event)
    (hresume : w.closing = true ∨ ∀ now, e ≠ .resume now) : (w.step e).closing = true ∨ (w.step e).paused = true := by
  obtain ⟨hcloses, hpauses⟩ := step_flags h e
  by_cases hclosing : w.closing = true
  · exact .inl (hcloses hclosing)
  · exact .inr (hpauses (hstopped.resolve_left hclosing) (hresume.resolve_left hclosing))

theorem HandsBack.step (h : w.HandsBack k) (hsound : w.Sound) (e : Event)
    (hresume : w.closing = true ∨ ∀ now, e ≠ .resume now) (hnames : e.Names) : (w.step e).HandsBack k := by
  have hstopped := stopped_step hsound h.stopped e hresume
  cases e with
  | slot i now r => exact h.resume hsound i now r hnames
  | polled now r =>
    by_cases hloop : w.loop = .stopped
    · have hself : w.step (.polled now r) = w := polled_stopped hloop now r
      rw [hself]
      exact h
    · exact h.turns (polled_turns hsound hloop now r) (polled_app hsound now r)
  | turn now => exact h.turns (.idles (turn_idles hsound now)) (turn_app hsound now)
  | initialized | tick | pause | resume | close | closing =>
    exact h.of_books (step_books w (by simp) (by simp) (by simp) hsound.slots.count) hstopped

/-- From the moment that a worker is closed, or is paused and not resumed, it runs no processor for a
claim that it is given later: all that it ever calls about such a claim is to hand it back, or to fail a
job that was revoked. -/
theorem stopped_worker_hands_back (concurrency : Nat) (prefetch : Option Nat)
    (limited deadLetterQueue commandClientOwned : Bool) (events later : List Event) (n : Nat) :
    let w := Machine.run step (new concurrency prefetch limited deadLetterQueue commandClientOwned) events
    let w' := Machine.run step w later
    w.closing = true ∨ w.paused = true ∧ (∀ e ∈ later, ∀ now, e ≠ .resume now) → (∀ e ∈ later, e.Names) →
      w.taken ≤ n →
        (∀ i a, (w'.slot i).await = some a → (w'.slot i).claim = n → Await.HandsBack a) ∧
          ∀ e ∈ w'.log, e.claim = n → Call.handsBack e.call = true := by
  intro w w' hstop hnames hn
  have hsound : w.Sound :=
    (sound_new concurrency prefetch limited deadLetterQueue commandClientOwned).run events
  have hbooks : w.HandsBack w.taken := by
    refine ⟨?_, Nat.le_refl _, fun i a ha hk => ?_, fun e he hk => ?_⟩
    · rcases hstop with hclosing | ⟨hpaused, -⟩
      · exact .inl hclosing
      · exact .inr hpaused
    · have hknown := hsound.slots.known i (by simp [ha])
      omega
    · have hlogged := hsound.slots.logged e he
      omega
  have hrun : w'.HandsBack w.taken := by
    rcases hstop with hclosing | ⟨-, hresume⟩
    · have hmeets : Machine.Meets step (fun _ e => e.Names) w later := .of_forall hnames
      exact (@Machine.invariant _ _ step _ (fun x => x.Sound ∧ x.closing = true ∧ x.HandsBack w.taken)
        (fun x e hx he => ⟨(hx.1.step e).1, closing_step hx.1 hx.2.1 e, hx.2.2.step hx.1 e (.inl hx.2.1) he⟩) w later
        ⟨hsound, hclosing, hbooks⟩ hmeets).2.2
    · have hmeets : Machine.Meets step (fun _ e => (∀ now, e ≠ .resume now) ∧ e.Names) w later :=
        .of_forall fun e he => ⟨hresume e he, hnames e he⟩
      exact (@Machine.invariant _ _ step _ (fun x => x.Sound ∧ x.HandsBack w.taken)
        (fun x e hx he => ⟨(hx.1.step e).1, hx.2.step hx.1 e (.inr he.1) he.2⟩) w later
        ⟨hsound, hbooks⟩ hmeets).2
  exact ⟨fun i a ha hclaim => hrun.slots i a ha (hclaim ▸ hn), fun e he hclaim => hrun.log e he (hclaim ▸ hn)⟩

/-- A worker that is paused while it reads. -/
def pausedRead : List Event := [.initialized 1000 none, .polled 1000 (.jobIds []), .pause]

/-- What the read brings, and how the slot ends. -/
def readReturns : List Event := [.polled 1001 (.entries [("1-0", some "1")]), .slot 0 1002 .done]

theorem paused_read_hands_back :
    let w := Machine.run step (Machine.run step (new 2 none false false true) pausedRead) readReturns
    w.taken = 1 ∧ w.log.length = 1 ∧ ∀ e ∈ w.log, e.claim = 0 → Call.handsBack e.call = true := by
  intro w
  obtain ⟨-, hlog⟩ := stopped_worker_hands_back 2 none false false true pausedRead readReturns 0
    (.inr ⟨by decide, by simp [readReturns]⟩) (fun e he => by
      simp only [readReturns, List.mem_cons, List.not_mem_nil, or_false] at he
      rcases he with rfl | rfl <;> trivial) (by decide)
  exact ⟨by decide, by decide, hlog⟩

end GlideMq.BaseWorker.Worker
