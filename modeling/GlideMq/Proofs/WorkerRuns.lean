import GlideMq.Proofs.WorkerPolls
import Mathlib.Data.List.Induction
import Mathlib.Data.List.Nodup
import Mathlib.Data.List.Perm.Subperm
import Mathlib.Tactic.Choose

/-!
# Runs of a worker

Slots end in any order, the poll loop claims what it has room for, and the application pauses, resumes
and closes. In every run the slots stay within the concurrency, and no claim is lost without a cause.
-/

namespace GlideMq.BaseWorker.Worker

variable {w w' : Worker} {i j n fetchCount : Nat} {a : Await}

/-! ## The whole worker -/

structure Sound (w : Worker) : Prop where
  slots : w.Slots
  fitting : w.Fitting
  bound : w.prefetch ≤ w.concurrency
  within : w.activePromises.length ≤ w.prefetch
  room : w.Room w.loop
  /-- Before the end of `init` the worker does nothing. -/
  unborn : w.initialized = false → w.activePromises = [] ∧ w.loop = .stopped
  running : w.initialized = true → w.running = true ∨ w.closing = true

theorem Sound.runs (h : w.Sound) (hlive : w.activePromises ≠ [] ∨ w.loop ≠ .stopped) :
    w.running = true ∨ w.closing = true := by
  apply h.running
  by_contra hnot
  obtain ⟨hactive, hloop⟩ := h.unborn (by simpa using hnot)
  rcases hlive with hne | hne
  · exact hne hactive
  · exact hne hloop

/-- What one step of the loop comes to. -/
inductive Turns (w w' : Worker) : Prop
  | idles (h : Idles w w')
  | dispatches (claims : List Claim) (l : Loop) (hroom : w.activePromises.length + claims.length ≤ w.prefetch)
      (hl : (w.dispatchAll claims).Room l) (h : w' = (w.dispatchAll claims).goTo l)

theorem Turns.fixed (h : w.Sound) (hrunning : w.running = true ∨ w.closing = true) (ht : Turns w w') :
    w'.fixed = w.fixed := by
  cases ht with
  | idles hi => exact hi.fixed
  | dispatches claims l hroom hl hw =>
    have hfixed := fixed_of_control (dispatchAll_steps claims h.slots h.fitting hrunning).2.1
    rw [hw]
    exact hfixed

theorem Turns.steps (h : w.Sound) (hrunning : w.running = true ∨ w.closing = true) (ht : Turns w w') :
    Steps w.PollLoses w w' := by
  cases ht with
  | idles hi => exact .of_books h.slots h.fitting hi.books
  | dispatches claims l hroom hl hw =>
    obtain ⟨hsteps, -, -⟩ := dispatchAll_steps claims h.slots h.fitting hrunning
    rw [hw]
    exact ⟨hsteps.slots.of_books rfl, hsteps.fitting.of_books rfl, hsteps.accounts.books_right rfl hsteps.slots⟩

theorem Turns.room (h : w.Sound) (hrunning : w.running = true ∨ w.closing = true) (ht : Turns w w') :
    w'.activePromises.length ≤ w'.prefetch ∧ w'.Room w'.loop := by
  cases ht with
  | idles hi =>
    have hactive : w'.activePromises = w.activePromises := congrArg (·.2.1) hi.books
    have hprefetch : w'.prefetch = w.prefetch := congrArg (·.2.1) hi.fixed
    refine ⟨?_, hi.room.of_sublist (hactive ▸ List.Sublist.refl _) hprefetch⟩
    rw [hactive, hprefetch]
    exact h.within
  | dispatches claims l hroom hl hw =>
    obtain ⟨-, hcontrol, hlength⟩ := dispatchAll_steps claims h.slots h.fitting hrunning
    have hprefetch : (w.dispatchAll claims).prefetch = w.prefetch := congrArg (·.2.1) (fixed_of_control hcontrol)
    rw [hw]
    exact ⟨by simp only [goTo]; omega, hl⟩

theorem Sound.turns (h : w.Sound) (hlive : w.initialized = true) (ht : Turns w w') : w'.Sound := by
  have hrunning := h.running hlive
  have hsteps := ht.steps h hrunning
  obtain ⟨hwithin, hroom⟩ := ht.room h hrunning
  have hfixed := ht.fixed h hrunning
  simp only [Worker.fixed, Prod.mk.injEq] at hfixed
  obtain ⟨hconcurrency, hprefetch, hinitialized, hrun, hclosing⟩ := hfixed
  constructor
  · exact hsteps.slots
  · exact hsteps.fitting
  · rw [hprefetch, hconcurrency]
    exact h.bound
  · exact hwithin
  · exact hroom
  · intro hnot
    simp [hinitialized, hlive] at hnot
  · intro _
    rw [hrun, hclosing]
    exact hrunning

/-- With a concurrency of 1 there is at most one claim, and it is the only one in flight. -/
theorem Sound.alone (h : w.Sound) (hone : w.concurrency = 1) {c : Claim} {rest : List Claim}
    (hrunning : w.running = true ∨ w.closing = true)
    (hroom : w.activePromises.length + (c :: rest).length ≤ w.prefetch) :
    rest = [] ∧ ∀ j ∈ (w.dispatchJob c).activePromises, j = w.dispatched := by
  have hbound := h.bound
  simp only [List.length_cons] at hroom
  have hrest : rest = [] := List.eq_nil_of_length_eq_zero (by omega)
  have hnone : w.activePromises = [] := List.eq_nil_of_length_eq_zero (by omega)
  obtain ⟨-, -, hsub, -⟩ := dispatchJob_steps h.slots h.fitting hrunning c
  refine ⟨hrest, fun j hj => ?_⟩
  have hmem := hsub.subset hj
  simpa [hnone] using hmem

theorem dispatchFromStream_turns (h : w.Sound) (hrunning : w.running = true ∨ w.closing = true) {claims : List Claim}
    (hroom : w.activePromises.length + claims.length ≤ w.prefetch) : Turns w (w.dispatchFromStream claims) := by
  cases claims with
  | nil => exact Turns.idles (idles_goTo trivial)
  | cons c rest =>
    simp only [dispatchFromStream]
    split
    · rename_i hone
      obtain ⟨rfl, halone⟩ := h.alone hone hrunning hroom
      exact .dispatches [c] (.inStream w.dispatched []) hroom ⟨rfl, halone⟩ rfl
    · exact .dispatches (c :: rest) .turning hroom trivial rfl

theorem dispatchFromList_turns (h : w.Sound) (hrunning : w.running = true ∨ w.closing = true) (afterRead : Bool)
    {claims : List Claim} (hcount : 1 ≤ fetchCount) (hfetch : fetchCount ≤ w.prefetch)
    (hroom : w.activePromises.length + claims.length ≤ w.prefetch) :
    Turns w (w.dispatchFromList afterRead fetchCount claims) := by
  cases claims with
  | nil => exact Turns.idles (idles_goTo trivial)
  | cons c rest =>
    simp only [dispatchFromList]
    split
    · rename_i hone
      obtain ⟨rfl, halone⟩ := h.alone hone hrunning hroom
      obtain ⟨-, hcontrol, -, -⟩ := dispatchJob_steps h.slots h.fitting hrunning c
      have hprefetch : (w.dispatchJob c).prefetch = w.prefetch := congrArg (·.2.1) (fixed_of_control hcontrol)
      exact .dispatches [c] (.inList afterRead fetchCount w.dispatched []) hroom
        ⟨rfl, hcount, hprefetch ▸ hfetch, halone⟩ rfl
    · exact .dispatches (c :: rest) .turning hroom trivial rfl

theorem dispatchPopped_turns (h : w.Sound) (hrunning : w.running = true ∨ w.closing = true) (afterRead : Bool)
    {jobIds : List String} (hcount : 1 ≤ fetchCount) (hfetch : w.activePromises.length + fetchCount ≤ w.prefetch)
    (hlength : jobIds.length ≤ fetchCount) : Turns w (w.dispatchPopped afterRead fetchCount jobIds) := by
  unfold dispatchPopped
  split
  · exact Turns.idles (noneInLists_idles afterRead ⟨hcount, hfetch⟩)
  · refine dispatchFromList_turns h hrunning afterRead hcount (by omega) ?_
    rw [List.length_map]
    omega

theorem turn_idles (h : w.Sound) (now : Int) : Idles w (w.turn now) := by
  -- No claim comes after one that the loop waits for, so a turn dispatches nothing.
  have hroom := h.room
  have hstays : Idles w w := ⟨rfl, rfl, hroom⟩
  unfold turn
  split
  · exact turnLoop_idles h.slots.count now
  · rename_i afterRead fetchCount i rest hloop
    rw [hloop] at hroom
    obtain ⟨rfl, hcount, hfetch, halone⟩ := hroom
    split
    · exact hstays
    · rename_i hended
      -- The slot was the only one.
      have hnone : w.activePromises = [] := by
        apply List.eq_nil_iff_forall_not_mem.mpr
        intro j hj
        have hji := halone j hj
        exact hended (hji ▸ (h.slots.inFlight j).mp hj)
      split
      · refine noneInLists_idles afterRead ⟨hcount, ?_⟩
        rw [hnone, List.length_nil]
        omega
      · exact idles_goTo trivial
  · rename_i i rest hloop
    rw [hloop] at hroom
    obtain ⟨rfl, -⟩ := hroom
    split
    · exact hstays
    · split
      · exact pollFailed_idles w
      · exact idles_goTo trivial
  · exact hstays

theorem claimsOf_length (es : List (String × Option String)) : (claimsOf es).length ≤ es.length :=
  List.length_filterMap_le _ es

theorem refreshMetaFlags_idles (hroom : w.Room w.loop) (flags : Option (Bool × Bool × Bool)) :
    Idles w (w.refreshMetaFlags flags) := by
  cases flags <;> exact ⟨rfl, rfl, hroom⟩

theorem refreshMetaFlags_count (w : Worker) (flags : Option (Bool × Bool × Bool)) :
    (w.refreshMetaFlags flags).activeCount = w.activeCount ∧
      (w.refreshMetaFlags flags).activePromises = w.activePromises := by
  cases flags <;> exact ⟨rfl, rfl⟩

theorem polled_turns (h : w.Sound) (hlive : w.loop ≠ .stopped) (now : Int) (r : Polled) :
    Turns w (w.polled now r) := by
  have hrunning := h.runs (.inr hlive)
  have hroom := h.room
  have hstays : Turns w w := Turns.idles ⟨rfl, rfl, hroom⟩
  unfold polled
  split
  · rename_i flags hloop
    obtain ⟨hcount, hactive⟩ := refreshMetaFlags_count w flags
    have hflags := refreshMetaFlags_idles hroom flags
    simp only
    split
    · exact Turns.idles ⟨hflags.books, hflags.fixed, trivial⟩
    · refine Turns.idles ((pollSlots_idles ?_ now).of_same hflags.books hflags.fixed)
      rw [hcount, hactive]
      exact h.slots.count
  · exact Turns.idles (idles_goTo trivial)
  · exact Turns.idles (idles_goTo trivial)
  · rename_i available n hloop
    rw [hloop] at hroom
    have hroom' : w.Room (.reading (if 0 < n then min available n.toNat else available)) ∨ n = 0 := by
      by_cases hn : n = 0
      · exact .inr hn
      · refine .inl ⟨?_, ?_⟩ <;> (have h1 := hroom.1; have h2 := hroom.2; split <;> omega)
    split
    · exact Turns.idles (idles_goTo trivial)
    · rename_i hn
      exact Turns.idles (pollLists_idles now (hroom'.resolve_right hn))
  · exact Turns.idles (pollFailed_idles w)
  · rename_i afterRead fetchCount popCount ids hloop
    rw [hloop] at hroom
    split
    · rename_i hids
      exact dispatchPopped_turns h hrunning afterRead hroom.1 hroom.2.1 (Nat.le_trans hids hroom.2.2)
    · exact hstays
  · rename_i afterRead fetchCount popCount hloop
    rw [hloop] at hroom
    exact Turns.idles (noneInLists_idles afterRead ⟨hroom.1, hroom.2.1⟩)
  · rename_i afterRead fetchCount popCount ids hloop
    rw [hloop] at hroom
    split
    · exact hstays
    · rename_i hids
      split
      · exact dispatchPopped_turns h hrunning afterRead hroom.1 hroom.2.1 (by have := hroom.2.2; omega)
      · exact Turns.idles (idles_goTo ⟨hroom.1, hroom.2.1, by have := hroom.2.2; omega⟩)
  · rename_i afterRead fetchCount popCount hloop
    rw [hloop] at hroom
    exact Turns.idles (idles_goTo ⟨hroom.1, hroom.2.1, by simpa using hroom.2.2⟩)
  · rename_i afterRead fetchCount remaining jobIds ids hloop
    rw [hloop] at hroom
    split
    · refine dispatchPopped_turns h hrunning afterRead hroom.1 hroom.2.1 ?_
      have := hroom.2.2
      rw [List.length_append]
      omega
    · exact hstays
  · rename_i afterRead fetchCount remaining jobIds hloop
    rw [hloop] at hroom
    exact dispatchPopped_turns h hrunning afterRead hroom.1 hroom.2.1 (by have := hroom.2.2; omega)
  · rename_i fetchCount hloop
    rw [hloop] at hroom
    split
    · exact Turns.idles (tryPopFromLists_idles true hroom)
    · exact Turns.idles (idles_goTo trivial)
  · rename_i fetchCount es hloop
    rw [hloop] at hroom
    split
    · refine dispatchFromStream_turns h hrunning ?_
      have hlength := claimsOf_length es
      have := hroom.2
      omega
    · exact hstays
  · exact Turns.idles (pollFailed_idles w)
  · exact Turns.idles (reconnect_idles w false)
  · exact Turns.idles (reconnect_idles w true)
  · split
    · exact hstays
    · refine Turns.idles ((startLoop_idles ?_ now).of_same rfl rfl)
      exact h.slots.count
  · split <;> exact Turns.idles ⟨rfl, rfl, trivial⟩
  · exact hstays

/-- Why claim `n` may be lost in an event. -/
def Loses (w : Worker) : Event → Nat → Prop
  | .slot i _ r, n => w.SlotLoses i r n
  | .polled _ _, n => w.PollLoses n
  | _, _ => False

theorem Sound.control (h : w.Sound) (hb : w'.books = w.books) (hconcurrency : w'.concurrency = w.concurrency)
    (hprefetch : w'.prefetch = w.prefetch) (hroom : w.Room w'.loop)
    (hunborn : w'.initialized = false → w.initialized = false ∧ w'.loop = w.loop)
    (hrunning : w'.initialized = true → w'.running = true ∨ w'.closing = true) : w'.Sound := by
  have hactive : w'.activePromises = w.activePromises := congrArg (·.2.1) hb
  constructor
  · exact h.slots.of_books hb
  · exact h.fitting.of_books hb
  · rw [hprefetch, hconcurrency]
    exact h.bound
  · rw [hactive, hprefetch]
    exact h.within
  · exact hroom.of_sublist (hactive ▸ List.Sublist.refl _) hprefetch
  · intro hnot
    obtain ⟨hw, hloop⟩ := hunborn hnot
    rw [hactive, hloop]
    exact h.unborn hw
  · exact hrunning

theorem Sound.init (h : w.Sound) (now : Int) (flags : Option (Bool × Bool × Bool)) : (w.init now flags).Sound := by
  unfold Worker.init
  split
  · exact h
  · obtain ⟨hcount, hactive⟩ := refreshMetaFlags_count w flags
    have hflags := refreshMetaFlags_idles h.room flags
    have hidles := startLoop_idles (w := { w.refreshMetaFlags flags with
      initialized := true, commandClient := true, blockingClient := true, running := true })
      (by rw [hcount, hactive]; exact h.slots.count) now
    have hbooks := hidles.books.trans hflags.books
    have hfixed := hidles.fixed
    have hfixed' := hflags.fixed
    simp only [fixed, Prod.mk.injEq] at hfixed hfixed'
    refine h.control hbooks (hfixed.1.trans hfixed'.1) (hfixed.2.1.trans hfixed'.2.1) ?_ ?_ ?_
    · exact hidles.room.of_sublist (hactive ▸ List.Sublist.refl _) hfixed'.2.1.symm
    · intro hnot
      simp [hfixed.2.2.1] at hnot
    · intro _
      exact .inl hfixed.2.2.2.1

theorem Sound.resumePolling (h : w.Sound) (now : Int) : (w.resumePolling now).Sound := by
  unfold Worker.resumePolling
  split
  · exact h
  · rename_i hlive
    have hinit : w.initialized = true := by simpa using hlive
    simp only
    split
    · exact h.turns hinit (.idles ⟨rfl, rfl, h.room⟩)
    · have hstart := startLoop_idles (w := { w with paused := false }) h.slots.count now
      exact h.turns hinit (.idles (hstart.of_same rfl rfl))

theorem Sound.close (h : w.Sound) (force : Bool) : (w.close force).Sound := by
  unfold Worker.close
  split
  · exact h
  · simp only
    split
    · exact h.control rfl rfl rfl h.room (fun hnot => ⟨hnot, rfl⟩) h.running
    · exact h.control rfl rfl rfl h.room (fun hnot => ⟨hnot, rfl⟩) fun _ => .inr rfl

theorem Sound.stepClose (h : w.Sound) (graceExpired : Bool) : (w.stepClose graceExpired).Sound := by
  have hkeep {w' : Worker} (hb : w'.books = w.books) (hfixed : w'.fixed = w.fixed) (hloop : w'.loop = w.loop) :
      w'.Sound := by
    simp only [fixed, Prod.mk.injEq] at hfixed
    obtain ⟨hconcurrency, hprefetch, hinitialized, hrunning, hclosing⟩ := hfixed
    refine h.control hb hconcurrency hprefetch (hloop ▸ h.room) (fun hnot => ⟨hinitialized ▸ hnot, hloop⟩) fun hinit => ?_
    rw [hrunning, hclosing]
    exact h.running (hinitialized ▸ hinit)
  unfold Worker.stepClose
  split
  · split
    · exact h
    · rename_i force hperform hlive
      have hinit : w.initialized = true := by simpa using hlive
      have hstopped (w' : Worker) (hb : w'.books = w.books) (hfixed : w'.fixed = w.fixed)
          (hloop : w'.loop = if w.loop = .retrying then .stopped else w.loop) : w'.Sound := by
        refine h.turns hinit (.idles ⟨hb, hfixed, ?_⟩)
        rw [hloop]
        split
        · trivial
        · exact h.room
      simp only
      split <;> (apply hstopped <;> split <;> rfl)
  · split
    · exact hkeep rfl rfl rfl
    · exact h
  · split
    · exact hkeep rfl rfl rfl
    · exact h
  · exact hkeep rfl rfl rfl
  · exact h

/-- Only slots and polls touch the books. -/
theorem step_books (w : Worker) {e : Event} (hslot : ∀ i now r, e ≠ .slot i now r) (hpolled : ∀ now r, e ≠ .polled now r)
    (hturn : ∀ now, e ≠ .turn now) (hcount : w.activeCount = w.activePromises.length) :
    (w.step e).books = w.books := by
  have hstart (w' : Worker) (hb : w'.books = w.books) (now : Int) : (w'.startLoop now).books = w.books := by
    simp only [books, Prod.mk.injEq] at hb
    refine (startLoop_idles (w := w') ?_ now).books.trans ?_
    · rw [hb.1, hb.2.1]
      exact hcount
    · simp only [books, Prod.mk.injEq]
      exact hb
  cases e with
  | slot i now r => exact absurd rfl (hslot i now r)
  | polled now r => exact absurd rfl (hpolled now r)
  | turn now => exact absurd rfl (hturn now)
  | initialized now flags =>
    simp only [step, Worker.init]
    split
    · rfl
    · exact hstart _ (by cases flags <;> rfl) now
  | tick flags => cases flags <;> rfl
  | pause => rfl
  | resume now =>
    simp only [step, Worker.resumePolling]
    split
    · rfl
    · split
      · rfl
      · exact hstart { w with paused := false } rfl now
  | close force =>
    simp only [step, Worker.close]
    split
    · rfl
    · split <;> rfl
  | closing graceExpired =>
    simp only [step, Worker.stepClose]
    split
    · split
      · rfl
      · split <;> split <;> rfl
    · split <;> rfl
    · split <;> rfl
    · rfl
    · rfl

theorem polled_stopped (hloop : w.loop = .stopped) (now : Int) (r : Polled) : w.polled now r = w := by
  unfold polled
  rw [hloop]

theorem turn_stopped (hloop : w.loop = .stopped) (now : Int) : w.turn now = w := by
  unfold turn
  rw [hloop]

theorem Sound.initialized_of_loop (h : w.Sound) (hloop : w.loop ≠ .stopped) : w.initialized = true := by
  by_contra hnot
  exact hloop (h.unborn (by simpa using hnot)).2

theorem Sound.slot_idle (h : w.Sound) (hactive : w.activePromises = []) (i : Nat) (now : Int) (r : Reply) :
    w.step (.slot i now r) = w := by
  apply resume_eq_self
  intro a ha
  have hmem := (h.slots.inFlight i).mpr (by simp [ha])
  simp [hactive] at hmem

theorem Sound.slot_control (h : w.Sound) (i : Nat) (now : Int) (r : Reply) :
    (w.step (.slot i now r)).control = w.control := by
  by_cases hactive : w.activePromises = []
  · rw [h.slot_idle hactive]
  · exact (resume_steps h.slots h.fitting (h.runs (.inl hactive)) i now r).2.1

theorem Sound.step (h : w.Sound) (e : Event) : (w.step e).Sound ∧ Accounts (w.Loses e) w (w.step e) := by
  have hsame {e : Event} (hb : (w.step e).books = w.books) : Accounts (w.Loses e) w (w.step e) := .of_books hb
  cases e with
  | slot i now r =>
    by_cases hactive : w.activePromises = []
    · rw [h.slot_idle hactive]
      exact ⟨h, .of_books rfl⟩
    · obtain ⟨hsteps, hcontrol, hsub⟩ := resume_steps h.slots h.fitting (h.runs (.inl hactive)) i now r
      have hfixed := fixed_of_control hcontrol
      simp only [fixed, Prod.mk.injEq] at hfixed
      obtain ⟨hconcurrency, hprefetch, hinitialized, hrunning, hclosing⟩ := hfixed
      have hloop : (w.resume i now r).loop = w.loop := by
        have := congrArg Worker.loop hcontrol
        exact this
      refine ⟨⟨hsteps.slots, hsteps.fitting, ?_, ?_, ?_, ?_, ?_⟩, hsteps.accounts⟩
      · change (w.resume i now r).prefetch ≤ (w.resume i now r).concurrency
        rw [hprefetch, hconcurrency]
        exact h.bound
      · have hle := hsub.length_le
        have hwithin := h.within
        change (w.resume i now r).activePromises.length ≤ (w.resume i now r).prefetch
        omega
      · change (w.resume i now r).Room (w.resume i now r).loop
        rw [hloop]
        exact h.room.of_sublist hsub hprefetch
      · intro hnot
        exact absurd (h.unborn (hinitialized ▸ hnot)).1 hactive
      · intro hinit
        change (w.resume i now r).running = true ∨ (w.resume i now r).closing = true
        rw [hrunning, hclosing]
        exact h.running (hinitialized ▸ hinit)
  | polled now r =>
    by_cases hloop : w.loop = .stopped
    · have hself : w.step (.polled now r) = w := polled_stopped hloop now r
      rw [hself]
      exact ⟨h, .of_books rfl⟩
    · have hturns := polled_turns h hloop now r
      have hrunning := h.runs (.inr hloop)
      exact ⟨h.turns (h.initialized_of_loop hloop) hturns, (hturns.steps h hrunning).accounts⟩
  | turn now =>
    by_cases hloop : w.loop = .stopped
    · have hself : w.step (.turn now) = w := turn_stopped hloop now
      rw [hself]
      exact ⟨h, .of_books rfl⟩
    · have hidles := turn_idles h now
      exact ⟨h.turns (h.initialized_of_loop hloop) (.idles hidles), .of_books hidles.books⟩
  | initialized now flags =>
    exact ⟨h.init now flags, hsame (step_books w (by simp) (by simp) (by simp) h.slots.count)⟩
  | tick flags =>
    refine ⟨?_, hsame (step_books w (by simp) (by simp) (by simp) h.slots.count)⟩
    cases flags with
    | none => exact h
    | some flags => exact h.control rfl rfl rfl h.room (fun hnot => ⟨hnot, rfl⟩) h.running
  | pause => exact ⟨h.control rfl rfl rfl h.room (fun hnot => ⟨hnot, rfl⟩) h.running, .of_books rfl⟩
  | resume now =>
    exact ⟨h.resumePolling now, hsame (step_books w (by simp) (by simp) (by simp) h.slots.count)⟩
  | close force => exact ⟨h.close force, hsame (step_books w (by simp) (by simp) (by simp) h.slots.count)⟩
  | closing graceExpired =>
    exact ⟨h.stepClose graceExpired, hsame (step_books w (by simp) (by simp) (by simp) h.slots.count)⟩

theorem step_bounds (h : w.Sound) (e : Event) :
    (w.step e).concurrency = w.concurrency ∧ (w.step e).prefetch = w.prefetch := by
  have hfixed {w' : Worker} (hf : w'.fixed = w.fixed) : w'.concurrency = w.concurrency ∧ w'.prefetch = w.prefetch := by
    simp only [fixed, Prod.mk.injEq] at hf
    exact ⟨hf.1, hf.2.1⟩
  have hstart (w' : Worker) (hcount : w'.activeCount = w'.activePromises.length)
      (hb : w'.concurrency = w.concurrency ∧ w'.prefetch = w.prefetch) (now : Int) :
      (w'.startLoop now).concurrency = w.concurrency ∧ (w'.startLoop now).prefetch = w.prefetch := by
    have hf := (startLoop_idles hcount now).fixed
    simp only [fixed, Prod.mk.injEq] at hf
    exact ⟨hf.1.trans hb.1, hf.2.1.trans hb.2⟩
  cases e with
  | slot i now r => exact hfixed (fixed_of_control (h.slot_control i now r))
  | polled now r =>
    by_cases hloop : w.loop = .stopped
    · have hself : w.step (.polled now r) = w := polled_stopped hloop now r
      rw [hself]
      exact ⟨rfl, rfl⟩
    · exact hfixed ((polled_turns h hloop now r).fixed h (h.runs (.inr hloop)))
  | turn now => exact hfixed (turn_idles h now).fixed
  | initialized now flags =>
    simp only [Worker.step, Worker.init]
    split
    · exact ⟨rfl, rfl⟩
    · refine hstart _ ?_ ?_ now <;> cases flags <;> first | exact h.slots.count | exact ⟨rfl, rfl⟩
  | tick flags => cases flags <;> exact ⟨rfl, rfl⟩
  | pause => exact ⟨rfl, rfl⟩
  | resume now =>
    simp only [Worker.step, Worker.resumePolling]
    split
    · exact ⟨rfl, rfl⟩
    · split
      · exact ⟨rfl, rfl⟩
      · exact hstart { w with paused := false } h.slots.count ⟨rfl, rfl⟩ now
  | close force =>
    simp only [Worker.step, Worker.close]
    split
    · exact ⟨rfl, rfl⟩
    · split <;> exact ⟨rfl, rfl⟩
  | closing graceExpired =>
    simp only [Worker.step, Worker.stepClose]
    split
    · split
      · exact ⟨rfl, rfl⟩
      · split <;> split <;> exact ⟨rfl, rfl⟩
    · split <;> exact ⟨rfl, rfl⟩
    · split <;> exact ⟨rfl, rfl⟩
    · exact ⟨rfl, rfl⟩
    · exact ⟨rfl, rfl⟩

/-! ## Runs -/

theorem sound_new (concurrency : Nat) (prefetch : Option Nat) (limited deadLetterQueue commandClientOwned : Bool) :
    (new concurrency prefetch limited deadLetterQueue commandClientOwned).Sound := by
  have hnobody (i n : Nat) : ¬ (new concurrency prefetch limited deadLetterQueue commandClientOwned).Holds i n :=
    fun hn => by simp [Holds, new] at hn
  constructor
  · constructor
    · rfl
    · exact List.nodup_nil
    · intro i
      simp [new]
    · intro i hi
      cases hi
    · intro e he
      cases he
    · intro i hi
      cases hi
    · exact fun i _ n hn => absurd hn (hnobody i n)
    · exact fun i n hn => absurd hn (hnobody i n)
    · exact fun n => Nat.zero_le 1
  · intro i a ha
    cases ha
  · exact Nat.min_le_right _ _
  · exact Nat.zero_le _
  · trivial
  · exact fun _ => ⟨rfl, rfl⟩
  · intro hinit
    cases hinit

theorem Sound.run (h : w.Sound) (events : List Event) : (Machine.run Worker.step w events).Sound :=
  @Machine.invariant_all _ _ Worker.step Sound (fun _ e h => (h.step e).1) w events h

theorem run_bounds (h : w.Sound) (events : List Event) :
    (Machine.run step w events).concurrency = w.concurrency ∧ (Machine.run step w events).prefetch = w.prefetch := by
  have hrun := @Machine.invariant_all _ _ step
    (fun w' => w'.Sound ∧ w'.concurrency = w.concurrency ∧ w'.prefetch = w.prefetch)
    (fun w' e h' => ⟨(h'.1.step e).1, (step_bounds h'.1 e).1.trans h'.2.1, (step_bounds h'.1 e).2.trans h'.2.2⟩)
    w events ⟨h, rfl, rfl⟩
  exact hrun.2

/-- However slots end, polls return and the application pauses, resumes and closes, the count of active
jobs is the number of slots in flight, and these see to at most `concurrency` different claims. -/
theorem claims_within_concurrency (concurrency : Nat) (prefetch : Option Nat)
    (limited deadLetterQueue commandClientOwned : Bool) (events : List Event) (held : List Nat) :
    let w := Machine.run step (new concurrency prefetch limited deadLetterQueue commandClientOwned) events
    held.Nodup → (∀ n ∈ held, ∃ i, w.Holds i n) →
      w.activeCount = w.activePromises.length ∧ held.length ≤ w.activePromises.length ∧
        w.activePromises.length ≤ min (prefetch.getD concurrency) concurrency := by
  intro w hnodup hheld
  have hnew := sound_new concurrency prefetch limited deadLetterQueue commandClientOwned
  have hsound : w.Sound := hnew.run events
  have hprefetch : w.prefetch = min (prefetch.getD concurrency) concurrency := (run_bounds hnew events).2
  refine ⟨hsound.slots.count, ?_, hprefetch ▸ hsound.within⟩
  -- Different claims are with different slots.
  choose! holder hholder using hheld
  have hinj : ∀ n ∈ held, ∀ m ∈ held, holder n = holder m → n = m := by
    intro n hn m hm heq
    have hn' := (hholder n hn).2.2
    have hm' := (hholder m hm).2.2
    rw [heq] at hn'
    omega
  have hmap : (held.map holder).Nodup := List.Nodup.map_on hinj hnodup
  have hsub : held.map holder ⊆ w.activePromises := by
    intro i hi
    obtain ⟨n, hn, rfl⟩ := List.mem_map.mp hi
    exact (hsound.slots.inFlight _).mpr (hholder n hn).1
  have hle := (List.Nodup.subperm hmap hsub).length_le
  rwa [List.length_map] at hle

/-- Two stream entries in one read. -/
def twoEntries : List Event :=
  [.initialized 1000 none, .polled 1000 (.jobIds []),
    .polled 1001 (.entries [("1-0", some "1"), ("2-0", some "2")])]

theorem two_claims_in_hand :
    let w := Machine.run step (new 2 none false false true) twoEntries
    w.activeCount = w.activePromises.length ∧ [0, 1].length ≤ w.activePromises.length ∧
      w.activePromises.length ≤ min 2 2 :=
  claims_within_concurrency 2 none false false true twoEntries [0, 1] (by decide) fun n hn => by
    rcases List.mem_pair.mp hn with rfl | rfl
    · exact ⟨0, by decide, by decide, by decide⟩
    · exact ⟨1, by decide, by decide, by decide⟩

/-- Every claim is with one slot and open, was settled once, or was lost in an event that says why. -/
theorem claims_run (h : w.Sound) (hnone : w.taken = 0) (events : List Event) {n : Nat}
    (hn : n < (Machine.run step w events).taken) :
    (∃! i, (Machine.run step w events).Holds i n) ∧ (Machine.run step w events).settlements n = 0 ∨
      (¬∃ i, (Machine.run step w events).Holds i n) ∧ (Machine.run step w events).settlements n = 1 ∨
      (¬∃ i, (Machine.run step w events).Holds i n) ∧ (Machine.run step w events).settlements n = 0 ∧
        ∃ before e after, events = before ++ e :: after ∧ (Machine.run step w before).Loses e n := by
  induction events using List.reverseRecOn with
  | nil =>
    rw [Machine.run_nil, hnone] at hn
    exact absurd hn (Nat.not_lt_zero n)
  | append_singleton events e ih =>
    have hsound := h.run (events ++ [e])
    have haccounts := ((h.run events).step e).2
    have hrun : Machine.run step w (events ++ [e]) = (Machine.run step w events).step e := by
      simp only [Machine.run_append, Machine.run_cons, Machine.run_nil]
    rw [hrun] at hsound hn ⊢
    by_cases hheld : ∃ i, ((Machine.run step w events).step e).Holds i n
    · obtain ⟨i, hi⟩ := hheld
      exact .inl ⟨⟨i, hi, fun j hj => hsound.slots.apart j i n hj hi⟩, hsound.slots.unsettled i n hi⟩
    refine .inr ?_
    have honce := hsound.slots.once n
    by_cases hone : ((Machine.run step w events).step e).settlements n = 1
    · exact .inl ⟨hheld, hone⟩
    refine .inr ⟨hheld, by omega, ?_⟩
    by_cases hopen : (∃ i, (Machine.run step w events).Holds i n) ∨ (Machine.run step w events).taken ≤ n
    · rcases haccounts.kept n hn hopen with hheld' | hone' | hlost
      · exact absurd hheld' hheld
      · exact absurd hone' hone
      · exact ⟨events, e, [], rfl, hlost⟩
    · -- It was settled or lost before.
      have hlt : n < (Machine.run step w events).taken := by
        by_contra hle
        exact hopen (.inr (Nat.not_lt.mp hle))
      have hle := haccounts.settlements_le hlt
      rcases ih hlt with ⟨hholds, -⟩ | ⟨-, hone'⟩ | ⟨-, -, before, e', after, hevents, hloses⟩
      · exact absurd (.inl hholds.exists) hopen
      · omega
      · exact ⟨before, e', after ++ [e], by simp [hevents], hloses⟩

/-- Every claim that the worker was ever given is with one slot and open, was settled once, or was lost
in an event that says why. -/
theorem each_claim_settles_once (concurrency : Nat) (prefetch : Option Nat)
    (limited deadLetterQueue commandClientOwned : Bool) (events : List Event) (n : Nat) :
    let start := new concurrency prefetch limited deadLetterQueue commandClientOwned
    let w := Machine.run step start events
    n < w.taken →
      (∃! i, w.Holds i n) ∧ w.settlements n = 0 ∨
        (¬∃ i, w.Holds i n) ∧ w.settlements n = 1 ∨
        (¬∃ i, w.Holds i n) ∧ w.settlements n = 0 ∧
          ∃ before e after, events = before ++ e :: after ∧ (Machine.run step start before).Loses e n := by
  intro start w hn
  exact claims_run (sound_new concurrency prefetch limited deadLetterQueue commandClientOwned) rfl events hn

/-- A job completes and brings the next one, and then the charge of its usage fails. -/
def chargeFails : List Event :=
  [.initialized 1000 none, .polled 1000 (.jobIds []), .polled 1001 (.entries [("1-0", some "1")]),
    .slot 0 1002 (.moved (.hash {})), .slot 0 1003 (.processed {}),
    .slot 0 1004 (.fetched (.hash ⟨"2", "2-0"⟩ {})), .slot 0 1005 .threw]

/-- The next job was claimed and activated, and nobody sees to it. -/
theorem failed_charge_loses_next :
    ∃ before e after, chargeFails = before ++ e :: after ∧
      (Machine.run step (new 1 none false false true) before).Loses e 1 := by
  rcases each_claim_settles_once 1 none false false true chargeFails 1 (by decide) with
    ⟨⟨i, hi, -⟩, -⟩ | ⟨-, hone⟩ | ⟨-, -, hlost⟩
  · have hsound := (sound_new 1 none false false true).run chargeFails
    have hmem := (hsound.slots.inFlight i).mpr hi.1
    have hnone : (Machine.run step (new 1 none false false true) chargeFails).activePromises = [] := by decide
    rw [hnone] at hmem
    cases hmem
  · exact absurd hone (by decide)
  · exact hlost

end GlideMq.BaseWorker.Worker
