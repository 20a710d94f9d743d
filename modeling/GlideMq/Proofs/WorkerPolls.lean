import GlideMq.Proofs.WorkerClaims

/-!
# What a poll can do

A slot leaves the poll loop alone. The loop asks for no more than it has room for, and where it
dispatches nothing it leaves the slots and claims alone.
-/

namespace GlideMq.BaseWorker.Worker

variable {w w' : Worker} {i j n fetchCount : Nat} {a : Await}

/-! ## What slots leave alone -/

/-- What only the poll loop and the application change: the state without its books. -/
def control (w : Worker) : Worker :=
  { w.core with
    activeCount := 0
    activePromises := []
    dispatched := 0
    slot := fun _ => {}
    taken := 0
    claim := fun _ => ⟨"", ""⟩
    log := [] }

theorem control_of_core {x : Worker} (h : w'.core = x) : w'.control = x.control := by
  have := congrArg control h
  exact this

/-- What a poll leaves as it is. -/
def fixed (w : Worker) : Nat × Nat × Bool × Bool × Bool :=
  (w.concurrency, w.prefetch, w.initialized, w.running, w.closing)

theorem fixed_of_control (h : w'.control = w.control) : w'.fixed = w.fixed := by
  have := congrArg fixed h
  exact this

theorem commandClient_of_control (h : w'.control = w.control) : w'.commandClient = w.commandClient := by
  have := congrArg Worker.commandClient h
  exact this

theorem running_of_fixed (h : w'.fixed = w.fixed) (hrunning : w.running = true ∨ w.closing = true) :
    w'.running = true ∨ w'.closing = true := by
  simp only [fixed, Prod.mk.injEq] at h
  rw [h.2.2.2.1, h.2.2.2.2]
  exact hrunning

theorem active_of_core {x : Worker} (h : w'.core = x) : w'.activePromises = x.activePromises := by
  have := congrArg Worker.activePromises h
  exact this

theorem Follows.control_eq {lost : Prop} {reply : Reply} (hf : Follows lost reply w i w') : w'.control = w.control := by
  cases hf with
  | waits a ha hw => exact (control_of_core hw).trans rfl
  | leaves rejected hlost hw => exact (control_of_core hw).trans rfl
  | takes f guarded c hf hsettled hreply hw =>
    have hcontrol : (w.follow i f guarded).control = w.control := by
      simp only [Worker.follow, hf]
      rfl
    exact (control_of_core (hw.trans (core_follow w i hf guarded).symm)).trans hcontrol
  | movedToFailed hopen hw => exact (control_of_core hw).trans rfl

theorem Follows.sublist {lost : Prop} {reply : Reply} (hf : Follows lost reply w i w') :
    w'.activePromises.Sublist w.activePromises := by
  cases hf with
  | waits a ha hw => exact active_of_core hw ▸ List.Sublist.refl _
  | leaves rejected hlost hw => exact active_of_core hw ▸ List.erase_sublist
  | takes f guarded c hf hsettled hreply hw =>
    have hactive : (w.follow i f guarded).activePromises = w.activePromises := by
      simp only [Worker.follow, hf]
      rfl
    have hw' : w'.activePromises = (w.follow i f guarded).activePromises :=
      (active_of_core (hw.trans (core_follow w i hf guarded).symm)).trans rfl
    rw [hw', hactive]
  | movedToFailed hopen hw => exact active_of_core hw ▸ List.Sublist.refl _

/-- What one step may do with slots and claims. -/
structure Steps (lost : Nat → Prop) (w w' : Worker) : Prop where
  slots : w'.Slots
  fitting : w'.Fitting
  accounts : Accounts lost w w'

theorem Steps.of_books {lost : Nat → Prop} (hslots : w.Slots) (hfit : w.Fitting) (hb : w'.books = w.books) :
    Steps lost w w' :=
  ⟨hslots.of_books hb, hfit.of_books hb, .of_books hb⟩

theorem Steps.trans {lost : Nat → Prop} {w₁ w₂ : Worker} (h₁ : Steps lost w w₁) (h₂ : Steps lost w₁ w₂) :
    Steps lost w w₂ :=
  ⟨h₂.slots, h₂.fitting, (h₁.accounts.trans h₂.accounts h₂.slots).mono fun _ hn => hn.elim id id⟩

/-- Why claim `n` may be lost when slot `i` gets a reply. -/
def SlotLoses (w : Worker) (i : Nat) (r : Reply) (n : Nat) : Prop :=
  ∃ a, (w.slot i).await = some a ∧ w.Holds i n ∧ w.Abandons a r

theorem recorded_steps (hslots : w.Slots) (hfit : w.Fitting) (ha : (w.slot i).await = some a) (r : Reply) :
    (w.recorded i a r).Slots ∧ (w.recorded i a r).FittingBut i ∧
      Accounts (fun _ => False) w (w.recorded i a r) ∧
      (w.recorded i a r).control = w.control ∧ (w.recorded i a r).activePromises = w.activePromises ∧
      ((w.recorded i a r).slot i).await = some a ∧ ∀ n, (w.recorded i a r).Holds i n → w.Holds i n := by
  have hin : (w.slot i).await.isSome := by simp [ha]
  rcases recorded_cases (hfit i a ha) r with ⟨call, hcall, hrec, hopen⟩ | ⟨hnone, hrec⟩
  · rw [hrec]
    refine ⟨hslots.record hin hopen call r, fun j b hj hb => ?_, .record hslots hopen call r, rfl, rfl,
      (record_await w i call r).trans ha, fun n hn => ((record_holds w hopen call r i n).mp hn).1⟩
    have hslot : (w.record i call r).slot j = w.slot j := by simp [Worker.record, setSlot, hj]
    rw [hslot] at hb ⊢
    have hlist : (w.record i call r).isListClaim j = w.isListClaim j := by
      unfold isListClaim
      rw [record_claimOf]
    rw [hlist]
    exact hfit j b hb
  · rw [hrec]
    exact ⟨hslots, hfit.but i, .of_books rfl, rfl, rfl, ha, fun n hn => hn⟩

theorem resume_steps (hslots : w.Slots) (hfit : w.Fitting) (hrunning : w.running = true ∨ w.closing = true) (i : Nat)
    (now : Int) (r : Reply) :
    Steps (w.SlotLoses i r) w (w.resume i now r) ∧ (w.resume i now r).control = w.control ∧
      (w.resume i now r).activePromises.Sublist w.activePromises := by
  by_cases hlive : ∃ a, (w.slot i).await = some a ∧ a.accepts r = true
  · obtain ⟨a, ha, haccepts⟩ := hlive
    obtain ⟨hslots₁, hbut, haccounts, hcontrol, hactive, hawait, hholds⟩ := recorded_steps hslots hfit ha r
    have hf := resume_follows hfit ha haccepts hrunning now
    have hin : ((w.recorded i a r).slot i).await.isSome := by simp [hawait]
    have hslots' := hf.slots hslots₁ hin
    refine ⟨⟨hslots', hf.fitting hslots₁ hbut, ?_⟩, hf.control_eq.trans hcontrol, hactive ▸ hf.sublist⟩
    refine (haccounts.trans (hf.accounts hslots₁ hin) hslots').mono fun n hn => ?_
    rcases hn with hfalse | ⟨hheld, hlost⟩
    · exact hfalse.elim
    · exact ⟨a, ha, hholds n hheld, hlost⟩
  · rw [resume_eq_self w i now r fun a ha => by
      cases haccepts : a.accepts r with
      | false => rfl
      | true => exact absurd ⟨a, ha, haccepts⟩ hlive]
    exact ⟨.of_books hslots hfit rfl, rfl, List.Sublist.refl _⟩

/-! ## Dispatch -/

theorem processJob_follows {reply : Reply} (w : Worker) (i : Nat) (hopen : (w.slot i).settled = false)
    (hrunning : w.running = true ∨ w.closing = true) : Follows (w.commandClient = false) reply w i (w.processJob i) := by
  unfold processJob
  split
  · rename_i hclient
    exact .leaves false (.inr (by simpa using hclient)) rfl
  split
  · exact (deferPausedActivation_proceeds w i false).follows hopen id
  split
  · exact (proceeds_await w i rfl).follows hopen id
  · rename_i hclosing hstopped
    -- Only a worker that is being closed has stopped.
    rcases hrunning with hrun | hclose
    · simp [hrun] at hstopped
    · simp [hclose] at hclosing

/-- A claim that is dispatched is lost only if the command client is gone. -/
def PollLoses (w : Worker) (n : Nat) : Prop := w.taken ≤ n ∧ w.commandClient = false

theorem dispatchJob_steps (hslots : w.Slots) (hfit : w.Fitting) (hrunning : w.running = true ∨ w.closing = true)
    (c : Claim) :
    Steps w.PollLoses w (w.dispatchJob c) ∧ (w.dispatchJob c).control = w.control ∧
      (w.dispatchJob c).activePromises.Sublist (w.activePromises ++ [w.dispatched]) ∧
      w.taken ≤ (w.dispatchJob c).taken := by
  have henter := hslots.enter c
  have hopen : ((w.enter c).slot w.dispatched).settled = false := by simp [enter]
  have hin : ((w.enter c).slot w.dispatched).await.isSome := by simp [enter]
  have hbut : (w.enter c).FittingBut w.dispatched := by
    intro j b hj hb
    simp only [enter, isListClaim, claimOf, Function.update_of_ne hj] at hb ⊢
    have hlt := hslots.known j (by simp [hb])
    rw [Function.update_of_ne (Nat.ne_of_lt hlt)]
    exact hfit j b hb
  have hf : Follows ((w.enter c).commandClient = false) .threw (w.enter c) w.dispatched (w.dispatchJob c) :=
    processJob_follows (w.enter c) w.dispatched hopen hrunning
  have hslots' := hf.slots henter hin
  have hentered : Accounts (fun _ => False) w (w.enter c) := .enter hslots c
  have haccounts := hentered.trans (hf.accounts henter hin) hslots'
  refine ⟨⟨hslots', hf.fitting henter hbut, haccounts.mono fun n hn => ?_⟩, hf.control_eq, hf.sublist, haccounts.taken⟩
  rcases hn with hfalse | ⟨hheld, hclient⟩
  · exact hfalse.elim
  · refine ⟨?_, hclient⟩
    have hclaim : ((w.enter c).slot w.dispatched).claim = n := hheld.2.2
    simp only [enter, Function.update_self] at hclaim
    exact Nat.le_of_eq hclaim

theorem dispatchAll_steps (claims : List Claim) (hslots : w.Slots) (hfit : w.Fitting)
    (hrunning : w.running = true ∨ w.closing = true) :
    Steps w.PollLoses w (w.dispatchAll claims) ∧ (w.dispatchAll claims).control = w.control ∧
      (w.dispatchAll claims).activePromises.length ≤ w.activePromises.length + claims.length := by
  induction claims generalizing w with
  | nil => exact ⟨.of_books hslots hfit rfl, rfl, Nat.le_refl _⟩
  | cons c claims ih =>
    obtain ⟨hstep, hcontrol, hsub, htaken⟩ := dispatchJob_steps hslots hfit hrunning c
    have hrunning' := running_of_fixed (fixed_of_control hcontrol) hrunning
    obtain ⟨hrest, hcontrol', hlength⟩ := ih hstep.slots hstep.fitting hrunning'
    have hclient := commandClient_of_control hcontrol
    have hrest' : Steps w.PollLoses (w.dispatchJob c) (w.dispatchAll (c :: claims)) :=
      ⟨hrest.slots, hrest.fitting, hrest.accounts.mono fun n hn =>
        ⟨Nat.le_trans htaken hn.1, hclient ▸ hn.2⟩⟩
    refine ⟨hstep.trans hrest', hcontrol'.trans hcontrol, ?_⟩
    have hle := hsub.length_le
    simp only [List.length_append, List.length_cons, List.length_nil] at hle ⊢
    change (w.dispatchJob c |>.dispatchAll claims).activePromises.length ≤ _
    omega

/-! ## The poll loop -/

/-- What the loop may ask for where it is. -/
def Room (w : Worker) : Loop → Prop
  | .countingSlots available => 1 ≤ available ∧ w.activePromises.length + available ≤ w.prefetch
  | .popping _ fetchCount popCount | .poppingPriority _ fetchCount popCount =>
    1 ≤ fetchCount ∧ w.activePromises.length + fetchCount ≤ w.prefetch ∧ popCount ≤ fetchCount
  | .poppingLifo _ fetchCount remaining jobIds =>
    1 ≤ fetchCount ∧ w.activePromises.length + fetchCount ≤ w.prefetch ∧ jobIds.length + remaining ≤ fetchCount
  | .reading fetchCount => 1 ≤ fetchCount ∧ w.activePromises.length + fetchCount ≤ w.prefetch
  | .inList _ fetchCount i rest =>
    rest = [] ∧ 1 ≤ fetchCount ∧ fetchCount ≤ w.prefetch ∧ ∀ j ∈ w.activePromises, j = i
  | .inStream i rest => rest = [] ∧ ∀ j ∈ w.activePromises, j = i
  | _ => True

theorem Room.of_sublist {l : Loop} (h : w.Room l) (hactive : w'.activePromises.Sublist w.activePromises)
    (hprefetch : w'.prefetch = w.prefetch) : w'.Room l := by
  have hle := hactive.length_le
  have hsub := hactive.subset
  cases l with
  | countingSlots | popping | poppingPriority | poppingLifo | reading | inList | inStream =>
    simp only [Room, hprefetch] at h ⊢
    grind
  | _ => trivial

/-- A step of the loop that dispatches nothing. -/
structure Idles (w w' : Worker) : Prop where
  books : w'.books = w.books
  fixed : w'.fixed = w.fixed
  room : w.Room w'.loop

theorem Idles.of_same {w₁ : Worker} (h : Idles w₁ w') (hbooks : w₁.books = w.books) (hfixed : w₁.fixed = w.fixed) :
    Idles w w' := by
  have hactive : w₁.activePromises = w.activePromises := congrArg (·.2.1) hbooks
  have hprefetch : w₁.prefetch = w.prefetch := congrArg (·.2.1) hfixed
  exact ⟨h.books.trans hbooks, h.fixed.trans hfixed,
    h.room.of_sublist (hactive ▸ List.Sublist.refl _) hprefetch.symm⟩

theorem idles_goTo {l : Loop} (h : w.Room l) : Idles w (w.goTo l) := ⟨rfl, rfl, h⟩

theorem noneInLists_idles (afterRead : Bool) (h : w.Room (.reading fetchCount)) :
    Idles w (w.noneInLists afterRead fetchCount) := by
  unfold noneInLists
  split
  · exact idles_goTo trivial
  · exact idles_goTo h

theorem tryPopFromLists_idles (afterRead : Bool) (h : w.Room (.reading fetchCount)) :
    Idles w (w.tryPopFromLists afterRead fetchCount) := by
  have hpop : (if w.concurrency = 1 then 1 else fetchCount) ≤ fetchCount := by
    split
    · exact h.1
    · exact Nat.le_refl _
  unfold tryPopFromLists
  split
  · exact noneInLists_idles afterRead h
  · simp only
    split <;> exact idles_goTo ⟨h.1, h.2, hpop⟩

theorem pollLists_idles (now : Int) (h : w.Room (.reading fetchCount)) : Idles w (w.pollLists now fetchCount) := by
  unfold pollLists
  split
  · exact idles_goTo trivial
  · simp only
    have hfresh : Idles { w with listsEmptyAt := 0 } (tryPopFromLists { w with listsEmptyAt := 0 } false fetchCount) :=
      tryPopFromLists_idles false h
    split
    · exact ⟨rfl, rfl, h⟩
    · exact hfresh.of_same rfl rfl

theorem pollSlots_idles (hcount : w.activeCount = w.activePromises.length) (now : Int) :
    Idles w (w.pollSlots now) := by
  unfold pollSlots
  split
  · exact idles_goTo trivial
  · simp only
    split
    · exact idles_goTo trivial
    · rename_i havailable
      have hroom : w.Room (.reading ((w.prefetch : Int) - w.activeCount).toNat) := by
        constructor <;> omega
      split
      · exact idles_goTo hroom
      · exact pollLists_idles now hroom

theorem pollOnce_idles (hcount : w.activeCount = w.activePromises.length) (now : Int) :
    Idles w (w.pollOnce now) := by
  unfold pollOnce
  split
  · exact idles_goTo trivial
  · split
    · exact idles_goTo trivial
    · exact pollSlots_idles hcount now

theorem Idles.promise (h : Idles w w') (pollLoopPromise : Bool) : Idles w { w' with pollLoopPromise } :=
  ⟨h.books, h.fixed, h.room⟩

theorem startLoop_idles (hcount : w.activeCount = w.activePromises.length) (now : Int) :
    Idles w (w.startLoop now) := by
  unfold startLoop
  split
  · exact (pollOnce_idles hcount now).promise true
  · exact ⟨rfl, rfl, trivial⟩

theorem turnLoop_idles (hcount : w.activeCount = w.activePromises.length) (now : Int) :
    Idles w (w.turnLoop now) := by
  unfold turnLoop
  split
  · exact pollOnce_idles hcount now
  · exact ⟨rfl, rfl, trivial⟩

theorem pollFailed_idles (w : Worker) : Idles w w.pollFailed := by
  unfold pollFailed
  split <;> exact idles_goTo trivial

theorem reconnect_idles (w : Worker) (byTimer : Bool) : Idles w (w.reconnect byTimer) := by
  unfold reconnect
  split <;> exact ⟨rfl, rfl, trivial⟩

end GlideMq.BaseWorker.Worker
