import Mathlib.Data.List.Basic
import Mathlib.Order.Lattice

/-!
# Fixed windows

A counter of what starts in the current window of time. A new window opens with the first start
after the old one is over. The log has who started and when, the latest first, without the starts
that were given back.
-/

namespace FixedWindow

structure Window where
  start : Int
  count : Int
  deriving DecidableEq

section

variable {κ : Type*}

/-- How many starts of the log fall into the window that opens at `start`. -/
def held (span start : Int) (log : List (κ × Int)) : Nat :=
  log.countP fun a => start ≤ a.2 ∧ a.2 < start + span

/-- The window after a start. -/
def Window.enter (span : Int) (w : Window) (now : Int) : Window :=
  if span ≤ now - w.start then ⟨now, 1⟩ else { w with count := w.count + 1 }

def Window.release (w : Window) : Window := if 0 < w.count then { w with count := w.count - 1 } else w

/-- The counter is right about the current window, and nothing has started after it. -/
structure Ok (limit span : Int) (w : Window) (log : List (κ × Int)) : Prop where
  counted : held span w.start log ≤ w.count
  le_limit : w.count ≤ limit
  before : ∀ a ∈ log, a.2 < w.start + span

/-- The window that opened at `start` is the current one, or it was within the limit when it closed. -/
inductive Kept (limit span start now : Int) (w : Window) (log : List (κ × Int)) : Prop
  | current (h : w.start = start)
  | closed (hend : start + span ≤ now) (hheld : held span start log ≤ limit)

variable {limit span start now x : Int} {w : Window} {log : List (κ × Int)} {k : κ}

theorem held_cons_of_not (h : ¬ (start ≤ now ∧ now < start + span)) :
    held span start ((k, now) :: log) = held span start log := by
  unfold held
  rw [List.countP_cons_of_neg]
  simpa using h

theorem held_cons_le : held span start ((k, now) :: log) ≤ held span start log + 1 := by
  unfold held
  rw [List.countP_cons]
  split <;> omega

theorem ok_nil (hlimit : 0 ≤ limit) (start : Int) : Ok limit span ⟨start, 0⟩ ([] : List (κ × Int)) :=
  ⟨le_rfl, hlimit, by simp⟩

theorem Ok.enter (h : Ok limit span w log) (hspan : 0 < span) (hlimit : 0 < limit)
    (hopen : span ≤ now - w.start ∨ w.count < limit) :
    Ok limit span (w.enter span now) ((k, now) :: log) := by
  have hcounted := h.counted
  have hle := h.le_limit
  unfold Window.enter
  split
  · -- a new window: all earlier starts were in older ones
    rename_i hover
    have hnone : held span now log = 0 := by
      unfold held
      rw [List.countP_eq_zero]
      intro a ha
      have := h.before a ha
      simp
      omega
    have hone : held span now ((k, now) :: log) ≤ held span now log + 1 := held_cons_le
    refine ⟨by dsimp only; omega, by dsimp only; omega, ?_⟩
    intro a ha
    dsimp only
    rcases List.mem_cons.mp ha with rfl | ha
    · dsimp only
      omega
    · have := h.before a ha
      omega
  · rename_i hin
    have hone : held span w.start ((k, now) :: log) ≤ held span w.start log + 1 := held_cons_le
    refine ⟨by dsimp only; omega, by dsimp only; omega, ?_⟩
    intro a ha
    rcases List.mem_cons.mp ha with rfl | ha
    · dsimp only
      omega
    · exact h.before a ha

theorem Kept.bound (h : Kept limit span start now w log) (hok : Ok limit span w log) :
    held span start log ≤ limit := by
  cases h with
  | current h => exact h ▸ hok.counted.trans hok.le_limit
  | closed hend hheld => exact hheld

theorem Kept.later (h : Kept limit span start now w log) (hx : now ≤ x) :
    Kept limit span start x w log := by
  cases h with
  | current h => exact .current h
  | closed hend hheld => exact .closed (hend.trans hx) hheld

theorem Kept.enter (h : Kept limit span start now w log) (hok : Ok limit span w log) (hx : now ≤ x) :
    Kept limit span start x (w.enter span x) ((k, x) :: log) := by
  have hbound := h.bound hok
  cases h with
  | current h =>
    by_cases hover : span ≤ x - w.start
    · refine .closed (by omega) ?_
      rwa [held_cons_of_not (by omega)]
    · refine .current ?_
      unfold Window.enter
      rwa [if_neg hover]
  | closed hend hheld =>
    refine .closed (by omega) ?_
    rwa [held_cons_of_not (by omega)]

/-! ## Any stretch of time -/

theorem held_eq_zero (h : ∀ a ∈ log, a.2 < start) : held span start log = 0 := by
  unfold held
  rw [List.countP_eq_zero]
  intro a ha
  have hbefore := h a ha
  simp
  omega

/-- Where nothing is given back and time does not run backwards, the counter is exact. -/
theorem Ok.held_enter (h : Ok limit span w log) (hspan : 0 < span) (hstart : w.start ≤ now)
    (hexact : held span w.start log = w.count) :
    held span (w.enter span now).start ((k, now) :: log) = (w.enter span now).count := by
  unfold Window.enter
  split
  · rename_i hover
    have hnone : held span now log = 0 := by
      apply held_eq_zero
      intro a ha
      have hbefore := h.before a ha
      omega
    unfold held at *
    dsimp only
    rw [List.countP_cons_of_pos (by simp; omega), hnone]
    rfl
  · rename_i hin
    unfold held at *
    dsimp only
    rw [List.countP_cons_of_pos (by simp; omega)]
    omega

/-- A stretch as long as a window holds starts of the current window alone, or of the one before it
too, or it is over. -/
inductive Stretch (limit span start now : Int) (w : Window) (log : List (κ × Int)) : Prop
  | first (hheld : held span start log ≤ w.count)
  | second (hstart : start ≤ w.start) (hheld : held span start log ≤ limit + w.count)
  | ended (hend : start + span ≤ now) (hheld : held span start log ≤ 2 * limit)

theorem Stretch.bound (h : Stretch limit span start now w log) (hok : Ok limit span w log) :
    held span start log ≤ 2 * limit := by
  have hcounted := hok.counted
  have hle := hok.le_limit
  cases h with
  | first hheld => omega
  | second _ hheld => omega
  | ended _ hheld => exact hheld

theorem Stretch.later (h : Stretch limit span start now w log) (hx : now ≤ x) :
    Stretch limit span start x w log := by
  cases h with
  | first hheld => exact .first hheld
  | second hstart hheld => exact .second hstart hheld
  | ended hend hheld => exact .ended (hend.trans hx) hheld

theorem Stretch.enter (h : Stretch limit span start now w log) (hok : Ok limit span w log)
    (hx : now ≤ x) (hpast : ∀ a ∈ log, a.2 ≤ now) :
    Stretch limit span start x (w.enter span x) ((k, x) :: log) := by
  have hone : held span start ((k, x) :: log) ≤ held span start log + 1 := held_cons_le
  have hbound := h.bound hok
  have hle := hok.le_limit
  by_cases hend : start + span ≤ x
  · refine .ended hend ?_
    rwa [held_cons_of_not (by omega)]
  unfold Window.enter
  split
  · rename_i hover
    cases h with
    | first hheld =>
      by_cases hbefore : x < start
      · -- the stretch has not begun
        refine .first ?_
        rw [held_cons_of_not (by omega), held_eq_zero fun a ha => by have := hpast a ha; omega]
        exact Int.one_nonneg
      · refine .second (by dsimp only; omega) ?_
        dsimp only
        omega
    | second hstart _ => omega
    | ended hover' _ => omega
  · cases h with
    | first hheld => exact .first (by dsimp only; omega)
    | second hstart hheld => exact .second hstart (by dsimp only; omega)
    | ended hover' _ => omega

/-! ## Giving back -/

variable [DecidableEq κ]

/-- The log without the last start of `k`. -/
def forget (log : List (κ × Int)) (k : κ) : List (κ × Int) := log.eraseP (·.1 = k)

theorem held_forget_le : held span start (forget log k) ≤ held span start log :=
  List.Sublist.countP_le List.eraseP_sublist

theorem held_forget (hlast : log.find? (·.1 = k) = some (k, now)) (hstart : start ≤ now)
    (hend : now < start + span) : held span start (forget log k) + 1 = held span start log := by
  induction log with
  | nil => cases hlast
  | cons a log ih =>
    unfold forget held at *
    by_cases ha : a.1 = k
    · rw [List.find?_cons_of_pos (by simpa using ha)] at hlast
      obtain rfl := Option.some.inj hlast
      rw [List.eraseP_cons_of_pos (by simp), List.countP_cons_of_pos (by simp [hstart, hend])]
    · rw [List.find?_cons_of_neg (by simpa using ha)] at hlast
      rw [List.eraseP_cons_of_neg (by simpa using ha), List.countP_cons, List.countP_cons]
      have := ih hlast
      omega

theorem find_forget_of_ne {j : κ} (hne : j ≠ k) :
    (forget log k).find? (·.1 = j) = log.find? (·.1 = j) := by
  unfold forget
  induction log with
  | nil => rfl
  | cons a log ih =>
    by_cases ha : a.1 = k
    · rw [List.eraseP_cons_of_pos (by simpa using ha), List.find?_cons_of_neg]
      rw [ha]
      simpa using Ne.symm hne
    · rw [List.eraseP_cons_of_neg (by simpa using ha), List.find?_cons, List.find?_cons, ih]

theorem Ok.release (h : Ok limit span w log)
    (hlast : w.count ≤ 0 ∨ ∃ x, log.find? (·.1 = k) = some (k, x) ∧ w.start ≤ x) :
    Ok limit span w.release (forget log k) := by
  have hcounted := h.counted
  have hle := h.le_limit
  have hbefore : ∀ a ∈ forget log k, a.2 < w.start + span :=
    fun a ha => h.before a (List.mem_of_mem_eraseP ha)
  have hfewer : held span w.start (forget log k) ≤ held span w.start log := held_forget_le
  unfold Window.release
  split
  · rename_i hpos
    rcases hlast with hzero | ⟨x, hfind, hx⟩
    · omega
    · have hone := held_forget hfind hx (h.before _ (List.mem_of_find?_eq_some hfind))
      exact ⟨by dsimp only; omega, by dsimp only; omega, hbefore⟩
  · exact ⟨by omega, hle, hbefore⟩

theorem Kept.release (h : Kept limit span start now w log) :
    Kept limit span start now w.release (forget log k) := by
  cases h with
  | current h =>
    refine .current ?_
    unfold Window.release
    split <;> exact h
  | closed hend hheld =>
    have hfewer : held span start (forget log k) ≤ held span start log := held_forget_le
    exact .closed hend (by omega)

end

end FixedWindow
