import Mathlib.Order.Bounds.Basic
import Mathlib.Tactic.Linarith

/-!
# Clocks that are set forward and back

A clock shows the time and an offset. It is steady if the offset jumps at most once in a window of
time, and not by far. Such a clock passes every reading: it shows it or jumps over it, and what it has
reached once it stays near.
-/

namespace Clocks

variable {off : Int → Int} {window jump : Int} {s t u m n : Int}

def clock (off : Int → Int) (t : Int) : Int := t + off t

structure Steady (off : Int → Int) (window jump : Int) : Prop where
  nonneg : 0 ≤ jump
  room : 2 * jump < window
  /-- There are at most two offsets in a window. -/
  between : ∀ x y m, x ≤ m → m ≤ y → y ≤ x + window → off m = off x ∨ off m = off y
  near : ∀ x y, x ≤ y → y ≤ x + window → off x ≤ off y + jump ∧ off y ≤ off x + jump

theorem clock_le (h : Steady off window jump) (hle : s ≤ t) : clock off s ≤ clock off t + jump := by
  have hroom := h.room
  have hnonneg := h.nonneg
  have hwithin (k : Nat) : ∀ s t, s ≤ t → t ≤ s + k * window →
      clock off s ≤ clock off t + jump := by
    induction k with
    | zero =>
      intro s t hst hts
      rw [show s = t by simp at hts; omega]
      omega
    | succ k ih =>
      intro s t hst hts
      by_cases hfar : t ≤ s + window
      · have := h.near s t hst hfar
        unfold clock
        omega
      · have hjump := h.near s (s + window) (by omega) le_rfl
        have hrest := ih (s + window) t (by omega) (by push_cast at hts; linarith)
        unfold clock at hrest ⊢
        omega
  refine hwithin (t - s).toNat s t hle ?_
  have hpos : (t - s) * 1 ≤ (t - s) * window := mul_le_mul_of_nonneg_left (by omega) (by omega)
  rw [Int.toNat_of_nonneg (by omega)]
  linarith

theorem drop (h : Steady off window jump) (hlt : s < t) (hle : clock off t ≤ clock off s) :
    t - s ≤ off s - off t ∧ off s - off t ≤ jump := by
  have hroom := h.room
  have hnonneg := h.nonneg
  by_cases hfar : t ≤ s + window
  · have := h.near s t hlt.le hfar
    unfold clock at hle
    omega
  · have hjump := h.near s (s + window) (by omega) le_rfl
    have hrest := clock_le h (show s + window ≤ t by omega)
    unfold clock at hle hrest
    omega

theorem shown_before (h : Steady off window jump) (hlt : s < t)
    (hle : clock off t ≤ clock off s) :
    ∃ u ≤ s, clock off u = clock off t ∧ off u = off s ∧ t - u = off s - off t := by
  have hroom := h.room
  have hdrop := drop h hlt hle
  refine ⟨clock off t - off s, by unfold clock at *; omega, ?_⟩
  have hbetween := h.between (clock off t - off s) t s (by unfold clock at *; omega) hlt.le
    (by unfold clock; omega)
  have hsame : off (clock off t - off s) = off s := by
    rcases hbetween with heq | heq
    · exact heq.symm
    · omega
  refine ⟨?_, hsame, by unfold clock; omega⟩
  have hsum : clock off (clock off t - off s) = clock off t - off s + off (clock off t - off s) := rfl
  rw [hsum, hsame]
  omega

/-- The clock jumps over the reading. -/
def EndsGap (off : Int → Int) (n t : Int) : Prop := clock off (t - 1) < n ∧ n < clock off t

/-- The first instant with the reading, or the end of the gap that it is in. -/
def Fires (off : Int → Int) (n t : Int) : Prop :=
  IsLeast {t | clock off t = n} t ∨ (∀ s, clock off s ≠ n) ∧ EndsGap off n t

theorem clock_lt_of_shown (h : Steady off window jump) (ht : IsLeast {t | clock off t = n} t)
    (hlt : s < t) : clock off s < n := by
  by_contra hle
  have hclock : clock off t = n := ht.1
  obtain ⟨u, hu, heq, -⟩ := shown_before h hlt (by omega)
  have := ht.2 (heq.trans hclock)
  omega

theorem clock_lt_of_gap (h : Steady off window jump) (ht : EndsGap off n t) (hlt : s < t) :
    clock off s < n := by
  obtain ⟨hbefore, hafter⟩ := ht
  have hroom := h.room
  by_contra hle
  have hs : s < t - 1 := by
    by_contra hge
    rw [show s = t - 1 by omega] at hle
    omega
  have hdrop := drop h hs (by omega)
  rcases h.between s t (t - 1) hs.le (by omega) (by omega) with heq | heq
  · omega
  · unfold clock at hbefore hafter
    omega

/-- It fires when the clock gets there for the first time. -/
theorem Fires.isLeast (h : Steady off window jump) (ht : Fires off n t) :
    IsLeast {t | n ≤ clock off t} t := by
  rcases ht with ht | ⟨-, ht⟩
  · refine ⟨le_of_eq ht.1.symm, ?_⟩
    intro s hs
    by_contra hlt
    exact absurd (clock_lt_of_shown h ht (not_le.mp hlt)) (not_lt.mpr hs)
  · refine ⟨ht.2.le, ?_⟩
    intro s hs
    by_contra hlt
    exact absurd (clock_lt_of_gap h ht (not_le.mp hlt)) (not_lt.mpr hs)

theorem Fires.unique (h : Steady off window jump) (hs : Fires off n s) (ht : Fires off n t) :
    s = t := (hs.isLeast h).unique (ht.isLeast h)

theorem Fires.mono (h : Steady off window jump) (hs : Fires off m s) (ht : Fires off n t)
    (hle : m ≤ n) : s ≤ t := (hs.isLeast h).2 (hle.trans (ht.isLeast h).1)

end Clocks
