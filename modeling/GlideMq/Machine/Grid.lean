import Mathlib.Data.Int.ModEq
import Mathlib.Order.Bounds.Basic
import Mathlib.Tactic.Linarith
import Mathlib.Tactic.Ring

/-!
# Points of a grid

The times at a fixed distance from each other, in phase with an anchor.
-/

namespace Grid

variable {step anchor x p : Int}

theorem modEq_iff : x ≡ anchor [ZMOD step] ↔ ∃ k, x = anchor + k * step := by
  rw [Int.modEq_comm, Int.modEq_iff_dvd]
  constructor
  · rintro ⟨k, hk⟩
    exact ⟨k, by linarith [mul_comm step k]⟩
  · rintro ⟨k, rfl⟩
    exact ⟨k, by ring⟩

theorem modEq_add_mul (k : Int) : p + k * step ≡ p [ZMOD step] := modEq_iff.mpr ⟨k, rfl⟩

/-- The first point after `x`. -/
def after (step p x : Int) : Int := p + ((x - p) / step + 1) * step

/-- The first point at or after `x`. -/
def atOrAfter (step p x : Int) : Int := p + -(-(x - p) / step) * step

theorem isLeast_after (hstep : 0 < step) :
    IsLeast {t | t ≡ p [ZMOD step] ∧ x < t} (after step p x) := by
  have hfloor := Int.ediv_mul_le (x - p) hstep.ne'
  have hover := Int.lt_ediv_add_one_mul_self (x - p) hstep
  refine ⟨⟨modEq_add_mul _, ?_⟩, ?_⟩
  · unfold after
    linarith
  · rintro t ⟨ht, hlt⟩
    obtain ⟨k, rfl⟩ := modEq_iff.mp ht
    have hk : (x - p) / step < k := Int.ediv_lt_of_lt_mul hstep (by linarith)
    have hmul : ((x - p) / step + 1) * step ≤ k * step := mul_le_mul_of_nonneg_right hk hstep.le
    unfold after
    linarith

theorem isLeast_atOrAfter (hstep : 0 < step) :
    IsLeast {t | t ≡ p [ZMOD step] ∧ x ≤ t} (atOrAfter step p x) := by
  have hfloor := Int.ediv_mul_le (-(x - p)) hstep.ne'
  refine ⟨⟨modEq_add_mul _, ?_⟩, ?_⟩
  · unfold atOrAfter
    linarith [neg_mul (-(x - p) / step) step]
  · rintro t ⟨ht, hle⟩
    obtain ⟨k, rfl⟩ := modEq_iff.mp ht
    have hk : -k ≤ -(x - p) / step := (Int.le_ediv_iff_mul_le hstep).mpr (by linarith [neg_mul k step])
    have hmul : -(-(x - p) / step) * step ≤ k * step :=
      mul_le_mul_of_nonneg_right (by omega) hstep.le
    unfold atOrAfter
    linarith

theorem modEq_iff_of_modEq (h : p ≡ anchor [ZMOD step]) : x ≡ p [ZMOD step] ↔ x ≡ anchor [ZMOD step] :=
  ⟨fun hx => hx.trans h, fun hx => hx.trans h.symm⟩

end Grid
