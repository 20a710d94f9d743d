import GlideMq.Lua.Number
import Mathlib.Algebra.Order.Field.Power
import Mathlib.Data.Int.Log
import Mathlib.Data.Rat.Floor
import Mathlib.Tactic.FieldSimp
import Mathlib.Tactic.Linarith
import Mathlib.Tactic.NormNum
import Mathlib.Tactic.Positivity
import Mathlib.Tactic.Ring

/-!
# Doubles

A double is a rational number with 53 bits. Sums and texts of numbers are rounded to the nearest
double, ties to even. Nothing here comes near to the largest double.
-/

namespace Lua

/-- The nearest integer, ties to even. -/
def roundEven (q : ℚ) : ℤ :=
  if q - ⌊q⌋ < 1 / 2 ∨ (q - ⌊q⌋ = 1 / 2 ∧ ⌊q⌋ % 2 = 0) then ⌊q⌋ else ⌊q⌋ + 1

/-- The exponent of the last of the 53 bits. -/
def lastBit (q : ℚ) : ℤ := max (Int.log 2 |q| - 52) (-1074)

/-- The double nearest to `q`. -/
def nearest (q : ℚ) : ℚ := roundEven (q / 2 ^ lastBit q) * 2 ^ lastBit q

/-! ## Rounding twice -/

theorem roundEven_int (n : ℤ) : roundEven n = n := by
  simp [roundEven]

theorem abs_roundEven_le {q : ℚ} {n : ℕ} (h : |q| < n) : |roundEven q| ≤ n := by
  have hfloor := Int.floor_le q
  have hlt := Int.lt_floor_add_one q
  obtain ⟨hlow, hhigh⟩ := abs_lt.mp h
  have hlow' : (-n : ℤ) ≤ ⌊q⌋ := by
    apply Int.le_floor.mpr
    push_cast
    exact hlow.le
  have hhigh' : ⌊q⌋ + 1 ≤ (n : ℤ) := by
    have hcast : ((⌊q⌋ : ℤ) : ℚ) < ((n : ℤ) : ℚ) := by
      push_cast
      exact lt_of_le_of_lt hfloor hhigh
    exact Int.cast_lt.mp hcast
  unfold roundEven
  split <;> exact abs_le.mpr ⟨by omega, by omega⟩

theorem nearest_of_int {q : ℚ} {n : ℤ} (h : q = n * 2 ^ lastBit q) : nearest q = q := by
  have hpos : (2 : ℚ) ^ lastBit q ≠ 0 := by positivity
  have hquotient : q / 2 ^ lastBit q = n := by
    rw [div_eq_iff hpos]
    exact h
  unfold nearest
  rw [hquotient, roundEven_int]
  exact h.symm

/-- A number whose bits reach no further than `2 ^ e` is a double. -/
theorem nearest_of_le {q : ℚ} {n e : ℤ} (h : q = n * 2 ^ e) (he : lastBit q ≤ e) : nearest q = q := by
  obtain ⟨k, hk⟩ := Int.le.dest he
  apply nearest_of_int (n := n * 2 ^ k)
  have hpow : (2 : ℚ) ^ e = 2 ^ k * 2 ^ lastBit q := by
    rw [← hk, zpow_add₀ (by norm_num), zpow_natCast, mul_comm]
  push_cast
  rw [mul_assoc, ← hpow]
  exact h

theorem abs_lt_lastBit (q : ℚ) : |q| < 2 ^ (lastBit q + 53) := by
  have hlog := Int.lt_zpow_succ_log_self (b := 2) (by omega) |q|
  push_cast at hlog
  refine lt_of_lt_of_le hlog (zpow_le_zpow_right₀ (by norm_num) ?_)
  unfold lastBit
  omega

theorem lastBit_le {q : ℚ} {e : ℤ} (hq : q ≠ 0) (he : -1074 ≤ e) (h : |q| < 2 ^ (e + 53)) : lastBit q ≤ e := by
  have hlog : Int.log 2 |q| < e + 53 := (Int.lt_zpow_iff_log_lt (by omega) (abs_pos.mpr hq)).mp (by exact_mod_cast h)
  unfold lastBit
  omega

theorem nearest_nearest (q : ℚ) : nearest (nearest q) = nearest q := by
  have hbound : |roundEven (q / 2 ^ lastBit q)| ≤ (2 ^ 53 : ℕ) := by
    apply abs_roundEven_le
    have hpos : (0 : ℚ) < 2 ^ lastBit q := by positivity
    rw [abs_div, abs_of_pos hpos, div_lt_iff₀ hpos]
    have h := abs_lt_lastBit q
    rw [zpow_add₀ (by norm_num)] at h
    push_cast
    linarith
  have he : -1074 ≤ lastBit q := le_max_right _ _
  change nearest (roundEven (q / 2 ^ lastBit q) * 2 ^ lastBit q) = roundEven (q / 2 ^ lastBit q) * 2 ^ lastBit q
  generalize roundEven (q / 2 ^ lastBit q) = m at hbound
  generalize lastBit q = e at he
  rcases eq_or_ne m 0 with rfl | hm
  · apply nearest_of_int (n := 0)
    simp
  have hx : (m * 2 ^ e : ℚ) ≠ 0 := by positivity
  have habs : |(m * 2 ^ e : ℚ)| = |m| * 2 ^ e := by
    rw [abs_mul, abs_of_pos (show (0 : ℚ) < 2 ^ e by positivity), Int.cast_abs]
  have hpos : (0 : ℚ) < 2 ^ e := by positivity
  rcases lt_or_eq_of_le hbound with hlt | heq
  · apply nearest_of_le rfl
    apply lastBit_le hx he
    have hcast : ((|m| : ℤ) : ℚ) < 2 ^ 53 := by exact_mod_cast hlt
    rw [habs, zpow_add₀ (by norm_num), mul_comm]
    exact mul_lt_mul_of_pos_left hcast hpos
  · -- `m` is one bit longer, and its last bit is 0.
    have hcast : ((|m| : ℤ) : ℚ) = 2 ^ 53 := by exact_mod_cast heq
    have heven : m = m / 2 * 2 := by
      rcases abs_eq (by positivity) |>.mp heq with h | h <;> rw [h] <;> norm_num
    have hhalf : (m * 2 ^ e : ℚ) = (m / 2 : ℤ) * 2 ^ (e + 1) := by
      rw [zpow_add₀ (by norm_num), zpow_one]
      nth_rewrite 1 [heven]
      push_cast
      ring
    apply nearest_of_le hhalf
    apply lastBit_le hx (by omega)
    have hnext : (2 : ℚ) ^ (e + 1 + 53) = 2 ^ e * 2 ^ 53 * 2 := by
      rw [show e + 1 + 53 = e + 54 by ring, zpow_add₀ (by norm_num)]
      norm_num
      ring
    rw [habs, hcast, hnext]
    nlinarith [hpos]

/-! ## Natural numbers -/

theorem roundEven_div (n e : ℕ) : roundEven ((n : ℚ) / 2 ^ (e + 1)) =
    if 2 ^ e < n % 2 ^ (e + 1) ∨ (n % 2 ^ (e + 1) = 2 ^ e ∧ n / 2 ^ (e + 1) % 2 = 1) then
      ((n / 2 ^ (e + 1) + 1 : ℕ) : ℤ)
    else ((n / 2 ^ (e + 1) : ℕ) : ℤ) := by
  have hfloor : ⌊(n : ℚ) / 2 ^ (e + 1)⌋ = ((n / 2 ^ (e + 1) : ℕ) : ℤ) := by
    have h := Rat.floor_natCast_div_natCast n (2 ^ (e + 1))
    push_cast at h ⊢
    exact h
  have hpos : (0 : ℚ) < 2 ^ e := by positivity
  have hpow : (2 : ℚ) ^ (e + 1) = 2 ^ e * 2 := pow_succ 2 e
  have hsplit : (n : ℚ) = 2 ^ (e + 1) * (n / 2 ^ (e + 1) : ℕ) + (n % 2 ^ (e + 1) : ℕ) := by
    exact_mod_cast (Nat.div_add_mod n (2 ^ (e + 1))).symm
  have hfract : (n : ℚ) / 2 ^ (e + 1) - ((n / 2 ^ (e + 1) : ℕ) : ℤ) = (n % 2 ^ (e + 1) : ℕ) / (2 ^ e * 2) := by
    rw [Int.cast_natCast, eq_div_iff (by positivity), sub_mul, ← hpow, div_mul_cancel₀ _ (by positivity)]
    linarith
  have hlt : ((n % 2 ^ (e + 1) : ℕ) : ℚ) / (2 ^ e * 2) < 1 / 2 ↔ n % 2 ^ (e + 1) < 2 ^ e := by
    rw [div_lt_div_iff₀ (by positivity) (by norm_num)]
    constructor
    · intro h
      exact_mod_cast (show ((n % 2 ^ (e + 1) : ℕ) : ℚ) < 2 ^ e by linarith)
    · intro h
      have hcast : ((n % 2 ^ (e + 1) : ℕ) : ℚ) < 2 ^ e := by exact_mod_cast h
      linarith
  have heq : ((n % 2 ^ (e + 1) : ℕ) : ℚ) / (2 ^ e * 2) = 1 / 2 ↔ n % 2 ^ (e + 1) = 2 ^ e := by
    rw [div_eq_div_iff (by positivity) (by norm_num)]
    constructor
    · intro h
      exact_mod_cast (show ((n % 2 ^ (e + 1) : ℕ) : ℚ) = 2 ^ e by linarith)
    · intro h
      have hcast : ((n % 2 ^ (e + 1) : ℕ) : ℚ) = 2 ^ e := by exact_mod_cast h
      linarith
  unfold roundEven
  simp only [hfloor, hfract, hlt, heq]
  generalize n % 2 ^ (e + 1) = r
  generalize n / 2 ^ (e + 1) = q
  generalize 2 ^ e = half
  split_ifs <;> omega

theorem nearest_natCast (n : ℕ) : nearest n = toDouble n := by
  unfold toDouble
  split
  · rename_i h
    apply nearest_of_le (n := n) (e := 0) (by simp)
    rcases eq_or_ne n 0 with rfl | hn
    · simp [lastBit]
    · apply lastBit_le (by exact_mod_cast hn) (by omega)
      rw [Nat.abs_cast, zero_add]
      exact_mod_cast h
  · rename_i h
    obtain ⟨e, he⟩ : ∃ e, Nat.log2 n - 52 = e + 1 := by
      have hlog : 53 ≤ Nat.log2 n := (Nat.le_log2 (by omega)).mpr (by omega)
      exact ⟨Nat.log2 n - 53, by omega⟩
    have hbit : lastBit n = (e + 1 : ℕ) := by
      unfold lastBit
      rw [Nat.abs_cast, Int.log_natCast, ← Nat.log2_eq_log_two]
      omega
    unfold nearest
    rw [hbit, zpow_natCast, roundEven_div]
    simp only [he, Nat.add_sub_cancel]
    generalize n / 2 ^ (e + 1) = q
    generalize n % 2 ^ (e + 1) = r
    split_ifs <;> push_cast <;> ring

/-! ## Whole numbers -/

/-- The double nearest to a whole number. -/
def nearestInt (n : ℤ) : ℤ := ⌊nearest n⌋

theorem nearest_of_abs_lt {n : ℤ} (h : |n| < 2 ^ 53) : nearest n = n := by
  apply nearest_of_le (n := n) (e := 0) (by simp)
  rcases eq_or_ne n 0 with rfl | hn
  · simp [lastBit]
  · apply lastBit_le (by exact_mod_cast hn) (by omega)
    rw [zero_add, ← Int.cast_abs]
    exact_mod_cast h

theorem nearestInt_cast (n : ℤ) : (nearestInt n : ℚ) = nearest n := by
  by_cases h : |n| < 2 ^ 53
  · unfold nearestInt
    rw [nearest_of_abs_lt h, Int.floor_intCast]
  · have hbit : 0 ≤ lastBit n := by
      by_contra hneg
      have hlt := abs_lt_lastBit (n : ℚ)
      have hle : (2 : ℚ) ^ (lastBit n + 53) ≤ 2 ^ (53 : ℤ) := zpow_le_zpow_right₀ (by norm_num) (by omega)
      rw [← Int.cast_abs] at hlt
      exact h (by exact_mod_cast hlt.trans_le hle)
    obtain ⟨k, hk⟩ := Int.eq_ofNat_of_zero_le hbit
    have hwhole : nearest n = (roundEven ((n : ℚ) / 2 ^ lastBit n) * 2 ^ k : ℤ) := by
      unfold nearest
      rw [hk, zpow_natCast]
      push_cast
      rfl
    unfold nearestInt
    rw [hwhole, Int.floor_intCast]

theorem nearestInt_of_abs_lt {n : ℤ} (h : |n| < 2 ^ 53) : nearestInt n = n := by
  have hcast := nearestInt_cast n
  rw [nearest_of_abs_lt h] at hcast
  exact_mod_cast hcast

/-! ## Quotients of whole numbers -/

theorem abs_roundEven_sub_le (q : ℚ) : |roundEven q - q| ≤ 1 / 2 := by
  have hfloor := Int.floor_le q
  have hlt := Int.lt_floor_add_one q
  unfold roundEven
  split
  · rename_i h
    rw [abs_le]
    constructor
    · rcases h with h | ⟨h, -⟩ <;> linarith
    · linarith
  · rename_i h
    rw [not_or, not_lt] at h
    push_cast
    rw [abs_le]
    constructor <;> linarith [h.1]

theorem abs_nearest_sub_le (q : ℚ) : |nearest q - q| ≤ 2 ^ lastBit q / 2 := by
  have hpos : (0 : ℚ) < 2 ^ lastBit q := by positivity
  have hround := abs_roundEven_sub_le (q / 2 ^ lastBit q)
  have hscale : nearest q - q = (roundEven (q / 2 ^ lastBit q) - q / 2 ^ lastBit q) * 2 ^ lastBit q := by
    unfold nearest
    rw [sub_mul, div_mul_cancel₀ _ hpos.ne']
  rw [hscale, abs_mul, abs_of_pos hpos]
  have hmul := mul_le_mul_of_nonneg_right hround hpos.le
  linarith

/-- The quotient of two whole numbers of 53 bits is rounded by less than its distance to the next whole
number. -/
theorem abs_nearest_div_sub_lt {a b : ℤ} (ha : 0 < a) (halt : a < 2 ^ 53) (hb : 0 < b) (hble : b ≤ 2 ^ 53) :
    |nearest (a / b) - a / b| < 1 / b := by
  have hbpos : (0 : ℚ) < b := by exact_mod_cast hb
  have hapos : (0 : ℚ) < a := by exact_mod_cast ha
  have hq : (0 : ℚ) < a / b := by positivity
  have hlog : -53 ≤ Int.log 2 |(a / b : ℚ)| := by
    apply (Int.zpow_le_iff_le_log (by omega) (abs_pos.mpr hq.ne')).mp
    rw [abs_of_pos hq, le_div_iff₀ hbpos]
    have hone : (1 : ℚ) ≤ a := by exact_mod_cast ha
    have hcast : (b : ℚ) ≤ 2 ^ 53 := by exact_mod_cast hble
    calc ((2 : ℕ) : ℚ) ^ (-53 : ℤ) * b ≤ ((2 : ℕ) : ℚ) ^ (-53 : ℤ) * 2 ^ 53 :=
          mul_le_mul_of_nonneg_left hcast (by positivity)
      _ = 1 := by norm_num
      _ ≤ a := hone
  have hbit : lastBit (a / b : ℚ) = Int.log 2 |(a / b : ℚ)| - 52 := by
    unfold lastBit
    omega
  have hpow : (2 : ℚ) ^ lastBit (a / b : ℚ) * 2 ^ 52 ≤ a / b := by
    have hle := Int.zpow_log_le_self (b := 2) (by omega) hq
    rw [abs_of_pos hq] at hbit
    rw [hbit, ← zpow_natCast (2 : ℚ) 52, ← zpow_add₀ (by norm_num)]
    simpa using hle
  have hsmall : (a / b : ℚ) < 2 ^ 53 * (1 / b) := by
    rw [mul_one_div]
    gcongr
    exact_mod_cast halt
  have herror := abs_nearest_sub_le (a / b : ℚ)
  linarith

theorem nearest_div_of_dvd {a b k : ℤ} (ha : 0 ≤ a) (halt : a < 2 ^ 53) (hb : 0 < b) (h : a = b * k) :
    nearest (a / b) = k := by
  have hquotient : (a / b : ℚ) = k := by
    rw [div_eq_iff (by exact_mod_cast hb.ne'), h]
    push_cast
    ring
  have hk : 0 ≤ k := nonneg_of_mul_nonneg_right (h ▸ ha) hb
  have hle : k ≤ a := by
    rw [h]
    exact le_mul_of_one_le_left hk hb
  rw [hquotient]
  apply nearest_of_abs_lt
  rw [abs_of_nonneg hk]
  exact hle.trans_lt halt

theorem nearest_div_between {a b k r : ℤ} (ha : 0 ≤ a) (halt : a < 2 ^ 53) (hble : b ≤ 2 ^ 53) (h : a = b * k + r)
    (hr : 0 < r) (hrb : r < b) : (k : ℚ) < nearest (a / b) ∧ nearest (a / b) < k + 1 := by
  have hb : 0 < b := hr.trans hrb
  have hbpos : (0 : ℚ) < b := by exact_mod_cast hb
  have hk : 0 ≤ k := by
    by_contra hneg
    nlinarith
  have hapos : 0 < a := by
    rw [h]
    positivity
  obtain ⟨hlow, hhigh⟩ := abs_lt.mp (abs_nearest_div_sub_lt hapos halt hb hble)
  have hquotient : (a / b : ℚ) = k + r / b := by
    rw [h]
    push_cast
    field_simp
  have hone : (1 / b : ℚ) ≤ r / b := by
    gcongr
    exact_mod_cast hr
  have hrest : (r / b : ℚ) + 1 / b ≤ 1 := by
    rw [← add_div, div_le_one hbpos]
    exact_mod_cast hrb
  constructor <;> linarith

theorem floor_nearest_div {a b : ℤ} (ha : 0 ≤ a) (halt : a < 2 ^ 53) (hb : 0 < b) (hble : b ≤ 2 ^ 53) :
    ⌊nearest (a / b)⌋ = a / b := by
  have hdiv := (Int.mul_ediv_add_emod a b).symm
  rcases (Int.emod_nonneg a hb.ne').eq_or_lt with hr | hr
  · rw [nearest_div_of_dvd ha halt hb (by rwa [← hr, add_zero] at hdiv), Int.floor_intCast]
  · obtain ⟨hlow, hhigh⟩ := nearest_div_between ha halt hble hdiv hr (Int.emod_lt_of_pos a hb)
    exact Int.floor_eq_iff.mpr ⟨hlow.le, hhigh⟩

theorem ceil_nearest_div {a b : ℤ} (ha : 0 ≤ a) (halt : a < 2 ^ 53) (hb : 0 < b) (hble : b ≤ 2 ^ 53) :
    ⌈nearest (a / b)⌉ = -(-a / b) := by
  have hdiv := (Int.mul_ediv_add_emod (-a) b).symm
  rcases (Int.emod_nonneg (-a) hb.ne').eq_or_lt with hr | hr
  · rw [@nearest_div_of_dvd _ _ (-(-a / b)) ha halt hb (by linarith), Int.ceil_intCast]
  · have hsplit : a = b * (-(-a / b) - 1) + (b - -a % b) := by linarith
    obtain ⟨hlow, hhigh⟩ :=
      nearest_div_between ha halt hble hsplit (sub_pos.mpr (Int.emod_lt_of_pos _ hb)) (by omega)
    refine Int.ceil_eq_iff.mpr ⟨?_, ?_⟩
    · exact_mod_cast hlow
    · push_cast at hhigh ⊢
      linarith

end Lua
