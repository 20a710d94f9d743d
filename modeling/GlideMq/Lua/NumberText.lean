import GlideMq.Json.Parser
import GlideMq.Lua.Double
import Mathlib.Data.List.TakeWhile

/-!
# The text of a number

What `tostring` writes is a JSON number. It has 14 digits, so a larger number is not the one that was
written.
-/

open Json

namespace Lua

/-- The number that `tostring` writes. -/
def printed (n : ℕ) : ℕ :=
  if n < 10 ^ 14 then n
  else
    let unit := 10 ^ ((Nat.toDigits 10 n).length - 14)
    let q := n / unit
    let r := n % unit
    (if unit < 2 * r ∨ (2 * r = unit ∧ q % 2 = 1) then q + 1 else q) * unit

/-! ## Digits -/

theorem toNat_bounds {c : Char} (h : c.isDigit) : 48 ≤ c.toNat ∧ c.toNat ≤ 57 := by
  simpa [Char.isDigit, UInt32.le_iff_toNat_le] using h

theorem val_digitValue {c : Char} (h : c.isDigit) : (digitValue c).val = c.toNat - 48 := by
  have hbounds := toNat_bounds h
  simp only [digitValue, Fin.ofNat]
  omega

theorem digit_digitValue {c : Char} (h : c.isDigit) : digit (digitValue c) = c := by
  have hbounds := toNat_bounds h
  unfold digit
  rw [val_digitValue h, show 48 + (c.toNat - 48) = c.toNat by omega, Char.ofNat_toNat]

theorem map_digit_digitValue {cs : List Char} (h : ∀ c ∈ cs, c.isDigit) : (cs.map digitValue).map digit = cs := by
  rw [List.map_map]
  exact (List.map_congr_left fun c hc => digit_digitValue (h c hc)).trans (List.map_id cs)

theorem toDigits_digit (d : Fin 10) : Nat.toDigits 10 d = [digit d] := by
  revert d
  decide

theorem ofDigits_map {cs : List Char} (h : ∀ c ∈ cs, c.isDigit) (n : ℕ) :
    ofDigits n (cs.map digitValue) = Nat.ofDigitChars 10 cs n := by
  induction cs generalizing n with
  | nil => rfl
  | cons c cs ih =>
    rw [List.forall_mem_cons] at h
    rw [Nat.ofDigitChars_cons, ← ih h.2]
    simp [ofDigits, val_digitValue h.1]

theorem trimZeros_append (l : List Char) :
    l = trimZeros l ++ List.replicate (l.length - (trimZeros l).length) '0' := by
  have hsplit : l.reverse.takeWhile (· = '0') ++ l.reverse.dropWhile (· = '0') = l.reverse :=
    List.takeWhile_append_dropWhile
  have hzeros : l.reverse.takeWhile (· = '0') =
      List.replicate (l.reverse.takeWhile (· = '0')).length '0' := by
    apply List.eq_replicate_of_mem
    intro c hc
    simpa using List.mem_takeWhile_imp hc
  have hl : l = trimZeros l ++ (l.reverse.takeWhile (· = '0')).reverse := by
    have h := congrArg List.reverse hsplit
    rw [List.reverse_append, List.reverse_reverse] at h
    exact h.symm
  have hlength : l.length - (trimZeros l).length = (l.reverse.takeWhile (· = '0')).length := by
    have h := congrArg List.length hl
    rw [List.length_append, List.length_reverse] at h
    omega
  rw [hlength, ← List.reverse_replicate, ← hzeros]
  exact hl

/-! ## Fourteen digits -/

/-- The text of `%.14g` with an exponent. -/
def scientific (q x : ℕ) : List Char :=
  match Nat.toDigits 10 q with
  | [] => []
  | c :: rest => c :: (if trimZeros rest = [] then [] else '.' :: trimZeros rest) ++
      'e' :: '+' :: Nat.toDigits 10 x

theorem scientific_numText {q x : ℕ} (hlow : 10 ^ 13 ≤ q) (hhigh : q < 10 ^ 14) (hx : 13 ≤ x) :
    ∃ t : NumText, t.render = scientific q x ∧ t.exact = (q * 10 ^ (x - 13) : ℕ) := by
  obtain ⟨c, rest, hcons, hc⟩ := toDigits_eq_cons q
  obtain ⟨x₀, xs, hxcons, hx₀⟩ := toDigits_eq_cons x
  have hdigits := isDigit_toDigits q
  rw [hcons, List.forall_mem_cons] at hdigits
  have hxdigits := isDigit_toDigits x
  rw [hxcons, List.forall_mem_cons] at hxdigits
  have hlength : rest.length = 13 := by
    have hle := (Nat.length_toDigits_le_iff (by omega) (by omega)).mpr hhigh
    have hgt : ¬ (Nat.toDigits 10 q).length ≤ 13 := by
      rw [Nat.length_toDigits_le_iff (by omega) (by omega)]
      omega
    rw [hcons, List.length_cons] at hle hgt
    omega
  have htrim := trimZeros_append rest
  have hfrac : ∀ d ∈ trimZeros rest, d.isDigit := by
    intro d hd
    apply hdigits.2
    rw [htrim]
    exact List.mem_append_left _ hd
  refine ⟨{ int := digitValue c
            frac := (trimZeros rest).map digitValue
            exponent := some ⟨false, some false, digitValue x₀, xs.map digitValue⟩ }, ?_, ?_⟩
  · unfold NumText.render NumText.fraction NumText.power scientific
    rw [hcons]
    simp [toDigits_digit, digit_digitValue hc, Exponent.render, signText, hxcons, digit_digitValue hx₀,
      map_digit_digitValue hfrac, map_digit_digitValue hxdigits.2]
  · have hq : q = 10 ^ (13 - (trimZeros rest).length) * Nat.ofDigitChars 10 (trimZeros rest) (digitValue c) := by
      have hall := Nat.ofDigitChars_ten_toDigits (n := q)
      rw [hcons, Nat.ofDigitChars_cons, htrim, Nat.ofDigitChars_append, Nat.ofDigitChars_replicate_zero,
        hlength] at hall
      rw [val_digitValue hc]
      simpa using hall.symm
    have hexp : ofDigits (digitValue x₀) (xs.map digitValue) = x := by
      have hall := Nat.ofDigitChars_ten_toDigits (n := x)
      rw [hxcons, Nat.ofDigitChars_cons] at hall
      rw [ofDigits_map hxdigits.2, val_digitValue hx₀]
      simpa using hall
    have hle : (trimZeros rest).length ≤ 13 := by
      have h := congrArg List.length htrim
      rw [List.length_append, hlength] at h
      omega
    have hpower : (x : ℤ) - (trimZeros rest).length =
        ((13 - (trimZeros rest).length : ℕ) : ℤ) + ((x - 13 : ℕ) : ℤ) := by omega
    simp only [NumText.exact, Option.map_some, Option.getD_some, Exponent.exact, ofDigits_map hfrac, hexp,
      List.length_map, Option.some.injEq, Bool.false_eq_true, if_false]
    rw [hpower, zpow_add₀ (by norm_num), zpow_natCast, zpow_natCast]
    rw [hq]
    push_cast
    ring

/-- `%.14g` with an exponent, as a string. -/
def scientificStr (q x : ℕ) : String :=
  match Nat.toDigits 10 q with
  | [] => ""
  | c :: rest =>
    let frac := trimZeros rest
    String.ofList (c :: (if frac = [] then [] else '.' :: frac)) ++ "e+" ++
      (if x < 10 then "0" else "") ++ x.repr

theorem toList_scientificStr {q x : ℕ} (hx : 10 ≤ x) : (scientificStr q x).toList = scientific q x := by
  unfold scientificStr scientific
  rw [if_neg (by omega)]
  cases Nat.toDigits 10 q with
  | nil => rfl
  | cons c rest => simp

/-- The 14 digits of a larger number, rounded, and its last place. -/
def digits14 (n : ℕ) : ℕ :=
  let unit := 10 ^ ((Nat.toDigits 10 n).length - 14)
  if unit < 2 * (n % unit) ∨ (2 * (n % unit) = unit ∧ n / unit % 2 = 1) then n / unit + 1 else n / unit

theorem toStr_of_le {n : ℕ} (h : 10 ^ 14 ≤ n) : toStr n =
    let p := if digits14 n = 10 ^ 14 then (10 ^ 13, (Nat.toDigits 10 n).length)
      else (digits14 n, (Nat.toDigits 10 n).length - 1)
    scientificStr p.1 p.2 := by
  unfold toStr
  rw [if_neg (by omega)]
  rfl

theorem digits14_bounds {n : ℕ} (h : 10 ^ 14 ≤ n) : 10 ^ 13 ≤ digits14 n ∧ digits14 n ≤ 10 ^ 14 := by
  obtain ⟨k, hk⟩ : ∃ k, (Nat.toDigits 10 n).length = k + 15 := by
    have hlength : ¬ (Nat.toDigits 10 n).length ≤ 14 := by
      rw [Nat.length_toDigits_le_iff (by omega) (by omega)]
      omega
    exact ⟨(Nat.toDigits 10 n).length - 15, by omega⟩
  have hlow : 10 ^ (k + 14) ≤ n := by
    have hgt : ¬ (Nat.toDigits 10 n).length ≤ k + 14 := by omega
    rwa [Nat.length_toDigits_le_iff (by omega) (by omega), not_lt] at hgt
  have hhigh : n < 10 ^ (k + 15) := (Nat.length_toDigits_le_iff (by omega) (by omega)).mp hk.le
  have hunit : k + 15 - 14 = k + 1 := by omega
  have hquotient : 10 ^ 13 ≤ n / 10 ^ (k + 1) ∧ n / 10 ^ (k + 1) < 10 ^ 14 := by
    constructor
    · rw [Nat.le_div_iff_mul_le (by positivity), ← pow_add]
      rwa [show 13 + (k + 1) = k + 14 by omega]
    · rw [Nat.div_lt_iff_lt_mul (by positivity), ← pow_add]
      rwa [show 14 + (k + 1) = k + 15 by omega]
  unfold digits14
  rw [hk, hunit]
  simp only
  split <;> omega

/-- The text of a number denotes what is printed. -/
theorem toStr_numText (n : ℕ) : ∃ t : NumText, t.render = (toStr n).toList ∧ t.exact = (printed n : ℕ) := by
  by_cases hn : n < 10 ^ 14
  · refine ⟨{ int := n }, ?_, ?_⟩
    · rw [toStr_of_lt hn, Nat.toList_repr]
      simp [NumText.render, NumText.fraction, NumText.power]
    · rw [printed, if_pos hn]
      simp [NumText.exact, ofDigits]
  · rw [not_lt] at hn
    have hprinted : printed n = digits14 n * 10 ^ ((Nat.toDigits 10 n).length - 14) := by
      rw [printed, if_neg (by omega)]
      rfl
    have hlength : ¬ (Nat.toDigits 10 n).length ≤ 14 := by
      rw [Nat.length_toDigits_le_iff (by omega) (by omega)]
      omega
    obtain ⟨hlow, hhigh⟩ := digits14_bounds hn
    rw [toStr_of_le hn, hprinted]
    by_cases hcarry : digits14 n = 10 ^ 14
    · obtain ⟨t, hrender, hexact⟩ := scientific_numText (q := 10 ^ 13) (x := (Nat.toDigits 10 n).length)
        le_rfl (by norm_num) (by omega)
      refine ⟨t, ?_, ?_⟩
      · rw [if_pos hcarry, toList_scientificStr (by omega), hrender]
      · rw [hexact, hcarry, show (Nat.toDigits 10 n).length - 13 = (Nat.toDigits 10 n).length - 14 + 1 by omega,
          pow_succ]
        push_cast
        ring
    · obtain ⟨t, hrender, hexact⟩ := scientific_numText (x := (Nat.toDigits 10 n).length - 1) hlow
        (lt_of_le_of_ne hhigh hcarry) (by omega)
      refine ⟨t, ?_, ?_⟩
      · rw [if_neg hcarry, toList_scientificStr (by omega), hrender]
      · rw [hexact, show (Nat.toDigits 10 n).length - 1 - 13 = (Nat.toDigits 10 n).length - 14 by omega]

end Lua
