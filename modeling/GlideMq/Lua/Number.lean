import Mathlib.Data.Nat.Log
import Mathlib.Data.String.Basic
import Mathlib.Tactic.NormNum

/-!
# Lua numbers and Redis integers

Lua numbers are doubles: `tonumber` rounds, and `tostring` prints 14 significant digits
(`%.14g`). `INCR` accepts only canonical signed 64-bit decimal strings.
-/

namespace Lua

/-- `^%d+$`. -/
def isDigits (s : String) : Bool := s.toList ≠ [] && s.toList.all Char.isDigit

/-- The value of a string of digits, exact. -/
def value (s : String) : Nat := Nat.ofDigitChars 10 s.toList 0

/-- The double nearest to `n`, ties to even. -/
def toDouble (n : Nat) : Nat :=
  if n < 2 ^ 53 then n
  else
    let e := Nat.log2 n - 52
    let q := n / 2 ^ e
    let r := n % 2 ^ e
    let half := 2 ^ (e - 1)
    let q := if half < r ∨ (r = half ∧ q % 2 = 1) then q + 1 else q
    q * 2 ^ e

/-- `tonumber` of a string of digits. -/
def toNumber (s : String) : Nat := toDouble (value s)

/-- The mantissa of `%.14g`: the digits after the point without trailing zeros. -/
def trimZeros (l : List Char) : List Char := (l.reverse.dropWhile (· = '0')).reverse

/-- `tostring` of a double with an integer value. -/
def toStr (n : Nat) : String :=
  if n < 10 ^ 14 then n.repr
  else
    let d := (Nat.toDigits 10 n).length
    let unit := 10 ^ (d - 14)
    let q := n / unit
    let r := n % unit
    let q := if unit < 2 * r ∨ (2 * r = unit ∧ q % 2 = 1) then q + 1 else q
    let (q, x) := if q = 10 ^ 14 then (10 ^ 13, d) else (q, d - 1)
    match Nat.toDigits 10 q with
    | [] => ""
    | c :: rest =>
      let frac := trimZeros rest
      String.ofList (c :: (if frac = [] then [] else '.' :: frac)) ++ "e+" ++
        (if x < 10 then "0" else "") ++ x.repr

/-- `tostring` of an integer, which becomes a double first. -/
def printInt : Int → String
  | .ofNat n => toStr (toDouble n)
  | .negSucc n => "-" ++ toStr (toDouble (n + 1))

/-- The largest signed 64-bit integer. -/
def maxInt64 : Nat := 2 ^ 63 - 1

/-- The number of a string of digits without a leading zero. -/
def readCanonical (s : String) : Option Nat :=
  if isDigits s && (s.toList = ['0'] || s.toList.head? ≠ some '0') then some (value s) else none

/-- The integer that `INCR` reads from a stored string: digits in range, or a sign before them and
not the zero. -/
def readInt64 (s : String) : Option Int :=
  match s.toList with
  | '-' :: digits =>
    (readCanonical (String.ofList digits)).bind fun n =>
      if 0 < n ∧ n ≤ maxInt64 + 1 then some (-(n : Int)) else none
  | _ => (readCanonical s).bind fun n => if n ≤ maxInt64 then some (n : Int) else none

/-- `INCR`: the new value, or `none` where Redis replies with an error. -/
def incr (stored : Option String) : Option Int :=
  match stored with
  | none => some 1
  | some s => (readInt64 s).bind fun n => if n < maxInt64 then some (n + 1) else none

/-! ## Canonical decimals -/

@[simp] theorem value_repr (n : Nat) : value n.repr = n := by
  rw [value, Nat.toList_repr, Nat.ofDigitChars_ten_toDigits]

theorem repr_injective {m n : Nat} (h : m.repr = n.repr) : m = n := by
  simpa using congrArg value h

@[simp] theorem isDigits_repr (n : Nat) : isDigits n.repr = true := by
  simp only [isDigits, Nat.toList_repr, Bool.and_eq_true, decide_eq_true_eq, List.all_eq_true]
  exact ⟨Nat.toDigits_ne_nil, fun c hc => Nat.isDigit_of_mem_toDigits (by omega) (by omega) hc⟩

theorem isDigits_minus (s : String) : isDigits ("-" ++ s) = false := by
  simp [isDigits, String.toList_append]

theorem readCanonical_eq_some {s : String} {n : Nat} (h : readCanonical s = some n) :
    isDigits s = true ∧ value s = n := by
  unfold readCanonical at h
  split at h
  · rename_i hs
    simp only [Bool.and_eq_true] at hs
    exact ⟨hs.1, Option.some.inj h⟩
  · cases h

theorem readInt64_eq_some {s : String} {v : Int} (h : readInt64 s = some v) :
    (∃ n : Nat, v = n ∧ isDigits s = true ∧ value s = n) ∨ v < 0 ∧ isDigits s = false := by
  unfold readInt64 at h
  split at h
  · rename_i digits hs
    obtain ⟨n, -, hv⟩ := Option.bind_eq_some_iff.mp h
    split at hv
    · rename_i hn
      refine .inr ⟨?_, by simp [isDigits, hs]⟩
      have := Option.some.inj hv
      omega
    · cases hv
  · obtain ⟨n, hn, hv⟩ := Option.bind_eq_some_iff.mp h
    obtain ⟨hdigits, hvalue⟩ := readCanonical_eq_some hn
    split at hv
    · exact .inl ⟨n, (Option.some.inj hv).symm, hdigits, hvalue⟩
    · cases hv

/-! ## Doubles -/

theorem toDouble_of_lt {n : Nat} (h : n < 2 ^ 53) : toDouble n = n := if_pos h

theorem le_toDouble {n : Nat} (h : 2 ^ 53 ≤ n) : 2 ^ 53 ≤ toDouble n := by
  have hlog : 53 ≤ Nat.log2 n := (Nat.le_log2 (by omega)).mpr h
  have hn : 2 ^ Nat.log2 n ≤ n := Nat.log2_self_le (by omega)
  have hq : 2 ^ 52 ≤ n / 2 ^ (Nat.log2 n - 52) := by
    rw [Nat.le_div_iff_mul_le (Nat.two_pow_pos _), ← pow_add]
    rwa [show 52 + (Nat.log2 n - 52) = Nat.log2 n by omega]
  have he : 2 ≤ 2 ^ (Nat.log2 n - 52) := by
    calc 2 = 2 ^ 1 := rfl
      _ ≤ 2 ^ (Nat.log2 n - 52) := Nat.pow_le_pow_right (by omega) (by omega)
  unfold toDouble
  rw [if_neg (by omega)]
  simp only
  calc 2 ^ 53 = 2 ^ 52 * 2 := by norm_num
    _ ≤ _ := Nat.mul_le_mul (by split <;> omega) he

theorem toStr_of_lt {n : Nat} (h : n < 10 ^ 14) : toStr n = n.repr := if_pos h

end Lua
