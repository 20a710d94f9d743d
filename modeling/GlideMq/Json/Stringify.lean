import GlideMq.Json.Writer

/-!
# `JSON.stringify`

Strings are sequences of code units. A surrogate without its partner is escaped. How a number is
written is a parameter.
-/

namespace Json

/-! ## Strings -/

/-- The letter of the short escape of a code unit. -/
def unitEscape (n : Nat) : Option Char :=
  if n = 34 then some quote
  else if n = 92 then some backslash
  else if n = 8 then some 'b'
  else if n = 12 then some 'f'
  else if n = 10 then some 'n'
  else if n = 13 then some 'r'
  else if n = 9 then some 't'
  else none

def isHigh (u : UInt16) : Bool := 0xD800 ≤ u.toNat ∧ u.toNat < 0xDC00

def isLow (u : UInt16) : Bool := 0xDC00 ≤ u.toNat ∧ u.toNat < 0xE000

/-- The character of two surrogates. -/
def pairChar (high low : UInt16) : Char :=
  Char.ofNat (0x10000 + (high.toNat - 0xD800) * 0x400 + (low.toNat - 0xDC00))

theorem unescape_unitEscape {n : Nat} {letter : Char} (h : unitEscape n = some letter) :
    unescape letter = some (Char.ofNat n) := by
  unfold unitEscape at h
  split_ifs at h <;> (cases h; subst n; decide)

theorem hexValue_hexDigit {n : Nat} (h : n < 16) : hexValue (hexDigit n) = some n := by
  interval_cases n <;> decide

theorem hexQuad_hexDigit {n : Nat} (h : n < 0x10000) :
    hexQuad (hexDigit (n / 4096)) (hexDigit (n / 256 % 16)) (hexDigit (n / 16 % 16)) (hexDigit (n % 16)) =
      some n := by
  have hvalue : ((n / 4096 * 16 + n / 256 % 16) * 16 + n / 16 % 16) * 16 + n % 16 = n := by omega
  unfold hexQuad
  rw [hexValue_hexDigit (by omega), hexValue_hexDigit (by omega), hexValue_hexDigit (by omega),
    hexValue_hexDigit (by omega)]
  simp [hvalue]

theorem toNat_ofNat {n : Nat} (h : n.isValidChar) : (Char.ofNat n).toNat = n := by
  rw [Char.ofNat, dif_pos h]
  rfl

theorem isPlain_ofNat {n : Nat} (h : n.isValidChar) (hlow : 32 ≤ n) (hescape : unitEscape n = none) :
    isPlain (Char.ofNat n) := by
  have hquote : n ≠ 34 := by
    rintro rfl
    exact absurd hescape (by decide)
  have hbackslash : n ≠ 92 := by
    rintro rfl
    exact absurd hescape (by decide)
  have hne {c : Char} (hc : n ≠ c.toNat) : Char.ofNat n ≠ c := by
    rintro rfl
    exact hc (toNat_ofNat h).symm
  simp only [isPlain, decide_eq_true_eq]
  exact ⟨hne hquote, hne hbackslash, by rwa [toNat_ofNat h]⟩

/-- A code unit outside of a pair. -/
def unitPiece (u : UInt16) : Piece :=
  match h : unitEscape u.toNat with
  | some letter => .short letter (Char.ofNat u.toNat) (unescape_unitEscape h)
  | none =>
    if hplain : 32 ≤ u.toNat ∧ u.toNat.isValidChar then
      .plain (Char.ofNat u.toNat) (isPlain_ofNat hplain.2 hplain.1 h)
    else
      .unicode (hexDigit (u.toNat / 4096)) (hexDigit (u.toNat / 256 % 16)) (hexDigit (u.toNat / 16 % 16))
        (hexDigit (u.toNat % 16)) u.toNat (hexQuad_hexDigit u.toNat_lt)

theorem utf16_ofNat {u : UInt16} (h : u.toNat.isValidChar) : utf16 (Char.ofNat u.toNat) = [u] := by
  have hlt : u.toNat < 0x10000 := u.toNat_lt
  rw [utf16, toNat_ofNat h, if_pos hlt, UInt16.ofNat_toNat]

theorem units_unitPiece (u : UInt16) : (unitPiece u).units = [u] := by
  unfold unitPiece
  split
  · rename_i letter h
    apply utf16_ofNat
    unfold unitEscape at h
    split_ifs at h <;> simp [*, Nat.isValidChar]
  · split
    · rename_i hplain
      exact utf16_ofNat hplain.2
    · simp [Piece.units]

theorem toNat_pairChar {high low : UInt16} (hhigh : isHigh high) (hlow : isLow low) :
    (pairChar high low).toNat = 0x10000 + (high.toNat - 0xD800) * 0x400 + (low.toNat - 0xDC00) := by
  simp only [isHigh, isLow, decide_eq_true_eq] at hhigh hlow
  apply toNat_ofNat
  unfold Nat.isValidChar
  omega

theorem isPlain_pairChar {high low : UInt16} (hhigh : isHigh high) (hlow : isLow low) :
    isPlain (pairChar high low) := by
  have hnat := toNat_pairChar hhigh hlow
  simp only [isPlain, decide_eq_true_eq]
  refine ⟨?_, ?_, by omega⟩ <;> (intro heq; rw [heq] at hnat)
  · have hquote : quote.toNat = 34 := rfl
    omega
  · have hbackslash : backslash.toNat = 92 := rfl
    omega

theorem utf16_pairChar {high low : UInt16} (hhigh : isHigh high) (hlow : isLow low) :
    utf16 (pairChar high low) = [high, low] := by
  have hnat := toNat_pairChar hhigh hlow
  simp only [isHigh, isLow, decide_eq_true_eq] at hhigh hlow
  have hfirst : 0xD800 + ((pairChar high low).toNat - 0x10000) / 0x400 = high.toNat := by omega
  have hsecond : 0xDC00 + ((pairChar high low).toNat - 0x10000) % 0x400 = low.toNat := by omega
  unfold utf16
  rw [if_neg (by omega)]
  simp only [hfirst, hsecond, UInt16.ofNat_toNat]

def stringPieces : List UInt16 → List Piece
  | [] => []
  | [u] => [unitPiece u]
  | high :: low :: rest =>
    if h : isHigh high ∧ isLow low then
      .plain (pairChar high low) (isPlain_pairChar h.1 h.2) :: stringPieces rest
    else unitPiece high :: stringPieces (low :: rest)

theorem units_stringPieces (s : List UInt16) : units (stringPieces s) = s := by
  have hcons (piece : Piece) (pieces : List Piece) : units (piece :: pieces) = piece.units ++ units pieces :=
    List.flatMap_cons
  fun_induction stringPieces s with
  | case1 => rfl
  | case2 u =>
    rw [hcons, units_unitPiece]
    rfl
  | case3 high low rest h ih =>
    rw [hcons, ih, Piece.units, utf16_pairChar h.1 h.2]
    rfl
  | case4 high low rest h ih =>
    rw [hcons, ih, units_unitPiece]
    rfl

/-! ## Values -/

section

variable {N : Type} (text : N → NumText)

mutual

def Value.tree : Value N → Tree
  | .null => .null
  | .bool b => .bool b
  | .number n => .number (text n)
  | .string s => .string (stringPieces s)
  | .array items => arrayOf (itemTrees items)
  | .object members => objectOf (memberTrees members)

def itemTrees : List (Value N) → List Tree
  | [] => []
  | item :: rest => item.tree :: itemTrees rest

def memberTrees : List (List UInt16 × Value N) → List (List Piece × Tree)
  | [] => []
  | (name, value) :: rest => (stringPieces name, value.tree) :: memberTrees rest

end

def stringify (v : Value N) : List Char := (v.tree text).render

variable (read : NumText → N)

mutual

theorem value_tree (hread : ∀ n, read (text n) = n) : (v : Value N) → (v.tree text).value read = v
  | .null => rfl
  | .bool _ => rfl
  | .number n => by rw [Value.tree, Tree.value, hread]
  | .string s => by rw [Value.tree, Tree.value, units_stringPieces]
  | .array items => by rw [Value.tree, value_arrayOf, value_itemTrees hread items]
  | .object members => by rw [Value.tree, value_objectOf, value_memberTrees hread members]

theorem value_itemTrees (hread : ∀ n, read (text n) = n) :
    (items : List (Value N)) → (itemTrees text items).map (Tree.value read) = items
  | [] => rfl
  | item :: rest => by rw [itemTrees, List.map_cons, value_tree hread item, value_itemTrees hread rest]

theorem value_memberTrees (hread : ∀ n, read (text n) = n) : (members : List (List UInt16 × Value N)) →
    ((memberTrees text members).map fun m => (units m.1, m.2.value read)) = members
  | [] => rfl
  | (name, value) :: rest => by
    rw [memberTrees, List.map_cons, value_tree hread value, value_memberTrees hread rest, units_stringPieces]

end

/-- What is written is read back. -/
theorem parse_stringify (hread : ∀ n, read (text n) = n) (v : Value N) :
    parse read (stringify text v) = some v := by
  rw [stringify, parse_tree, value_tree text read hread]

end

end Json
