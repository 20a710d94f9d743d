import Mathlib.Data.String.Basic
import Mathlib.Tactic.IntervalCases

/-!
# JSON arrays of texts

`cjson.encode` writes an array of strings without blanks. It escapes control characters, quotes,
backslashes and slashes. The reader is `JSON.parse` where the text is such an array.
-/

namespace Json

def quote : Char := '\x22'

def backslash : Char := '\x5c'

/-- A hexadecimal digit, in lower case. -/
def hexDigit (n : Nat) : Char := if n < 10 then Char.ofNat (48 + n) else Char.ofNat (87 + n)

def hexValue (c : Char) : Option Nat :=
  if '0' ≤ c ∧ c ≤ '9' then some (c.toNat - 48)
  else if 'a' ≤ c ∧ c ≤ 'f' then some (c.toNat - 87)
  else if 'A' ≤ c ∧ c ≤ 'F' then some (c.toNat - 55)
  else none

/-- The letter of a short escape. -/
def shortEscape (c : Char) : Option Char :=
  if c = quote then some quote
  else if c = backslash then some backslash
  else if c = '/' then some '/'
  else if c = '\x08' then some 'b'
  else if c = '\x0c' then some 'f'
  else if c = '\n' then some 'n'
  else if c = '\r' then some 'r'
  else if c = '\t' then some 't'
  else none

def isControl (c : Char) : Bool := c.toNat < 32 ∨ c.toNat = 127

def escape (c : Char) : List Char :=
  match shortEscape c with
  | some letter => [backslash, letter]
  | none =>
    if isControl c then [backslash, 'u', '0', '0', hexDigit (c.toNat / 16), hexDigit (c.toNat % 16)]
    else [c]

def writeText (text : List Char) : List Char := quote :: text.flatMap escape ++ [quote]

def writeRest : List (List Char) → List Char
  | [] => [']']
  | text :: texts => ',' :: writeText text ++ writeRest texts

def writeArray : List (List Char) → List Char
  | [] => ['[', ']']
  | text :: texts => '[' :: writeText text ++ writeRest texts

/-- The character of a short escape. -/
def unescape (letter : Char) : Option Char :=
  if letter = quote then some quote
  else if letter = backslash then some backslash
  else if letter = '/' then some '/'
  else if letter = 'b' then some '\x08'
  else if letter = 'f' then some '\x0c'
  else if letter = 'n' then some '\n'
  else if letter = 'r' then some '\r'
  else if letter = 't' then some '\t'
  else none

/-- The character of four hexadecimal digits, outside the surrogates. -/
def unicode (a b c d : Char) : Option Char := do
  let n := ((← hexValue a) * 16 + (← hexValue b)) * 256 + (← hexValue c) * 16 + (← hexValue d)
  if n.isValidChar then some (Char.ofNat n) else none

/-- The text up to its closing quote, and what follows. -/
def readText : List Char → Option (List Char × List Char)
  | [] => none
  | '\x22' :: rest => some ([], rest)
  | '\x5c' :: 'u' :: h₁ :: h₂ :: h₃ :: h₄ :: rest => do
    let c ← unicode h₁ h₂ h₃ h₄
    let (text, rest) ← readText rest
    return (c :: text, rest)
  | '\x5c' :: letter :: rest => do
    let c ← unescape letter
    let (text, rest) ← readText rest
    return (c :: text, rest)
  | c :: rest => do
    if c = backslash ∨ c.toNat < 32 then none
    let (text, rest) ← readText rest
    return (c :: text, rest)

/-- The texts after the first one, up to the closing bracket. -/
def readRest : Nat → List Char → Option (List (List Char))
  | fuel + 1, ',' :: c :: rest => do
    if c ≠ quote then none
    let (text, rest) ← readText rest
    let texts ← readRest fuel rest
    return text :: texts
  | _, [']'] => some []
  | _, _ => none

def readArray : List Char → Option (List (List Char))
  | ['[', ']'] => some []
  | '[' :: c :: rest => do
    if c ≠ quote then none
    let (text, rest) ← readText rest
    let texts ← readRest rest.length rest
    return text :: texts
  | _ => none

/-! ## The round trip -/

theorem readText_short {c letter : Char} (h : shortEscape c = some letter) (tail : List Char) :
    readText (backslash :: letter :: tail) = (readText tail).map fun p => (c :: p.1, p.2) := by
  unfold shortEscape at h
  split_ifs at h <;> (cases h; subst c; cases hread : readText tail <;> simp [readText, hread, backslash, quote, unescape])

theorem unicode_control {c : Char} (h : isControl c) :
    unicode '0' '0' (hexDigit (c.toNat / 16)) (hexDigit (c.toNat % 16)) = some c := by
  have hc : c = Char.ofNat c.toNat := c.ofNat_toNat.symm
  simp only [isControl, decide_eq_true_eq] at h
  rw [hc]
  generalize c.toNat = n at h
  rcases h with hlt | heq
  · interval_cases n <;> decide
  · subst n
    decide

theorem readText_plain {c : Char} (hshort : shortEscape c = none) (hcontrol : ¬ isControl c)
    (tail : List Char) : readText (c :: tail) = (readText tail).map fun p => (c :: p.1, p.2) := by
  have hquote : c ≠ quote := by
    rintro rfl
    exact absurd hshort (by decide)
  have hbackslash : c ≠ backslash := by
    rintro rfl
    exact absurd hshort (by decide)
  have hlow : ¬ c.toNat < 32 := by
    simp only [isControl, decide_eq_true_eq, not_or] at hcontrol
    exact hcontrol.1
  rw [readText.eq_def]
  split
  · rename_i heq
    cases heq
  · rename_i heq
    cases heq
    exact absurd rfl hquote
  · rename_i heq
    cases heq
    exact absurd rfl hbackslash
  · rename_i heq
    cases heq
    exact absurd rfl hbackslash
  · rename_i heq
    cases heq
    rw [if_neg (not_or.mpr ⟨hbackslash, hlow⟩)]
    cases readText tail <;> rfl

theorem readText_escape (c : Char) (tail : List Char) :
    readText (escape c ++ tail) = (readText tail).map fun p => (c :: p.1, p.2) := by
  unfold escape
  split
  · rename_i letter hshort
    exact readText_short hshort tail
  · rename_i hshort
    split
    · rename_i hcontrol
      have hread : readText ([backslash, 'u', '0', '0', hexDigit (c.toNat / 16), hexDigit (c.toNat % 16)] ++ tail) =
          (do
            let c ← unicode '0' '0' (hexDigit (c.toNat / 16)) (hexDigit (c.toNat % 16))
            let (text, rest) ← readText tail
            return (c :: text, rest)) := rfl
      rw [hread, unicode_control hcontrol]
      cases readText tail <;> rfl
    · rename_i hcontrol
      exact readText_plain hshort hcontrol tail

theorem readText_write (text tail : List Char) :
    readText (text.flatMap escape ++ [quote] ++ tail) = some (text, tail) := by
  induction text with
  | nil => rfl
  | cons c text ih =>
    rw [List.flatMap_cons, List.append_assoc, List.append_assoc, readText_escape, ← List.append_assoc, ih]
    rfl

theorem length_writeRest (texts : List (List Char)) : texts.length < (writeRest texts).length := by
  induction texts with
  | nil => decide
  | cons text texts ih =>
    simp only [writeRest, writeText, List.length_cons, List.length_append]
    omega

theorem readRest_write (texts : List (List Char)) {fuel : Nat} (h : texts.length ≤ fuel) :
    readRest fuel (writeRest texts) = some texts := by
  induction texts generalizing fuel with
  | nil => cases fuel <;> rfl
  | cons text texts ih =>
    cases fuel with
    | zero => simp at h
    | succ fuel =>
      have hrest : writeRest (text :: texts) =
          ',' :: quote :: (text.flatMap escape ++ [quote] ++ writeRest texts) := by
        simp [writeRest, writeText]
      rw [hrest, readRest, readText_write]
      simp only [List.length_cons] at h
      simp [ih (Nat.le_of_succ_le_succ h)]

/-- An array of texts is read back as it was written. -/
theorem readArray_write (texts : List (List Char)) : readArray (writeArray texts) = some texts := by
  cases texts with
  | nil => rfl
  | cons text texts =>
    have hall : writeArray (text :: texts) =
        '[' :: quote :: (text.flatMap escape ++ [quote] ++ writeRest texts) := by
      simp [writeArray, writeText]
    rw [hall, readArray, readText_write]
    · simp [readRest_write texts (length_writeRest texts).le]
    · simp

end Json
