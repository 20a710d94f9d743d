import GlideMq.Json.Syntax

/-!
# The JSON parser

`parse` is the reader of the grammar. It reads back every tree.
-/

namespace Json

/-! ## Tokens -/

def skipBlanks (cs : List Char) : List Char := cs.dropWhile isBlank

def digitValue (c : Char) : Fin 10 := Fin.ofNat 10 (c.toNat - 48)

def readDigits (cs : List Char) : List (Fin 10) × List Char :=
  ((cs.takeWhile Char.isDigit).map digitValue, cs.dropWhile Char.isDigit)

def readSign : List Char → Option Bool × List Char
  | '-' :: rest => (some true, rest)
  | '+' :: rest => (some false, rest)
  | rest => (none, rest)

/-- An exponent, or nothing. -/
def readExponent : List Char → Option (Option Exponent)
  | [] => some none
  | c :: rest =>
    if c = 'e' ∨ c = 'E' then
      match readDigits (readSign rest).2 with
      | (first :: ds, []) =>
        some (some { upper := c = 'E', sign := (readSign rest).1, first, rest := ds })
      | _ => none
    else none

/-- The digits after a point, or nothing. -/
def readFraction : List Char → Option (List (Fin 10) × List Char)
  | '.' :: rest =>
    match readDigits rest with
    | ([], _) => none
    | (ds, rest) => some (ds, rest)
  | rest => some ([], rest)

def readUnsigned (negative : Bool) (cs : List Char) : Option NumText := do
  let int := Nat.ofDigitChars 10 (cs.takeWhile Char.isDigit) 0
  if Nat.toDigits 10 int ≠ cs.takeWhile Char.isDigit then none
  let (frac, rest) ← readFraction (cs.dropWhile Char.isDigit)
  let exponent ← readExponent rest
  return { negative, int, frac, exponent }

/-- A text that is a number from end to end. -/
def readNumber : List Char → Option NumText
  | '-' :: rest => readUnsigned true rest
  | cs => readUnsigned false cs

def isNumberChar (c : Char) : Bool := c.isDigit ∨ c = '.' ∨ c = 'e' ∨ c = 'E' ∨ c = '+' ∨ c = '-'

/-- The code units up to the closing quote, and what follows it. -/
def readString : List Char → Option (List UInt16 × List Char)
  | [] => none
  | '\x22' :: rest => some ([], rest)
  | '\x5c' :: 'u' :: h₁ :: h₂ :: h₃ :: h₄ :: rest => do
    let n ← hexQuad h₁ h₂ h₃ h₄
    let (s, rest) ← readString rest
    return (UInt16.ofNat n :: s, rest)
  | '\x5c' :: letter :: rest => do
    let c ← unescape letter
    let (s, rest) ← readString rest
    return (utf16 c ++ s, rest)
  | c :: rest => do
    if !isPlain c then none
    let (s, rest) ← readString rest
    return (utf16 c ++ s, rest)

/-- A key with its colon. -/
def readKey (cs : List Char) : Option (List UInt16 × List Char) :=
  match skipBlanks cs with
  | '\x22' :: rest => do
    let (name, rest) ← readString rest
    match skipBlanks rest with
    | ':' :: rest => return (name, rest)
    | _ => none
  | _ => none

/-! ## Values -/

section

variable {N : Type} (read : NumText → N)

/-- `true`, `false`, `null` or a number. -/
def readLiteral (cs : List Char) : Option (Value N × List Char) :=
  match cs with
  | 'n' :: 'u' :: 'l' :: 'l' :: rest => some (.null, rest)
  | 't' :: 'r' :: 'u' :: 'e' :: rest => some (.bool true, rest)
  | 'f' :: 'a' :: 'l' :: 's' :: 'e' :: rest => some (.bool false, rest)
  | cs => (readNumber (cs.takeWhile isNumberChar)).map fun n =>
      (.number (read n), cs.dropWhile isNumberChar)

mutual

def readValue : Nat → List Char → Option (Value N × List Char)
  | 0, _ => none
  | _ + 1, [] => none
  | fuel + 1, c :: rest =>
    if c = quote then (readString rest).map fun p => (.string p.1, p.2)
    else if c = '[' then
      match skipBlanks rest with
      | ']' :: rest => some (.array [], rest)
      | _ => (readItems fuel rest).map fun p => (.array p.1, p.2)
    else if c = '{' then
      match skipBlanks rest with
      | '}' :: rest => some (.object [], rest)
      | _ => (readMembers fuel rest).map fun p => (.object p.1, p.2)
    else readLiteral read (c :: rest)

def readItems : Nat → List Char → Option (List (Value N) × List Char)
  | 0, _ => none
  | fuel + 1, cs => do
    let (item, rest) ← readValue fuel (skipBlanks cs)
    match skipBlanks rest with
    | ',' :: rest =>
      let (items, rest) ← readItems fuel rest
      return (item :: items, rest)
    | ']' :: rest => return ([item], rest)
    | _ => none

def readMembers : Nat → List Char → Option (List (List UInt16 × Value N) × List Char)
  | 0, _ => none
  | fuel + 1, cs => do
    let (name, rest) ← readKey cs
    let (value, rest) ← readValue fuel (skipBlanks rest)
    match skipBlanks rest with
    | ',' :: rest =>
      let (members, rest) ← readMembers fuel rest
      return ((name, value) :: members, rest)
    | '}' :: rest => return ([(name, value)], rest)
    | _ => none

end

/-- The value of a whole text. -/
def parse (cs : List Char) : Option (Value N) :=
  match readValue read cs.length (skipBlanks cs) with
  | some (value, rest) => if skipBlanks rest = [] then some value else none
  | none => none

end

/-! ## Runs of characters -/

/-- The text does not go on with such a character. -/
def Ends (p : Char → Bool) (tail : List Char) : Prop := ∀ c ∈ tail.head?, p c = false

theorem ends_cons {p : Char → Bool} {c : Char} {tail : List Char} (h : p c = false) : Ends p (c :: tail) := by
  intro d hd
  cases hd
  exact h

theorem takeWhile_run {p : Char → Bool} {run tail : List Char} (hrun : ∀ c ∈ run, p c) (htail : Ends p tail) :
    (run ++ tail).takeWhile p = run := by
  rw [List.takeWhile_append_of_pos hrun]
  cases tail with
  | nil => simp
  | cons c tail => rw [List.takeWhile_cons_of_neg (by simp [htail c rfl]), List.append_nil]

theorem dropWhile_run {p : Char → Bool} {run tail : List Char} (hrun : ∀ c ∈ run, p c) (htail : Ends p tail) :
    (run ++ tail).dropWhile p = tail := by
  rw [List.dropWhile_append_of_pos hrun]
  cases tail with
  | nil => rfl
  | cons c tail => exact List.dropWhile_cons_of_neg (by simp [htail c rfl])

theorem skipBlanks_run (blanks : Blanks) {tail : List Char} (h : Ends isBlank tail) :
    skipBlanks (blanks.val ++ tail) = tail := dropWhile_run blanks.property h

/-! ## Numbers -/

theorem isDigit_digit (d : Fin 10) : (digit d).isDigit := by
  revert d
  decide

theorem digitValue_digit (d : Fin 10) : digitValue (digit d) = d := by
  revert d
  decide

theorem readDigits_run (ds : List (Fin 10)) {tail : List Char} (h : Ends Char.isDigit tail) :
    readDigits (ds.map digit ++ tail) = (ds, tail) := by
  have hrun : ∀ c ∈ ds.map digit, c.isDigit := by
    intro c hc
    obtain ⟨d, -, rfl⟩ := List.mem_map.mp hc
    exact isDigit_digit d
  unfold readDigits
  rw [takeWhile_run hrun h, dropWhile_run hrun h, List.map_map]
  simp [Function.comp_def, digitValue_digit]

theorem readSign_digits (d : Fin 10) (tail : List Char) : readSign (digit d :: tail) = (none, digit d :: tail) := by
  have hminus : digit d ≠ '-' := by revert d; decide
  have hplus : digit d ≠ '+' := by revert d; decide
  unfold readSign
  split
  · rename_i heq
    exact absurd (List.cons.inj heq).1 hminus
  · rename_i heq
    exact absurd (List.cons.inj heq).1 hplus
  · rfl

theorem readExponent_power (n : NumText) : readExponent n.power = some n.exponent := by
  unfold NumText.power
  cases hexp : n.exponent with
  | none => rfl
  | some e =>
    obtain ⟨upper, sign, first, rest⟩ := e
    have hdigits : readDigits (digit first :: rest.map digit) = (first :: rest, []) := by
      have h : readDigits ((first :: rest).map digit ++ []) = (first :: rest, []) :=
        readDigits_run _ (by simp [Ends])
      rwa [List.append_nil] at h
    have hsign : readSign (signText sign ++ digit first :: rest.map digit) =
        (sign, digit first :: rest.map digit) := by
      rcases sign with _ | minus
      · exact readSign_digits first _
      · cases minus <;> rfl
    cases upper <;> simp [Exponent.render, readExponent, hsign, hdigits]

theorem ends_power (n : NumText) : Ends Char.isDigit n.power := by
  unfold NumText.power
  cases n.exponent with
  | none => simp [Ends]
  | some e => cases he : e.upper <;> simp [Exponent.render, Ends, he]

theorem readFraction_fraction (n : NumText) :
    readFraction (n.fraction ++ n.power) = some (n.frac, n.power) := by
  unfold NumText.fraction
  split
  · rename_i hnil
    have hpoint : n.power.head? ≠ some '.' := by
      unfold NumText.power
      cases n.exponent with
      | none => simp
      | some e => cases he : e.upper <;> simp [Exponent.render, he]
    rw [hnil, List.nil_append]
    unfold readFraction
    split
    · rename_i heq
      rw [heq] at hpoint
      exact absurd rfl hpoint
    · rfl
  · rename_i hne
    rw [List.cons_append, readFraction, readDigits_run _ (ends_power n)]
    cases hfrac : n.frac with
    | nil => exact absurd hfrac hne
    | cons d ds => rfl

theorem ends_fraction (n : NumText) : Ends Char.isDigit (n.fraction ++ n.power) := by
  unfold NumText.fraction
  split
  · exact ends_power n
  · exact ends_cons (by decide)

theorem isDigit_toDigits (n : Nat) : ∀ c ∈ Nat.toDigits 10 n, c.isDigit :=
  fun _ hc => Nat.isDigit_of_mem_toDigits (by omega) (by omega) hc

theorem readUnsigned_render (n : NumText) (negative : Bool) :
    readUnsigned negative (Nat.toDigits 10 n.int ++ (n.fraction ++ n.power)) = some { n with negative } := by
  have hint := isDigit_toDigits n.int
  have hends := ends_fraction n
  unfold readUnsigned
  rw [takeWhile_run hint hends, dropWhile_run hint hends, readFraction_fraction]
  simp [readExponent_power]

theorem toDigits_eq_cons (n : Nat) : ∃ c cs, Nat.toDigits 10 n = c :: cs ∧ c.isDigit := by
  obtain ⟨c, cs, h⟩ := List.exists_cons_of_ne_nil (Nat.toDigits_ne_nil (b := 10) (n := n))
  exact ⟨c, cs, h, isDigit_toDigits n c (h ▸ List.mem_cons_self ..)⟩

theorem readNumber_render (n : NumText) : readNumber n.render = some n := by
  unfold NumText.render
  cases hneg : n.negative with
  | true =>
    have hread : readUnsigned true (Nat.toDigits 10 n.int ++ (n.fraction ++ n.power)) = some n :=
      (readUnsigned_render n true).trans (by rw [← hneg])
    simpa [readNumber] using hread
  | false =>
    have hread : readUnsigned false (Nat.toDigits 10 n.int ++ (n.fraction ++ n.power)) = some n :=
      (readUnsigned_render n false).trans (by rw [← hneg])
    obtain ⟨c, cs, hcons, hc⟩ := toDigits_eq_cons n.int
    have hminus : c ≠ '-' := by
      rintro rfl
      exact absurd hc (by decide)
    rw [hcons] at hread
    simp only [Bool.false_eq_true, if_false, List.nil_append, List.append_assoc, hcons]
    rw [List.cons_append] at hread ⊢
    unfold readNumber
    split
    · rename_i heq
      exact absurd (List.cons.inj heq).1 hminus
    · exact hread

theorem isNumberChar_of_isDigit {c : Char} (h : c.isDigit) : isNumberChar c := by
  simp [isNumberChar, h]

theorem isNumberChar_digits (ds : List (Fin 10)) : ∀ c ∈ ds.map digit, isNumberChar c := by
  intro c hc
  obtain ⟨d, -, rfl⟩ := List.mem_map.mp hc
  exact isNumberChar_of_isDigit (isDigit_digit d)

theorem isNumberChar_power (n : NumText) : ∀ c ∈ n.power, isNumberChar c := by
  intro c hc
  unfold NumText.power at hc
  split at hc
  · simp at hc
  · rename_i e hexp
    unfold Exponent.render at hc
    simp only [List.mem_cons, List.mem_append] at hc
    rcases hc with (rfl | hc) | rfl | hc
    · cases e.upper <;> decide
    · rcases hsign : e.sign with _ | minus
      · simp [hsign, signText] at hc
      · cases minus <;> (simp only [hsign, signText, List.mem_singleton] at hc; subst hc; decide)
    · exact isNumberChar_of_isDigit (isDigit_digit _)
    · exact isNumberChar_digits _ c hc

theorem isNumberChar_render (n : NumText) : ∀ c ∈ n.render, isNumberChar c := by
  intro c hc
  unfold NumText.render at hc
  simp only [List.mem_append] at hc
  rcases hc with ((hc | hc) | hc) | hc
  · split at hc
    · obtain rfl := List.mem_singleton.mp hc
      decide
    · simp at hc
  · exact isNumberChar_of_isDigit (isDigit_toDigits _ c hc)
  · unfold NumText.fraction at hc
    split at hc
    · simp at hc
    · rcases List.mem_cons.mp hc with rfl | hc
      · decide
      · exact isNumberChar_digits _ c hc
  · exact isNumberChar_power n c hc

theorem render_eq_cons (n : NumText) : ∃ c cs, n.render = c :: cs ∧ (c = '-' ∨ c.isDigit) := by
  obtain ⟨c, cs, hcons, hc⟩ := toDigits_eq_cons n.int
  unfold NumText.render
  rw [hcons]
  split
  · exact ⟨'-', _, rfl, Or.inl rfl⟩
  · exact ⟨c, _, rfl, Or.inr hc⟩

section

variable {N : Type} (read : NumText → N)

theorem readLiteral_number (n : NumText) {tail : List Char} (h : Ends isNumberChar tail) :
    readLiteral read (n.render ++ tail) = some (.number (read n), tail) := by
  obtain ⟨c, cs, hcons, hc⟩ := render_eq_cons n
  have hne (letter : Char) (hletter : letter ≠ '-' ∧ letter.isDigit = false) (rest : List Char) :
      n.render ++ tail ≠ letter :: rest := by
    rw [hcons]
    rintro heq
    obtain rfl := (List.cons.inj heq).1
    rcases hc with rfl | hc
    · exact hletter.1 rfl
    · rw [hletter.2] at hc
      cases hc
  unfold readLiteral
  split
  · rename_i heq
    exact absurd heq (hne 'n' (by decide) _)
  · rename_i heq
    exact absurd heq (hne 't' (by decide) _)
  · rename_i heq
    exact absurd heq (hne 'f' (by decide) _)
  · rw [takeWhile_run (isNumberChar_render n) h, dropWhile_run (isNumberChar_render n) h, readNumber_render]
    rfl

end

/-! ## Strings -/

theorem readString_piece (piece : Piece) (tail : List Char) :
    readString (piece.render ++ tail) = (readString tail).map fun p => (piece.units ++ p.1, p.2) := by
  cases piece with
  | plain c h =>
    have hc := h
    simp only [isPlain, decide_eq_true_eq] at hc
    change readString (c :: tail) = _
    rw [readString.eq_def]
    split
    · rename_i heq
      cases heq
    · rename_i heq
      exact absurd (List.cons.inj heq).1 hc.1
    · rename_i heq
      exact absurd (List.cons.inj heq).1 hc.2.1
    · rename_i heq
      exact absurd (List.cons.inj heq).1 hc.2.1
    · rename_i heq
      obtain ⟨rfl, rfl⟩ := List.cons.inj heq
      cases readString tail <;> simp [h, Piece.units]
  | short letter c h =>
    have hletter : letter ≠ 'u' := by
      have hnone : unescape 'u' = none := by decide
      rintro rfl
      rw [hnone] at h
      cases h
    change readString ('\x5c' :: letter :: tail) = _
    rw [readString.eq_def]
    split
    · rename_i heq
      cases heq
    · rename_i heq
      exact absurd (List.cons.inj heq).1 (by decide)
    · rename_i heq
      exact absurd (List.cons.inj (List.cons.inj heq).2).1 hletter
    · rename_i heq
      obtain ⟨-, heq⟩ := List.cons.inj heq
      obtain ⟨rfl, rfl⟩ := List.cons.inj heq
      cases readString tail <;> simp [h, Piece.units]
    · rename_i hnot heq
      obtain ⟨rfl, rfl⟩ := List.cons.inj heq
      exact absurd rfl (hnot letter tail rfl)
  | unicode h₁ h₂ h₃ h₄ n h =>
    change readString ('\x5c' :: 'u' :: h₁ :: h₂ :: h₃ :: h₄ :: tail) = _
    rw [readString, h]
    cases readString tail <;> rfl

theorem readString_inner (s : List Piece) (tail : List Char) :
    readString (inner s ++ quote :: tail) = some (units s, tail) := by
  induction s with
  | nil => rfl
  | cons piece s ih =>
    have hcons : inner (piece :: s) ++ quote :: tail = piece.render ++ (inner s ++ quote :: tail) := by
      simp [inner]
    rw [hcons, readString_piece, ih]
    rfl

/-! ## Trees -/

theorem ends_blanks {p : Char → Bool} (hp : ∀ c, isBlank c → p c = false) (blanks : Blanks) {c : Char}
    {tail : List Char} (hc : p c = false) : Ends p (blanks.val ++ c :: tail) := by
  obtain ⟨cs, hcs⟩ := blanks
  cases cs with
  | nil => exact ends_cons hc
  | cons d cs => exact ends_cons (hp d (hcs d (List.mem_cons_self ..)))

theorem not_isNumberChar_of_isBlank {c : Char} (h : isBlank c) : isNumberChar c = false := by
  simp only [isBlank, decide_eq_true_eq] at h
  rcases h with rfl | rfl | rfl | rfl <;> decide

/-- The characters that a tree begins with. -/
def isFirst (c : Char) : Bool :=
  c = quote ∨ c = '[' ∨ c = '{' ∨ c = 'n' ∨ c = 't' ∨ c = 'f' ∨ c = '-' ∨ c.isDigit

theorem Tree.render_eq_cons (t : Tree) : ∃ c cs, t.render = c :: cs ∧ isFirst c := by
  cases t with
  | null => exact ⟨_, _, rfl, by decide⟩
  | bool b => cases b <;> exact ⟨_, _, rfl, by decide⟩
  | number n =>
    obtain ⟨c, cs, hcons, hc⟩ := Json.render_eq_cons n
    refine ⟨c, cs, hcons, ?_⟩
    rcases hc with rfl | hc
    · decide
    · simp [isFirst, hc]
  | string s => exact ⟨quote, _, rfl, by decide⟩
  | emptyArray blanks => exact ⟨'[', _, rfl, by decide⟩
  | array items => exact ⟨'[', _, rfl, by decide⟩
  | emptyObject blanks => exact ⟨'{', _, rfl, by decide⟩
  | object members => exact ⟨'{', _, rfl, by decide⟩

theorem ne_of_isFirst {c d : Char} (hc : isFirst c) (hd : isFirst d = false) : c ≠ d := by
  rintro rfl
  rw [hc] at hd
  cases hd

theorem not_isBlank_of_isFirst {c : Char} (h : isFirst c) : isBlank c = false := by
  by_contra hb
  simp only [Bool.not_eq_false, isBlank, decide_eq_true_eq] at hb
  rcases hb with rfl | rfl | rfl | rfl <;> exact absurd h (by decide)

theorem skipBlanks_tree (blanks : Blanks) (t : Tree) (tail : List Char) :
    skipBlanks (blanks.val ++ (t.render ++ tail)) = t.render ++ tail := by
  obtain ⟨c, cs, hcons, hc⟩ := t.render_eq_cons
  rw [hcons]
  exact skipBlanks_run blanks (ends_cons (not_isBlank_of_isFirst hc))

theorem skipBlanks_items (items : Items) (tail : List Char) :
    ∃ c cs, skipBlanks (items.render ++ tail) = c :: cs ∧ c ≠ ']' := by
  have htree (before : Blanks) (item : Tree) (rest : List Char) :
      ∃ c cs, skipBlanks (before.val ++ (item.render ++ rest)) = c :: cs ∧ c ≠ ']' := by
    obtain ⟨c, cs, hcons, hc⟩ := item.render_eq_cons
    rw [skipBlanks_tree, hcons]
    exact ⟨c, _, rfl, ne_of_isFirst hc (by decide)⟩
  cases items with
  | last before item after => simpa [Items.render] using htree before item (after.val ++ tail)
  | more before item after rest =>
    simpa [Items.render] using htree before item (after.val ++ ',' :: (rest.render ++ tail))

theorem skipBlanks_key (key : Key) (tail : List Char) :
    skipBlanks (key.render ++ tail) = quote :: (inner key.name ++ quote ::
      (key.beforeColon.val ++ ':' :: (key.afterColon.val ++ tail))) := by
  have hrender : key.render ++ tail = key.before.val ++ quote :: (inner key.name ++ quote ::
      (key.beforeColon.val ++ ':' :: (key.afterColon.val ++ tail))) := by
    simp [Key.render, quoted]
  rw [hrender, skipBlanks_run key.before (ends_cons (by decide))]

theorem readKey_render (key : Key) (tail : List Char) :
    readKey (key.render ++ tail) = some (units key.name, key.afterColon.val ++ tail) := by
  have hcolon : skipBlanks (key.beforeColon.val ++ ':' :: (key.afterColon.val ++ tail)) =
      ':' :: (key.afterColon.val ++ tail) := skipBlanks_run key.beforeColon (ends_cons (by decide))
  rw [readKey, skipBlanks_key]
  simp only [quote]
  rw [← quote, readString_inner]
  simp [hcolon]

theorem skipBlanks_members (members : Members) (tail : List Char) :
    ∃ cs, skipBlanks (members.render ++ tail) = quote :: cs := by
  cases members with
  | last key value after =>
    exact ⟨_, by simpa [Members.render] using skipBlanks_key key (value.render ++ (after.val ++ tail))⟩
  | more key value after rest =>
    exact ⟨_, by simpa [Members.render] using
      skipBlanks_key key (value.render ++ (after.val ++ ',' :: (rest.render ++ tail)))⟩

section

variable {N : Type} (read : NumText → N)

mutual

theorem readValue_render : (t : Tree) → {fuel : Nat} → {tail : List Char} → t.render.length ≤ fuel →
    Ends isNumberChar tail → readValue read fuel (t.render ++ tail) = some (t.value read, tail)
  | t, 0, _, hfuel, _ => by
    obtain ⟨c, cs, hcons, -⟩ := t.render_eq_cons
    rw [hcons] at hfuel
    simp at hfuel
  | .null, _ + 1, _, _, _ => rfl
  | .bool true, _ + 1, _, _, _ => rfl
  | .bool false, _ + 1, _, _, _ => rfl
  | .number n, fuel + 1, tail, _, htail => by
    obtain ⟨c, cs, hcons, hc⟩ := render_eq_cons n
    have hliteral := readLiteral_number read n htail
    have hne (d : Char) (hd : d ≠ '-' ∧ d.isDigit = false) : c ≠ d := by
      rintro rfl
      rcases hc with rfl | hc
      · exact hd.1 rfl
      · simp [hd.2] at hc
    simp only [Tree.render, Tree.value]
    rw [hcons, List.cons_append] at hliteral ⊢
    unfold readValue
    rw [if_neg (hne quote (by decide)), if_neg (hne '[' (by decide)), if_neg (hne '{' (by decide)), hliteral]
  | .string s, fuel + 1, tail, _, _ => by
    have hrender : (Tree.string s).render ++ tail = quote :: (inner s ++ quote :: tail) := by
      simp [Tree.render, quoted]
    rw [hrender, readValue, if_pos rfl, readString_inner]
    rfl
  | .emptyArray blanks, fuel + 1, tail, _, _ => by
    have hrender : (Tree.emptyArray blanks).render ++ tail = '[' :: (blanks.val ++ ']' :: tail) := by
      simp [Tree.render]
    rw [hrender, readValue, if_neg (by decide), if_pos rfl, skipBlanks_run blanks (ends_cons (by decide))]
    rfl
  | .array items, fuel + 1, tail, hfuel, _ => by
    have hrender : (Tree.array items).render ++ tail = '[' :: (items.render ++ ']' :: tail) := by
      simp [Tree.render]
    have hitems : items.render.length + 1 ≤ fuel := by
      simp only [Tree.render, List.length_cons, List.length_append, List.length_nil] at hfuel
      omega
    obtain ⟨c, cs, hskip, hc⟩ := skipBlanks_items items (']' :: tail)
    rw [hrender, readValue, if_neg (by decide), if_pos rfl, hskip, readItems_render items hitems]
    split
    · rename_i heq
      exact absurd (List.cons.inj heq).1 hc
    · rfl
  | .emptyObject blanks, fuel + 1, tail, _, _ => by
    have hrender : (Tree.emptyObject blanks).render ++ tail = '{' :: (blanks.val ++ '}' :: tail) := by
      simp [Tree.render]
    rw [hrender, readValue, if_neg (by decide), if_neg (by decide), if_pos rfl,
      skipBlanks_run blanks (ends_cons (by decide))]
    rfl
  | .object members, fuel + 1, tail, hfuel, _ => by
    have hrender : (Tree.object members).render ++ tail = '{' :: (members.render ++ '}' :: tail) := by
      simp [Tree.render]
    have hmembers : members.render.length + 1 ≤ fuel := by
      simp only [Tree.render, List.length_cons, List.length_append, List.length_nil] at hfuel
      omega
    obtain ⟨cs, hskip⟩ := skipBlanks_members members ('}' :: tail)
    rw [hrender, readValue, if_neg (by decide), if_neg (by decide), if_pos rfl, hskip,
      readMembers_render members hmembers]
    rfl

theorem readItems_render : (items : Items) → {fuel : Nat} → {tail : List Char} →
    items.render.length + 1 ≤ fuel →
    readItems read fuel (items.render ++ ']' :: tail) = some (items.values read, tail)
  | _, 0, _, hfuel => by omega
  | .last before item after, fuel + 1, tail, hfuel => by
    have hrender : (Items.last before item after).render ++ ']' :: tail =
        before.val ++ (item.render ++ (after.val ++ ']' :: tail)) := by
      simp [Items.render]
    have hlength : item.render.length ≤ fuel := by
      simp only [Items.render, List.length_append] at hfuel
      omega
    have hitem : readValue read fuel (item.render ++ (after.val ++ ']' :: tail)) =
        some (item.value read, after.val ++ ']' :: tail) :=
      readValue_render item hlength
        (ends_blanks (fun _ => not_isNumberChar_of_isBlank) after (by decide))
    have hafter : skipBlanks (after.val ++ ']' :: tail) = ']' :: tail :=
      skipBlanks_run after (ends_cons (by decide))
    rw [hrender, readItems, skipBlanks_tree, hitem]
    simp [hafter, Items.values]
  | .more before item after rest, fuel + 1, tail, hfuel => by
    have hrender : (Items.more before item after rest).render ++ ']' :: tail =
        before.val ++ (item.render ++ (after.val ++ ',' :: (rest.render ++ ']' :: tail))) := by
      simp [Items.render]
    simp only [Items.render, List.length_append, List.length_cons] at hfuel
    have hlength : item.render.length ≤ fuel := by omega
    have hitem : readValue read fuel (item.render ++ (after.val ++ ',' :: (rest.render ++ ']' :: tail))) =
        some (item.value read, after.val ++ ',' :: (rest.render ++ ']' :: tail)) :=
      readValue_render item hlength
        (ends_blanks (fun _ => not_isNumberChar_of_isBlank) after (by decide))
    have hafter : skipBlanks (after.val ++ ',' :: (rest.render ++ ']' :: tail)) =
        ',' :: (rest.render ++ ']' :: tail) := skipBlanks_run after (ends_cons (by decide))
    have hrest : readItems read fuel (rest.render ++ ']' :: tail) = some (rest.values read, tail) :=
      readItems_render rest (by omega)
    rw [hrender, readItems, skipBlanks_tree, hitem]
    simp [hafter, hrest, Items.values]

theorem readMembers_render : (members : Members) → {fuel : Nat} → {tail : List Char} →
    members.render.length + 1 ≤ fuel →
    readMembers read fuel (members.render ++ '}' :: tail) = some (members.values read, tail)
  | _, 0, _, hfuel => by omega
  | .last key value after, fuel + 1, tail, hfuel => by
    have hrender : (Members.last key value after).render ++ '}' :: tail =
        key.render ++ (value.render ++ (after.val ++ '}' :: tail)) := by
      simp [Members.render]
    have hlength : value.render.length ≤ fuel := by
      simp only [Members.render, List.length_append] at hfuel
      omega
    have hvalue : readValue read fuel (value.render ++ (after.val ++ '}' :: tail)) =
        some (value.value read, after.val ++ '}' :: tail) :=
      readValue_render value hlength
        (ends_blanks (fun _ => not_isNumberChar_of_isBlank) after (by decide))
    have hafter : skipBlanks (after.val ++ '}' :: tail) = '}' :: tail :=
      skipBlanks_run after (ends_cons (by decide))
    rw [hrender, readMembers, readKey_render]
    simp [skipBlanks_tree, hvalue, hafter, Members.values]
  | .more key value after rest, fuel + 1, tail, hfuel => by
    have hrender : (Members.more key value after rest).render ++ '}' :: tail =
        key.render ++ (value.render ++ (after.val ++ ',' :: (rest.render ++ '}' :: tail))) := by
      simp [Members.render]
    simp only [Members.render, List.length_append, List.length_cons] at hfuel
    have hlength : value.render.length ≤ fuel := by omega
    have hvalue : readValue read fuel (value.render ++ (after.val ++ ',' :: (rest.render ++ '}' :: tail))) =
        some (value.value read, after.val ++ ',' :: (rest.render ++ '}' :: tail)) :=
      readValue_render value hlength
        (ends_blanks (fun _ => not_isNumberChar_of_isBlank) after (by decide))
    have hafter : skipBlanks (after.val ++ ',' :: (rest.render ++ '}' :: tail)) =
        ',' :: (rest.render ++ '}' :: tail) := skipBlanks_run after (ends_cons (by decide))
    have hrest : readMembers read fuel (rest.render ++ '}' :: tail) = some (rest.values read, tail) :=
      readMembers_render rest (by omega)
    rw [hrender, readMembers, readKey_render]
    simp [skipBlanks_tree, hvalue, hafter, hrest, Members.values]

end

/-- The parser reads every text of the grammar. -/
theorem parse_render (d : Document) : parse read d.render = some (d.tree.value read) := by
  have hskip : skipBlanks d.render = d.tree.render ++ d.after.val := by
    unfold Document.render
    rw [List.append_assoc, skipBlanks_tree]
  have hafter : skipBlanks d.after.val = [] := by
    have h := skipBlanks_run d.after (show Ends isBlank [] by simp [Ends])
    rwa [List.append_nil] at h
  have hends : Ends isNumberChar d.after.val := by
    intro c hc
    exact not_isNumberChar_of_isBlank (d.after.property c (List.mem_of_mem_head? hc))
  have hlength : d.tree.render.length ≤ d.render.length := by
    simp only [Document.render, List.length_append]
    omega
  unfold parse
  rw [hskip, readValue_render read d.tree hlength hends]
  simp [hafter]

end

end Json
