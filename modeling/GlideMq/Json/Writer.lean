import GlideMq.Json.Parser

/-!
# Writing JSON

Writers put no blanks between tokens. `cjson.encode` escapes control characters, quotes,
backslashes and slashes of a text.
-/

namespace Json

/-! ## Compact trees -/

def compactKey (name : List Piece) : Key where
  before := noBlanks
  name
  beforeColon := noBlanks
  afterColon := noBlanks

def itemsOf (t : Tree) : List Tree → Items
  | [] => .last noBlanks t noBlanks
  | next :: rest => .more noBlanks t noBlanks (itemsOf next rest)

def arrayOf : List Tree → Tree
  | [] => .emptyArray noBlanks
  | t :: ts => .array (itemsOf t ts)

def membersOf (m : List Piece × Tree) : List (List Piece × Tree) → Members
  | [] => .last (compactKey m.1) m.2 noBlanks
  | next :: rest => .more (compactKey m.1) m.2 noBlanks (membersOf next rest)

def objectOf : List (List Piece × Tree) → Tree
  | [] => .emptyObject noBlanks
  | m :: ms => .object (membersOf m ms)

section

variable {N : Type} (read : NumText → N)

theorem values_itemsOf (t : Tree) (ts : List Tree) :
    (itemsOf t ts).values read = (t :: ts).map (Tree.value read) := by
  induction ts generalizing t with
  | nil => rfl
  | cons next rest ih => exact congrArg (_ :: ·) (ih next)

theorem value_arrayOf (ts : List Tree) : (arrayOf ts).value read = .array (ts.map (Tree.value read)) := by
  cases ts with
  | nil => rfl
  | cons t ts => exact congrArg Value.array (values_itemsOf read t ts)

theorem toList_membersOf (m : List Piece × Tree) (ms : List (List Piece × Tree)) :
    (membersOf m ms).toList = m :: ms := by
  induction ms generalizing m with
  | nil => rfl
  | cons next rest ih => exact congrArg (_ :: ·) (ih next)

theorem value_objectOf (ms : List (List Piece × Tree)) :
    (objectOf ms).value read = .object (ms.map fun m => (units m.1, m.2.value read)) := by
  cases ms with
  | nil => rfl
  | cons m ms => rw [objectOf, Tree.value, Members.values_eq, toList_membersOf]

theorem parse_tree (t : Tree) : parse read t.render = some (t.value read) := by
  have h := parse_render read { tree := t }
  have hrender : Document.render { tree := t } = t.render := by simp [Document.render, noBlanks]
  rwa [hrender] at h

end

/-! ## `cjson.encode` of a text -/

theorem unescape_shortEscape {c letter : Char} (h : shortEscape c = some letter) :
    unescape letter = some c := by
  unfold shortEscape at h
  split_ifs at h <;> (cases h; subst c; decide)

theorem hexQuad_control {c : Char} (h : isControl c) :
    hexQuad '0' '0' (hexDigit (c.toNat / 16)) (hexDigit (c.toNat % 16)) = some c.toNat := by
  simp only [isControl, decide_eq_true_eq] at h
  generalize c.toNat = n at h
  rcases h with hlt | rfl
  · interval_cases n <;> decide
  · decide

theorem isPlain_of_escape {c : Char} (hshort : shortEscape c = none) (hcontrol : ¬ isControl c) : isPlain c := by
  have hquote : c ≠ quote := by
    rintro rfl
    exact absurd hshort (by decide)
  have hbackslash : c ≠ backslash := by
    rintro rfl
    exact absurd hshort (by decide)
  simp only [isControl, decide_eq_true_eq, not_or, not_lt] at hcontrol
  simp [isPlain, hquote, hbackslash, hcontrol.1]

def cjsonPiece (c : Char) : Piece :=
  match h : shortEscape c with
  | some letter => .short letter c (unescape_shortEscape h)
  | none =>
    if hc : isControl c then
      .unicode '0' '0' (hexDigit (c.toNat / 16)) (hexDigit (c.toNat % 16)) c.toNat (hexQuad_control hc)
    else .plain c (isPlain_of_escape h hc)

theorem units_cjsonPiece (c : Char) : (cjsonPiece c).units = utf16 c := by
  unfold cjsonPiece
  split
  · rfl
  · split
    · rename_i hc
      simp only [isControl, decide_eq_true_eq] at hc
      have hlt : c.toNat < 0x10000 := by omega
      rw [utf16, if_pos hlt]
      rfl
    · rfl

theorem render_cjsonPiece (c : Char) : (cjsonPiece c).render = escape c := by
  unfold cjsonPiece
  split
  · rename_i letter h
    have hescape : escape c = [backslash, letter] := by rw [escape, h]
    rw [hescape]
    rfl
  · rename_i h
    have hescape : escape c =
        if isControl c then
          [backslash, 'u', '0', '0', hexDigit (c.toNat / 16), hexDigit (c.toNat % 16)]
        else [c] := by rw [escape, h]
    rw [hescape]
    split <;> rfl

def textTree (text : List Char) : Tree := .string (text.map cjsonPiece)

theorem units_map_cjsonPiece (text : List Char) : units (text.map cjsonPiece) = utf16Text text := by
  unfold units utf16Text
  rw [List.flatMap_map]
  simp [units_cjsonPiece]

theorem value_textTree {N : Type} (read : NumText → N) (text : List Char) :
    (textTree text).value read = .string (utf16Text text) := by
  rw [textTree, Tree.value, units_map_cjsonPiece]

theorem render_textTree (text : List Char) : (textTree text).render = writeText text := by
  unfold textTree Tree.render quoted inner writeText
  rw [List.flatMap_map]
  simp [render_cjsonPiece]

theorem render_arrayOf_texts (texts : List (List Char)) :
    (arrayOf (texts.map textTree)).render = writeArray texts := by
  have hrest (text : List Char) (texts : List (List Char)) :
      (itemsOf (textTree text) (texts.map textTree)).render ++ [']'] = writeText text ++ writeRest texts := by
    induction texts generalizing text with
    | nil => simp [itemsOf, Items.render, noBlanks, render_textTree, writeRest]
    | cons next texts ih =>
      have h := ih next
      simp only [List.map_cons, itemsOf, Items.render, noBlanks, render_textTree, List.nil_append,
        List.append_nil, writeRest]
      rw [List.append_assoc, List.cons_append, h]
      rfl
  cases texts with
  | nil => rfl
  | cons text texts =>
    have h := hrest text texts
    simp only [List.map_cons, arrayOf, Tree.render, writeArray]
    rw [List.cons_append, h]
    rfl

end Json
