import GlideMq.Lua.Json
import Mathlib.Data.Rat.Defs
import Mathlib.Algebra.Order.Field.Rat

/-!
# JSON texts

A JSON text as a tree that keeps every character: blanks, escapes and digits stay as written.
`render` is the text and `value` what it denotes. Strings denote UTF-16 code units, what a number
denotes is a parameter.
-/

namespace Json

def isBlank (c : Char) : Bool := c = ' ' ∨ c = '\t' ∨ c = '\n' ∨ c = '\r'

/-- What may stand between two tokens. -/
abbrev Blanks := {cs : List Char // ∀ c ∈ cs, isBlank c}

def noBlanks : Blanks := ⟨[], by simp⟩

/-! ## Strings -/

/-- A character that a string holds as it is. -/
def isPlain (c : Char) : Bool := c ≠ quote ∧ c ≠ backslash ∧ 32 ≤ c.toNat

/-- The value of four hexadecimal digits. -/
def hexQuad (a b c d : Char) : Option Nat := do
  return (((← hexValue a) * 16 + (← hexValue b)) * 16 + (← hexValue c)) * 16 + (← hexValue d)

/-- The code units of a character. -/
def utf16 (c : Char) : List UInt16 :=
  if c.toNat < 0x10000 then [UInt16.ofNat c.toNat]
  else
    let n := c.toNat - 0x10000
    [UInt16.ofNat (0xD800 + n / 0x400), UInt16.ofNat (0xDC00 + n % 0x400)]

/-- The code units of a text. -/
def utf16Text (text : List Char) : List UInt16 := text.flatMap utf16

/-- A piece of a string as it is written. -/
inductive Piece where
  | plain (c : Char) (h : isPlain c)
  | short (letter c : Char) (h : unescape letter = some c)
  | unicode (h₁ h₂ h₃ h₄ : Char) (n : Nat) (h : hexQuad h₁ h₂ h₃ h₄ = some n)

def Piece.render : Piece → List Char
  | .plain c _ => [c]
  | .short letter _ _ => [backslash, letter]
  | .unicode h₁ h₂ h₃ h₄ _ _ => [backslash, 'u', h₁, h₂, h₃, h₄]

def Piece.units : Piece → List UInt16
  | .plain c _ => utf16 c
  | .short _ c _ => utf16 c
  | .unicode _ _ _ _ n _ => [UInt16.ofNat n]

/-- The text between the quotes. -/
def inner (s : List Piece) : List Char := s.flatMap Piece.render

def quoted (s : List Piece) : List Char := quote :: inner s ++ [quote]

def units (s : List Piece) : List UInt16 := s.flatMap Piece.units

/-! ## Numbers -/

def digit (d : Fin 10) : Char := Char.ofNat (48 + d)

structure Exponent where
  upper : Bool
  /-- Whether the sign that is written is a minus. -/
  sign : Option Bool
  first : Fin 10
  rest : List (Fin 10)
  deriving DecidableEq

/-- A number as it is written. Its integer part has no leading zero. -/
structure NumText where
  negative : Bool := false
  int : Nat
  /-- The digits after the point. Without any there is no point. -/
  frac : List (Fin 10) := []
  exponent : Option Exponent := none
  deriving DecidableEq

def signText : Option Bool → List Char
  | none => []
  | some true => ['-']
  | some false => ['+']

def Exponent.render (e : Exponent) : List Char :=
  (if e.upper then 'E' else 'e') :: signText e.sign ++ digit e.first :: e.rest.map digit

def NumText.fraction (n : NumText) : List Char := if n.frac = [] then [] else '.' :: n.frac.map digit

def NumText.power (n : NumText) : List Char :=
  match n.exponent with
  | none => []
  | some e => e.render

def NumText.render (n : NumText) : List Char :=
  (if n.negative then ['-'] else []) ++ Nat.toDigits 10 n.int ++ n.fraction ++ n.power

def ofDigits (n : Nat) (ds : List (Fin 10)) : Nat := ds.foldl (fun n (d : Fin 10) => 10 * n + d.val) n

def Exponent.exact (e : Exponent) : Int :=
  let n : Int := ofDigits e.first e.rest
  if e.sign = some true then -n else n

/-- The number, exactly. -/
def NumText.exact (n : NumText) : Rat :=
  let power : Int := (n.exponent.map Exponent.exact).getD 0 - n.frac.length
  let magnitude := (ofDigits n.int n.frac : Rat) * 10 ^ power
  if n.negative then -magnitude else magnitude

/-! ## Trees -/

/-- What a text denotes. An object has its members as they are written. -/
inductive Value (N : Type) where
  | null
  | bool (b : Bool)
  | number (n : N)
  | string (s : List UInt16)
  | array (items : List (Value N))
  | object (members : List (List UInt16 × Value N))

/-- A property of an object: the last member of the name. -/
def property {N : Type} (name : List Char) (members : List (List UInt16 × Value N)) : Option (Value N) :=
  members.reverse.lookup (utf16Text name)

/-- A key and its colon. -/
structure Key where
  before : Blanks
  name : List Piece
  beforeColon : Blanks
  afterColon : Blanks

def Key.render (key : Key) : List Char :=
  key.before.val ++ quoted key.name ++ key.beforeColon.val ++ ':' :: key.afterColon.val

mutual

inductive Tree where
  | null
  | bool (b : Bool)
  | number (n : NumText)
  | string (s : List Piece)
  | emptyArray (blanks : Blanks)
  | array (items : Items)
  | emptyObject (blanks : Blanks)
  | object (members : Members)

/-- The items of an array, one at least. -/
inductive Items where
  | last (before : Blanks) (item : Tree) (after : Blanks)
  | more (before : Blanks) (item : Tree) (after : Blanks) (rest : Items)

/-- The members of an object, one at least. -/
inductive Members where
  | last (key : Key) (value : Tree) (after : Blanks)
  | more (key : Key) (value : Tree) (after : Blanks) (rest : Members)

end

mutual

def Tree.render : Tree → List Char
  | .null => ['n', 'u', 'l', 'l']
  | .bool true => ['t', 'r', 'u', 'e']
  | .bool false => ['f', 'a', 'l', 's', 'e']
  | .number n => n.render
  | .string s => quoted s
  | .emptyArray blanks => '[' :: blanks.val ++ [']']
  | .array items => '[' :: items.render ++ [']']
  | .emptyObject blanks => '{' :: blanks.val ++ ['}']
  | .object members => '{' :: members.render ++ ['}']

def Items.render : Items → List Char
  | .last before item after => before.val ++ item.render ++ after.val
  | .more before item after rest => before.val ++ item.render ++ after.val ++ ',' :: rest.render

def Members.render : Members → List Char
  | .last key value after => key.render ++ value.render ++ after.val
  | .more key value after rest => key.render ++ value.render ++ after.val ++ ',' :: rest.render

end

/-- The members, one after another. -/
def Members.toList : Members → List (List Piece × Tree)
  | .last key value _ => [(key.name, value)]
  | .more key value _ rest => (key.name, value) :: rest.toList

/-- The members of an object. -/
def Tree.members : Tree → List (List Piece × Tree)
  | .object members => members.toList
  | _ => []

section

variable {N : Type} (read : NumText → N)

mutual

def Tree.value : Tree → Value N
  | .null => .null
  | .bool b => .bool b
  | .number n => .number (read n)
  | .string s => .string (units s)
  | .emptyArray _ => .array []
  | .array items => .array items.values
  | .emptyObject _ => .object []
  | .object members => .object members.values

def Items.values : Items → List (Value N)
  | .last _ item _ => [item.value]
  | .more _ item _ rest => item.value :: rest.values

def Members.values : Members → List (List UInt16 × Value N)
  | .last key value _ => [(units key.name, value.value)]
  | .more key value _ rest => (units key.name, value.value) :: rest.values

end

end

/-- A whole text, with blanks around the tree. -/
structure Document where
  before : Blanks := noBlanks
  tree : Tree
  after : Blanks := noBlanks

def Document.render (d : Document) : List Char := d.before.val ++ d.tree.render ++ d.after.val

theorem Members.values_eq {N : Type} (read : NumText → N) :
    (members : Members) → members.values read = members.toList.map fun m => (units m.1, m.2.value read)
  | .last _ _ _ => rfl
  | .more _ _ _ rest => congrArg (_ :: ·) (values_eq read rest)

end Json
