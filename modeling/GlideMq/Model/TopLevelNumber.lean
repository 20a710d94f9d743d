import GlideMq.Json.Parser

/-!
# A number in an entry

The server changes the next run of a scheduler in the text of its entry, so that the other numbers
of the text stay as they are.
-/

namespace GlideMq

open Json

/-- `%s`. -/
def isLuaSpace (c : Char) : Bool := c = ' ' ∨ c = '\t' ∨ c = '\n' ∨ c = '\x0b' ∨ c = '\x0c' ∨ c = '\r'

/-- What follows the key, with its number replaced, or nil. There is no result if what follows is not
a colon. -/
def replaceAfterKey (replacement after : List Char) : Option (Option (List Char)) :=
  match after.dropWhile isLuaSpace with
  | ':' :: rest =>
    let value := rest.dropWhile isLuaSpace
    -- the class of `^-?[%d%.eE%+%-]+` has the sign
    if value.takeWhile isNumberChar = [] then some none
    else
      match value.dropWhile isNumberChar with
      | [] => some none
      | nextChar :: tail =>
        if nextChar = ',' ∨ nextChar = '}' ∨ isLuaSpace nextChar then
          some (some (after.takeWhile isLuaSpace ++ ':' :: rest.takeWhile isLuaSpace ++ replacement ++
            nextChar :: tail))
        else some none
  | _ => none

/-- The loop, from a position on. -/
def scan (target replacement : List Char) (depth : Int) (inString escaped : Bool) :
    List Char → Option (List Char)
  | [] => none
  | char :: rest =>
    if inString then
      if escaped then (scan target replacement depth true false rest).map (char :: ·)
      else if char = backslash then (scan target replacement depth true true rest).map (char :: ·)
      else (scan target replacement depth (char ≠ quote) false rest).map (char :: ·)
    else if char = quote then
      match if depth = 1 ∧ target <+: char :: rest then
          replaceAfterKey replacement ((char :: rest).drop target.length) else none with
      | some result => result.map (target ++ ·)
      | none => (scan target replacement depth true escaped rest).map (char :: ·)
    else if char = '{' ∨ char = '[' then
      (scan target replacement (depth + 1) false escaped rest).map (char :: ·)
    else if char = '}' ∨ char = ']' then
      (scan target replacement (depth - 1) false escaped rest).map (char :: ·)
    else (scan target replacement depth false escaped rest).map (char :: ·)

def replaceTopLevelJsonNumber (raw field replacement : List Char) : Option (List Char) :=
  scan (quote :: field ++ [quote]) replacement 0 false false raw

end GlideMq
