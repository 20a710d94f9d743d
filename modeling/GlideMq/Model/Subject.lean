/-!
# Subjects

`matchSubject` and `compileSubjectMatcher` of `utils.ts`, the filter of a broadcast subscription.
Subjects and patterns are texts in segments.
-/

namespace GlideMq

/-- The loop of `matchSubject` on what is left of both. -/
def matchParts : List String → List String → Except String Bool
  | [], subParts => .ok (subParts.isEmpty)
  | token :: patParts, subParts =>
    if token = ">" then
      if patParts ≠ [] then .error "`>` wildcard must be the last token in a subject pattern"
      else .ok (!subParts.isEmpty)
    else
      match subParts with
      | [] => .ok false
      | part :: subParts =>
        if token ≠ "*" ∧ token ≠ part then .ok false else matchParts patParts subParts

def matchSubject (pattern subject : String) : Except String Bool :=
  matchParts (pattern.splitOn ".") (subject.splitOn ".")

/-- `patterns.some`, which stops at the first match. -/
def matchSome : List String → String → Except String Bool
  | [], _ => .ok false
  | p :: patterns, subject =>
    match matchSubject p subject with
    | .error e => .error e
    | .ok true => .ok true
    | .ok false => matchSome patterns subject

/-- Without a pattern there is no filter. -/
def compileSubjectMatcher : Option (List String) → Option (String → Except String Bool)
  | none => none
  | some [] => none
  | some [p] => some (matchSubject p)
  | some patterns => some (matchSome patterns)

end GlideMq
