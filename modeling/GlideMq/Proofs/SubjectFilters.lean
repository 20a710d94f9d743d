import Mathlib.Tactic.Common
import GlideMq.Model.Subject

/-!
# Which subjects a filter lets through

A pattern describes a set of subjects. The matcher decides it, and throws only where it comes to a `>`
that is not the last token.
-/

namespace GlideMq

/-- `*` stands for one segment, a last `>` for one or more. -/
inductive SubjectMatches : List String → List String → Prop
  | done : SubjectMatches [] []
  | rest (part : String) (subParts : List String) : SubjectMatches [">"] (part :: subParts)
  | any {patParts subParts : List String} (part : String) (h : SubjectMatches patParts subParts) :
    SubjectMatches ("*" :: patParts) (part :: subParts)
  | literal {patParts subParts : List String} (token : String) (hne : token ≠ ">")
    (h : SubjectMatches patParts subParts) : SubjectMatches (token :: patParts) (token :: subParts)

variable {patParts subParts : List String}

/-- The tokens before a `>` that is not the last one match the first segments. -/
def MeetsWildcard (patParts subParts : List String) : Prop :=
  ∃ before after head tail, patParts = before ++ ">" :: after ∧ after ≠ [] ∧ subParts = head ++ tail ∧
    ">" ∉ before ∧ SubjectMatches before head

theorem SubjectMatches.token {token part : String} (h : SubjectMatches (token :: patParts) (part :: subParts))
    (hne : token ≠ ">") : (token = "*" ∨ token = part) ∧ SubjectMatches patParts subParts := by
  cases h with
  | rest => exact absurd rfl hne
  | any _ h => exact ⟨.inl rfl, h⟩
  | literal _ _ h => exact ⟨.inr rfl, h⟩

theorem SubjectMatches.wildcard {token : String} (h : SubjectMatches (token :: patParts) subParts)
    (htoken : token = ">") : patParts = [] := by
  cases h with
  | rest => rfl
  | any => exact absurd htoken (by decide)
  | literal _ hne => exact absurd htoken hne

theorem SubjectMatches.ne_nil {token : String} (h : SubjectMatches (token :: patParts) subParts) :
    subParts ≠ [] := by
  cases h <;> exact List.cons_ne_nil _ _

theorem SubjectMatches.cons {token part : String} (h : SubjectMatches patParts subParts) (hne : token ≠ ">")
    (htoken : token = "*" ∨ token = part) : SubjectMatches (token :: patParts) (part :: subParts) := by
  rcases htoken with rfl | rfl
  · exact .any part h
  · exact .literal token hne h

theorem matchParts_cons {token part : String} (hne : token ≠ ">") :
    matchParts (token :: patParts) (part :: subParts) =
      if token = "*" ∨ token = part then matchParts patParts subParts else .ok false := by
  rw [matchParts, if_neg hne]
  by_cases htoken : token = "*" ∨ token = part
  · rw [if_pos htoken, if_neg (by tauto)]
  · rw [if_neg htoken, if_pos (by tauto)]

theorem matchParts_wildcard : matchParts (">" :: patParts) subParts =
    if patParts ≠ [] then .error "`>` wildcard must be the last token in a subject pattern"
    else .ok (!subParts.isEmpty) := by
  cases subParts <;> rw [matchParts, if_pos rfl]

theorem matchParts_true_iff : matchParts patParts subParts = .ok true ↔ SubjectMatches patParts subParts := by
  induction patParts generalizing subParts with
  | nil =>
    cases subParts with
    | nil => exact ⟨fun _ => .done, fun _ => rfl⟩
    | cons part subParts => exact ⟨nofun, nofun⟩
  | cons token patParts ih =>
    by_cases hwild : token = ">"
    · subst hwild
      rw [matchParts_wildcard]
      cases patParts with
      | nil =>
        cases subParts with
        | nil =>
          constructor
          · intro h
            simp at h
          · intro h
            exact absurd rfl h.ne_nil
        | cons part subParts => exact ⟨fun _ => .rest part subParts, fun _ => rfl⟩
      | cons next patParts =>
        rw [if_pos (List.cons_ne_nil next patParts)]
        refine ⟨nofun, fun h => ?_⟩
        cases h.wildcard rfl
    · cases subParts with
      | nil =>
        rw [matchParts, if_neg hwild]
        exact ⟨nofun, nofun⟩
      | cons part subParts =>
        rw [matchParts_cons hwild]
        constructor
        · intro h
          split at h
          · rename_i htoken
            exact (ih.mp h).cons hwild htoken
          · cases h
        · intro h
          obtain ⟨htoken, hrest⟩ := h.token hwild
          rw [if_pos htoken]
          exact ih.mpr hrest

example : matchParts ["projects", "*", ">"] ["projects", "1", "issues", "2"] = .ok true := rfl

theorem matchParts_error_iff :
    (∃ e, matchParts patParts subParts = .error e) ↔ MeetsWildcard patParts subParts := by
  induction patParts generalizing subParts with
  | nil =>
    constructor
    · rintro ⟨e, h⟩
      cases h
    · rintro ⟨before, after, head, tail, hpat, -⟩
      cases before <;> cases hpat
  | cons token patParts ih =>
    by_cases hwild : token = ">"
    · subst hwild
      rw [matchParts_wildcard]
      by_cases hlast : patParts = []
      · subst hlast
        constructor
        · rintro ⟨e, h⟩
          cases h
        · rintro ⟨before, after, head, tail, hpat, hafter, -⟩
          cases before with
          | nil =>
            cases hpat
            exact absurd rfl hafter
          | cons first before =>
            obtain ⟨-, hnil⟩ := List.cons.inj hpat
            cases before <;> cases hnil
      · rw [if_pos hlast]
        exact ⟨fun _ => ⟨[], patParts, [], subParts, rfl, hlast, rfl, List.not_mem_nil, .done⟩, fun _ => ⟨_, rfl⟩⟩
    · cases subParts with
      | nil =>
        rw [matchParts, if_neg hwild]
        constructor
        · rintro ⟨e, h⟩
          cases h
        · rintro ⟨before, after, head, tail, hpat, -, hsub, -, hmatch⟩
          obtain ⟨rfl, -⟩ := List.append_eq_nil_iff.mp hsub.symm
          cases hmatch with
          | done =>
            cases hpat
            exact absurd rfl hwild
      | cons part subParts =>
        rw [matchParts_cons hwild]
        by_cases htoken : token = "*" ∨ token = part
        · rw [if_pos htoken, ih]
          constructor
          · rintro ⟨before, after, head, tail, rfl, hafter, rfl, hnot, hmatch⟩
            refine ⟨token :: before, after, part :: head, tail, rfl, hafter, rfl, ?_, hmatch.cons hwild htoken⟩
            intro hmem
            rcases List.mem_cons.mp hmem with rfl | hmem
            · exact hwild rfl
            · exact hnot hmem
          · rintro ⟨before, after, head, tail, hpat, hafter, hsub, hnot, hmatch⟩
            cases before with
            | nil =>
              cases hpat
              exact absurd rfl hwild
            | cons first before =>
              cases hpat
              cases head with
              | nil => cases hmatch
              | cons first' head =>
                cases hsub
                exact ⟨before, after, head, tail, rfl, hafter, rfl, fun hmem => hnot (List.mem_cons_of_mem _ hmem),
                  (hmatch.token hwild).2⟩
        · rw [if_neg htoken]
          constructor
          · rintro ⟨e, h⟩
            cases h
          · rintro ⟨before, after, head, tail, hpat, hafter, hsub, hnot, hmatch⟩
            cases before with
            | nil =>
              cases hpat
              exact absurd rfl hwild
            | cons first before =>
              cases hpat
              cases head with
              | nil => cases hmatch
              | cons first' head =>
                cases hsub
                exact absurd (hmatch.token hwild).1 htoken

/-- The subjects of a pattern. -/
def InSubject (pattern subject : String) : Prop := SubjectMatches (pattern.splitOn ".") (subject.splitOn ".")

/-- The pattern has a `>` that is not the last token, and the matcher comes to it. -/
def ThrowsOn (pattern subject : String) : Prop := MeetsWildcard (pattern.splitOn ".") (subject.splitOn ".")

theorem matchSubject_error_iff {pattern subject : String} :
    (∃ e, matchSubject pattern subject = .error e) ↔ ThrowsOn pattern subject :=
  matchParts_error_iff

theorem matchSome_true_iff {patterns : List String} {subject : String} :
    matchSome patterns subject = .ok true ↔
      ∃ before p after, patterns = before ++ p :: after ∧ InSubject p subject ∧ ∀ q ∈ before, ¬ ThrowsOn q subject := by
  induction patterns with
  | nil =>
    constructor
    · intro h
      cases h
    · rintro ⟨before, p, after, hpatterns, -⟩
      cases before <;> cases hpatterns
  | cons p patterns ih =>
    rw [matchSome]
    cases hfirst : matchSubject p subject with
    | error e =>
      have hthrows : ThrowsOn p subject := matchSubject_error_iff.mp ⟨e, hfirst⟩
      refine ⟨nofun, ?_⟩
      rintro ⟨before, q, after, hpatterns, hin, hbefore⟩
      cases before with
      | nil =>
        cases hpatterns
        have htrue : matchSubject p subject = .ok true := matchParts_true_iff.mpr hin
        rw [hfirst] at htrue
        cases htrue
      | cons first before =>
        cases hpatterns
        exact absurd hthrows (hbefore p List.mem_cons_self)
    | ok r =>
      have hquiet : ¬ ThrowsOn p subject := by
        intro hthrows
        obtain ⟨e, he⟩ := matchSubject_error_iff.mpr hthrows
        rw [hfirst] at he
        cases he
      cases r with
      | true => exact ⟨fun _ => ⟨[], p, patterns, rfl, matchParts_true_iff.mp hfirst, by simp⟩, fun _ => rfl⟩
      | false =>
        dsimp only
        rw [ih]
        constructor
        · rintro ⟨before, q, after, rfl, hin, hbefore⟩
          refine ⟨p :: before, q, after, rfl, hin, fun d hd => ?_⟩
          rcases List.mem_cons.mp hd with rfl | hd
          · exact hquiet
          · exact hbefore d hd
        · rintro ⟨before, q, after, hpatterns, hin, hbefore⟩
          cases before with
          | nil =>
            cases hpatterns
            have htrue : matchSubject p subject = .ok true := matchParts_true_iff.mpr hin
            rw [hfirst] at htrue
            cases htrue
          | cons first before =>
            cases hpatterns
            exact ⟨before, q, after, rfl, hin, fun d hd => hbefore d (List.mem_cons_of_mem _ hd)⟩

/-- There is a filter if there is a pattern. It lets a subject through exactly if the subject is in some
pattern and no pattern before that one throws on it. -/
theorem filter_lets_through (patterns : Option (List String)) :
    (compileSubjectMatcher patterns = none ↔ patterns.getD [] = []) ∧
      (∀ matcher ∈ compileSubjectMatcher patterns, ∀ subject,
        matcher subject = .ok true ↔ ∃ before p after, patterns.getD [] = before ++ p :: after ∧
          InSubject p subject ∧ ∀ q ∈ before, ¬ ThrowsOn q subject) ∧
      ∀ p subject, (∃ e, matchSubject p subject = .error e) ↔ ThrowsOn p subject := by
  match patterns with
  | none => exact ⟨⟨fun _ => rfl, fun _ => rfl⟩, nofun, fun _ _ => matchSubject_error_iff⟩
  | some [] => exact ⟨⟨fun _ => rfl, fun _ => rfl⟩, nofun, fun _ _ => matchSubject_error_iff⟩
  | some [p] =>
    -- The filter of one pattern is the pattern itself, with no pattern before it.
    refine ⟨⟨nofun, nofun⟩, ?_, fun _ _ => matchSubject_error_iff⟩
    intro matcher hmatcher subject
    cases hmatcher
    constructor
    · intro h
      exact ⟨[], p, [], rfl, matchParts_true_iff.mp h, by simp⟩
    · rintro ⟨before, q, after, hpatterns, hin, -⟩
      cases before with
      | nil =>
        cases hpatterns
        exact matchParts_true_iff.mpr hin
      | cons first before =>
        obtain ⟨-, hnil⟩ := List.cons.inj hpatterns
        cases before <;> cases hnil
  | some (p :: q :: patterns) =>
    refine ⟨⟨nofun, nofun⟩, ?_, fun _ _ => matchSubject_error_iff⟩
    intro matcher hmatcher subject
    cases hmatcher
    exact matchSome_true_iff

end GlideMq
