import GlideMq.Model.CronPattern
import Mathlib.Data.Int.ConditionallyCompleteOrder
import Mathlib.Data.Set.Insert
import Mathlib.Order.Interval.Set.Defs

/-!
# The language of cron patterns

Patterns as texts with a meaning: a field is a list of parts, a part is a set of values or a
modifier of days. Nothing here reads a text.
-/

namespace GlideMq.CronGrammar

/-! ## Values -/

def IsNumber (t : Token) (n : ℕ) : Prop := t ≠ [] ∧ (∀ c ∈ t, c.isDigit) ∧ Nat.ofDigitChars 10 t 0 = n

/-- A number, or a name in any case. -/
def IsValue (spec : CronFieldSpec) (t : Token) (v : ℤ) : Prop :=
  (∃ n : ℕ, IsNumber t n ∧ v = n) ∨ ∃ name, (name, v) ∈ spec.names ∧ t.map toUpper = name.toList

/-! ## Parts -/

/-- Every so many values from the first one to the last. -/
def steps (first last : ℤ) (n : ℕ) : Set ℤ := {v | v ≤ last ∧ ∃ k : ℕ, v = first + k * n}

/-- The values that a part of a list stands for. Without an end a step goes on to the end of the field. -/
inductive PlainPart (spec : CronFieldSpec) : Token → Set ℤ → Prop where
  | all : PlainPart spec ['*'] (Set.Icc spec.min spec.max)
  | any (h : spec.allowQuestion) : PlainPart spec ['?'] (Set.Icc spec.min spec.max)
  | allStep {s : Token} {n : ℕ} (hs : IsNumber s n) (hn : 0 < n) :
    PlainPart spec ('*' :: '/' :: s) (steps spec.min spec.max n)
  | value {t : Token} {v : ℤ} (ht : IsValue spec t v) (hv : v ∈ Set.Icc spec.min spec.max) :
    PlainPart spec t {v}
  | valueStep {t s : Token} {v : ℤ} {n : ℕ} (ht : IsValue spec t v) (hv : v ∈ Set.Icc spec.min spec.max)
    (hs : IsNumber s n) (hn : 0 < n) : PlainPart spec (t ++ '/' :: s) (steps v spec.max n)
  | range {t u : Token} {v w : ℤ} (ht : IsValue spec t v) (hu : IsValue spec u w) (hv : spec.min ≤ v)
    (hvw : v ≤ w) (hw : w ≤ spec.max) : PlainPart spec (t ++ '-' :: u) (Set.Icc v w)
  | rangeStep {t u s : Token} {v w : ℤ} {n : ℕ} (ht : IsValue spec t v) (hu : IsValue spec u w)
    (hv : spec.min ≤ v) (hvw : v ≤ w) (hw : w ≤ spec.max) (hs : IsNumber s n) (hn : 0 < n) :
    PlainPart spec ((t ++ '-' :: u) ++ '/' :: s) (steps v w n)

inductive DayModifier where
  /-- The last day of the month. -/
  | last
  /-- The last day of the month from Monday to Friday. -/
  | lastWeekday
  /-- The day from Monday to Friday that is nearest to the day. -/
  | nearest (day : ℤ)
  /-- The last such day of the week. -/
  | lastOf (dow : ℤ)
  /-- The nth such day of the week. -/
  | nth (dow n : ℤ)

inductive DomPart : Token → DayModifier → Prop where
  | last {t : Token} (ht : t.map toUpper = ['L']) : DomPart t .last
  | lastWeekday {t : Token} (ht : t.map toUpper = ['L', 'W']) : DomPart t .lastWeekday
  | nearest {t : Token} {c : Char} {n : ℕ} (ht : IsNumber t n) (hc : toUpper c = 'W') (hn : 1 ≤ n ∧ n ≤ 31) :
    DomPart (t ++ [c]) (.nearest n)

inductive DowPart : Token → DayModifier → Prop where
  | last {t : Token} {c : Char} {d : ℤ} (ht : IsValue cronDow t d) (hd : 0 ≤ d ∧ d ≤ 7)
    (hc : c = 'L' ∨ c = 'l') : DowPart (t ++ [c]) (.lastOf (d % 7))
  | nth {t s : Token} {d : ℤ} {n : ℕ} (ht : IsValue cronDow t d) (hd : 0 ≤ d ∧ d ≤ 7) (hs : IsNumber s n)
    (hn : 1 ≤ n ∧ n ≤ 5) : DowPart (t ++ '#' :: s) (.nth (d % 7) n)

/-- Fields other than the days have no modifiers. -/
def noModifier (_ : Token) (_ : DayModifier) : Prop := False

/-! ## Fields -/

inductive Meaning where
  | values (s : Set ℤ)
  | modifier (m : DayModifier)

inductive PartOf (spec : CronFieldSpec) (special : Token → DayModifier → Prop) : Token → Meaning → Prop where
  | plain {t : Token} {s : Set ℤ} (h : PlainPart spec t s) : PartOf spec special t (.values s)
  | modifier {t : Token} {m : DayModifier} (h : special t m) : PartOf spec special t (.modifier m)

/-- A list of parts, one at least. -/
structure FieldText (spec : CronFieldSpec) (special : Token → DayModifier → Prop) where
  parts : List (Token × Meaning)
  nonempty : parts ≠ []
  ok : ∀ p ∈ parts, PartOf spec special p.1 p.2

namespace FieldText

variable {spec : CronFieldSpec} {special : Token → DayModifier → Prop} (f : FieldText spec special)

def text : Token := [','].intercalate (f.parts.map (·.1))

def values : Set ℤ := {v | ∃ p ∈ f.parts, ∃ s, p.2 = .values s ∧ v ∈ s}

def modifiers : Set DayModifier := {m | ∃ p ∈ f.parts, p.2 = .modifier m}

/-- One of the parts is `*`, with or without a step, or `?`. -/
def HasWildcard : Prop := ∃ p ∈ f.parts, p.1 = ['*'] ∨ p.1 = ['?'] ∨ ∃ s, p.1 = '*' :: '/' :: s

end FieldText

/-! ## Patterns -/

def IsWord (t : Token) : Prop := t ≠ [] ∧ ∀ c ∈ t, isSpace c = false

def Blank (t : Token) : Prop := ∀ c ∈ t, isSpace c

/-- The text is the words, with blanks between them, and maybe around. -/
inductive Spaced : List Token → Token → Prop where
  | last {before t after : Token} (hbefore : Blank before) (ht : IsWord t) (hafter : Blank after) :
    Spaced [t] (before ++ t ++ after)
  | more {before t rest : Token} {ts : List Token} {c : Char} (hbefore : Blank before) (ht : IsWord t)
    (hc : isSpace c) (hrest : Spaced ts rest) : Spaced (t :: ts) (before ++ t ++ c :: rest)

/-- The five fields, or six with the seconds. -/
structure PatternText where
  second : Option (FieldText cronSecond noModifier)
  minute : FieldText cronMinute noModifier
  hour : FieldText cronHour noModifier
  dom : FieldText cronDom DomPart
  month : FieldText cronMonth noModifier
  dow : FieldText cronDow DowPart

namespace PatternText

variable (p : PatternText)

def fields : List Token :=
  (p.second.map FieldText.text).toList ++
    [p.minute.text, p.hour.text, p.dom.text, p.month.text, p.dow.text]

def Writes (pattern : String) : Prop := Spaced p.fields pattern.toList

/-- Without the field a pattern is due at the start of the minute. -/
def seconds : Set ℤ :=
  match p.second with
  | none => {0}
  | some field => field.values

/-- The days of the week. 7 is a second Sunday. -/
def weekdays : Set ℤ := {d | ∃ v ∈ p.dow.values, d = v % 7}

end PatternText

/-- The parsed pattern is what the text stands for. -/
structure Denotes (p : PatternText) (cron : CronPattern) : Prop where
  second : ∀ v, v ∈ cron.second ↔ v ∈ p.seconds
  minute : ∀ v, v ∈ cron.minute ↔ v ∈ p.minute.values
  hour : ∀ v, v ∈ cron.hour ↔ v ∈ p.hour.values
  dom : ∀ v, v ∈ cron.dom ↔ v ∈ p.dom.values
  month : ∀ v, v ∈ cron.month ↔ v ∈ p.month.values
  dow : ∀ v, v ∈ cron.dow ↔ v ∈ p.weekdays
  domLast : cron.domLast ↔ .last ∈ p.dom.modifiers
  domLastWeekday : cron.domLastWeekday ↔ .lastWeekday ∈ p.dom.modifiers
  domNearestWeekday : ∀ n, n ∈ cron.domNearestWeekday ↔ .nearest n ∈ p.dom.modifiers
  dowLast : ∀ d, d ∈ cron.dowLast ↔ .lastOf d ∈ p.dow.modifiers
  dowNth : ∀ d n, (d, n) ∈ cron.dowNth ↔ .nth d n ∈ p.dow.modifiers
  hasSeconds : cron.hasSeconds = p.second.isSome
  wildcardTime : cron.wildcardTime ↔ p.minute.HasWildcard ∨ p.hour.HasWildcard
  domUnrestricted : cron.domUnrestricted ↔ p.dom.values = Set.Icc 1 31
  dowUnrestricted : cron.dowUnrestricted ↔ p.weekdays = Set.Icc 0 6 ∧ p.dow.HasWildcard
  /-- Of a single part that is `*`, `?` and `*/1`. -/
  dowUnrestricted_single : ∀ t m, p.dow.parts = [(t, m)] →
    (cron.dowUnrestricted ↔ t = ['*'] ∨ t = ['?'] ∨ ∃ s, IsNumber s 1 ∧ t = '*' :: '/' :: s)

end GlideMq.CronGrammar
