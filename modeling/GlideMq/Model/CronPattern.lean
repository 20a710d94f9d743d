import GlideMq.Lua.Text
import GlideMq.Machine.Calendar
import Mathlib.Data.List.Range
import Mathlib.Data.Nat.Digits.Lemmas

/-!
# Cron patterns

A pattern is five or six fields, and each field is a set of values. The day fields also take
modifiers, which add days to what the field matches. A parsed pattern has only values that a clock can
show, and at least one for each part of the time and for the month.
-/

namespace GlideMq

/-! ## Fields -/

/-- The values of a field, in order. -/
structure CronField (min max : Int) where
  sorted : List Int
  increasing : sorted.Pairwise (· < ·)
  within : ∀ v ∈ sorted, min ≤ v ∧ v ≤ max

namespace CronField

variable {min max : Int}

instance : Membership Int (CronField min max) := ⟨fun f v => v ∈ f.sorted⟩

instance (v : Int) (f : CronField min max) : Decidable (v ∈ f) :=
  inferInstanceAs (Decidable (v ∈ f.sorted))

/-- The values that a field can have, in order. -/
def range (min max : Int) : List Int :=
  (List.range (max - min + 1).toNat).map fun (i : Nat) => min + i

theorem mem_range {v : Int} : v ∈ range min max ↔ min ≤ v ∧ v ≤ max := by
  simp only [range, List.mem_map, List.mem_range]
  constructor
  · rintro ⟨i, hi, rfl⟩
    omega
  · intro h
    exact ⟨(v - min).toNat, by omega, by omega⟩

/-- A set of values as a field. -/
def ofValues (min max : Int) (values : List Int) : CronField min max where
  sorted := (range min max).filter (· ∈ values)
  increasing := by
    apply List.Pairwise.filter
    rw [range, List.pairwise_map]
    exact List.pairwise_lt_range.imp fun h => by omega
  within v hv := mem_range.mp (List.mem_filter.mp hv).1

theorem mem_ofValues {values : List Int} {v : Int} :
    v ∈ ofValues min max values ↔ (min ≤ v ∧ v ≤ max) ∧ v ∈ values := by
  change v ∈ (range min max).filter _ ↔ _
  rw [List.mem_filter, mem_range, decide_eq_true_iff]

end CronField

/-- Quartz-style day modifiers. Each one adds days to its field's match. -/
structure CronDayModifiers where
  domLast : Bool := false
  domLastWeekday : Bool := false
  domNearestWeekday : List Int := []
  dowLast : List Int := []
  dowNth : List (Int × Int) := []
  nearestWithin : ∀ n ∈ domNearestWeekday, 1 ≤ n ∧ n ≤ 31 := by simp

structure CronPattern extends CronDayModifiers where
  second : CronField 0 59
  minute : CronField 0 59
  hour : CronField 0 23
  dom : CronField 1 31
  month : CronField 1 12
  dow : CronField 0 6
  hasSeconds : Bool
  /-- The minute or hour field contains `*`. -/
  wildcardTime : Bool
  dowUnrestricted : Bool
  hasSecond : second.sorted ≠ []
  hasMinute : minute.sorted ≠ []
  hasHour : hour.sorted ≠ []
  hasMonth : month.sorted ≠ []
  /-- Without seconds in the pattern, it is due on whole minutes. -/
  wholeMinutes : hasSeconds = false → second.sorted = [0]

/-- The day-of-month field covers every day. -/
def CronPattern.domUnrestricted (cron : CronPattern) : Bool := cron.dom.sorted.length = 31

/-! ## Texts -/

abbrev Token := List Char

structure CronFieldSpec where
  min : Int
  max : Int
  names : List (String × Int) := []
  allowQuestion : Bool := false

def monthNames : List (String × Int) :=
  [("JAN", 1), ("FEB", 2), ("MAR", 3), ("APR", 4), ("MAY", 5), ("JUN", 6), ("JUL", 7), ("AUG", 8),
    ("SEP", 9), ("OCT", 10), ("NOV", 11), ("DEC", 12)]

def dowNames : List (String × Int) :=
  [("SUN", 0), ("MON", 1), ("TUE", 2), ("WED", 3), ("THU", 4), ("FRI", 5), ("SAT", 6)]

def cronSecond : CronFieldSpec := { min := 0, max := 59 }
def cronMinute : CronFieldSpec := { min := 0, max := 59 }
def cronHour : CronFieldSpec := { min := 0, max := 23 }
def cronDom : CronFieldSpec := { min := 1, max := 31, allowQuestion := true }
def cronMonth : CronFieldSpec := { min := 1, max := 12, names := monthNames }

/-- 7 is a second Sunday. -/
def cronDow : CronFieldSpec := { min := 0, max := 7, names := dowNames, allowQuestion := true }

/-- `\\s` and what `trim` takes away. -/
def isSpace (c : Char) : Bool :=
  c.toNat ∈ [0x20, 0xa0, 0x1680, 0x2028, 0x2029, 0x202f, 0x205f, 0x3000, 0xfeff] ∨
    0x9 ≤ c.toNat ∧ c.toNat ≤ 0xd ∨ 0x2000 ≤ c.toNat ∧ c.toNat ≤ 0x200a

/-- `pattern.trim().split(/\\s+/)`. -/
def words (text : Token) : List Token :=
  match (text.splitOnP isSpace).filter (· ≠ []) with
  | [] => [[]]
  | ws => ws

/-- `toUpperCase`, on the letters whose upper case a name contains. -/
def toUpper (c : Char) : Char :=
  if c = 'ſ' then 'S' else if c = 'ı' then 'I' else c.toUpper

/-- `/^\\d+$/` and `parseInt`. -/
def parseDigits (t : Token) : Option Int :=
  if t ≠ [] ∧ t.all Char.isDigit then some (Nat.ofDigitChars 10 t 0 : Nat) else none

def parseCronValue (t : Token) (spec : CronFieldSpec) : Option Int :=
  match parseDigits t with
  | some n => some n
  | none => spec.names.lookup (String.ofList (t.map toUpper))

def invalidToken (t : Token) : String := "Invalid cron token: " ++ String.ofList t

def checkCronBound (value min max : Int) : Except String Int :=
  if value < min ∨ max < value then throw ("Cron value out of bounds: " ++ toString value)
  else pure value

theorem checkCronBound_ok {v min max n : Int} (h : checkCronBound v min max = .ok n) :
    n = v ∧ min ≤ v ∧ v ≤ max := by
  unfold checkCronBound at h
  split at h
  · cases h
  · cases h
    exact ⟨rfl, by omega, by omega⟩

def addRange (spec : CronFieldSpec) (first last step : Int) : Except String (List Int) :=
  let span := toString first ++ "-" ++ toString last
  if first < spec.min ∨ spec.max < last then throw ("Cron range out of bounds: " ++ span)
  else if last < first then throw ("Cron range reversed: " ++ span)
  else pure ((List.range ((last - first) / step + 1).toNat).map fun (i : Nat) => first + i * step)

/-! ## Parsing -/

/-- Takes the tokens that the generic grammar does not cover. -/
abbrev SpecialToken := CronDayModifiers → Token → Except String (Option CronDayModifiers)

def parseDomModifier : SpecialToken := fun mods t =>
  let upper := t.map toUpper
  if upper = ['L'] then pure (some { mods with domLast := true })
  else if upper = ['L', 'W'] then pure (some { mods with domLastWeekday := true })
  else if upper.getLast? = some 'W' then
    match parseDigits upper.dropLast with
    | some n =>
      match h : checkCronBound n cronDom.min cronDom.max with
      | .error e => throw e
      | .ok day =>
        pure (some { mods with
          domNearestWeekday := mods.domNearestWeekday ++ [day]
          nearestWithin := by
            intro v hv
            rcases List.mem_append.mp hv with hv | hv
            · exact mods.nearestWithin v hv
            · obtain ⟨rfl, hwithin⟩ := checkCronBound_ok h
              rwa [List.mem_singleton.mp hv] })
    | none => pure none
  else pure none

/-- The day and the number of `<d>#<n>`. -/
def splitNth (t : Token) : Option (Token × Int) := do
  let (day, nth) ← Text.splitLast '#' t
  let n ← parseDigits nth
  if day = [] then none else some (day, n)

def parseDowModifier : SpecialToken := fun mods t =>
  if (t.getLast? = some 'L' ∨ t.getLast? = some 'l') ∧ t.dropLast ≠ [] then
    match parseCronValue t.dropLast cronDow with
    | some d => do
      let d ← checkCronBound d cronDow.min cronDow.max
      pure (some { mods with dowLast := mods.dowLast ++ [d % 7] })
    | none => pure none
  else
    match splitNth t with
    | none => pure none
    | some (day, n) =>
      match parseCronValue day cronDow with
      | some d => do
        let d ← checkCronBound d cronDow.min cronDow.max
        let n ← checkCronBound n 1 5
        pure (some { mods with dowNth := mods.dowNth ++ [(d % 7, n)] })
      | none => pure none

/-- `<range>/<step>`, the step 1 where there is none. -/
def splitStep (t : Token) : Except String (Token × Option Int) :=
  match t.splitOn '/' with
  | [range] => if range = [] then throw (invalidToken t) else pure (range, none)
  | [range, step] =>
    if range = [] ∨ step = [] then throw (invalidToken t)
    else
      match parseDigits step with
      | none => throw (invalidToken t)
      | some n =>
        if n ≤ 0 then throw ("Invalid cron step: " ++ toString n) else pure (range, some n)
  | _ => throw (invalidToken t)

/-- A token of the generic grammar. -/
def parseToken (spec : CronFieldSpec) (t : Token) : Except String (List Int) := do
  let (range, stepText) ← splitStep t
  let step := stepText.getD 1
  if range = ['*'] then addRange spec spec.min spec.max step
  else
    match range.splitOn '-' with
    | [single] =>
      match parseCronValue single spec with
      | none => throw (invalidToken t)
      | some first =>
        if stepText.isSome then addRange spec first spec.max step
        else return [← checkCronBound first spec.min spec.max]
    | [fromText, toText] =>
      match parseCronValue fromText spec, parseCronValue toText spec with
      | some first, some last => addRange spec first last step
      | _, _ => throw (invalidToken t)
    | _ => throw (invalidToken t)

def parseTokens (spec : CronFieldSpec) (special : SpecialToken) :
    List Token → CronDayModifiers × List Int → Except String (CronDayModifiers × List Int)
  | [], r => pure r
  | t :: ts, (mods, values) => do
    if t = ['*'] ∨ spec.allowQuestion ∧ t = ['?'] then
      parseTokens spec special ts (mods, values ++ (← addRange spec spec.min spec.max 1))
    else
      match ← special mods t with
      | some mods => parseTokens spec special ts (mods, values)
      | none => parseTokens spec special ts (mods, values ++ (← parseToken spec t))

def parseCronField (field : Token) (spec : CronFieldSpec) (special : SpecialToken)
    (mods : CronDayModifiers) : Except String (CronDayModifiers × List Int) :=
  parseTokens spec special (field.splitOn ',') (mods, [])

/-! ## What a field without modifiers parses to -/

/-- Values of the field, and some. -/
def CronFieldSpec.Fills (spec : CronFieldSpec) (values : List Int) : Prop :=
  values ≠ [] ∧ ∀ v ∈ values, spec.min ≤ v ∧ v ≤ spec.max

section

variable {spec : CronFieldSpec} {t : Token} {values : List Int}

theorem addRange_fills {first last step : Int} (hstep : 0 < step)
    (h : addRange spec first last step = .ok values) : spec.Fills values := by
  unfold addRange at h
  simp only at h
  split at h
  · cases h
  split at h
  · cases h
  rename_i hwithin hordered
  cases h
  have hsteps : 0 ≤ (last - first) / step := Int.ediv_nonneg (by omega) hstep.le
  refine ⟨by simp; omega, ?_⟩
  intro v hv
  obtain ⟨i, hi, rfl⟩ := List.mem_map.mp hv
  rw [List.mem_range] at hi
  have hle : (i : Int) * step ≤ (last - first) / step * step :=
    mul_le_mul_of_nonneg_right (by omega) hstep.le
  have hspan : (last - first) / step * step ≤ last - first := Int.ediv_mul_le _ hstep.ne'
  have hnonneg : 0 ≤ (i : Int) * step := mul_nonneg (by omega) hstep.le
  omega

theorem splitStep_pos {range : Token} {step : Option Int} (h : splitStep t = .ok (range, step)) :
    0 < step.getD 1 := by
  unfold splitStep at h
  split at h
  · split at h <;> cases h
    exact one_pos
  · split at h
    · cases h
    split at h
    · cases h
    split at h
    · cases h
    · rename_i hpos
      cases h
      exact not_le.mp hpos
  · cases h

theorem parseToken_fills (h : parseToken spec t = .ok values) : spec.Fills values := by
  unfold parseToken at h
  rcases hsplit : splitStep t with _ | ⟨range, stepText⟩
  · rw [hsplit] at h
    cases h
  have hstep := splitStep_pos hsplit
  rw [hsplit] at h
  simp only [bind, Except.bind] at h
  split at h
  · exact addRange_fills hstep h
  split at h
  · split at h
    · cases h
    split at h
    · exact addRange_fills hstep h
    · split at h
      · cases h
      rename_i n hbound
      cases h
      obtain ⟨rfl, hwithin⟩ := checkCronBound_ok hbound
      exact ⟨by simp, by simpa using hwithin⟩
  · split at h
    · exact addRange_fills hstep h
    · cases h
  · cases h

theorem fills_append {vs new : List Int} (hvs : ∀ v ∈ vs, spec.min ≤ v ∧ v ≤ spec.max)
    (hnew : spec.Fills new) : spec.Fills (vs ++ new) := by
  refine ⟨by simp [hnew.1], ?_⟩
  intro v hv
  rcases List.mem_append.mp hv with hv | hv
  · exact hvs v hv
  · exact hnew.2 v hv

def noSpecial : SpecialToken := fun _ _ => pure none

theorem parseTokens_fills {ts : List Token} {mods : CronDayModifiers} {vs : List Int}
    {r : CronDayModifiers × List Int} (h : parseTokens spec noSpecial ts (mods, vs) = .ok r)
    (hvs : ∀ v ∈ vs, spec.min ≤ v ∧ v ≤ spec.max) (hne : ts ≠ [] ∨ vs ≠ []) : spec.Fills r.2 := by
  induction ts generalizing vs with
  | nil =>
    cases h
    exact ⟨hne.resolve_left (fun h => h rfl), hvs⟩
  | cons t ts ih =>
    rw [parseTokens] at h
    split at h
    · rcases hnew : addRange spec spec.min spec.max 1 with _ | new
      · rw [hnew] at h
        cases h
      · rw [hnew] at h
        have hfills := fills_append hvs (addRange_fills one_pos hnew)
        exact ih h hfills.2 (Or.inr hfills.1)
    · rcases hnew : parseToken spec t with _ | new
      · simp only [noSpecial, hnew] at h
        cases h
      · simp only [noSpecial, hnew] at h
        have hfills := fills_append hvs (parseToken_fills hnew)
        exact ih h hfills.2 (Or.inr hfills.1)

theorem parseCronField_fills {field : Token} {r : CronDayModifiers × List Int}
    (h : parseCronField field spec noSpecial {} = .ok r) : spec.Fills r.2 := by
  unfold parseCronField at h
  refine parseTokens_fills h (by simp) (Or.inl ?_)
  exact List.splitOnP_ne_nil _ _

end

theorem CronField.ofValues_ne_nil {min max : Int} {values : List Int} (hne : values ≠ [])
    (hwithin : ∀ v ∈ values, min ≤ v ∧ v ≤ max) : (ofValues min max values).sorted ≠ [] := by
  obtain ⟨v, hv⟩ := List.exists_mem_of_ne_nil _ hne
  have hmem : v ∈ ofValues min max values := mem_ofValues.mpr ⟨hwithin v hv, hv⟩
  exact List.ne_nil_of_mem hmem

/-! ## Patterns -/

abbrev TimeField (min max : Int) := {field : CronField min max // field.sorted ≠ []}

def parseTimeField (field : Token) (spec : CronFieldSpec) :
    Except String (TimeField spec.min spec.max) :=
  match h : parseCronField field spec noSpecial {} with
  | .error e => .error e
  | .ok r =>
    have hfills := parseCronField_fills h
    .ok ⟨.ofValues spec.min spec.max r.2, CronField.ofValues_ne_nil hfills.1 hfills.2⟩

/-- The second of a pattern without seconds, which `0` parses to. -/
def wholeMinute : TimeField 0 59 :=
  ⟨.ofValues 0 59 [0], CronField.ofValues_ne_nil (by simp) (by simp)⟩

def parseFields (second : Except String (TimeField 0 59)) (hasSeconds : Bool)
    (hwhole : hasSeconds = false → ∀ field ∈ second.toOption, field.val.sorted = [0])
    (minute hour dom month dow : Token) : Except String CronPattern := do
  let (mods, domValues) ← parseCronField dom cronDom parseDomModifier {}
  let (mods, dowValues) ← parseCronField dow cronDow parseDowModifier mods
  let dowField := CronField.ofValues 0 6 (dowValues.map fun v => if v = 7 then 0 else v)
  match h : second with
  | .error e => .error e
  | .ok secondField =>
    let minuteField ← parseTimeField minute cronMinute
    let hourField ← parseTimeField hour cronHour
    let monthField ← parseTimeField month cronMonth
    return {
      mods with
      second := secondField.val
      minute := minuteField.val
      hour := hourField.val
      dom := .ofValues 1 31 domValues
      month := monthField.val
      dow := dowField
      hasSeconds
      wildcardTime := '*' ∈ minute ∨ '*' ∈ hour
      dowUnrestricted := dowField.sorted.length = 7 ∧ ('*' ∈ dow ∨ '?' ∈ dow)
      hasSecond := secondField.property
      hasMinute := minuteField.property
      hasHour := hourField.property
      hasMonth := monthField.property
      wholeMinutes := fun hfalse => hwhole hfalse secondField (by simp [h, Except.toOption]) }

def parseCronPattern (pattern : String) : Except String CronPattern :=
  match words pattern.toList with
  | [minute, hour, dom, month, dow] =>
    parseFields (.ok wholeMinute) false (by
      rintro - field ⟨⟩
      decide) minute hour dom month dow
  | [second, minute, hour, dom, month, dow] =>
    parseFields (parseTimeField second cronSecond) true (by simp) minute hour dom month dow
  | fields =>
    throw ("Invalid cron pattern: expected 5 or 6 fields, got " ++ toString fields.length)

end GlideMq
