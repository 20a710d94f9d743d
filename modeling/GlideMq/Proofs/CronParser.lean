import GlideMq.Machine.Lookup
import GlideMq.Proofs.CronGrammar
import Mathlib

/-!
# The cron parser accepts the language

Each part is read as what it stands for, and nothing else is read.
-/

namespace GlideMq.CronGrammar

variable {spec : CronFieldSpec} {t u s : Token} {v w : ℤ} {n : ℕ} {c : Char}

/-! ## Values -/

/-- The bounds and the names of a field. -/
structure Sound (spec : CronFieldSpec) : Prop where
  bounds : 0 ≤ spec.min ∧ spec.min ≤ spec.max
  letters : ∀ p ∈ spec.names, p.1.toList ≠ [] ∧ p.1.toList.all Char.isUpper
  unique : (spec.names.map (·.1)).Nodup

theorem sound_second : Sound cronSecond := ⟨by decide, by decide, by decide⟩
theorem sound_minute : Sound cronMinute := ⟨by decide, by decide, by decide⟩
theorem sound_hour : Sound cronHour := ⟨by decide, by decide, by decide⟩
theorem sound_dom : Sound cronDom := ⟨by decide, by decide, by decide⟩
theorem sound_month : Sound cronMonth := ⟨by decide, by decide, by decide⟩
theorem sound_dow : Sound cronDow := ⟨by decide, by decide, by decide⟩

theorem parseDigits_eq_some {i : ℤ} : parseDigits t = some i ↔ ∃ n : ℕ, IsNumber t n ∧ i = n := by
  unfold parseDigits IsNumber
  simp only [List.all_eq_true]
  constructor
  · intro h
    split at h
    · rename_i hdigits
      exact ⟨_, ⟨hdigits.1, hdigits.2, rfl⟩, (Option.some.inj h).symm⟩
    · cases h
  · rintro ⟨n, ⟨hne, hdigits, rfl⟩, rfl⟩
    rw [if_pos ⟨hne, hdigits⟩]

theorem toUpper_of_isDigit (h : c.isDigit) : toUpper c = c := by
  have hne (d : Char) (hd : d.isDigit = false) : c ≠ d := by
    rintro rfl
    rw [hd] at h
    cases h
  have hsmall : ¬ ('a'.val ≤ c.val ∧ c.val ≤ 'z'.val) := by
    rintro ⟨ha, -⟩
    simp only [Char.isDigit, ge_iff_le, Bool.and_eq_true, decide_eq_true_eq] at h
    have hle : 'a'.val ≤ '9'.val := UInt32.le_trans ha h.2
    exact absurd hle (by decide)
  unfold toUpper
  rw [if_neg (hne _ (by decide)), if_neg (hne _ (by decide)), Char.toUpper, dif_neg hsmall]

theorem IsNumber.int {k m : ℕ} (hn : IsNumber t k) (hm : IsNumber t m) : k = m := hn.2.2.symm.trans hm.2.2

theorem name_not_number (hspec : Sound spec) {name : String} (hname : (name, v) ∈ spec.names)
    (ht : t.map toUpper = name.toList) : ¬ ∃ k, IsNumber t k := by
  rintro ⟨k, hne, hdigits, -⟩
  obtain ⟨c, rest, rfl⟩ := List.exists_cons_of_ne_nil hne
  have hc : c.isDigit := hdigits c (List.mem_cons_self ..)
  have hupper : (toUpper c).isUpper := by
    apply List.all_eq_true.mp (hspec.letters _ hname).2
    rw [← ht]
    simp
  rw [toUpper_of_isDigit hc] at hupper
  simp only [Char.isDigit, Char.isUpper, ge_iff_le, Bool.and_eq_true, decide_eq_true_eq] at hc hupper
  have hle : 'A'.val ≤ '9'.val := UInt32.le_trans hupper.1 hc.2
  exact absurd hle (by decide)

theorem parseCronValue_eq_some (hspec : Sound spec) : parseCronValue t spec = some v ↔ IsValue spec t v := by
  have hnames : spec.names.lookup (String.ofList (t.map toUpper)) = some v ↔
      ∃ name, (name, v) ∈ spec.names ∧ t.map toUpper = name.toList := by
    constructor
    · intro h
      obtain ⟨l₁, l₂, hl, -⟩ := List.lookup_eq_some_iff.mp h
      exact ⟨String.ofList (t.map toUpper), by rw [hl]; simp, by simp⟩
    · rintro ⟨name, hname, ht⟩
      rw [ht, String.ofList_toList]
      exact Machine.lookup_of_mem hspec.unique hname
  unfold parseCronValue IsValue
  cases hdigits : parseDigits t with
  | some i =>
    obtain ⟨k, hk, rfl⟩ := parseDigits_eq_some.mp hdigits
    simp only [Option.some.injEq]
    constructor
    · rintro rfl
      exact Or.inl ⟨k, hk, rfl⟩
    · rintro (⟨m, hm, rfl⟩ | ⟨name, hname, ht⟩)
      · rw [hk.int hm]
      · exact absurd ⟨k, hk⟩ (name_not_number hspec hname ht)
  | none =>
    simp only [hnames]
    constructor
    · exact Or.inr
    · rintro (⟨m, hm, rfl⟩ | h)
      · rw [parseDigits_eq_some.mpr ⟨m, hm, rfl⟩] at hdigits
        cases hdigits
      · exact h

theorem IsValue.unique (hspec : Sound spec) (hv : IsValue spec t v) (hw : IsValue spec t w) : v = w := by
  have hv' := (parseCronValue_eq_some hspec).mpr hv
  rw [(parseCronValue_eq_some hspec).mpr hw] at hv'
  exact (Option.some.inj hv').symm

theorem IsValue.ne_nil (hspec : Sound spec) (h : IsValue spec t v) : t ≠ [] := by
  rintro rfl
  rcases h with ⟨k, hk, -⟩ | ⟨name, hname, ht⟩
  · exact hk.1 rfl
  · exact (hspec.letters _ hname).1 ht.symm

/-- The characters of values. -/
def InValue (c : Char) : Prop := c.isDigit ∨ (toUpper c).isUpper

theorem IsNumber.inValue {k : ℕ} (h : IsNumber t k) : ∀ c ∈ t, InValue c := fun c hc => Or.inl (h.2.1 c hc)

theorem IsValue.inValue (hspec : Sound spec) (h : IsValue spec t v) : ∀ c ∈ t, InValue c := by
  intro c hc
  rcases h with ⟨k, hk, -⟩ | ⟨name, hname, ht⟩
  · exact hk.inValue c hc
  · apply Or.inr
    apply List.all_eq_true.mp (hspec.letters _ hname).2
    rw [← ht]
    exact List.mem_map_of_mem hc

theorem not_mem_of_inValue {d : Char} (ht : ∀ c ∈ t, InValue c)
    (hd : d.isDigit = false ∧ (toUpper d).isUpper = false) : d ∉ t := by
  intro hmem
  rcases ht d hmem with h | h
  · rw [hd.1] at h
    cases h
  · rw [hd.2] at h
    cases h

/-! ## Ranges -/

theorem steps_one (v w : ℤ) : steps v w 1 = Set.Icc v w := by
  ext x
  simp only [steps, Set.mem_ofPred_eq, Set.mem_Icc]
  constructor
  · rintro ⟨hle, k, rfl⟩
    omega
  · rintro ⟨hv, hw⟩
    exact ⟨hw, (x - v).toNat, by omega⟩

theorem addRange_eq (hn : 0 < n) (hv : spec.min ≤ v) (hvw : v ≤ w) (hw : w ≤ spec.max) :
    ∃ vs, addRange spec v w n = .ok vs ∧ ∀ x, x ∈ vs ↔ x ∈ steps v w n := by
  unfold addRange
  simp only
  rw [if_neg (by omega), if_neg (by omega)]
  refine ⟨_, rfl, fun x => ?_⟩
  simp only [steps, List.mem_map, List.mem_range, Set.mem_ofPred_eq]
  have hpos : (0 : ℤ) < n := by omega
  have hdiv (i : ℕ) : v + i * n ≤ w ↔ (i : ℤ) ≤ (w - v) / n := by
    rw [Int.le_ediv_iff_mul_le hpos]
    omega
  constructor
  · rintro ⟨i, hi, rfl⟩
    exact ⟨(hdiv i).mpr (by omega), i, rfl⟩
  · rintro ⟨hle, i, rfl⟩
    have := (hdiv i).mp hle
    exact ⟨i, by omega, rfl⟩

theorem addRange_ok {vs : List ℤ} {step : ℤ} (h : addRange spec v w step = .ok vs) :
    spec.min ≤ v ∧ v ≤ w ∧ w ≤ spec.max := by
  unfold addRange at h
  simp only at h
  split at h
  · cases h
  split at h
  · cases h
  omega

/-! ## Steps -/

theorem eq_of_splitOn_single {a : Token} (h : t.splitOn c = [a]) : t = a := by
  have : [c].intercalate (t.splitOn c) = t := List.intercalate_splitOn c
  rw [h] at this
  simpa using this.symm

theorem eq_of_splitOn_pair {a b : Token} (h : t.splitOn c = [a, b]) : t = a ++ c :: b := by
  have : [c].intercalate (t.splitOn c) = t := List.intercalate_splitOn c
  rw [h] at this
  simpa using this.symm

theorem splitOn_pair {a b : Token} (ha : c ∉ a) (hb : c ∉ b) : (a ++ c :: b).splitOn c = [a, b] := by
  rw [List.splitOn_append_cons_self_of_not_mem ha, List.splitOn_eq_singleton hb]

theorem splitStep_single (hne : t ≠ []) (ht : '/' ∉ t) : splitStep t = .ok (t, none) := by
  unfold splitStep
  rw [List.splitOn_eq_singleton ht]
  simp only [if_neg hne]
  rfl

theorem splitStep_pair (hne : t ≠ []) (ht : '/' ∉ t) (hs : IsNumber s n) (hn : 0 < n) :
    splitStep (t ++ '/' :: s) = .ok (t, some (n : ℤ)) := by
  have hslash : '/' ∉ s := not_mem_of_inValue hs.inValue (by decide)
  have hdigits : parseDigits s = some (n : ℤ) := parseDigits_eq_some.mpr ⟨n, hs, rfl⟩
  have hempty : ¬ (t = [] ∨ s = []) := not_or.mpr ⟨hne, hs.1⟩
  have hpos : ¬ ((n : ℤ) ≤ 0) := by omega
  unfold splitStep
  rw [splitOn_pair ht hslash]
  simp only [if_neg hempty, hdigits, if_neg hpos]
  rfl

theorem splitStep_ok {range : Token} {step : Option ℤ} (h : splitStep t = .ok (range, step)) :
    range ≠ [] ∧ (step = none ∧ t = range ∨
      ∃ s n, IsNumber s n ∧ 0 < n ∧ step = some (n : ℤ) ∧ t = range ++ '/' :: s) := by
  unfold splitStep at h
  split at h
  · rename_i a hsplit
    split at h
    · cases h
    rename_i hne
    cases h
    exact ⟨hne, Or.inl ⟨rfl, eq_of_splitOn_single hsplit⟩⟩
  · rename_i a b hsplit
    split at h
    · cases h
    rename_i hne
    split at h
    · cases h
    rename_i i hdigits
    split at h
    · cases h
    rename_i hpos
    cases h
    obtain ⟨n, hn, rfl⟩ := parseDigits_eq_some.mp hdigits
    rw [not_or] at hne
    exact ⟨hne.1, Or.inr ⟨b, n, hn, by omega, rfl, eq_of_splitOn_pair hsplit⟩⟩
  · cases h

/-! ## Parts with values -/

/-- The rest of `parseToken`, after the step. -/
def parseRange (spec : CronFieldSpec) (t range : Token) (stepText : Option ℤ) : Except String (List ℤ) :=
  let step := stepText.getD 1
  if range = ['*'] then addRange spec spec.min spec.max step
  else
    match range.splitOn '-' with
    | [single] =>
      match parseCronValue single spec with
      | none => throw (invalidToken t)
      | some first =>
        if stepText.isSome then addRange spec first spec.max step
        else return [← checkCronBound first spec.min spec.max]
    | [fromText, toText] =>
      match parseCronValue fromText spec, parseCronValue toText spec with
      | some first, some last => addRange spec first last step
      | _, _ => throw (invalidToken t)
    | _ => throw (invalidToken t)

theorem parseToken_eq (spec : CronFieldSpec) (t : Token) :
    parseToken spec t = (splitStep t).bind fun r => parseRange spec t r.1 r.2 := rfl

theorem parseRange_wildcard (hspec : Sound spec) {step : Option ℤ} (hstep : step.getD 1 = n) (hn : 0 < n) :
    ∃ vs, parseRange spec t ['*'] step = .ok vs ∧ ∀ x, x ∈ vs ↔ x ∈ steps spec.min spec.max n := by
  unfold parseRange
  simp only [if_true, hstep]
  exact addRange_eq hn le_rfl hspec.bounds.2 le_rfl

theorem IsValue.ne_wildcard (hspec : Sound spec) (h : IsValue spec t v) : t ≠ ['*'] := by
  rintro rfl
  exact not_mem_of_inValue (d := '*') (h.inValue hspec) (by decide) (List.mem_singleton_self _)

theorem parseRange_value (hspec : Sound spec) (hu : IsValue spec u v) (hv : v ∈ Set.Icc spec.min spec.max) :
    parseRange spec t u none = .ok [v] := by
  have hdash : '-' ∉ u := not_mem_of_inValue (hu.inValue hspec) (by decide)
  have hvalue : parseCronValue u spec = some v := (parseCronValue_eq_some hspec).mpr hu
  have hbound : ¬ (v < spec.min ∨ spec.max < v) := by
    rw [Set.mem_Icc] at hv
    omega
  unfold parseRange checkCronBound
  simp only [if_neg (hu.ne_wildcard hspec), List.splitOn_eq_singleton hdash, hvalue, if_neg hbound]
  rfl

theorem parseRange_valueStep (hspec : Sound spec) (hu : IsValue spec u v)
    (hv : v ∈ Set.Icc spec.min spec.max) (hn : 0 < n) :
    ∃ vs, parseRange spec t u (some (n : ℤ)) = .ok vs ∧ ∀ x, x ∈ vs ↔ x ∈ steps v spec.max n := by
  have hdash : '-' ∉ u := not_mem_of_inValue (hu.inValue hspec) (by decide)
  have hvalue : parseCronValue u spec = some v := (parseCronValue_eq_some hspec).mpr hu
  unfold parseRange
  simp only [if_neg (hu.ne_wildcard hspec), List.splitOn_eq_singleton hdash, hvalue, Option.isSome_some,
    if_true, Option.getD_some]
  exact addRange_eq hn hv.1 hv.2 le_rfl

theorem parseRange_range (hspec : Sound spec) {a b : Token} (ha : IsValue spec a v) (hb : IsValue spec b w)
    (hv : spec.min ≤ v) (hvw : v ≤ w) (hw : w ≤ spec.max) {step : Option ℤ} (hstep : step.getD 1 = n)
    (hn : 0 < n) :
    ∃ vs, parseRange spec t (a ++ '-' :: b) step = .ok vs ∧ ∀ x, x ∈ vs ↔ x ∈ steps v w n := by
  have hdash {d : Token} {x : ℤ} (hd : IsValue spec d x) : '-' ∉ d :=
    not_mem_of_inValue (hd.inValue hspec) (by decide)
  have hwild : a ++ '-' :: b ≠ ['*'] := by
    intro h
    have hmem : '-' ∈ ['*'] := by
      rw [← h]
      simp
    revert hmem
    decide
  have hfirst : parseCronValue a spec = some v := (parseCronValue_eq_some hspec).mpr ha
  have hlast : parseCronValue b spec = some w := (parseCronValue_eq_some hspec).mpr hb
  unfold parseRange
  simp only [if_neg hwild, splitOn_pair (hdash ha) (hdash hb), hfirst, hlast, hstep]
  exact addRange_eq hn hv hvw hw

/-- What a part stands for is what it is read as. -/
theorem parseToken_of_part (hspec : Sound spec) {x : Set ℤ} (h : PlainPart spec t x) (hany : t ≠ ['?']) :
    ∃ vs, parseToken spec t = .ok vs ∧ ∀ i, i ∈ vs ↔ i ∈ x := by
  have hslash {d : Token} {x : ℤ} (hd : IsValue spec d x) : '/' ∉ d :=
    not_mem_of_inValue (hd.inValue hspec) (by decide)
  have hslash' {a b : Token} {x y : ℤ} (ha : IsValue spec a x) (hb : IsValue spec b y) :
      '/' ∉ a ++ '-' :: b := by
    simp [hslash ha, hslash hb]
  rw [parseToken_eq]
  cases h with
  | all =>
    rw [splitStep_single (by simp) (by decide), ← steps_one]
    exact parseRange_wildcard (t := ['*']) hspec rfl one_pos
  | any => exact absurd rfl hany
  | @allStep s n hs hn =>
    have hsplit := splitStep_pair (t := ['*']) (by simp) (by decide) hs hn
    rw [List.singleton_append] at hsplit
    rw [hsplit]
    exact parseRange_wildcard (t := '*' :: '/' :: s) hspec rfl hn
  | value ht hv =>
    rw [splitStep_single (ht.ne_nil hspec) (hslash ht)]
    exact ⟨_, parseRange_value hspec ht hv, by simp⟩
  | valueStep ht hv hs hn =>
    rw [splitStep_pair (ht.ne_nil hspec) (hslash ht) hs hn]
    exact parseRange_valueStep hspec ht hv hn
  | range ht hu hv hvw hw =>
    rw [splitStep_single (by simp) (hslash' ht hu), ← steps_one]
    exact parseRange_range hspec ht hu hv hvw hw rfl one_pos
  | rangeStep ht hu hv hvw hw hs hn =>
    rw [splitStep_pair (by simp) (hslash' ht hu) hs hn]
    exact parseRange_range hspec ht hu hv hvw hw rfl hn

theorem part_of_parseRange (hspec : Sound spec) {range : Token} {vs : List ℤ}
    (h : parseRange spec t range none = .ok vs) : ∃ x, PlainPart spec range x := by
  unfold parseRange at h
  simp only at h
  split at h
  · rename_i hrange
    rw [hrange]
    exact ⟨_, .all⟩
  split at h
  · rename_i single hsplit
    obtain rfl := eq_of_splitOn_single hsplit
    split at h
    · cases h
    rename_i first hvalue
    simp only [Option.isSome_none, Bool.false_eq_true, if_false] at h
    rcases hbound : checkCronBound first spec.min spec.max with e | i
    · rw [hbound] at h
      cases h
    · exact ⟨_, .value ((parseCronValue_eq_some hspec).mp hvalue) (checkCronBound_ok hbound).2⟩
  · rename_i a b hsplit
    obtain rfl := eq_of_splitOn_pair hsplit
    split at h
    · rename_i first last hfirst hlast
      obtain ⟨hv, hvw, hw⟩ := addRange_ok h
      exact ⟨_, .range ((parseCronValue_eq_some hspec).mp hfirst) ((parseCronValue_eq_some hspec).mp hlast)
        hv hvw hw⟩
    · cases h
  · cases h

theorem part_of_parseRange_step (hspec : Sound spec) {range : Token} {vs : List ℤ} (hs : IsNumber s n)
    (hn : 0 < n) (h : parseRange spec t range (some (n : ℤ)) = .ok vs) :
    ∃ x, PlainPart spec (range ++ '/' :: s) x := by
  unfold parseRange at h
  simp only at h
  split at h
  · rename_i hrange
    rw [hrange]
    exact ⟨_, .allStep hs hn⟩
  split at h
  · rename_i single hsplit
    obtain rfl := eq_of_splitOn_single hsplit
    split at h
    · cases h
    rename_i first hvalue
    simp only [Option.isSome_some, if_true] at h
    obtain ⟨hv, hvw, -⟩ := addRange_ok h
    exact ⟨_, .valueStep ((parseCronValue_eq_some hspec).mp hvalue) ⟨hv, hvw⟩ hs hn⟩
  · rename_i a b hsplit
    obtain rfl := eq_of_splitOn_pair hsplit
    split at h
    · rename_i first last hfirst hlast
      obtain ⟨hv, hvw, hw⟩ := addRange_ok h
      exact ⟨_, .rangeStep ((parseCronValue_eq_some hspec).mp hfirst)
        ((parseCronValue_eq_some hspec).mp hlast) hv hvw hw hs hn⟩
    · cases h
  · cases h

theorem part_of_parseToken (hspec : Sound spec) {vs : List ℤ} (h : parseToken spec t = .ok vs) :
    ∃ x, PlainPart spec t x := by
  rw [parseToken_eq] at h
  rcases hsplit : splitStep t with e | ⟨range, step⟩
  · rw [hsplit] at h
    cases h
  rw [hsplit] at h
  obtain ⟨-, ⟨rfl, rfl⟩ | ⟨s, n, hs, hn, rfl, rfl⟩⟩ := splitStep_ok hsplit
  · exact part_of_parseRange hspec h
  · exact part_of_parseRange_step hspec hs hn h

/-! ## Modifiers of days -/

def Has (mods : CronDayModifiers) : DayModifier → Prop
  | .last => mods.domLast
  | .lastWeekday => mods.domLastWeekday
  | .nearest n => n ∈ mods.domNearestWeekday
  | .lastOf d => d ∈ mods.dowLast
  | .nth d n => (d, n) ∈ mods.dowNth

/-- The modifiers after one more. -/
def Adds (m : DayModifier) (mods mods' : CronDayModifiers) : Prop := ∀ x, Has mods' x ↔ Has mods x ∨ x = m

/-- The tokens that are taken are the modifiers of the field. -/
structure Reads (spec : CronFieldSpec) (special : SpecialToken) (part : Token → DayModifier → Prop) : Prop where
  sound : ∀ {mods t mods'}, special mods t = .ok (some mods') → ∃ m, part t m
  complete : ∀ {mods t m}, part t m → ∃ mods', special mods t = .ok (some mods') ∧ Adds m mods mods'
  plain : ∀ {mods t x}, PlainPart spec t x → special mods t = .ok none
  chars : ∀ {t m}, part t m → ∀ c ∈ t, InValue c ∨ c = '#'

theorem reads_noSpecial (spec : CronFieldSpec) : Reads spec noSpecial noModifier where
  sound h := by cases h
  complete h := h.elim
  plain _ := rfl
  chars h := h.elim

/-- No name of the field ends like a modifier. -/
def NoModifierName (spec : CronFieldSpec) : Prop :=
  ∀ p ∈ spec.names, p.1.toList.getLast? ≠ some 'L' ∧ p.1.toList.getLast? ≠ some 'W'

theorem noModifierName_dom : NoModifierName cronDom := by
  unfold NoModifierName
  decide

theorem noModifierName_dow : NoModifierName cronDow := by
  unfold NoModifierName
  decide

theorem isDigit_ne_modifier (h : c.isDigit) : toUpper c ≠ 'L' ∧ toUpper c ≠ 'W' := by
  rw [toUpper_of_isDigit h]
  constructor
  · rintro rfl
    revert h
    decide
  · rintro rfl
    revert h
    decide

theorem IsNumber.last (h : IsNumber s n) (hc : s.getLast? = some c) : toUpper c ≠ 'L' ∧ toUpper c ≠ 'W' :=
  isDigit_ne_modifier (h.2.1 c (List.mem_of_getLast? hc))

theorem IsValue.last (hnames : NoModifierName spec) (h : IsValue spec t v) (hc : t.getLast? = some c) :
    toUpper c ≠ 'L' ∧ toUpper c ≠ 'W' := by
  rcases h with ⟨n, hn, -⟩ | ⟨name, hname, ht⟩
  · exact hn.last hc
  · have hlast : name.toList.getLast? = some (toUpper c) := by rw [← ht, List.getLast?_map, hc, Option.map_some]
    have := hnames _ hname
    simp only [hlast] at this
    exact ⟨fun h => this.1 (congrArg some h), fun h => this.2 (congrArg some h)⟩

theorem getLast?_append_cons {a b : Token} (hb : b ≠ []) : (a ++ c :: b).getLast? = b.getLast? := by
  rw [List.getLast?_append_of_ne_nil _ (List.cons_ne_nil _ _)]
  cases b with
  | nil => exact absurd rfl hb
  | cons d b => rw [List.getLast?_cons_cons]

theorem PlainPart.last (hspec : Sound spec) (hnames : NoModifierName spec) {x : Set ℤ} (h : PlainPart spec t x)
    (hc : t.getLast? = some c) : toUpper c ≠ 'L' ∧ toUpper c ≠ 'W' := by
  cases h with
  | all =>
    cases hc
    decide
  | any =>
    cases hc
    decide
  | @allStep s n hs =>
    have hlast := getLast?_append_cons (a := ['*']) (c := '/') hs.1
    rw [List.singleton_append, hc] at hlast
    exact hs.last hlast.symm
  | value ht => exact ht.last hnames hc
  | valueStep ht hv hs =>
    rw [getLast?_append_cons hs.1] at hc
    exact hs.last hc
  | range ht hu =>
    rw [getLast?_append_cons (hu.ne_nil hspec)] at hc
    exact hu.last hnames hc
  | rangeStep ht hu hv hvw hw hs =>
    rw [getLast?_append_cons hs.1] at hc
    exact hs.last hc

theorem PlainPart.not_mem (hspec : Sound spec) {x : Set ℤ} {d : Char} (h : PlainPart spec t x)
    (hvalue : d.isDigit = false ∧ (toUpper d).isUpper = false) (hmarks : d ∉ ['*', '?', '/', '-']) : d ∉ t := by
  have hv {u : Token} {v : ℤ} (hu : IsValue spec u v) : d ∉ u := not_mem_of_inValue (hu.inValue hspec) hvalue
  have hn {s : Token} {n : ℕ} (hs : IsNumber s n) : d ∉ s := not_mem_of_inValue hs.inValue hvalue
  simp only [List.mem_cons, List.not_mem_nil, or_false, not_or] at hmarks
  obtain ⟨hstar, hquestion, hslash, hdash⟩ := hmarks
  cases h with
  | all => simpa using hstar
  | any => simpa using hquestion
  | allStep hs => simp [hn hs, hstar, hslash]
  | value ht => exact hv ht
  | valueStep ht _ hs => simp [hv ht, hn hs, hslash]
  | range ht hu => simp [hv ht, hv hu, hdash]
  | rangeStep ht hu _ _ _ hs => simp [hv ht, hv hu, hn hs, hdash, hslash]

theorem PlainPart.not_mem_hash (hspec : Sound spec) {x : Set ℤ} (h : PlainPart spec t x) : '#' ∉ t :=
  h.not_mem hspec (by decide) (by decide)

theorem PlainPart.not_mem_comma (hspec : Sound spec) {x : Set ℤ} (h : PlainPart spec t x) : ',' ∉ t :=
  h.not_mem hspec (by decide) (by decide)

theorem PlainPart.wildcard (hspec : Sound spec) {x : Set ℤ} (h : PlainPart spec t x) :
    t = ['*'] ∧ x = Set.Icc spec.min spec.max ∨
    t = ['?'] ∧ spec.allowQuestion ∧ x = Set.Icc spec.min spec.max ∨
    (∃ s n, t = '*' :: '/' :: s ∧ '?' ∉ s ∧ IsNumber s n ∧ 0 < n ∧ x = steps spec.min spec.max n) ∨
    '*' ∉ t ∧ '?' ∉ t := by
  have hv {u : Token} {v : ℤ} (hu : IsValue spec u v) : '*' ∉ u ∧ '?' ∉ u :=
    ⟨not_mem_of_inValue (hu.inValue hspec) (by decide), not_mem_of_inValue (hu.inValue hspec) (by decide)⟩
  have hn {s : Token} {n : ℕ} (hs : IsNumber s n) : '*' ∉ s ∧ '?' ∉ s :=
    ⟨not_mem_of_inValue hs.inValue (by decide), not_mem_of_inValue hs.inValue (by decide)⟩
  cases h with
  | all => exact Or.inl ⟨rfl, rfl⟩
  | any h => exact Or.inr (Or.inl ⟨rfl, h, rfl⟩)
  | allStep hs hpos => exact Or.inr (Or.inr (Or.inl ⟨_, _, rfl, (hn hs).2, hs, hpos, rfl⟩))
  | value ht => exact Or.inr (Or.inr (Or.inr (hv ht)))
  | valueStep ht _ hs =>
    apply Or.inr
    simp [hv ht, hn hs]
  | range ht hu =>
    apply Or.inr
    simp [hv ht, hv hu]
  | rangeStep ht hu _ _ _ hs =>
    apply Or.inr
    simp [hv ht, hv hu, hn hs]

/-! ## Modifiers of the day of the month -/

theorem map_toUpper_of_isNumber (h : IsNumber t n) : t.map toUpper = t := by
  have hdigits := List.map_congr_left fun c hc => toUpper_of_isDigit (h.2.1 c hc)
  rw [hdigits, List.map_id']

theorem isDigit_toUpper_of_lower (h : 'a'.val ≤ c.val ∧ c.val ≤ 'z'.val) : c.toUpper.isDigit = false := by
  obtain ⟨n, hn, rfl⟩ : ∃ n, (97 ≤ n ∧ n ≤ 122) ∧ c = Char.ofNat n := by
    refine ⟨c.toNat, ?_, (Char.ofNat_toNat c).symm⟩
    simp only [UInt32.le_iff_toNat_le] at h
    exact h
  obtain ⟨hlow, hhigh⟩ := hn
  clear h
  interval_cases n <;> decide

theorem toUpper_eq_of_isDigit (h : (toUpper c).isDigit) : toUpper c = c := by
  unfold toUpper at h ⊢
  split at h
  · exact absurd h (by decide)
  split at h
  · exact absurd h (by decide)
  rename_i hs hi
  rw [if_neg hs, if_neg hi]
  by_cases hlower : 'a'.val ≤ c.val ∧ c.val ≤ 'z'.val
  · rw [isDigit_toUpper_of_lower hlower] at h
    cases h
  · rw [Char.toUpper, dif_neg hlower]

theorem isNumber_of_map_toUpper (h : IsNumber (t.map toUpper) n) : t.map toUpper = t := by
  have hdigits : ∀ c ∈ t, toUpper c = c := fun c hc => toUpper_eq_of_isDigit (h.2.1 _ (List.mem_map_of_mem hc))
  rw [List.map_congr_left hdigits, List.map_id']

theorem checkCronBound_eq {i min max : ℤ} (h : min ≤ i ∧ i ≤ max) : checkCronBound i min max = .ok i := by
  unfold checkCronBound
  rw [if_neg (by omega)]
  rfl

theorem parseDomModifier_sound {mods mods' : CronDayModifiers}
    (h : parseDomModifier mods t = .ok (some mods')) : ∃ m, DomPart t m := by
  unfold parseDomModifier at h
  simp only at h
  split at h
  · rename_i hl
    exact ⟨_, .last hl⟩
  split at h
  · rename_i hlw
    exact ⟨_, .lastWeekday hlw⟩
  split at h
  · rename_i hw
    split at h
    · rename_i i hdigits
      split at h
      · cases h
      rename_i day hbound
      obtain ⟨n, hn, rfl⟩ := parseDigits_eq_some.mp hdigits
      obtain ⟨rfl, hwithin⟩ := checkCronBound_ok hbound
      have hne : t ≠ [] := by
        rintro rfl
        cases hw
      have hlast : toUpper (t.getLast hne) = 'W' := by
        rw [List.getLast?_map, List.getLast?_eq_some_getLast hne] at hw
        exact Option.some.inj hw
      rw [← List.map_dropLast] at hn
      rw [isNumber_of_map_toUpper hn] at hn
      have hpart := DomPart.nearest hn hlast (by
        obtain ⟨hlow, hhigh⟩ := hwithin
        change (1 : ℤ) ≤ n at hlow
        change (n : ℤ) ≤ 31 at hhigh
        omega)
      rw [List.dropLast_concat_getLast hne] at hpart
      exact ⟨_, hpart⟩
    · cases h
  · cases h

theorem parseDomModifier_complete {mods : CronDayModifiers} {m : DayModifier} (h : DomPart t m) :
    ∃ mods', parseDomModifier mods t = .ok (some mods') ∧ Adds m mods mods' := by
  cases h with
  | last ht =>
    refine ⟨_, by unfold parseDomModifier; simp only [if_pos ht]; rfl, fun x => ?_⟩
    cases x <;> simp [Has]
  | lastWeekday ht =>
    have hl : t.map toUpper ≠ ['L'] := by
      rw [ht]
      decide
    refine ⟨_, by unfold parseDomModifier; simp only [if_neg hl, if_pos ht]; rfl, fun x => ?_⟩
    cases x <;> simp [Has]
  | @nearest t c n ht hc hn =>
    have hupper : (t ++ [c]).map toUpper = t ++ ['W'] := by
      rw [List.map_append, map_toUpper_of_isNumber ht, List.map_singleton, hc]
    have hl : t ++ ['W'] ≠ ['L'] := by
      intro heq
      have := congrArg List.getLast? heq
      simp at this
    have hlw : t ++ ['W'] ≠ ['L', 'W'] := by
      intro heq
      have hcancel : t ++ ['W'] = ['L'] ++ ['W'] := heq
      obtain rfl : t = ['L'] := List.append_cancel_right hcancel
      exact absurd (ht.2.1 'L' (List.mem_singleton_self _)) (by decide)
    have hdigits : parseDigits t = some (n : ℤ) := parseDigits_eq_some.mpr ⟨n, ht, rfl⟩
    have hlow : (1 : ℤ) ≤ n := by exact_mod_cast hn.1
    have hhigh : (n : ℤ) ≤ 31 := by exact_mod_cast hn.2
    have hbound : checkCronBound (n : ℤ) cronDom.min cronDom.max = .ok (n : ℤ) :=
      checkCronBound_eq ⟨hlow, hhigh⟩
    unfold parseDomModifier
    simp only [hupper, if_neg hl, if_neg hlw, List.getLast?_concat, List.dropLast_concat, if_true, hdigits]
    split
    · rename_i e herror
      rw [hbound] at herror
      cases herror
    · rename_i day hday
      rw [hbound] at hday
      cases hday
      refine ⟨_, rfl, fun x => ?_⟩
      cases x <;> simp [Has]

theorem DomPart.inValue {m : DayModifier} (h : DomPart t m) : ∀ c ∈ t, InValue c := by
  have hupper {name : Token} (ht : t.map toUpper = name) (hname : ∀ d ∈ name, d.isUpper) : ∀ c ∈ t, InValue c := by
    intro c hc
    apply Or.inr
    apply hname
    rw [← ht]
    exact List.mem_map_of_mem hc
  cases h with
  | last ht => exact hupper ht (List.all_eq_true.mp (by decide))
  | lastWeekday ht => exact hupper ht (List.all_eq_true.mp (by decide))
  | nearest ht hc =>
    intro d hd
    rcases List.mem_append.mp hd with hd | hd
    · exact ht.inValue d hd
    · apply Or.inr
      rw [List.mem_singleton.mp hd, hc]
      decide

theorem reads_dom : Reads cronDom parseDomModifier DomPart where
  sound := parseDomModifier_sound
  complete := parseDomModifier_complete
  chars h c hc := Or.inl (h.inValue c hc)
  plain {mods t x} h := by
    have hlast {d : Char} (hd : d = 'L' ∨ d = 'W') : (t.map toUpper).getLast? ≠ some d := by
      intro heq
      rw [List.getLast?_map, Option.map_eq_some_iff] at heq
      obtain ⟨c, hc, rfl⟩ := heq
      have := h.last sound_dom noModifierName_dom hc
      exact hd.elim this.1 this.2
    have hl : t.map toUpper ≠ ['L'] := by
      intro heq
      exact hlast (Or.inl rfl) (by rw [heq]; rfl)
    have hlw : t.map toUpper ≠ ['L', 'W'] := by
      intro heq
      exact hlast (Or.inr rfl) (by rw [heq]; rfl)
    unfold parseDomModifier
    simp only [if_neg hl, if_neg hlw, if_neg (hlast (Or.inr rfl))]
    rfl

/-! ## Modifiers of the day of the week -/

theorem splitNth_of_part (ht : t ≠ []) (hs : IsNumber s n) : splitNth (t ++ '#' :: s) = some (t, (n : ℤ)) := by
  have hhash : '#' ∉ s := not_mem_of_inValue hs.inValue (by decide)
  have hdigits : parseDigits s = some (n : ℤ) := parseDigits_eq_some.mpr ⟨n, hs, rfl⟩
  unfold splitNth
  rw [Text.splitLast_append hhash]
  simp [hdigits, ht]

theorem part_of_splitNth {day : Token} {i : ℤ} (h : splitNth t = some (day, i)) :
    ∃ s n, IsNumber s n ∧ i = (n : ℤ) ∧ t = day ++ '#' :: s := by
  unfold splitNth at h
  simp only [Option.bind_eq_bind, Option.bind_eq_some_iff] at h
  obtain ⟨⟨left, right⟩, hsplit, j, hdigits, h⟩ := h
  split at h
  · cases h
  cases h
  obtain ⟨n, hn, rfl⟩ := parseDigits_eq_some.mp hdigits
  exact ⟨right, n, hn, rfl, Text.eq_of_splitLast hsplit⟩

theorem parseDowModifier_sound {mods mods' : CronDayModifiers}
    (h : parseDowModifier mods t = .ok (some mods')) : ∃ m, DowPart t m := by
  unfold parseDowModifier at h
  split at h
  · rename_i hlast
    split at h
    · rename_i d hvalue
      rcases hbound : checkCronBound d cronDow.min cronDow.max with e | d'
      · rw [hbound] at h
        cases h
      have hne : t ≠ [] := by
        rintro rfl
        exact hlast.2 rfl
      have hc : t.getLast hne = 'L' ∨ t.getLast hne = 'l' := by
        rw [List.getLast?_eq_some_getLast hne, Option.some.injEq, Option.some.injEq] at hlast
        exact hlast.1
      have hpart := DowPart.last ((parseCronValue_eq_some sound_dow).mp hvalue) (checkCronBound_ok hbound).2 hc
      rw [List.dropLast_concat_getLast hne] at hpart
      exact ⟨_, hpart⟩
    · cases h
  · split at h
    · cases h
    rename_i day i hsplit
    split at h
    · rename_i d hvalue
      rcases hbound : checkCronBound d cronDow.min cronDow.max with e | d'
      · rw [hbound] at h
        cases h
      rcases hnth : checkCronBound i 1 5 with e | i'
      · rw [hbound, hnth] at h
        cases h
      obtain ⟨s, n, hs, rfl, rfl⟩ := part_of_splitNth hsplit
      obtain ⟨-, hlow, hhigh⟩ := checkCronBound_ok hnth
      exact ⟨_, .nth ((parseCronValue_eq_some sound_dow).mp hvalue) (checkCronBound_ok hbound).2 hs (by omega)⟩
    · cases h

theorem parseDowModifier_complete {mods : CronDayModifiers} {m : DayModifier} (h : DowPart t m) :
    ∃ mods', parseDowModifier mods t = .ok (some mods') ∧ Adds m mods mods' := by
  cases h with
  | @last t c d ht hd hc =>
    have hlast : ((t ++ [c]).getLast? = some 'L' ∨ (t ++ [c]).getLast? = some 'l') ∧ (t ++ [c]).dropLast ≠ [] := by
      rw [List.getLast?_concat, List.dropLast_concat, Option.some.injEq, Option.some.injEq]
      exact ⟨hc, ht.ne_nil sound_dow⟩
    have hvalue : parseCronValue t cronDow = some d := (parseCronValue_eq_some sound_dow).mpr ht
    have hbound : checkCronBound d cronDow.min cronDow.max = .ok d := checkCronBound_eq hd
    unfold parseDowModifier
    rw [if_pos hlast]
    simp only [List.dropLast_concat, hvalue, hbound]
    refine ⟨_, rfl, fun x => ?_⟩
    cases x <;> simp [Has]
  | @nth t s d n ht hd hs hn =>
    have hlast : ¬ (((t ++ '#' :: s).getLast? = some 'L' ∨ (t ++ '#' :: s).getLast? = some 'l') ∧
        (t ++ '#' :: s).dropLast ≠ []) := by
      rintro ⟨hc | hc, -⟩
      · rw [getLast?_append_cons hs.1] at hc
        exact (hs.last hc).1 (by decide)
      · rw [getLast?_append_cons hs.1] at hc
        exact (hs.last hc).1 (by decide)
    have hvalue : parseCronValue t cronDow = some d := (parseCronValue_eq_some sound_dow).mpr ht
    have hbound : checkCronBound d cronDow.min cronDow.max = .ok d := checkCronBound_eq hd
    have hlow : (1 : ℤ) ≤ n := by exact_mod_cast hn.1
    have hhigh : (n : ℤ) ≤ 5 := by exact_mod_cast hn.2
    have hnth : checkCronBound (n : ℤ) 1 5 = .ok (n : ℤ) := checkCronBound_eq ⟨hlow, hhigh⟩
    unfold parseDowModifier
    simp only [if_neg hlast, splitNth_of_part (ht.ne_nil sound_dow) hs, hvalue, hbound, bind, Except.bind, hnth]
    refine ⟨_, rfl, fun x => ?_⟩
    cases x <;> simp [Has]

theorem DowPart.chars {m : DayModifier} (h : DowPart t m) : ∀ c ∈ t, InValue c ∨ c = '#' := by
  intro d hd
  cases h with
  | last ht _ hc =>
    apply Or.inl
    rcases List.mem_append.mp hd with hd | hd
    · exact ht.inValue sound_dow d hd
    · apply Or.inr
      rw [List.mem_singleton.mp hd]
      rcases hc with rfl | rfl
      · decide
      · decide
  | nth ht _ hs =>
    rcases List.mem_append.mp hd with hd | hd
    · exact Or.inl (ht.inValue sound_dow d hd)
    rcases List.mem_cons.mp hd with rfl | hd
    · exact Or.inr rfl
    · exact Or.inl (hs.inValue d hd)

theorem reads_dow : Reads cronDow parseDowModifier DowPart where
  sound := parseDowModifier_sound
  complete := parseDowModifier_complete
  chars := DowPart.chars
  plain {mods t x} h := by
    have hlast : ¬ ((t.getLast? = some 'L' ∨ t.getLast? = some 'l') ∧ t.dropLast ≠ []) := by
      rintro ⟨hc | hc, -⟩
      · exact (h.last sound_dow noModifierName_dow hc).1 (by decide)
      · exact (h.last sound_dow noModifierName_dow hc).1 (by decide)
    have hnth : splitNth t = none := by
      unfold splitNth
      rw [Text.splitLast_eq_none (h.not_mem_hash sound_dow)]
      rfl
    unfold parseDowModifier
    simp only [if_neg hlast, hnth]
    rfl

end GlideMq.CronGrammar
