import GlideMq.Proofs.CronParser
import GlideMq.Proofs.CronWords
import Mathlib.Data.List.Perm.Subperm

/-!
# The cron parser accepts the language and reads what it stands for

The parser goes over the parts of a field, and each part changes its state by what it stands for.
-/

namespace GlideMq.CronGrammar

variable {spec : CronFieldSpec} {special : SpecialToken} {part : Token → DayModifier → Prop}
  {t : Token} {m : Meaning} {v : ℤ}

/-! ## Parts -/

/-- The state of the loop after a part. -/
structure Takes (m : Meaning) (before after : CronDayModifiers × List ℤ) : Prop where
  modifiers : ∀ x, Has after.1 x ↔ Has before.1 x ∨ m = .modifier x
  values : ∀ v, v ∈ after.2 ↔ v ∈ before.2 ∨ ∃ s, m = .values s ∧ v ∈ s

theorem takes_values {mods : CronDayModifiers} {vs new : List ℤ} {x : Set ℤ} (h : ∀ v, v ∈ new ↔ v ∈ x) :
    Takes (.values x) (mods, vs) (mods, vs ++ new) where
  modifiers := by simp
  values := by simp [h]

theorem takes_modifier {mods mods' : CronDayModifiers} {vs : List ℤ} {m : DayModifier} (h : Adds m mods mods') :
    Takes (.modifier m) (mods, vs) (mods', vs) where
  modifiers y := by
    rw [h y, Meaning.modifier.injEq]
    exact or_congr Iff.rfl eq_comm
  values := by simp

theorem Reads.ne_wildcard (hreads : Reads spec special part) {m : DayModifier} (h : part t m) :
    '*' ∉ t ∧ '?' ∉ t ∧ ',' ∉ t := by
  have hnot {d : Char} (hd : d.isDigit = false ∧ (toUpper d).isUpper = false) (hhash : d ≠ '#') : d ∉ t := by
    intro hmem
    rcases hreads.chars h d hmem with (hdigit | hupper) | rfl
    · rw [hd.1] at hdigit
      cases hdigit
    · rw [hd.2] at hupper
      cases hupper
    · exact hhash rfl
  exact ⟨hnot (by decide) (by decide), hnot (by decide) (by decide), hnot (by decide) (by decide)⟩

theorem parseTokens_part (hspec : Sound spec) (hreads : Reads spec special part) (h : PartOf spec part t m)
    (state : CronDayModifiers × List ℤ) :
    ∃ state', Takes m state state' ∧ ∀ ts, parseTokens spec special (t :: ts) state = parseTokens spec special ts state' := by
  obtain ⟨mods, vs⟩ := state
  by_cases hwild : t = ['*'] ∨ spec.allowQuestion ∧ t = ['?']
  · obtain ⟨new, hnew, hmem⟩ := addRange_eq (n := 1) one_pos le_rfl hspec.bounds.2 le_rfl
    refine ⟨(mods, vs ++ new), ?_, fun ts => ?_⟩
    · cases h with
      | plain hx =>
        apply takes_values
        rw [steps_one] at hmem
        rcases hx.wildcard hspec with ⟨-, rfl⟩ | ⟨-, -, rfl⟩ | ⟨s, n, rfl, -⟩ | ⟨hstar, hquestion⟩
        · exact hmem
        · exact hmem
        · rcases hwild with hwild | ⟨-, hwild⟩
          · cases hwild
          · cases hwild
        · rcases hwild with rfl | ⟨-, rfl⟩
          · exact absurd (List.mem_singleton_self _) hstar
          · exact absurd (List.mem_singleton_self _) hquestion
      | modifier hm =>
        obtain ⟨hstar, hquestion, -⟩ := hreads.ne_wildcard hm
        rcases hwild with rfl | ⟨-, rfl⟩
        · exact absurd (List.mem_singleton_self _) hstar
        · exact absurd (List.mem_singleton_self _) hquestion
    · have hadd : addRange spec spec.min spec.max 1 = .ok new := hnew
      rw [parseTokens, if_pos hwild, hadd]
      rfl
  · cases h with
    | plain hx =>
      have hany : t ≠ ['?'] := by
        rintro rfl
        rcases hx.wildcard hspec with ⟨h, -⟩ | ⟨-, h, -⟩ | ⟨s, n, h, -⟩ | ⟨-, h⟩
        · exact hwild (Or.inl h)
        · exact hwild (Or.inr ⟨h, rfl⟩)
        · cases h
        · exact h (List.mem_singleton_self _)
      obtain ⟨new, hnew, hmem⟩ := parseToken_of_part hspec hx hany
      refine ⟨(mods, vs ++ new), takes_values hmem, fun ts => ?_⟩
      rw [parseTokens, if_neg hwild, hreads.plain hx, hnew]
      rfl
    | modifier hm =>
      obtain ⟨mods', hmods, hadds⟩ := hreads.complete hm
      refine ⟨(mods', vs), takes_modifier hadds, fun ts => ?_⟩
      rw [parseTokens, if_neg hwild, hmods]
      rfl

theorem part_of_parseTokens (hspec : Sound spec) (hreads : Reads spec special part) {ts : List Token}
    {state r : CronDayModifiers × List ℤ} (h : parseTokens spec special (t :: ts) state = .ok r) :
    ∃ m, PartOf spec part t m := by
  obtain ⟨mods, vs⟩ := state
  rw [parseTokens] at h
  split at h
  · rename_i hwild
    rcases hwild with rfl | ⟨hallow, rfl⟩
    · exact ⟨_, .plain .all⟩
    · exact ⟨_, .plain (.any hallow)⟩
  rcases htaken : special mods t with e | taken
  · rw [htaken] at h
    cases h
  rw [htaken] at h
  cases taken with
  | some mods' =>
    obtain ⟨m, hm⟩ := hreads.sound htaken
    exact ⟨_, .modifier hm⟩
  | none =>
    rcases hnew : parseToken spec t with e | new
    · simp only [hnew] at h
      cases h
    · obtain ⟨x, hx⟩ := part_of_parseToken hspec hnew
      exact ⟨_, .plain hx⟩

/-! ## Fields -/

theorem parseTokens_complete (hspec : Sound spec) (hreads : Reads spec special part) {parts : List (Token × Meaning)}
    (hparts : ∀ p ∈ parts, PartOf spec part p.1 p.2) (state : CronDayModifiers × List ℤ) :
    ∃ r, parseTokens spec special (parts.map (·.1)) state = .ok r ∧
      (∀ x, Has r.1 x ↔ Has state.1 x ∨ ∃ p ∈ parts, p.2 = .modifier x) ∧
      ∀ v, v ∈ r.2 ↔ v ∈ state.2 ∨ ∃ p ∈ parts, ∃ s, p.2 = .values s ∧ v ∈ s := by
  induction parts generalizing state with
  | nil => exact ⟨state, rfl, by simp, by simp⟩
  | cons p parts ih =>
    obtain ⟨hp, hparts⟩ := List.forall_mem_cons.mp hparts
    obtain ⟨state', htakes, hstep⟩ := parseTokens_part hspec hreads hp state
    obtain ⟨r, hr, hmods, hvalues⟩ := ih hparts state'
    refine ⟨r, ?_, fun x => ?_, fun v => ?_⟩
    · rw [List.map_cons, hstep, hr]
    · rw [hmods, htakes.modifiers, List.exists_mem_cons_iff, or_assoc]
    · rw [hvalues, htakes.values, List.exists_mem_cons_iff, or_assoc]

theorem parseTokens_sound (hspec : Sound spec) (hreads : Reads spec special part) {ts : List Token}
    {state r : CronDayModifiers × List ℤ} (h : parseTokens spec special ts state = .ok r) :
    ∃ parts : List (Token × Meaning), parts.map (·.1) = ts ∧ ∀ p ∈ parts, PartOf spec part p.1 p.2 := by
  induction ts generalizing state with
  | nil => exact ⟨[], rfl, by simp⟩
  | cons t ts ih =>
    obtain ⟨m, hm⟩ := part_of_parseTokens hspec hreads h
    obtain ⟨state', -, hstep⟩ := parseTokens_part hspec hreads hm state
    rw [hstep] at h
    obtain ⟨parts, rfl, hparts⟩ := ih h
    exact ⟨(t, m) :: parts, rfl, List.forall_mem_cons.mpr ⟨hm, hparts⟩⟩

theorem PartOf.not_mem_comma (hspec : Sound spec) (hreads : Reads spec special part) (h : PartOf spec part t m) :
    ',' ∉ t := by
  cases h with
  | plain hx => exact hx.not_mem_comma hspec
  | modifier hm => exact (hreads.ne_wildcard hm).2.2

theorem parseCronField_complete (hspec : Sound spec) (hreads : Reads spec special part) (f : FieldText spec part)
    (mods : CronDayModifiers) :
    ∃ r, parseCronField f.text spec special mods = .ok r ∧
      (∀ x, Has r.1 x ↔ Has mods x ∨ x ∈ f.modifiers) ∧ ∀ v, v ∈ r.2 ↔ v ∈ f.values := by
  have hsplit : f.text.splitOn ',' = f.parts.map (·.1) := by
    apply List.splitOn_intercalate
    · intro t ht
      obtain ⟨p, hp, rfl⟩ := List.mem_map.mp ht
      exact (f.ok p hp).not_mem_comma hspec hreads
    · simpa using f.nonempty
  obtain ⟨r, hr, hmods, hvalues⟩ := parseTokens_complete hspec hreads f.ok (mods, [])
  refine ⟨r, ?_, hmods, fun v => ?_⟩
  · unfold parseCronField
    rw [hsplit, hr]
  · rw [hvalues]
    simp [FieldText.values]

theorem parseCronField_sound (hspec : Sound spec) (hreads : Reads spec special part) {field : Token}
    {mods : CronDayModifiers} {r : CronDayModifiers × List ℤ}
    (h : parseCronField field spec special mods = .ok r) : ∃ f : FieldText spec part, f.text = field := by
  obtain ⟨parts, hparts, hok⟩ := parseTokens_sound hspec hreads h
  have hne : parts ≠ [] := by
    rintro rfl
    exact List.splitOn_ne_nil _ _ hparts.symm
  refine ⟨⟨parts, hne, hok⟩, ?_⟩
  unfold FieldText.text
  rw [hparts, List.intercalate_splitOn]

theorem PlainPart.subset {x : Set ℤ} (h : PlainPart spec t x) :
    x ⊆ Set.Icc spec.min spec.max := by
  have hsteps {first last : ℤ} {n : ℕ} (hfirst : spec.min ≤ first) (hlast : last ≤ spec.max) :
      steps first last n ⊆ Set.Icc spec.min spec.max := by
    rintro v ⟨hle, k, rfl⟩
    have hk : (0 : ℤ) ≤ k * n := by positivity
    exact ⟨by omega, by omega⟩
  cases h with
  | all => exact subset_rfl
  | any => exact subset_rfl
  | allStep => exact hsteps le_rfl le_rfl
  | value _ hv => exact Set.singleton_subset_iff.mpr hv
  | valueStep _ hv => exact hsteps hv.1 le_rfl
  | range _ _ hv _ hw => exact Set.Icc_subset_Icc hv hw
  | rangeStep _ _ hv _ hw => exact hsteps hv hw

theorem FieldText.within (f : FieldText spec part) (hv : v ∈ f.values) :
    spec.min ≤ v ∧ v ≤ spec.max := by
  obtain ⟨p, hp, x, hx, hmem⟩ := hv
  have hpart := f.ok p hp
  rw [hx] at hpart
  cases hpart with
  | plain h => exact h.subset hmem

theorem parseTimeField_complete (hspec : Sound spec) (f : FieldText spec noModifier) :
    ∃ field, parseTimeField f.text spec = .ok field ∧ ∀ v, v ∈ field.val ↔ v ∈ f.values := by
  obtain ⟨r, hr, -, hvalues⟩ := parseCronField_complete hspec (reads_noSpecial spec) f {}
  unfold parseTimeField
  split
  · rename_i e h
    rw [hr] at h
    cases h
  · rename_i r' h
    rw [hr] at h
    cases h
    refine ⟨_, rfl, fun v => ?_⟩
    rw [CronField.mem_ofValues, hvalues]
    exact and_iff_right_of_imp f.within

theorem parseTimeField_sound (hspec : Sound spec) {text : Token} {field : TimeField spec.min spec.max}
    (h : parseTimeField text spec = .ok field) : ∃ f : FieldText spec noModifier, f.text = text := by
  unfold parseTimeField at h
  split at h
  · cases h
  · rename_i r hr
    exact parseCronField_sound hspec (reads_noSpecial spec) hr

/-! ## Wildcards -/

theorem mem_intercalate {c d : Char} (hc : c ≠ d) (ts : List Token) : c ∈ [d].intercalate ts ↔ ∃ t ∈ ts, c ∈ t := by
  induction ts with
  | nil => simp
  | cons t ts ih =>
    cases ts with
    | nil => simp
    | cons u ts =>
      rw [List.intercalate_cons_cons, List.mem_append, List.mem_append, ih, List.exists_mem_cons_iff (a := t)]
      simp [hc]

theorem PartOf.wildcard_iff (hspec : Sound spec) (hreads : Reads spec special part) (h : PartOf spec part t m) :
    (t = ['*'] ∨ t = ['?'] ∨ ∃ s, t = '*' :: '/' :: s) ↔ '*' ∈ t ∨ '?' ∈ t := by
  constructor
  · rintro (rfl | rfl | ⟨s, rfl⟩)
    · simp
    · simp
    · simp
  · intro hmem
    cases h with
    | plain hx =>
      rcases hx.wildcard hspec with ⟨h, -⟩ | ⟨h, -⟩ | ⟨s, n, h, -⟩ | ⟨hstar, hquestion⟩
      · exact Or.inl h
      · exact Or.inr (Or.inl h)
      · exact Or.inr (Or.inr ⟨s, h⟩)
      · exact absurd hmem (not_or.mpr ⟨hstar, hquestion⟩)
    | modifier hm =>
      obtain ⟨hstar, hquestion, -⟩ := hreads.ne_wildcard hm
      exact absurd hmem (not_or.mpr ⟨hstar, hquestion⟩)

theorem PartOf.not_mem_question (hspec : Sound spec) (hreads : Reads spec special part)
    (hallow : spec.allowQuestion = false) (h : PartOf spec part t m) : '?' ∉ t := by
  cases h with
  | plain hx =>
    rcases hx.wildcard hspec with ⟨rfl, -⟩ | ⟨-, h, -⟩ | ⟨s, n, rfl, hs, -⟩ | ⟨-, h⟩
    · decide
    · rw [hallow] at h
      cases h
    · simp [hs]
    · exact h
  | modifier hm => exact (hreads.ne_wildcard hm).2.1

theorem FieldText.mem_text (f : FieldText spec part) {c : Char} (hc : c ≠ ',') :
    c ∈ f.text ↔ ∃ p ∈ f.parts, c ∈ p.1 := by
  unfold FieldText.text
  rw [mem_intercalate hc]
  simp

theorem FieldText.hasWildcard_iff (hspec : Sound spec) (hreads : Reads spec special part) (f : FieldText spec part) :
    f.HasWildcard ↔ '*' ∈ f.text ∨ '?' ∈ f.text := by
  rw [f.mem_text (by decide), f.mem_text (by decide), ← exists_or]
  unfold FieldText.HasWildcard
  constructor
  · rintro ⟨p, hp, h⟩
    have := ((f.ok p hp).wildcard_iff hspec hreads).mp h
    exact ⟨p, this.imp (And.intro hp) (And.intro hp)⟩
  · rintro ⟨p, ⟨hp, h⟩ | ⟨hp, h⟩⟩
    · exact ⟨p, hp, ((f.ok p hp).wildcard_iff hspec hreads).mpr (Or.inl h)⟩
    · exact ⟨p, hp, ((f.ok p hp).wildcard_iff hspec hreads).mpr (Or.inr h)⟩

theorem FieldText.hasWildcard_iff_star (hspec : Sound spec) (hallow : spec.allowQuestion = false)
    (f : FieldText spec noModifier) : f.HasWildcard ↔ '*' ∈ f.text := by
  rw [f.hasWildcard_iff hspec (reads_noSpecial spec)]
  apply or_iff_left
  rw [f.mem_text (by decide)]
  rintro ⟨p, hp, h⟩
  exact (f.ok p hp).not_mem_question hspec (reads_noSpecial spec) hallow h

/-! ## Days -/

/-- The modifiers of the days of the month. -/
def DayModifier.OfMonth : DayModifier → Prop
  | .last | .lastWeekday | .nearest _ => True
  | .lastOf _ | .nth _ _ => False

theorem FieldText.ofMonth_dom (f : FieldText cronDom DomPart) {x : DayModifier} (h : x ∈ f.modifiers) : x.OfMonth := by
  obtain ⟨⟨t, m⟩, hp, rfl⟩ := h
  have hpart := f.ok _ hp
  cases hpart with
  | modifier hm => cases hm <;> trivial

theorem FieldText.not_ofMonth_dow (f : FieldText cronDow DowPart) {x : DayModifier} (h : x ∈ f.modifiers) :
    ¬ x.OfMonth := by
  obtain ⟨⟨t, m⟩, hp, rfl⟩ := h
  have hpart := f.ok _ hp
  cases hpart with
  | modifier hm => cases hm <;> exact id

theorem fold_eq_mod (hv : 0 ≤ v ∧ v ≤ 7) : (if v = 7 then 0 else v) = v % 7 := by
  -- 7 is folded to 0 after the ranges are expanded.
  split
  · omega
  · omega

theorem mem_dowField (p : PatternText) {vs : List ℤ} (hvs : ∀ v, v ∈ vs ↔ v ∈ p.dow.values) :
    v ∈ CronField.ofValues 0 6 (vs.map fun v => if v = 7 then 0 else v) ↔ v ∈ p.weekdays := by
  rw [CronField.mem_ofValues, List.mem_map]
  constructor
  · rintro ⟨-, x, hx, rfl⟩
    rw [hvs] at hx
    exact ⟨x, hx, fold_eq_mod (p.dow.within hx)⟩
  · rintro ⟨x, hx, rfl⟩
    refine ⟨by omega, x, (hvs x).mpr hx, fold_eq_mod (p.dow.within hx)⟩

theorem length_sorted_eq {min max : ℤ} (f : CronField min max) :
    f.sorted.length = (max - min + 1).toNat ↔ ∀ v, min ≤ v ∧ v ≤ max → v ∈ f := by
  have hlength : (CronField.range min max).length = (max - min + 1).toNat := by simp [CronField.range]
  have hnodup : (CronField.range min max).Nodup := by
    unfold CronField.range
    apply List.Nodup.map _ List.nodup_range
    intro i j h
    simpa using h
  have hsorted : f.sorted.Nodup := f.increasing.imp ne_of_lt
  have hsub : List.Subperm f.sorted (CronField.range min max) :=
    hsorted.subperm fun v hv => CronField.mem_range.mpr (f.within v hv)
  rw [← hlength]
  constructor
  · intro h v hv
    have hperm := hsub.perm_of_length_le h.ge
    exact hperm.mem_iff.mpr (CronField.mem_range.mpr hv)
  · intro h
    have hsup : List.Subperm (CronField.range min max) f.sorted :=
      hnodup.subperm fun v hv => h v (CronField.mem_range.mp hv)
    exact le_antisymm hsub.length_le hsup.length_le

theorem length_sorted_iff {min max : ℤ} (f : CronField min max) {x : Set ℤ} (hx : ∀ v, v ∈ f ↔ v ∈ x) :
    f.sorted.length = (max - min + 1).toNat ↔ x = Set.Icc min max := by
  rw [length_sorted_eq]
  constructor
  · intro h
    ext v
    rw [← hx]
    exact ⟨f.within v, h v⟩
  · rintro rfl v hv
    exact (hx v).mpr hv

/-- Of all steps only those of one reach every day of the week. -/
theorem weekdays_steps {n : ℕ} (hn : 0 < n) :
    {d | ∃ v ∈ steps 0 7 n, d = v % 7} = Set.Icc (0 : ℤ) 6 ↔ n = 1 := by
  constructor
  · intro h
    have hone : (1 : ℤ) ∈ {d | ∃ v ∈ steps 0 7 n, d = v % 7} := by
      rw [h]
      exact ⟨by decide, by decide⟩
    obtain ⟨v, ⟨hle, k, rfl⟩, hmod⟩ := hone
    have hk : (0 : ℤ) ≤ k * n := by positivity
    have hprod : (k * n : ℤ) = 1 := by omega
    have hnat : k * n = 1 := by exact_mod_cast hprod
    exact Nat.eq_one_of_mul_eq_one_left hnat
  · rintro rfl
    rw [steps_one]
    ext d
    simp only [Set.mem_ofPred_eq, Set.mem_Icc]
    constructor
    · rintro ⟨v, hv, rfl⟩
      omega
    · intro hd
      exact ⟨d, by omega, by omega⟩

/-- A day field of one part covers the week if the part is `*`, `?` or `*/1`. -/
theorem weekdays_single (p : PatternText) (hparts : p.dow.parts = [(t, m)]) :
    p.weekdays = Set.Icc 0 6 ∧ p.dow.HasWildcard ↔
      t = ['*'] ∨ t = ['?'] ∨ ∃ s, IsNumber s 1 ∧ t = '*' :: '/' :: s := by
  have hok : PartOf cronDow DowPart t m := p.dow.ok (t, m) (by simp [hparts])
  have hwild : p.dow.HasWildcard ↔ '*' ∈ t ∨ '?' ∈ t := by
    rw [← hok.wildcard_iff sound_dow reads_dow]
    simp [FieldText.HasWildcard, hparts]
  rw [hwild]
  cases hok with
  | modifier hm =>
    obtain ⟨hstar, hquestion, -⟩ := reads_dow.ne_wildcard hm
    constructor
    · rintro ⟨-, h⟩
      exact absurd h (not_or.mpr ⟨hstar, hquestion⟩)
    · rintro (rfl | rfl | ⟨s, -, rfl⟩)
      · exact absurd (List.mem_cons_self ..) hstar
      · exact absurd (List.mem_cons_self ..) hquestion
      · exact absurd (List.mem_cons_self ..) hstar
  | @plain x hx =>
    have hvalues : p.weekdays = {d | ∃ v ∈ x, d = v % 7} := by
      ext d
      simp [PatternText.weekdays, FieldText.values, hparts]
    have hfull : {d | ∃ v ∈ Set.Icc (0 : ℤ) 7, d = v % 7} = Set.Icc (0 : ℤ) 6 := by
      rw [← steps_one]
      exact (weekdays_steps one_pos).mpr rfl
    rw [hvalues]
    rcases hx.wildcard sound_dow with ⟨rfl, rfl⟩ | ⟨rfl, -, rfl⟩ | ⟨s, n, rfl, hs, hnumber, hn, rfl⟩ | ⟨hstar, hquestion⟩
    · exact iff_of_true ⟨hfull, by decide⟩ (Or.inl rfl)
    · exact iff_of_true ⟨hfull, by decide⟩ (Or.inr (Or.inl rfl))
    · constructor
      · rintro ⟨h, -⟩
        rw [(weekdays_steps hn).mp h] at hnumber
        exact Or.inr (Or.inr ⟨s, hnumber, rfl⟩)
      · rintro (h | h | ⟨s', hone, h⟩)
        · cases h
        · cases h
        · cases h
          rw [hnumber.int hone]
          exact ⟨(weekdays_steps one_pos).mpr rfl, Or.inl (List.mem_cons_self ..)⟩
    · constructor
      · rintro ⟨-, h⟩
        exact absurd h (not_or.mpr ⟨hstar, hquestion⟩)
      · rintro (rfl | rfl | ⟨s, -, rfl⟩)
        · exact absurd (List.mem_cons_self ..) hstar
        · exact absurd (List.mem_cons_self ..) hquestion
        · exact absurd (List.mem_cons_self ..) hstar

/-! ## Patterns -/

theorem not_has_nil (x : DayModifier) : ¬ Has {} x := by
  cases x <;> simp [Has]

theorem parseFields_complete (p : PatternText) {second : Except String (TimeField 0 59)} {field : TimeField 0 59}
    {hasSeconds : Bool} (hfield : second = .ok field) (hsecond : ∀ v, v ∈ field.val ↔ v ∈ p.seconds)
    (hseconds : hasSeconds = p.second.isSome)
    (hwhole : hasSeconds = false → ∀ field ∈ second.toOption, field.val.sorted = [0]) :
    ∃ cron, parseFields second hasSeconds hwhole p.minute.text p.hour.text p.dom.text p.month.text
      p.dow.text = .ok cron ∧ Denotes p cron := by
  subst hfield
  obtain ⟨⟨domMods, domValues⟩, hdom, hdomMods, hdomValues⟩ :=
    parseCronField_complete sound_dom reads_dom p.dom {}
  obtain ⟨⟨mods, dowValues⟩, hdow, hdowMods, hdowValues⟩ :=
    parseCronField_complete sound_dow reads_dow p.dow domMods
  obtain ⟨minute, hminute, hminutes⟩ := parseTimeField_complete sound_minute p.minute
  obtain ⟨hour, hhour, hhours⟩ := parseTimeField_complete sound_hour p.hour
  obtain ⟨month, hmonth, hmonths⟩ := parseTimeField_complete sound_month p.month
  have hmods (x : DayModifier) : Has mods x ↔ x ∈ p.dom.modifiers ∨ x ∈ p.dow.modifiers := by
    rw [hdowMods, hdomMods, or_iff_right (not_has_nil x)]
  have hofMonth {x : DayModifier} (hx : x.OfMonth) : Has mods x ↔ x ∈ p.dom.modifiers := by
    rw [hmods]
    exact or_iff_left fun h => p.dow.not_ofMonth_dow h hx
  have hofWeek {x : DayModifier} (hx : ¬ x.OfMonth) : Has mods x ↔ x ∈ p.dow.modifiers := by
    rw [hmods]
    exact or_iff_right fun h => hx (p.dom.ofMonth_dom h)
  have hdays (v : ℤ) : v ∈ CronField.ofValues 1 31 domValues ↔ v ∈ p.dom.values := by
    rw [CronField.mem_ofValues, hdomValues]
    exact and_iff_right_of_imp p.dom.within
  have hweekdays (v : ℤ) := mem_dowField (v := v) p hdowValues
  unfold parseFields
  simp only [bind, Except.bind, hdom, hdow, hminute, hhour, hmonth]
  refine ⟨_, rfl, ?_⟩
  exact {
    second := hsecond
    minute := hminutes
    hour := hhours
    dom := hdays
    month := hmonths
    dow := hweekdays
    domLast := hofMonth (x := .last) trivial
    domLastWeekday := hofMonth (x := .lastWeekday) trivial
    domNearestWeekday := fun n => hofMonth (x := .nearest n) trivial
    dowLast := fun d => hofWeek (x := .lastOf d) id
    dowNth := fun d n => hofWeek (x := .nth d n) id
    hasSeconds := hseconds
    wildcardTime := by
      rw [p.minute.hasWildcard_iff_star sound_minute rfl, p.hour.hasWildcard_iff_star sound_hour rfl]
      exact decide_eq_true_iff
    domUnrestricted := by
      rw [← length_sorted_iff _ hdays]
      exact decide_eq_true_iff
    dowUnrestricted := by
      rw [← length_sorted_iff _ hweekdays, p.dow.hasWildcard_iff sound_dow reads_dow]
      exact decide_eq_true_iff
    dowUnrestricted_single := fun t m hparts => by
      rw [← weekdays_single p hparts, ← length_sorted_iff _ hweekdays, p.dow.hasWildcard_iff sound_dow reads_dow]
      exact decide_eq_true_iff }

theorem parseFields_sound {second : Except String (TimeField 0 59)} {hasSeconds : Bool}
    {hwhole : hasSeconds = false → ∀ field ∈ second.toOption, field.val.sorted = [0]}
    {minute hour dom month dow : Token} {cron : CronPattern}
    (h : parseFields second hasSeconds hwhole minute hour dom month dow = .ok cron) :
    (∃ field, second = .ok field) ∧ ∀ o : Option (FieldText cronSecond noModifier), ∃ p : PatternText,
      p.second = o ∧ p.minute.text = minute ∧ p.hour.text = hour ∧ p.dom.text = dom ∧ p.month.text = month ∧
        p.dow.text = dow := by
  unfold parseFields at h
  rcases hdom : parseCronField dom cronDom parseDomModifier {} with e | ⟨domMods, domValues⟩
  · rw [hdom] at h
    cases h
  rw [hdom] at h
  rcases hdow : parseCronField dow cronDow parseDowModifier domMods with e | ⟨mods, dowValues⟩
  · simp only [bind, Except.bind, hdow] at h
    cases h
  simp only [bind, Except.bind, hdow] at h
  split at h
  · cases h
  rename_i field
  rcases hminute : parseTimeField minute cronMinute with e | minuteField
  · rw [hminute] at h
    cases h
  rcases hhour : parseTimeField hour cronHour with e | hourField
  · rw [hminute, hhour] at h
    cases h
  rcases hmonth : parseTimeField month cronMonth with e | monthField
  · rw [hminute, hhour, hmonth] at h
    cases h
  obtain ⟨minute, rfl⟩ := parseTimeField_sound sound_minute hminute
  obtain ⟨hour, rfl⟩ := parseTimeField_sound sound_hour hhour
  obtain ⟨dom, rfl⟩ := parseCronField_sound sound_dom reads_dom hdom
  obtain ⟨month, rfl⟩ := parseTimeField_sound sound_month hmonth
  obtain ⟨dow, rfl⟩ := parseCronField_sound sound_dow reads_dow hdow
  exact ⟨⟨field, rfl⟩, fun o => ⟨⟨o, minute, hour, dom, month, dow⟩, rfl, rfl, rfl, rfl, rfl, rfl⟩⟩

theorem parses_of_writes {p : PatternText} {pattern : String} (h : p.Writes pattern) :
    ∃ cron, parseCronPattern pattern = .ok cron ∧ Denotes p cron := by
  have hwords := words_of_spaced h
  unfold parseCronPattern
  rw [hwords]
  cases hsecond : p.second with
  | none =>
    simp only [PatternText.fields, hsecond, Option.map_none, Option.toList_none, List.nil_append]
    apply parseFields_complete p rfl
    · intro v
      simp only [PatternText.seconds, hsecond, Set.mem_singleton_iff]
      change v ∈ CronField.ofValues 0 59 [0] ↔ v = 0
      rw [CronField.mem_ofValues, List.mem_singleton]
      omega
    · rw [hsecond]
      rfl
  | some f =>
    obtain ⟨field, hfield, hmem⟩ := parseTimeField_complete sound_second f
    simp only [PatternText.fields, hsecond, Option.map_some, Option.toList_some, List.singleton_append]
    apply parseFields_complete p hfield
    · intro v
      simp only [PatternText.seconds, hsecond]
      exact hmem v
    · rw [hsecond]
      rfl

theorem writes_of_parses {pattern : String} {cron : CronPattern} (h : parseCronPattern pattern = .ok cron) :
    ∃ p : PatternText, p.Writes pattern := by
  unfold parseCronPattern at h
  split at h
  · rename_i minute hour dom month dow hwords
    obtain ⟨-, hp⟩ := parseFields_sound h
    obtain ⟨p, hsecond, rfl, rfl, rfl, rfl, rfl⟩ := hp none
    refine ⟨p, ?_⟩
    unfold PatternText.Writes PatternText.fields
    rw [hsecond]
    exact spaced_of_words hwords (by simp)
  · rename_i second minute hour dom month dow hwords
    obtain ⟨⟨field, hfield⟩, hp⟩ := parseFields_sound h
    obtain ⟨f, rfl⟩ := parseTimeField_sound sound_second hfield
    obtain ⟨p, hsecond, rfl, rfl, rfl, rfl, rfl⟩ := hp (some f)
    refine ⟨p, ?_⟩
    unfold PatternText.Writes PatternText.fields
    rw [hsecond]
    exact spaced_of_words hwords (by simp)
  · cases h

/-- A text is parsed if it is in the language, and as what it stands for there. -/
theorem parseCronPattern_language (pattern : String) :
    ((∃ cron, parseCronPattern pattern = .ok cron) ↔ ∃ p : PatternText, p.Writes pattern) ∧
      ∀ p : PatternText, p.Writes pattern → ∃ cron, parseCronPattern pattern = .ok cron ∧ Denotes p cron := by
  refine ⟨⟨?_, ?_⟩, fun p => parses_of_writes⟩
  · rintro ⟨cron, h⟩
    exact writes_of_parses h
  · rintro ⟨p, h⟩
    obtain ⟨cron, hcron, -⟩ := parses_of_writes h
    exact ⟨cron, hcron⟩

example : ∃ cron, parseCronPattern "5/15 9-17 LW,1 jan,MAR mon#2,5l" = .ok cron := ⟨_, rfl⟩

end GlideMq.CronGrammar
