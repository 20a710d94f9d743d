import GlideMq.Proofs.CronDays

/-!
# The walk of the cron search

The walk never passes a clock that the code takes for a match, and it goes on at each step. What a
step costs is told beforehand: a day costs a few steps, and a minute with times that are declined costs
a step for each second and a few more.
-/

namespace GlideMq

open Calendar

/-! ## Fields -/

section

variable {min max x y : Int} {f : CronField min max}

theorem mem_of_find? (h : f.sorted.find? (x < ·) = some y) : y ∈ f ∧ x < y := by
  refine ⟨List.mem_of_find?_eq_some h, ?_⟩
  simpa using List.find?_some h

theorem le_of_find? (h : f.sorted.find? (x < ·) = some y) {v : Int} (hv : v ∈ f) (hx : x < v) :
    y ≤ v := by
  obtain ⟨before, later, heq, hbefore⟩ := (List.find?_eq_some_iff_append.mp h).2
  have hsorted := f.increasing
  change v ∈ f.sorted at hv
  rw [heq, List.mem_append, List.mem_cons] at hv
  rw [heq, List.pairwise_append, List.pairwise_cons] at hsorted
  rcases hv with hv | rfl | hv
  · have hnot := hbefore v hv
    simp [hx] at hnot
  · exact le_rfl
  · exact (hsorted.2.1.1 v hv).le

theorem le_of_find?_none (h : f.sorted.find? (x < ·) = none) {v : Int} (hv : v ∈ f) : v ≤ x := by
  have hnot := List.find?_eq_none.mp h v hv
  simpa using hnot

theorem head_le (hne : f.sorted ≠ []) {v : Int} (hv : v ∈ f) : f.sorted.head hne ≤ v := by
  obtain ⟨first, rest, heq⟩ := List.exists_cons_of_ne_nil hne
  have hsorted := f.increasing
  change v ∈ f.sorted at hv
  rw [heq, List.mem_cons] at hv
  rw [heq, List.pairwise_cons] at hsorted
  simp only [heq, List.head_cons]
  rcases hv with rfl | hv
  · exact le_rfl
  · exact (hsorted.1 v hv).le

theorem head_mem (hne : f.sorted ≠ []) : f.sorted.head hne ∈ f := List.head_mem hne

theorem exists_find?_of_le (hne : f.sorted ≠ []) (hx : x ≤ min) (hnot : x ∉ f) :
    ∃ y, f.sorted.find? (x < ·) = some y := by
  rcases h : f.sorted.find? (x < ·) with _ | y
  · have hmem := head_mem hne
    have hle := le_of_find?_none h hmem
    have hmin := (f.within _ hmem).1
    rw [show f.sorted.head hne = x by omega] at hmem
    exact absurd hmem hnot
  · exact ⟨y, rfl⟩

end

/-! ## One step -/

variable {cron : CronPattern} {v w w' : Wall}

/-- The code takes the clock for a match. -/
structure CronPattern.Taken (cron : CronPattern) (v : Wall) : Prop where
  month : v.month ∈ cron.month
  first : 1 ≤ v.day
  last : ∀ length ∈ daysInMonth v.year v.month, v.day ≤ length
  day : cronDayMatches cron v.day (weekday v.year v.month v.day) (daysInMonth v.year v.month) = true
  hour : v.hour ∈ cron.hour
  minute : v.minute ∈ cron.minute
  second : v.second ∈ cron.second

/-- A clock that the walk can come to. A field may have run over its end. -/
structure Walked (w : Wall) : Prop where
  month : 1 ≤ w.month ∧ w.month ≤ 12
  day : 1 ≤ w.day
  hour : 0 ≤ w.hour
  minute : 0 ≤ w.minute
  second : 0 ≤ w.second ∧ w.second ≤ 59

def firstOfNextMonth (w : Wall) : Wall :=
  if 12 < w.month + 1 then monthBegin (w.year + 1) 1 else monthBegin w.year (w.month + 1)

def nextDay (w : Wall) : Wall := { w with day := w.day + 1, hour := 0, minute := 0, second := 0 }

def minuteOf (w : Wall) : Wall := { w with second := 0 }

/-- How a step skips, and why. -/
inductive Skips (cron : CronPattern) (w : Wall) : Wall → Prop
  | month {month} (hnot : w.month ∉ cron.month)
      (hnext : cron.month.sorted.find? (w.month < ·) = some month) :
      Skips cron w (monthBegin w.year month)
  | year (hnot : w.month ∉ cron.month) (hnext : cron.month.sorted.find? (w.month < ·) = none) :
      Skips cron w (monthBegin (w.year + 1) (cron.month.sorted.head cron.hasMonth))
  | monthEnd {length} (hin : w.month ∈ cron.month) (hlength : daysInMonth w.year w.month = some length)
      (hlast : length < w.day) : Skips cron w (firstOfNextMonth w)
  | day (hin : w.month ∈ cron.month)
      (hlast : ∀ length ∈ daysInMonth w.year w.month, w.day ≤ length)
      (hnot : ¬ cronDayMatches cron w.day (weekday w.year w.month w.day)
        (daysInMonth w.year w.month)) :
      Skips cron w (nextDay w)
  | hour {hour} (hnot : w.hour ∉ cron.hour)
      (hnext : cron.hour.sorted.find? (w.hour < ·) = some hour) :
      Skips cron w { w with hour, minute := 0, second := 0 }
  | dayEnd (hin : w.month ∈ cron.month)
      (hlast : ∀ length ∈ daysInMonth w.year w.month, w.day ≤ length)
      (hnot : w.hour ∉ cron.hour) (hnext : cron.hour.sorted.find? (w.hour < ·) = none) :
      Skips cron w (nextDay w)
  | minute {minute} (hhour : w.hour ∈ cron.hour) (hnot : w.minute ∉ cron.minute)
      (hnext : cron.minute.sorted.find? (w.minute < ·) = some minute) :
      Skips cron w { w with minute, second := 0 }
  | hourEnd (hhour : w.hour ∈ cron.hour) (hnot : w.minute ∉ cron.minute)
      (hnext : cron.minute.sorted.find? (w.minute < ·) = none) :
      Skips cron w { w with hour := w.hour + 1, minute := 0, second := 0 }
  | minuteEnd (hhour : w.hour ∈ cron.hour) (hminute : w.minute ∈ cron.minute)
      (hnot : w.second ∉ cron.second) (hnext : cron.second.sorted.find? (w.second < ·) = none) :
      Skips cron w { w with minute := w.minute + 1, second := 0 }

theorem last_of_any_false {length : JsNumber} {day : Int} (h : ¬ length.any (· < day)) :
    ∀ l ∈ length, day ≤ l := by
  intro l hl
  rw [Option.mem_def.mp hl] at h
  simpa using h

theorem searchStep_skips (h : searchStep cron w = .skip w') : Skips cron w w' := by
  unfold searchStep at h
  simp only at h
  split at h
  · rename_i hnot
    split at h <;> cases h
    · exact .month hnot ‹_›
    · exact .year hnot ‹_›
  rename_i hmonth
  replace hmonth := not_not.mp hmonth
  split at h
  · rename_i hlast
    cases h
    rcases hlength : daysInMonth w.year w.month with _ | length
    · simp [hlength] at hlast
    · rw [hlength, Option.any_some, decide_eq_true_eq] at hlast
      exact .monthEnd hmonth hlength hlast
  rename_i hlast
  replace hlast := last_of_any_false hlast
  split at h
  · cases h
    exact .day hmonth hlast ‹_›
  split at h
  · rename_i hnot
    split at h <;> cases h
    · exact .hour hnot ‹_›
    · exact .dayEnd hmonth hlast hnot ‹_›
  rename_i hhour
  split at h
  · rename_i hnot
    split at h <;> cases h
    · exact .minute (not_not.mp hhour) hnot ‹_›
    · exact .hourEnd (not_not.mp hhour) hnot ‹_›
  rename_i hminute
  split at h
  · rename_i hnot
    split at h <;> cases h
    exact .minuteEnd (not_not.mp hhour) (not_not.mp hminute) hnot ‹_›
  · cases h

/-- A clock that comes out of a step is a match, and the first from its minute on. -/
theorem searchStep_due (hw : Walked w) (h : searchStep cron w = .due w') :
    cron.Taken w' ∧ w ≤ w' ∧ minuteOf w' = minuteOf w ∧
      ∀ s ∈ cron.second, w.second ≤ s → w'.second ≤ s := by
  unfold searchStep at h
  simp only at h
  split at h
  · split at h <;> cases h
  rename_i hmonth
  split at h
  · cases h
  rename_i hlast
  replace hlast := last_of_any_false hlast
  split at h
  · cases h
  rename_i hday
  split at h
  · split at h <;> cases h
  rename_i hhour
  split at h
  · split at h <;> cases h
  rename_i hminute
  have htaken {s : Int} (hs : s ∈ cron.second) : cron.Taken { w with second := s } :=
    ⟨not_not.mp hmonth, hw.day, hlast, not_not.mp hday, not_not.mp hhour, not_not.mp hminute, hs⟩
  split at h
  · rename_i hnot
    split at h <;> cases h
    rename_i second hnext
    obtain ⟨hmem, hlt⟩ := mem_of_find? hnext
    refine ⟨htaken hmem, ?_, rfl, ?_⟩
    · rw [Wall.le_iff]
      simp
      exact hlt.le
    · intro s hs hle
      apply le_of_find? hnext hs
      rcases hle.lt_or_eq with hlt | rfl
      · exact hlt
      · exact absurd hs hnot
  · rename_i hsecond
    cases h
    exact ⟨htaken (not_not.mp hsecond), le_rfl, rfl, fun s _ hle => hle⟩

theorem Walked.of_taken (h : cron.Taken v) : Walked v :=
  ⟨cron.month.within _ h.month, h.first, (cron.hour.within _ h.hour).1,
    (cron.minute.within _ h.minute).1, cron.second.within _ h.second⟩

theorem searchStep_due_le (hw : Walked w) (h : searchStep cron w = .due w') (hv : cron.Taken v)
    (hle : w ≤ v) : w' ≤ v := by
  obtain ⟨-, -, hminute, hsecond⟩ := searchStep_due hw h
  have hsame := Wall.ext_iff.mp hminute
  simp only [minuteOf] at hsame
  rw [Wall.le_iff] at hle ⊢
  by_cases heq : v.year = w.year ∧ v.month = w.month ∧ v.day = w.day ∧ v.hour = w.hour ∧
      v.minute = w.minute
  · have := hsecond v.second hv.second (by omega)
    omega
  · omega

theorem Skips.lt (h : Skips cron w w') : w < w' := by
  rw [Wall.lt_iff]
  cases h with
  | month hnot hnext =>
    have := (mem_of_find? hnext).2
    simp [monthBegin]
    exact Or.inl this
  | year hnot hnext => simp [monthBegin]
  | monthEnd hin hlength hlast =>
    unfold firstOfNextMonth
    split <;> simp [monthBegin]
  | day hin hlast hnot => simp [nextDay]
  | hour hnot hnext =>
    have := (mem_of_find? hnext).2
    simp
    exact Or.inl this
  | dayEnd hin hlast hnot hnext => simp [nextDay]
  | minute hhour hnot hnext =>
    have := (mem_of_find? hnext).2
    simp
    exact Or.inl this
  | hourEnd hhour hnot hnext => simp
  | minuteEnd hhour hminute hnot hnext => simp

theorem Skips.walked (hw : Walked w) (h : Skips cron w w') : Walked w' := by
  have hmonth := hw.month
  have hday := hw.day
  have hhour := hw.hour
  have hminute := hw.minute
  cases h with
  | month hnot hnext =>
    have := cron.month.within _ (mem_of_find? hnext).1
    exact ⟨this, by simp [monthBegin], by simp [monthBegin], by simp [monthBegin], by simp [monthBegin]⟩
  | year hnot hnext =>
    have := cron.month.within _ (head_mem cron.hasMonth)
    exact ⟨this, by simp [monthBegin], by simp [monthBegin], by simp [monthBegin], by simp [monthBegin]⟩
  | monthEnd hin hlength hlast =>
    unfold firstOfNextMonth
    split
    · constructor <;> simp [monthBegin]
    · constructor <;> simp [monthBegin]
      omega
  | day hin hlast hnot => constructor <;> simp [nextDay] <;> omega
  | hour hnot hnext =>
    have := cron.hour.within _ (mem_of_find? hnext).1
    constructor <;> simp <;> omega
  | dayEnd hin hlast hnot hnext => constructor <;> simp [nextDay] <;> omega
  | minute hhour hnot hnext =>
    have := cron.minute.within _ (mem_of_find? hnext).1
    constructor <;> simp <;> omega
  | hourEnd hhour hnot hnext => constructor <;> simp <;> omega
  | minuteEnd hhour hminute hnot hnext => constructor <;> simp <;> omega

theorem Skips.le (h : Skips cron w w') (hv : cron.Taken v) (hle : w ≤ v) : w' ≤ v := by
  have hvw := Walked.of_taken hv
  have hmonth := hvw.month
  have hday := hvw.day
  have hhour := hvw.hour
  have hminute := hvw.minute
  have hsecond := hvw.second
  rw [Wall.le_iff] at hle ⊢
  cases h with
  | month hnot hnext =>
    have hne : w.month ≠ v.month := fun heq => hnot (heq ▸ hv.month)
    have hfound := le_of_find? hnext hv.month
    simp only [monthBegin]
    omega
  | year hnot hnext =>
    have hne : w.month ≠ v.month := fun heq => hnot (heq ▸ hv.month)
    have hnone := le_of_find?_none hnext hv.month
    have hhead := head_le cron.hasMonth hv.month
    simp only [monthBegin]
    omega
  | monthEnd hin hlength hlast =>
    have hnot : ¬ (v.year = w.year ∧ v.month = w.month) := by
      rintro ⟨hy, hm⟩
      have := hv.last _ (by rw [hy, hm]; exact hlength)
      omega
    unfold firstOfNextMonth
    split <;> simp only [monthBegin] <;> omega
  | day hin hlast hnot =>
    have hne : ¬ (v.year = w.year ∧ v.month = w.month ∧ v.day = w.day) := by
      rintro ⟨hy, hm, hd⟩
      exact hnot (by rw [← hy, ← hm, ← hd]; exact hv.day)
    simp only [nextDay]
    omega
  | hour hnot hnext =>
    have hne : w.hour ≠ v.hour := fun heq => hnot (heq ▸ hv.hour)
    have hfound := le_of_find? hnext hv.hour
    simp only
    omega
  | dayEnd hin hlast hnot hnext =>
    have hne : w.hour ≠ v.hour := fun heq => hnot (heq ▸ hv.hour)
    have hnone := le_of_find?_none hnext hv.hour
    simp only [nextDay]
    omega
  | minute hin hnot hnext =>
    have hne : w.minute ≠ v.minute := fun heq => hnot (heq ▸ hv.minute)
    have hfound := le_of_find? hnext hv.minute
    simp only
    omega
  | hourEnd hin hnot hnext =>
    have hne : w.minute ≠ v.minute := fun heq => hnot (heq ▸ hv.minute)
    have hnone := le_of_find?_none hnext hv.minute
    simp only
    omega
  | minuteEnd hin hin' hnot hnext =>
    have hne : w.second ≠ v.second := fun heq => hnot (heq ▸ hv.second)
    have hnone := le_of_find?_none hnext hv.second
    simp only
    omega

/-! ## What a walk costs -/

/-- The steps that are left in a day, without those of declined times. -/
def timeCost (cron : CronPattern) (w : Wall) : Int :=
  if w.hour ∉ cron.hour then if (cron.hour.sorted.find? (w.hour < ·)).isSome then 2 else 0
  else if w.minute ∉ cron.minute then
    if (cron.minute.sorted.find? (w.minute < ·)).isSome then 1 else 3
  else if w.second ∉ cron.second ∧ cron.second.sorted.find? (w.second < ·) = none then 4
  else 0

theorem timeCost_bounds (cron : CronPattern) (w : Wall) :
    0 ≤ timeCost cron w ∧ timeCost cron w ≤ 4 := by
  unfold timeCost
  split_ifs <;> omega

theorem timeCost_of_second (hsecond : w.second = 0) (hhour : w.hour ∈ cron.hour)
    (hminute : w.minute ∈ cron.minute) : timeCost cron w = 0 := by
  unfold timeCost
  rw [if_neg (not_not.mpr hhour), if_neg (not_not.mpr hminute), if_neg]
  rintro ⟨hnot, hnone⟩
  obtain ⟨y, hy⟩ := exists_find?_of_le cron.hasSecond hsecond.le hnot
  rw [hnone] at hy
  cases hy

theorem timeCost_of_minute (hminute : w.minute = 0) (hsecond : w.second = 0)
    (hhour : w.hour ∈ cron.hour) : timeCost cron w ≤ 1 := by
  by_cases hin : w.minute ∈ cron.minute
  · rw [timeCost_of_second hsecond hhour hin]
    omega
  · obtain ⟨y, hy⟩ := exists_find?_of_le cron.hasMinute hminute.le hin
    unfold timeCost
    rw [if_neg (not_not.mpr hhour), if_pos hin, hy]
    simp

theorem timeCost_of_hour (cron : CronPattern) (hminute : w.minute = 0) (hsecond : w.second = 0) :
    timeCost cron w ≤ 2 := by
  by_cases hin : w.hour ∈ cron.hour
  · have := timeCost_of_minute hminute hsecond hin
    omega
  · unfold timeCost
    rw [if_pos hin]
    split <;> omega

theorem timeCost_le_three (cron : CronPattern) (hsecond : w.second = 0) : timeCost cron w ≤ 3 := by
  by_cases hhour : w.hour ∈ cron.hour
  · by_cases hminute : w.minute ∈ cron.minute
    · rw [timeCost_of_second hsecond hhour hminute]
      omega
    · unfold timeCost
      rw [if_neg (not_not.mpr hhour), if_pos hminute]
      split <;> omega
  · unfold timeCost
    rw [if_pos hhour]
    split <;> omega

/-- The days up to the end of the last year, at 33 for each month. -/
def daysLeft (endYear : Int) (w : Wall) : Int :=
  33 * (12 * (endYear - w.year) + (12 - w.month)) + (32 - w.day)

theorem daysLeft_anti (endYear : Int) (hw : w.month ≤ 12 ∧ w.day ≤ 32) (hw' : Walked w')
    (hle : w ≤ w') : daysLeft endYear w' ≤ daysLeft endYear w := by
  have hmonth := hw'.month
  have hday := hw'.day
  rw [Wall.le_iff] at hle
  unfold daysLeft
  omega

/-- What the declined minutes after this one cost, and the rest of this one. -/
def laterCost (declined : Finset Wall) (w : Wall) : Int :=
  64 * ({m ∈ declined | minuteOf w < m}.card : Int)

def cost (cron : CronPattern) (declined : Finset Wall) (endYear : Int) (w : Wall) : Int :=
  5 * daysLeft endYear w + laterCost declined w +
    if minuteOf w ∈ declined then 64 - w.second else timeCost cron w

variable {declined : Finset Wall} {endYear : Int}

theorem cost_nonneg (cron : CronPattern) (declined : Finset Wall) (hw : Walked w)
    (hday : w.day ≤ 32) (hyear : w.year ≤ endYear) : 0 ≤ cost cron declined endYear w := by
  have hmonth := hw.month
  have hsecond := hw.second
  have htime := timeCost_bounds cron w
  unfold cost daysLeft laterCost
  split <;> omega

theorem minuteOf_lt (hsecond : 0 ≤ w.second) (hsecond' : w'.second = 0) (h : w < w') :
    minuteOf w < w' := by
  rw [Wall.lt_iff] at h ⊢
  simp only [minuteOf]
  omega

theorem minuteOf_self (h : w.second = 0) : minuteOf w = w :=
  Wall.ext rfl rfl rfl rfl rfl h.symm

theorem laterCost_le (declined : Finset Wall) (hsecond : w'.second = 0) (h : minuteOf w < w') :
    laterCost declined w' + (if minuteOf w' ∈ declined then 64 else 0) ≤ laterCost declined w := by
  unfold laterCost
  rw [minuteOf_self hsecond]
  split
  · rename_i hmem
    have hsub : insert w' {m ∈ declined | w' < m} ⊆ {m ∈ declined | minuteOf w < m} := by
      intro m hm
      simp only [Finset.mem_insert, Finset.mem_filter] at hm ⊢
      rcases hm with rfl | ⟨hm, hlt⟩
      · exact ⟨hmem, h⟩
      · exact ⟨hm, h.trans hlt⟩
    have hcard := Finset.card_le_card hsub
    rw [Finset.card_insert_of_notMem (by simp)] at hcard
    omega
  · have hsub : {m ∈ declined | w' < m} ⊆ {m ∈ declined | minuteOf w < m} := by
      intro m hm
      simp only [Finset.mem_filter] at hm ⊢
      exact ⟨hm.1, h.trans hm.2⟩
    have hcard := Finset.card_le_card hsub
    omega

theorem Skips.second (h : Skips cron w w') : w'.second = 0 := by
  cases h with
  | monthEnd hin hlength hlast =>
    unfold firstOfNextMonth
    split <;> rfl
  | _ => rfl

theorem Skips.time_lt (endYear : Int) (hw : Walked w) (hday : w.day ≤ 32) (h : Skips cron w w') :
    5 * daysLeft endYear w' + timeCost cron w' < 5 * daysLeft endYear w + timeCost cron w ∧
      5 * daysLeft endYear w' + timeCost cron w' < 5 * daysLeft endYear w + 5 ∧
      5 * daysLeft endYear w' < 5 * daysLeft endYear w + timeCost cron w := by
  -- What the next step is about to cost, in a minute without declined times.
  have hmonth := hw.month
  have hfirst := hw.day
  have htime := timeCost_bounds cron w
  have htime' := timeCost_bounds cron w'
  have hend {u : Wall} (hlt : daysLeft endYear u < daysLeft endYear w) (hm : u.minute = 0)
      (hs : u.second = 0) :
      5 * daysLeft endYear u + timeCost cron u < 5 * daysLeft endYear w + timeCost cron w ∧
        5 * daysLeft endYear u + timeCost cron u < 5 * daysLeft endYear w + 5 ∧
        5 * daysLeft endYear u < 5 * daysLeft endYear w + timeCost cron w := by
    have := timeCost_of_hour cron hm hs
    omega
  cases h with
  | month hnot hnext =>
    have := (mem_of_find? hnext).2
    refine hend ?_ rfl rfl
    unfold daysLeft
    simp only [monthBegin]
    omega
  | year hnot hnext =>
    have := cron.month.within _ (head_mem cron.hasMonth)
    refine hend ?_ rfl rfl
    unfold daysLeft
    simp only [monthBegin]
    omega
  | monthEnd hin hlength hlast =>
    unfold firstOfNextMonth
    split
    · refine hend ?_ rfl rfl
      unfold daysLeft
      simp only [monthBegin]
      omega
    · refine hend ?_ rfl rfl
      unfold daysLeft
      simp only [monthBegin]
      omega
  | day hin hlast hnot =>
    refine hend ?_ rfl rfl
    unfold daysLeft
    simp only [nextDay]
    omega
  | dayEnd hin hlast hnot hnext =>
    refine hend ?_ rfl rfl
    unfold daysLeft
    simp only [nextDay]
    omega
  | @hour hour hnot hnext =>
    have hcost : timeCost cron w = 2 := by
      unfold timeCost
      rw [if_pos hnot, hnext]
      rfl
    have hcost' := timeCost_of_minute (w := { w with hour, minute := 0, second := 0 }) rfl rfl
      (mem_of_find? hnext).1
    unfold daysLeft
    simp only
    omega
  | @minute minute hhour hnot hnext =>
    have hcost : timeCost cron w = 1 := by
      unfold timeCost
      rw [if_neg (not_not.mpr hhour), if_pos hnot, hnext]
      rfl
    have hcost' := timeCost_of_second (w := { w with minute, second := 0 }) rfl hhour
      (mem_of_find? hnext).1
    unfold daysLeft
    simp only
    omega
  | hourEnd hhour hnot hnext =>
    have hcost : timeCost cron w = 3 := by
      unfold timeCost
      rw [if_neg (not_not.mpr hhour), if_pos hnot, hnext]
      rfl
    have hcost' := timeCost_of_hour cron
      (w := { w with hour := w.hour + 1, minute := 0, second := 0 }) rfl rfl
    unfold daysLeft
    simp only
    omega
  | minuteEnd hhour hminute hnot hnext =>
    have hcost : timeCost cron w = 4 := by
      unfold timeCost
      rw [if_neg (not_not.mpr hhour), if_neg (not_not.mpr hminute), if_pos ⟨hnot, hnext⟩]
    have hcost' := timeCost_le_three cron
      (w := { w with minute := w.minute + 1, second := 0 }) rfl
    unfold daysLeft
    simp only
    omega

theorem Skips.cost_lt (declined : Finset Wall) (endYear : Int) (hw : Walked w) (hday : w.day ≤ 32)
    (h : Skips cron w w') :
    cost cron declined endYear w' < cost cron declined endYear w := by
  have hsecond := hw.second
  have hlater := laterCost_le declined h.second
    (minuteOf_lt hsecond.1 h.second h.lt)
  obtain ⟨hlt, hlt', hlt''⟩ := h.time_lt endYear hw hday
  have htime' := timeCost_bounds cron w'
  have hzero := h.second
  unfold cost
  split_ifs at hlater ⊢ <;> omega

/-! ## Reaching a match -/

def nextSecond (w : Wall) : Wall := .ofSeconds (w.seconds + 1)

theorem nextSecond_walked (w : Wall) : Walked (nextSecond w) ∧ (nextSecond w).day ≤ 31 := by
  have hvalid := Wall.ofSeconds_valid (w.seconds + 1)
  have hlength := monthLength_bounds (nextSecond w).year (nextSecond w).month
  have hday := hvalid.day
  refine ⟨⟨hvalid.month, hday.1, hvalid.hour.1, hvalid.minute.1, hvalid.second⟩, ?_⟩
  unfold nextSecond at *
  omega

theorem lt_nextSecond (h : w.Valid) : w < nextSecond w := by
  unfold nextSecond
  rw [← Wall.seconds_lt_iff h (Wall.ofSeconds_valid _), Wall.seconds_ofSeconds]
  omega

theorem nextSecond_le (hw : w.Valid) (hv : v.Valid) (h : w < v) : nextSecond w ≤ v := by
  unfold nextSecond
  rw [← Wall.seconds_le_iff (Wall.ofSeconds_valid _) hv, Wall.seconds_ofSeconds]
  have := Wall.seconds_lt hw hv h
  omega

theorem nextSecond_of_lt (h : w.Valid) (hlt : w.second < 59) :
    nextSecond w = { w with second := w.second + 1 } := by
  have hsecond := h.second
  have hvalid : ({ w with second := w.second + 1 } : Wall).Valid :=
    ⟨h.month, h.day, h.hour, h.minute, by
      simp only
      omega⟩
  rw [← Wall.ofSeconds_seconds hvalid]
  unfold nextSecond Wall.seconds Wall.dayCount
  simp only
  rw [add_assoc]

theorem monthBegin_valid (year : Int) {month : Int} (hmonth : 1 ≤ month ∧ month ≤ 12) :
    (monthBegin year month).Valid := by
  have hlength := monthLength_bounds year month
  refine ⟨hmonth, ⟨by simp [monthBegin], ?_⟩, by simp [monthBegin], by simp [monthBegin],
    by simp [monthBegin]⟩
  simp only [monthBegin]
  omega

theorem nextSecond_of_eq (hlast : w.second = 59) : (nextSecond w).second = 0 := by
  unfold nextSecond Wall.seconds
  simp only [Wall.ofSeconds]
  omega

theorem cost_nextSecond_lt (cron : CronPattern) (endYear : Int) (hw : Walked w) (hday : w.day ≤ 32)
    (h : w'.Valid) (hle : w ≤ w') (hsame : minuteOf w' = minuteOf w) (hdeclined : minuteOf w ∈ declined) :
    cost cron declined endYear (nextSecond w') < cost cron declined endYear w := by
  -- The second after a declined time is paid for by its minute.
  have hfields := Wall.ext_iff.mp hsame
  simp only [minuteOf] at hfields
  have hsecond := h.second
  have hle' := Wall.le_iff.mp hle
  have hnext := lt_nextSecond h
  have hwalked := (nextSecond_walked w').1
  have hdays := daysLeft_anti endYear ⟨hw.month.2, hday⟩ hwalked (hle.trans hnext.le)
  unfold cost
  rw [if_pos hdeclined]
  by_cases hlast : w'.second = 59
  · have hzero := nextSecond_of_eq hlast
    have hlater := laterCost_le declined hzero
      (minuteOf_lt (by have := hw.second; omega) hzero (hle.trans_lt hnext))
    have htime := timeCost_le_three cron hzero
    split_ifs at hlater ⊢ <;> omega
  · have hwithin := nextSecond_of_lt h (by omega)
    have hminute : minuteOf (nextSecond w') = minuteOf w := by
      rw [hwithin, ← hsame]
      rfl
    have hlater : laterCost declined (nextSecond w') = laterCost declined w := by
      unfold laterCost
      rw [hminute]
    have hone : (nextSecond w').second = w'.second + 1 := by rw [hwithin]
    rw [hminute, if_pos hdeclined, hlater, hone]
    omega

/-- The months up to the clock have a length, those of the pattern. -/
def Reaches (cron : CronPattern) (w v : Wall) : Prop :=
  w ≤ v ∧ ∀ year month, month ∈ cron.month →
    (w.year < year ∨ w.year = year ∧ w.month ≤ month) →
    (year < v.year ∨ year = v.year ∧ month < v.month) → daysInMonth year month ≠ none

theorem Reaches.later (h : Reaches cron w v) (hle : w ≤ w') (hle' : w' ≤ v) : Reaches cron w' v := by
  refine ⟨hle', ?_⟩
  intro year month hmonth hfirst hlast
  rw [Wall.le_iff] at hle
  exact h.2 year month hmonth (by omega) hlast

theorem Reaches.earlier (h : Reaches cron w v) (hle : w ≤ w') (hle' : w' ≤ v) :
    Reaches cron w w' := by
  refine ⟨hle, ?_⟩
  intro year month hmonth hfirst hlast
  rw [Wall.le_iff] at hle'
  exact h.2 year month hmonth hfirst (by omega)

theorem year_le (h : w ≤ v) : w.year ≤ v.year := by
  rw [Wall.le_iff] at h
  omega

theorem daysInMonth_le {year month length : Int} (h : daysInMonth year month = some length) :
    length ≤ 31 := by
  unfold daysInMonth at h
  obtain ⟨t, -, rfl⟩ := Option.map_eq_some_iff.mp h
  have hday := (Wall.ofSeconds_valid (t / 1000)).day
  have hlength := monthLength_bounds (Wall.ofSeconds (t / 1000)).year (Wall.ofSeconds (t / 1000)).month
  omega

theorem Skips.day_le (hw : w.day ≤ 32) (h : Skips cron w w') (hreach : Reaches cron w v)
    (hv : v.day ≤ 32) (hle : w' ≤ v) : w'.day ≤ 32 := by
  have hnext (hin : w.month ∈ cron.month)
      (hlast : ∀ length ∈ daysInMonth w.year w.month, w.day ≤ length) (hle : nextDay w ≤ v) :
      (nextDay w).day ≤ 32 := by
    simp only [nextDay]
    by_cases hsame : v.year = w.year ∧ v.month = w.month
    · rw [Wall.le_iff] at hle
      simp only [nextDay] at hle
      omega
    · rw [Wall.le_iff] at hle
      simp only [nextDay] at hle
      have hsized := hreach.2 w.year w.month hin (by omega) (by omega)
      obtain ⟨length, hlength⟩ := Option.ne_none_iff_exists'.mp hsized
      have := daysInMonth_le hlength
      have := hlast length hlength
      omega
  cases h with
  | month hnot hnext => simp [monthBegin]
  | year hnot hnext => simp [monthBegin]
  | monthEnd hin hlength hlast =>
    unfold firstOfNextMonth
    split <;> simp [monthBegin]
  | day hin hlast hnot => exact hnext hin hlast hle
  | dayEnd hin hlast hnot _ => exact hnext hin hlast hle
  | _ => exact hw

section

variable {resolve : Wall → Except String (Option JsNumber)} {x : JsNumber} {start : Wall}

/-- The walk goes on from a time that is declined. -/
structure Declined (resolve : Wall → Except String (Option JsNumber)) (u : Wall) : Prop where
  declines : resolve u = .ok none
  valid : u.Valid
  next : wallPlusOneSecond u = some (nextSecond u)
  sized : daysInMonth u.year u.month ≠ none

/-- The walk finds the first match that is not declined, if it has the steps. -/
theorem searchFrom_found (declined : Finset Wall) (hv : cron.Taken v) (hday : v.day ≤ 32)
    (hyear : v.year ≤ endYear)
    (hfound : resolve v = .ok (some x))
    (hdeclines : ∀ u, cron.Taken u → start ≤ u → u < v →
      Declined resolve u ∧ minuteOf u ∈ declined ∧ v.Valid)
    (hstart : start ≤ w) (hw : Walked w) (hwday : w.day ≤ 32) (hreach : Reaches cron w v)
    {steps : Nat} (hcost : cost cron declined endYear w < steps) :
    searchFrom cron endYear resolve steps w = .ok (some x) := by
  have hyear' {w : Wall} (hle : w ≤ v) : w.year ≤ endYear := (year_le hle).trans hyear
  induction steps generalizing w with
  | zero =>
    have := cost_nonneg cron declined hw hwday (hyear' hreach.1)
    omega
  | succ steps ih =>
    rw [searchFrom_succ, if_pos (hyear' hreach.1)]
    cases hstep : searchStep cron w with
    | skip w' =>
      have hskip := searchStep_skips hstep
      have hle := hskip.le hv hreach.1
      refine ih (hstart.trans hskip.lt.le) (hskip.walked hw) (hskip.day_le hwday hreach hday hle)
        (hreach.later hskip.lt.le hle) ?_
      have := hskip.cost_lt declined endYear hw hwday
      omega
    | due w' =>
      obtain ⟨htaken, hle, hsame, -⟩ := searchStep_due hw hstep
      have hle' := searchStep_due_le hw hstep hv hreach.1
      rcases hle'.lt_or_eq with hlt | rfl
      · obtain ⟨hdecline, hmem, hvalid⟩ := hdeclines w' htaken (hstart.trans hle) hlt
        have hnext := nextSecond_le hdecline.valid hvalid hlt
        have hlt' := hle.trans_lt (lt_nextSecond hdecline.valid)
        obtain ⟨hwalked, hnextDay⟩ := nextSecond_walked w'
        simp only [hdecline.declines, hdecline.next, Except.bind]
        refine ih (hstart.trans hlt'.le) hwalked (by omega) (hreach.later hlt'.le hnext) ?_
        have := cost_nextSecond_lt cron endYear hw hwday hdecline.valid hle
          hsame (hsame ▸ hmem)
        omega
      · simp only [hfound, Except.bind]

theorem Skips.reaches (h : Skips cron w w') (hreach : Reaches cron w' v) : Reaches cron w v := by
  -- A step goes past no month that the walk could stop at.
  refine ⟨h.lt.le.trans hreach.1, ?_⟩
  intro year month hmonth hfirst hlast
  by_cases hlater : w'.year < year ∨ w'.year = year ∧ w'.month ≤ month
  · exact hreach.2 year month hmonth hlater hlast
  · have hwithin := cron.month.within _ hmonth
    cases h with
    | month hnot hnext =>
      have hfound := le_of_find? hnext hmonth
      have hne : w.month ≠ month := fun heq => hnot (heq ▸ hmonth)
      simp only [monthBegin] at hlater
      omega
    | year hnot hnext =>
      have hnone := le_of_find?_none hnext hmonth
      have hhead := head_le cron.hasMonth hmonth
      have hne : w.month ≠ month := fun heq => hnot (heq ▸ hmonth)
      simp only [monthBegin] at hlater
      omega
    | monthEnd hin hlength hlast =>
      have hsame : year = w.year ∧ month = w.month := by
        unfold firstOfNextMonth at hlater
        split at hlater <;> simp only [monthBegin] at hlater <;> omega
      rw [hsame.1, hsame.2, hlength]
      exact Option.some_ne_none _
    | _ => exact absurd hfirst (by simpa [nextDay] using hlater)

/-- Without a match in reach that is not declined, the walk finds nothing. -/
theorem searchFrom_none
    (hdeclines : ∀ u, cron.Taken u → Reaches cron w u → u.year ≤ endYear → Declined resolve u)
    (hw : Walked w) (steps : Nat) : searchFrom cron endYear resolve steps w = .ok none := by
  induction steps generalizing w with
  | zero => rfl
  | succ steps ih =>
    rw [searchFrom_succ]
    split
    · rename_i hyear
      cases hstep : searchStep cron w with
      | skip w' =>
        have hskip := searchStep_skips hstep
        exact ih (fun u hu hreach => hdeclines u hu (hskip.reaches hreach)) (hskip.walked hw)
      | due w' =>
        obtain ⟨htaken, hle, hsame, -⟩ := searchStep_due hw hstep
        have hfields := Wall.ext_iff.mp hsame
        simp only [minuteOf] at hfields
        have hreach : Reaches cron w w' := by
          refine ⟨hle, ?_⟩
          intro year month hmonth hfirst hlast
          omega
        have hdecline := hdeclines w' htaken hreach (by omega)
        have hlt := lt_nextSecond hdecline.valid
        simp only [hdecline.declines, hdecline.next, Except.bind]
        refine ih ?_ (nextSecond_walked w').1
        intro u hu hreach hyear
        refine hdeclines u hu ⟨hle.trans (hlt.le.trans hreach.1), ?_⟩ hyear
        intro year month hmonth hfirst hlast
        by_cases hsame : year = w'.year ∧ month = w'.month
        · rw [hsame.1, hsame.2]
          exact hdecline.sized
        · have hbegin := monthBegin_valid year (cron.month.within _ hmonth)
          have hnext : nextSecond w' ≤ monthBegin year month := by
            apply nextSecond_le hdecline.valid hbegin
            rw [Wall.lt_iff]
            simp only [monthBegin]
            omega
          rw [Wall.le_iff] at hnext
          simp only [monthBegin] at hnext
          exact hreach.2 year month hmonth (by omega) hlast
    · rfl

theorem searchCronWall_some {pattern : String} {found : Option JsNumber}
    (h : searchFrom cron (w.year + maxSearchYears) resolve maxSearchSteps w = .ok found) :
    searchCronWall cron (some w) pattern resolve =
      match found with
      | some t => .ok t
      | none => .error (noCronMatch pattern) := by
  simp only [searchCronWall, h, bind, Except.bind]
  cases found <;> rfl

end

end GlideMq
