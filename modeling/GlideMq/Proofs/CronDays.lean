import GlideMq.Model.CronSearch
import Mathlib.Data.Int.CardIntervalMod
import Mathlib.Data.Int.ConditionallyCompleteOrder

/-!
# What a cron pattern means

The days of a pattern in words of the calendar, and that the code finds them. It asks `Date` for the
length of the month and for the weekday, which answers as long as the month is in its range.
-/

namespace GlideMq

open Calendar

/-! ## Meanings -/

def weekdayOf (year month day : Int) : Int := dayOfWeek (dayNumber year month day)

def InMonth (year month day : Int) : Prop := 1 ≤ day ∧ day ≤ monthLength year month

/-- From Monday to Friday. -/
def Workday (year month day : Int) : Prop :=
  InMonth year month day ∧ 1 ≤ weekdayOf year month day ∧ weekdayOf year month day ≤ 5

/-- The workday of the month that is nearest to day `n`. -/
def NearestWorkday (year month n day : Int) : Prop :=
  Workday year month day ∧ ∀ e, Workday year month e → |day - n| ≤ |e - n|

/-- The last of the month with its weekday. -/
def LastWithWeekday (year month day : Int) : Prop :=
  ∀ e, InMonth year month e → weekdayOf year month e = weekdayOf year month day → e ≤ day

/-- The `n`th of the month with its weekday. -/
def NthWithWeekday (year month n day : Int) : Prop :=
  ({e ∈ Finset.Ioc 0 day | weekdayOf year month e = weekdayOf year month day}.card : Int) = n

def CronPattern.DomMeans (cron : CronPattern) (year month day : Int) : Prop :=
  day ∈ cron.dom ∨
    cron.domLast ∧ day = monthLength year month ∨
    cron.domLastWeekday ∧ IsGreatest {e | Workday year month e} day ∨
    ∃ n ∈ cron.domNearestWeekday, InMonth year month n ∧ NearestWorkday year month n day

def CronPattern.DowMeans (cron : CronPattern) (year month day : Int) : Prop :=
  weekdayOf year month day ∈ cron.dow ∨
    weekdayOf year month day ∈ cron.dowLast ∧ LastWithWeekday year month day ∨
    ∃ p ∈ cron.dowNth, p.1 = weekdayOf year month day ∧ NthWithWeekday year month p.2 day

/-- Either field, if both are restricted. -/
def CronPattern.DayMeans (cron : CronPattern) (year month day : Int) : Prop :=
  if ¬ cron.domUnrestricted ∧ ¬ cron.dowUnrestricted then
    cron.DomMeans year month day ∨ cron.DowMeans year month day
  else cron.DomMeans year month day ∧ cron.DowMeans year month day

/-- The clock shows a time of the pattern. -/
structure CronPattern.Matches (cron : CronPattern) (w : Wall) : Prop where
  second : w.second ∈ cron.second
  minute : w.minute ∈ cron.minute
  hour : w.hour ∈ cron.hour
  day : cron.DayMeans w.year w.month w.day
  month : w.month ∈ cron.month

/-! ## Weekdays -/

section

variable {year month day n : Int}

theorem weekdayOf_eq (year month d e : Int) :
    weekdayOf year month e = (weekdayOf year month d + e - d) % 7 := by
  unfold weekdayOf dayOfWeek dayNumber
  omega

theorem weekdayOf_bounds (year month d : Int) :
    0 ≤ weekdayOf year month d ∧ weekdayOf year month d ≤ 6 := by
  unfold weekdayOf dayOfWeek
  omega

theorem nearestWeekday_workday (hn : InMonth year month n) :
    Workday year month (nearestWeekday n (some (weekdayOf year month n))
      (some (monthLength year month))) := by
  have hlength := monthLength_bounds year month
  have hbounds := weekdayOf_bounds year month n
  obtain ⟨hfirst, hlast⟩ := hn
  unfold nearestWeekday Workday InMonth
  simp only [Option.any_some, decide_eq_true_eq, Option.some.injEq]
  split_ifs <;> rw [weekdayOf_eq year month n] <;> omega

theorem nearestWeekday_nearest (hn : InMonth year month n) {e : Int} (he : Workday year month e) :
    e = nearestWeekday n (some (weekdayOf year month n)) (some (monthLength year month)) ∨
      |nearestWeekday n (some (weekdayOf year month n)) (some (monthLength year month)) - n| <
        |e - n| := by
  have hbounds := weekdayOf_bounds year month n
  obtain ⟨hfirst, hlast⟩ := hn
  obtain ⟨⟨hfirst', hlast'⟩, hworks⟩ := he
  rw [weekdayOf_eq year month n] at hworks
  unfold nearestWeekday
  simp only [Option.any_some, decide_eq_true_eq, Option.some.injEq, Int.abs_eq_natAbs]
  split_ifs <;> omega

theorem nearestWorkday_iff (hn : InMonth year month n) : NearestWorkday year month n day ↔
    nearestWeekday n (some (weekdayOf year month n)) (some (monthLength year month)) = day := by
  constructor
  · rintro ⟨hworkday, hnearest⟩
    rcases nearestWeekday_nearest hn hworkday with heq | hlt
    · exact heq.symm
    · exact absurd (hnearest _ (nearestWeekday_workday hn)) (not_le.mpr hlt)
  · rintro rfl
    refine ⟨nearestWeekday_workday hn, ?_⟩
    intro e he
    rcases nearestWeekday_nearest hn he with heq | hlt
    · rw [← heq]
    · exact hlt.le

theorem lastDay_inMonth (year month : Int) : InMonth year month (monthLength year month) := by
  have hlength := monthLength_bounds year month
  exact ⟨by omega, le_rfl⟩

theorem lastWorkday_iff : IsGreatest {e | Workday year month e} day ↔
    day = nearestWeekday (monthLength year month)
      (some (weekdayOf year month (monthLength year month))) (some (monthLength year month)) := by
  have hlast := lastDay_inMonth year month
  have hgreatest : IsGreatest {e | Workday year month e} (nearestWeekday (monthLength year month)
      (some (weekdayOf year month (monthLength year month))) (some (monthLength year month))) := by
    refine ⟨nearestWeekday_workday hlast, ?_⟩
    intro e he
    have hworkday := nearestWeekday_workday hlast
    have hin := he.1.2
    have hin' := hworkday.1.2
    rcases nearestWeekday_nearest hlast he with heq | hlt
    · exact heq.le
    · simp only [Int.abs_eq_natAbs] at hlt
      omega
  exact ⟨fun h => h.unique hgreatest, fun h => h ▸ hgreatest⟩

theorem lastWithWeekday_iff (hday : InMonth year month day) :
    LastWithWeekday year month day ↔ monthLength year month < day + 7 := by
  have hbounds := weekdayOf_bounds year month day
  obtain ⟨hfirst, hlast⟩ := hday
  constructor
  · intro h
    by_contra hle
    have hnext := h (day + 7) ⟨by omega, by omega⟩ (by
      rw [weekdayOf_eq year month day (day + 7)]
      omega)
    omega
  · intro h e he heq
    rw [weekdayOf_eq year month day e] at heq
    have := he.2
    omega

theorem nthWithWeekday_iff (hday : 1 ≤ day) :
    NthWithWeekday year month n day ↔ (day + 6) / 7 = n := by
  have hfilter : {e ∈ Finset.Ioc 0 day | weekdayOf year month e = weekdayOf year month day} =
      {e ∈ Finset.Ioc 0 day | e ≡ day [ZMOD 7]} := by
    refine Finset.filter_congr ?_
    intro e _
    have hbounds := weekdayOf_bounds year month day
    rw [weekdayOf_eq year month day e]
    unfold Int.ModEq
    omega
  have hfloor : ⌊((0 : Int) - day : ℚ) / (7 : Int)⌋ = -day / 7 := by
    have := Rat.floor_intCast_div_natCast (-day) 7
    push_cast at this ⊢
    rwa [zero_sub]
  unfold NthWithWeekday
  rw [hfilter, Int.Ioc_filter_modEq_card 0 day (by norm_num), hfloor, sub_self, zero_div,
    Int.floor_zero]
  omega

/-! ## Days of a month that has a length -/

variable {cron : CronPattern}

theorem cronDomMatches_iff (cron : CronPattern) (year month day : Int) :
    cronDomMatches cron day (some (weekdayOf year month day)) (some (monthLength year month)) = true ↔
      cron.DomMeans year month day := by
  have hlast := monthLength_bounds year month
  unfold cronDomMatches CronPattern.DomMeans
  simp only [Option.map_some, ← weekdayOf_eq, Option.any_some, Bool.or_eq_true, Bool.and_eq_true,
    decide_eq_true_eq, Option.some.injEq, List.any_eq_true, lastWorkday_iff, or_assoc,
    @eq_comm Int (monthLength year month) day]
  refine or_congr_right (or_congr_right (or_congr_right (exists_congr fun n => and_congr_right ?_)))
  intro hn
  have hwithin := cron.nearestWithin n hn
  constructor
  · rintro ⟨hle, heq⟩
    exact ⟨⟨hwithin.1, hle⟩, (nearestWorkday_iff ⟨hwithin.1, hle⟩).mpr heq⟩
  · rintro ⟨hin, hnearest⟩
    exact ⟨hin.2, (nearestWorkday_iff hin).mp hnearest⟩

theorem cronDowMatches_iff (cron : CronPattern) (hday : InMonth year month day) :
    cronDowMatches cron day (some (weekdayOf year month day)) (some (monthLength year month)) = true ↔
      cron.DowMeans year month day := by
  unfold cronDowMatches CronPattern.DowMeans
  simp only [Option.any_some, Bool.or_eq_true, Bool.and_eq_true, decide_eq_true_eq,
    Option.some.injEq, List.any_eq_true, or_assoc, lastWithWeekday_iff hday,
    nthWithWeekday_iff hday.1]

theorem cronDayMatches_iff (cron : CronPattern) (hday : InMonth year month day) :
    cronDayMatches cron day (some (weekdayOf year month day)) (some (monthLength year month)) = true ↔
      cron.DayMeans year month day := by
  unfold cronDayMatches CronPattern.DayMeans
  simp only
  split
  · rw [Bool.or_eq_true, cronDomMatches_iff, cronDowMatches_iff cron hday]
  · rw [Bool.and_eq_true, cronDomMatches_iff, cronDowMatches_iff cron hday]

/-! ## The range of `Date` -/

/-- Every day of the month is in the range of `Date`. -/
def Dated (year month : Int) : Prop := 100 ≤ year ∧ (year < 275760 ∨ year = 275760 ∧ month ≤ 8)

theorem timeClip_of_bounds {t : Int} (h : -maxTime ≤ t ∧ t ≤ maxTime) : timeClip t = some t :=
  if_pos h

theorem dateUTC_eq (hyear : 100 ≤ year) (hmonth : 1 ≤ month ∧ month ≤ 12)
    (day hour minute second : Int) :
    dateUTC year (month - 1) day hour minute second =
      timeClip ((((dayNumber year month day * 24 + hour) * 60 + minute) * 60 + second) * 1000) := by
  have hdiv : (month - 1) / 12 = 0 := by omega
  have hmod : (month - 1) % 12 + 1 = month := by omega
  unfold dateUTC
  simp only
  rw [if_neg (by omega), hdiv, hmod, add_zero]

theorem dayNumber_bounds (hdated : Dated year month) (hmonth : 1 ≤ month ∧ month ≤ 12)
    (hday : 0 ≤ day ∧ day ≤ monthLength year month) :
    -700000 ≤ dayNumber year month day ∧ dayNumber year month day < 99999988 := by
  obtain ⟨hyear, hfar⟩ := hdated
  have hnext := monthStart_succ year hmonth
  have hzero := monthStart_mono (m := 1) (n := month) year (by omega) hmonth.1 (by omega)
  have hend := monthStart_mono (m := month + 1) (n := 13) year (by omega) (by omega) (by omega)
  have hlow := yearStart_mono hyear
  have hlow' : yearStart 100 = -683003 := by decide
  have hhigh : yearStart 275760 = 99999744 := by decide
  rw [monthStart_one] at hzero
  rw [monthStart_end] at hend
  unfold dayNumber
  refine ⟨by omega, ?_⟩
  rcases hfar with hlt | ⟨rfl, hle⟩
  · have hyears := yearStart_mono (show year + 1 ≤ 275760 by omega)
    rw [yearStart_succ] at hyears
    omega
  · have hmonths := monthStart_mono (m := month + 1) (n := 9) 275760 (by omega) (by omega) (by omega)
    have hnine : monthStart 275760 9 = 244 := by decide
    omega

theorem timeClip_dayNumber (hdated : Dated year month) (hmonth : 1 ≤ month ∧ month ≤ 12)
    (hday : 0 ≤ day ∧ day ≤ monthLength year month) {t : Int} (ht : 0 ≤ t ∧ t < 172800) :
    timeClip ((dayNumber year month day * 86400 + t) * 1000) =
      some ((dayNumber year month day * 86400 + t) * 1000) := by
  obtain ⟨hlow, hhigh⟩ := dayNumber_bounds hdated hmonth hday
  apply timeClip_of_bounds
  unfold maxTime
  omega

theorem dayNumber_next (year : Int) (hmonth : 1 ≤ month ∧ month ≤ 12) :
    dayNumber (year + month / 12) (month % 12 + 1) 0 =
      dayNumber year month (monthLength year month) := by
  have hnext := monthStart_succ year hmonth
  unfold dayNumber
  by_cases hlast : month = 12
  · subst hlast
    have hend := monthStart_end year
    rw [show (12 : Int) / 12 = 1 from rfl, show (12 : Int) % 12 + 1 = 1 from rfl, yearStart_succ,
      monthStart_one]
    rw [show (12 : Int) + 1 = 13 from rfl] at hnext
    omega
  · have hyear : year + month / 12 = year := by omega
    have hfirst : month % 12 + 1 = month + 1 := by omega
    rw [hyear, hfirst]
    omega

theorem daysInMonth_eq (hdated : Dated year month) (hmonth : 1 ≤ month ∧ month ≤ 12) :
    daysInMonth year month = some (monthLength year month) := by
  have hlast := lastDay_inMonth year month
  have hvalid : (⟨year, month, monthLength year month, 0, 0, 0⟩ : Wall).Valid :=
    ⟨hmonth, hlast, by simp, by simp, by simp⟩
  have hclip := timeClip_dayNumber hdated hmonth ⟨by have := hlast.1; omega, hlast.2⟩
    (t := 0) (by omega)
  have hwall := Wall.ofSeconds_seconds hvalid
  unfold daysInMonth dateUTC
  simp only
  rw [if_neg (by have := hdated.1; omega), dayNumber_next year hmonth]
  unfold Wall.seconds Wall.dayCount at hwall
  simp only [add_zero] at hwall hclip ⊢
  rw [show ((dayNumber year month (monthLength year month) * 24) * 60 * 60 * 1000) =
    dayNumber year month (monthLength year month) * 86400 * 1000 by ring, hclip, Option.map_some,
    Int.mul_ediv_cancel _ (by norm_num),
    show dayNumber year month (monthLength year month) * 86400 =
      dayNumber year month (monthLength year month) * 24 * 60 * 60 by ring, hwall]

theorem weekday_eq (hdated : Dated year month) (hmonth : 1 ≤ month ∧ month ≤ 12)
    (hday : InMonth year month day) :
    weekday year month day = some (weekdayOf year month day) := by
  have hclip := timeClip_dayNumber hdated hmonth ⟨by have := hday.1; omega, hday.2⟩
    (t := 0) (by omega)
  unfold weekday
  rw [dateUTC_eq hdated.1 hmonth]
  simp only [add_zero] at hclip ⊢
  rw [show dayNumber year month day * 24 * 60 * 60 * 1000 = dayNumber year month day * 86400 * 1000
    by ring, hclip, Option.map_some, show dayNumber year month day * 86400 * 1000 =
    dayNumber year month day * 86400000 by ring, Int.mul_ediv_cancel _ (by norm_num)]
  rfl

theorem wallToNaiveUtc_eq {w : Wall} (hvalid : w.Valid) (hdated : Dated w.year w.month) :
    wallToNaiveUtc w = some (w.seconds * 1000) := by
  have hday := hvalid.day
  have hhour := hvalid.hour
  have hminute := hvalid.minute
  have hsecond := hvalid.second
  have hclip := timeClip_dayNumber hdated hvalid.month ⟨by omega, hday.2⟩
    (t := (w.hour * 60 + w.minute) * 60 + w.second) (by omega)
  have hsum : w.seconds = dayNumber w.year w.month w.day * 86400 +
      ((w.hour * 60 + w.minute) * 60 + w.second) := by
    unfold Wall.seconds Wall.dayCount
    ring
  unfold wallToNaiveUtc
  rw [dateUTC_eq hdated.1 hvalid.month]
  change timeClip (w.seconds * 1000) = _
  rw [hsum]
  exact hclip

/-! ## Months without a length -/

/-- Some day of the month is out of the range of `Date`. -/
def Undated (year month : Int) : Prop := 275760 < year ∨ year = 275760 ∧ 9 ≤ month

theorem dated_or_undated (month : Int) (hyear : 100 ≤ year) : Dated year month ∨ Undated year month := by
  unfold Dated Undated
  omega

theorem maxTime_eq : maxTime = (dayNumber 275760 9 13) * 86400000 := by decide

theorem dayNumber_undated (h : Undated year month) (hmonth : 1 ≤ month ∧ month ≤ 12) :
    dayNumber 275760 9 1 ≤ dayNumber year month 1 := by
  have hstart := monthStart_mono (m := 1) (n := month) year (by omega) hmonth.1 (by omega)
  rw [monthStart_one] at hstart
  unfold dayNumber
  rcases h with hlt | ⟨rfl, hle⟩
  · have hyears := yearStart_mono (show 275760 + 1 ≤ year by omega)
    have hend := monthStart_mono (m := 9) (n := 13) 275760 (by omega) (by omega) (by omega)
    rw [monthStart_end] at hend
    rw [yearStart_succ] at hyears
    omega
  · have hmonths := monthStart_mono (m := 9) (n := month) 275760 (by omega) hle (by omega)
    omega

theorem daysInMonth_undated (h : Undated year month) (hmonth : 1 ≤ month ∧ month ≤ 12) :
    daysInMonth year month = none := by
  have hfirst := dayNumber_undated h hmonth
  have hlength := monthLength_bounds year month
  have hlast := dayNumber_next year hmonth
  have hdays : dayNumber year month (monthLength year month) =
      dayNumber year month 1 + monthLength year month - 1 := by
    unfold dayNumber
    omega
  have hend : dayNumber 275760 9 13 = dayNumber 275760 9 1 + 12 := by decide
  have hmax := maxTime_eq
  unfold daysInMonth dateUTC
  simp only
  rw [if_neg (by unfold Undated at h; omega), hlast, timeClip, if_neg (by omega)]
  rfl

theorem cronDomMatches_none (cron : CronPattern) (day : Int) (dayOfWeek : JsNumber) :
    cronDomMatches cron day dayOfWeek none = decide (day ∈ cron.dom) := by
  simp [cronDomMatches]

theorem cronDayMatches_of_none {dayOfWeek : JsNumber} (length : JsNumber)
    (h : cronDayMatches cron day dayOfWeek none = true) :
    cronDayMatches cron day dayOfWeek length = true := by
  have hdom (h : cronDomMatches cron day dayOfWeek none = true) :
      cronDomMatches cron day dayOfWeek length = true := by
    rw [cronDomMatches_none] at h
    simp [cronDomMatches, h]
  have hdow (h : cronDowMatches cron day dayOfWeek none = true) :
      cronDowMatches cron day dayOfWeek length = true := by
    simp only [cronDowMatches, Option.any_none, Bool.and_false, Bool.or_false, Bool.or_eq_true] at h ⊢
    rcases h with h | h
    · exact Or.inl (Or.inl h)
    · exact Or.inr h
  unfold cronDayMatches at h ⊢
  simp only at h ⊢
  split at h
  · rw [if_pos ‹_›]
    rw [Bool.or_eq_true] at h ⊢
    exact h.imp hdom hdow
  · rw [if_neg ‹_›]
    rw [Bool.and_eq_true] at h ⊢
    exact h.imp hdom hdow

theorem le_of_cronDayMatches_none (h : cronDayMatches cron day none none = true) : day ≤ 31 := by
  -- Without the length of the month and a weekday only the days of the month are left.
  have hdow : cronDowMatches cron day none none = false := by
    simp [cronDowMatches]
  unfold cronDayMatches at h
  simp only [hdow, cronDomMatches_none, Bool.or_false, Bool.and_false] at h
  split at h
  · exact (cron.dom.within _ (of_decide_eq_true h)).2
  · cases h

end

end GlideMq
