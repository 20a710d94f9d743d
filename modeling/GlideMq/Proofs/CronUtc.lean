import GlideMq.Proofs.CronWalk
import Mathlib.Data.Int.LeastGreatest

/-!
# The next occurrence in UTC

As long as the months of the search have a length in `Date`, the search returns the first instant that
the pattern means. September 275760 has none: `Date` ends in it.
-/

namespace GlideMq

open Calendar

variable {cron : CronPattern} {v w start : Wall} {pattern : String} {afterMs : Int}

/-- The first of the month that `Date` ends in. -/
def farTime : Int := (monthBegin 275760 9).seconds * 1000

/-! ## What the search should return -/

/-- The clock that the search starts at. -/
def searchStart (afterMs : Int) : Wall := .ofSeconds (afterMs / 1000 + 1)

def endYear (afterMs : Int) : Int := (searchStart afterMs).year + maxSearchYears

/-- The instants of the pattern up to the end of the tenth year. -/
structure CronPattern.DueUtc (cron : CronPattern) (afterMs t : Int) : Prop where
  later : afterMs < t
  whole : 1000 ∣ t
  dated : t ≤ maxTime
  inTime : (Wall.ofSeconds (t / 1000)).year ≤ endYear afterMs
  due : cron.Matches (.ofSeconds (t / 1000))

/-- The reply is the first instant, or there is none and the reply says so. -/
def Answers (pattern : String) (instants : Set Int) (reply : Except String JsNumber) : Prop :=
  (∃ t, IsLeast instants t ∧ reply = .ok (some t)) ∨
    instants = ∅ ∧ reply = .error (noCronMatch pattern)

/-! ## Matches in a month that has a length -/

theorem taken_iff (hdated : Dated v.year v.month) : cron.Taken v ↔ v.Valid ∧ cron.Matches v := by
  constructor
  · intro h
    have hmonth := cron.month.within _ h.month
    have hlength := daysInMonth_eq hdated hmonth
    have hday : InMonth v.year v.month v.day := ⟨h.first, h.last _ hlength⟩
    have hmatches := h.day
    rw [hlength, weekday_eq hdated hmonth hday, cronDayMatches_iff cron hday] at hmatches
    exact ⟨⟨hmonth, hday, cron.hour.within _ h.hour, cron.minute.within _ h.minute,
      cron.second.within _ h.second⟩, h.second, h.minute, h.hour, hmatches, h.month⟩
  · rintro ⟨hvalid, hmatches⟩
    have hlength := daysInMonth_eq hdated hvalid.month
    refine ⟨hmatches.month, hvalid.day.1, ?_, ?_, hmatches.hour, hmatches.minute, hmatches.second⟩
    · intro length hl
      rw [hlength, Option.mem_some_iff] at hl
      exact hl ▸ hvalid.day.2
    · rw [hlength, weekday_eq hdated hvalid.month hvalid.day, cronDayMatches_iff cron hvalid.day]
      exact hmatches.day

theorem reaches_of_dated (hstart : 100 ≤ start.year) (hle : start ≤ v)
    (hdated : v.year < 275760 ∨ v.year = 275760 ∧ v.month ≤ 9) : Reaches cron start v := by
  refine ⟨hle, ?_⟩
  intro year month hmonth hfirst hlast
  have hwithin := cron.month.within _ hmonth
  rw [daysInMonth_eq ⟨by omega, by omega⟩ hwithin]
  exact Option.some_ne_none _

theorem searchStart_year (h : 0 ≤ afterMs) : 1970 ≤ (searchStart afterMs).year := by
  have hvalid := Wall.ofSeconds_valid (afterMs / 1000 + 1)
  by_contra hlt
  have hepoch : (⟨1970, 1, 1, 0, 0, 0⟩ : Wall).Valid := by
    constructor <;> simp [monthLength]
  have hbefore : searchStart afterMs < ⟨1970, 1, 1, 0, 0, 0⟩ := by
    rw [Wall.lt_iff]
    simp only
    omega
  have := Wall.seconds_lt hvalid hepoch hbefore
  rw [Wall.seconds_ofSeconds] at this
  have hzero : (⟨1970, 1, 1, 0, 0, 0⟩ : Wall).seconds = 0 := by decide
  omega

/-! ## The walk -/

def resolveUtc : Wall → Except String (Option JsNumber) := fun w => pure (some (wallToNaiveUtc w))

/-- The first match that the walk can come to, if one is in the time. -/
def FirstTaken (cron : CronPattern) (afterMs : Int) (v : Wall) : Prop :=
  IsLeast {v | cron.Taken v ∧ Reaches cron (searchStart afterMs) v ∧ v.year ≤ endYear afterMs} v

theorem searchStart_walked (afterMs : Int) :
    Walked (searchStart afterMs) ∧ (searchStart afterMs).day ≤ 31 := by
  have h := nextSecond_walked (.ofSeconds (afterMs / 1000))
  rwa [nextSecond, Wall.seconds_ofSeconds] at h

theorem start_cost (hw : Walked start) (hday : start.day ≤ 31) {declined : Finset Wall}
    (hcard : declined.card ≤ 2700) :
    cost cron declined (start.year + maxSearchYears) start < maxSearchSteps := by
  have hmonth := hw.month
  have hfirst := hw.day
  have hsecond := hw.second
  have htime := timeCost_bounds cron start
  have hle := Finset.card_filter_le declined (minuteOf start < ·)
  unfold cost daysLeft laterCost maxSearchYears maxSearchSteps
  split <;> omega

theorem nextCronOccurrence_utc (hparse : parseCronPattern pattern = .ok cron) :
    nextCronOccurrence pattern afterMs none =
      searchCronWall cron (utcToWall (some (afterMs / 1000 * 1000 + 1000))) pattern resolveUtc := by
  simp only [nextCronOccurrence, nextCronOccurrenceUtc, hparse, bind, Except.bind]
  rfl

theorem utcToWall_start (hrange : 0 ≤ afterMs ∧ afterMs / 1000 * 1000 + 1000 ≤ maxTime) :
    utcToWall (some (afterMs / 1000 * 1000 + 1000)) = some (searchStart afterMs) := by
  have hclip : timeClip (afterMs / 1000 * 1000 + 1000) = some (afterMs / 1000 * 1000 + 1000) := by
    apply timeClip_of_bounds
    unfold maxTime at *
    omega
  have hsecond : (afterMs / 1000 * 1000 + 1000) / 1000 = afterMs / 1000 + 1 := by omega
  rw [utcToWall, Option.bind_some, hclip, Option.map_some, hsecond]
  rfl

theorem utc_of_first (hparse : parseCronPattern pattern = .ok cron)
    (hrange : 0 ≤ afterMs ∧ afterMs / 1000 * 1000 + 1000 ≤ maxTime)
    (h : FirstTaken cron afterMs v) (hday : v.day ≤ 32) :
    nextCronOccurrence pattern afterMs none = .ok (wallToNaiveUtc v) := by
  obtain ⟨⟨htaken, hreach, hyear⟩, hleast⟩ := h
  obtain ⟨hwalked, hstart⟩ := searchStart_walked afterMs
  have hcost : cost cron ∅ (endYear afterMs) (searchStart afterMs) < maxSearchSteps :=
    start_cost hwalked hstart (by simp)
  have hnone : ∀ u, cron.Taken u → searchStart afterMs ≤ u → ¬ u < v := by
    intro u hu hle hlt
    have := hleast ⟨hu, hreach.earlier hle hlt.le, (year_le hlt.le).trans hyear⟩
    exact absurd this (not_le.mpr hlt)
  have hfound : searchFrom cron (endYear afterMs) resolveUtc maxSearchSteps (searchStart afterMs) =
      .ok (some (wallToNaiveUtc v)) :=
    searchFrom_found ∅ htaken hday hyear rfl (fun u hu hle hlt => absurd hlt (hnone u hu hle)) le_rfl
      hwalked (by omega) hreach hcost
  rw [nextCronOccurrence_utc hparse, utcToWall_start hrange, searchCronWall_some hfound]

theorem utc_of_none (hparse : parseCronPattern pattern = .ok cron)
    (hrange : 0 ≤ afterMs ∧ afterMs / 1000 * 1000 + 1000 ≤ maxTime)
    (h : ∀ u, cron.Taken u → Reaches cron (searchStart afterMs) u → ¬ u.year ≤ endYear afterMs) :
    nextCronOccurrence pattern afterMs none = .error (noCronMatch pattern) := by
  have hnone : searchFrom cron (endYear afterMs) resolveUtc maxSearchSteps (searchStart afterMs) =
      .ok none :=
    searchFrom_none (fun u hu hreach hyear => absurd hyear (h u hu hreach))
      (searchStart_walked afterMs).1 _
  rw [nextCronOccurrence_utc hparse, utcToWall_start hrange, searchCronWall_some hnone]

theorem utc_at_end (hparse : parseCronPattern pattern = .ok cron)
    (hend : maxTime < afterMs / 1000 * 1000 + 1000) :
    nextCronOccurrence pattern afterMs none = .error (noCronMatch pattern) := by
  -- In the last second of `Date` the search has nowhere to start.
  have hclip : timeClip (afterMs / 1000 * 1000 + 1000) = none := if_neg (by omega)
  rw [nextCronOccurrence_utc hparse, utcToWall, Option.bind_some, hclip]
  rfl

/-! ## Instants and clocks -/

theorem searchStart_le (hv : v.Valid) : searchStart afterMs ≤ v ↔ afterMs < v.seconds * 1000 := by
  unfold searchStart
  rw [← Wall.seconds_le_iff (Wall.ofSeconds_valid _) hv, Wall.seconds_ofSeconds]
  omega

/-- An instant of the pattern is a clock from the start on. -/
theorem dueUtc_iff {t : Int} : cron.DueUtc afterMs t ↔ ∃ v : Wall, t = v.seconds * 1000 ∧ v.Valid ∧
    cron.Matches v ∧ searchStart afterMs ≤ v ∧ v.year ≤ endYear afterMs ∧ t ≤ maxTime := by
  constructor
  · intro h
    obtain ⟨s, rfl⟩ := h.whole
    have hlater := h.later
    have hdiv : 1000 * s / 1000 = s := by omega
    have hvalid := Wall.ofSeconds_valid s
    have hin := h.inTime
    have hdue := h.due
    rw [hdiv] at hin hdue
    have hseconds : (Wall.ofSeconds s).seconds * 1000 = 1000 * s := by
      rw [Wall.seconds_ofSeconds, mul_comm]
    refine ⟨.ofSeconds s, hseconds.symm, hvalid, hdue, ?_, hin, h.dated⟩
    rwa [searchStart_le hvalid, hseconds]
  · rintro ⟨v, rfl, hvalid, hmatches, hle, hyear, hdated⟩
    have hdiv : v.seconds * 1000 / 1000 = v.seconds := by omega
    refine ⟨(searchStart_le hvalid).mp hle, ⟨v.seconds, by omega⟩, hdated, ?_, ?_⟩
    · rwa [hdiv, Wall.ofSeconds_seconds hvalid]
    · rwa [hdiv, Wall.ofSeconds_seconds hvalid]

theorem first_of_least {t : Int} (hafter : 0 ≤ afterMs)
    (ht : IsLeast {t | cron.DueUtc afterMs t} t)
    (hfar : t < farTime) :
    ∃ v : Wall, t = v.seconds * 1000 ∧ v.Valid ∧ Dated v.year v.month ∧
      FirstTaken cron afterMs v := by
  -- Of an instant in a month that has a length the code finds the clock.
  obtain ⟨hdue, hleast⟩ := ht
  obtain ⟨v, rfl, hvalid, hmatches, hle, hyear, hlast⟩ := dueUtc_iff.mp hdue
  have hstart := searchStart_year hafter
  have hfarValid : (monthBegin 275760 9).Valid := monthBegin_valid _ (by omega)
  have hbefore : v < monthBegin 275760 9 := by
    rw [← Wall.seconds_lt_iff hvalid hfarValid]
    unfold farTime at hfar
    omega
  have hmonth := hvalid.month
  have hday := hvalid.day
  have hdatedBefore {u : Wall} (hu : searchStart afterMs ≤ u) (hlt : u < monthBegin 275760 9)
      (hfirst : 1 ≤ u.day) (hhour : 0 ≤ u.hour) (hminute : 0 ≤ u.minute) (hsecond : 0 ≤ u.second) :
      Dated u.year u.month := by
    have := year_le hu
    rw [Wall.lt_iff] at hlt
    simp only [monthBegin] at hlt
    exact ⟨by omega, by omega⟩
  have hdated := hdatedBefore hle hbefore hday.1 hvalid.hour.1 hvalid.minute.1 hvalid.second.1
  refine ⟨v, rfl, hvalid, hdated, ⟨(taken_iff hdated).mpr ⟨hvalid, hmatches⟩,
    reaches_of_dated (by omega) hle (by have := hdated.2; omega), hyear⟩, ?_⟩
  rintro u ⟨hu, hreach, huyear⟩
  by_contra hlt
  have hlt := not_le.mp hlt
  have hwalked := Walked.of_taken hu
  have hudated := hdatedBefore hreach.1 (hlt.trans hbefore) hwalked.day hwalked.hour hwalked.minute
    hwalked.second.1
  obtain ⟨huvalid, humatches⟩ := (taken_iff hudated).mp hu
  have hseconds := Wall.seconds_lt huvalid hvalid hlt
  have := hleast (dueUtc_iff.mpr ⟨u, rfl, huvalid, humatches, hreach.1, huyear, by omega⟩)
  omega

/-! ## The month that `Date` ends in -/

theorem dueUtc_le_maxTime {t : Int} (h : cron.DueUtc afterMs t) : afterMs < maxTime :=
  h.later.trans_le h.dated

theorem exists_least_dueUtc {t : Int} (h : cron.DueUtc afterMs t) :
    ∃ t, IsLeast {t | cron.DueUtc afterMs t} t := by
  obtain ⟨least, hleast, hle⟩ :=
    Int.exists_least_of_bdd ⟨afterMs, fun t (ht : cron.DueUtc afterMs t) => ht.later.le⟩ ⟨t, h⟩
  exact ⟨least, hleast, hle⟩

theorem wallToNaiveUtc_clip (hyear : 100 ≤ v.year) (hmonth : 1 ≤ v.month ∧ v.month ≤ 12) :
    wallToNaiveUtc v = timeClip (v.seconds * 1000) := by
  unfold wallToNaiveUtc
  rw [dateUTC_eq hyear hmonth]
  rfl

theorem year_pos_of_reached (hafter : 0 ≤ afterMs) (hle : searchStart afterMs ≤ v) :
    100 ≤ v.year := by
  have := searchStart_year hafter
  have := year_le hle
  omega

theorem far_of_seconds (hw : Walked v) (hundated : Undated v.year v.month)
    (hle : v.seconds * 1000 ≤ maxTime) : v.year = 275760 ∧ v.month = 9 ∧ v.day ≤ 13 := by
  have hmonth := hw.month
  have hfirst := hw.day
  have hhour := hw.hour
  have hminute := hw.minute
  have hsecond := hw.second
  have hdays : v.dayCount = dayNumber v.year v.month 1 + v.day - 1 := by
    unfold Wall.dayCount dayNumber
    omega
  have hend : dayNumber 275760 9 13 = dayNumber 275760 9 1 + 12 := by decide
  have hmax := maxTime_eq
  have hsame : v.year = 275760 ∧ v.month = 9 := by
    by_contra hne
    have hlater : dayNumber 275760 10 1 ≤ dayNumber v.year v.month 1 := by
      have hstart := monthStart_mono (m := 1) (n := v.month) v.year (by omega) hmonth.1 (by omega)
      rw [monthStart_one] at hstart
      unfold dayNumber
      rcases hundated with hlt | ⟨heq, hnine⟩
      · have hyears := yearStart_mono (show 275760 + 1 ≤ v.year by omega)
        have hten := monthStart_mono (m := 10) (n := 13) 275760 (by omega) (by omega) (by omega)
        rw [monthStart_end] at hten
        rw [yearStart_succ] at hyears
        omega
      · have hmonths := monthStart_mono (m := 10) (n := v.month) 275760 (by omega) (by omega) (by omega)
        rw [heq]
        omega
    have hten : dayNumber 275760 10 1 = dayNumber 275760 9 1 + 30 := by decide
    unfold Wall.seconds at hle
    omega
  refine ⟨hsame.1, hsame.2, ?_⟩
  rw [hsame.1, hsame.2] at hdays
  unfold Wall.seconds at hle
  omega

theorem valid_of_far (htaken : cron.Taken v) (hyear : v.year = 275760) (hmonth : v.month = 9)
    (hday : v.day ≤ 13) : v.Valid := by
  have hlength : monthLength 275760 9 = 30 := by decide
  refine ⟨cron.month.within _ htaken.month, ⟨htaken.first, ?_⟩, cron.hour.within _ htaken.hour,
    cron.minute.within _ htaken.minute, cron.second.within _ htaken.second⟩
  rw [hyear, hmonth]
  omega

theorem weekday_far {day : Int} (hday : 1 ≤ day ∧ day ≤ 13) :
    weekday 275760 9 day = some (weekdayOf 275760 9 day) := by
  have hfirst : dayNumber 275760 9 day = dayNumber 275760 9 1 + day - 1 := by
    unfold dayNumber
    omega
  have hone : dayNumber 275760 9 1 = 99999988 := by decide
  unfold weekday
  rw [dateUTC_eq (by omega) (by omega), timeClip_of_bounds (by unfold maxTime; omega),
    Option.map_some]
  unfold weekdayOf
  congr 2
  omega

/-- The code goes by the days that match without the length of the month. -/
def LateDay (cron : CronPattern) (v : Wall) : Prop :=
  cronDayMatches cron v.day (weekday v.year v.month v.day) none = true

theorem taken_far_iff (hvalid : v.Valid) (hmatches : cron.Matches v) (hyear : v.year = 275760)
    (hmonth : v.month = 9) : cron.Taken v ↔ LateDay cron v := by
  have hlength : daysInMonth v.year v.month = none :=
    daysInMonth_undated (by unfold Undated; omega) hvalid.month
  unfold LateDay
  constructor
  · intro h
    have hday := h.day
    rwa [hlength] at hday
  · intro h
    refine ⟨hmatches.month, hvalid.day.1, ?_, ?_, hmatches.hour, hmatches.minute, hmatches.second⟩
    · rw [hlength]
      simp
    · rwa [hlength]

theorem matches_of_taken_far (htaken : cron.Taken v) (hvalid : v.Valid) (hyear : v.year = 275760)
    (hmonth : v.month = 9) (hday : v.day ≤ 13) : cron.Matches v := by
  have hlength : daysInMonth v.year v.month = none :=
    daysInMonth_undated (by unfold Undated; omega) hvalid.month
  have hmatches := htaken.day
  have hweekday : weekday v.year v.month v.day = some (weekdayOf v.year v.month v.day) := by
    rw [hyear, hmonth]
    exact weekday_far ⟨hvalid.day.1, hday⟩
  rw [hlength, hweekday] at hmatches
  have hknown := cronDayMatches_of_none (some (monthLength v.year v.month)) hmatches
  exact ⟨htaken.second, htaken.minute, htaken.hour, (cronDayMatches_iff cron hvalid.day).mp hknown,
    htaken.month⟩

/-! ## When the search is right -/

/-- What the code can take for a match. -/
def MayTake (cron : CronPattern) (afterMs : Int) (v : Wall) : Prop :=
  cron.Taken v ∧ Reaches cron (searchStart afterMs) v ∧ v.year ≤ endYear afterMs

/-- The search ends before September 275760, or finds an instant before. If it comes to that month,
its first instant is of a day that matches without the length of the month, or there is none and no
clock that the code takes for a match. -/
def UtcInRange (cron : CronPattern) (afterMs : Int) : Prop :=
  endYear afterMs < 275760 ∨ (∃ t < farTime, cron.DueUtc afterMs t) ∨
    (∃ t, IsLeast {t | cron.DueUtc afterMs t} t ∧ LateDay cron (.ofSeconds (t / 1000))) ∨
    (∀ t, ¬ cron.DueUtc afterMs t) ∧ (afterMs < maxTime → ∀ v, ¬ MayTake cron afterMs v)

theorem start_in_range (hrange : 0 ≤ afterMs ∧ afterMs ≤ maxTime) :
    afterMs / 1000 * 1000 + 1000 ≤ maxTime ↔ afterMs < maxTime := by
  unfold maxTime at *
  omega

theorem utc_of_mayTake_none (hparse : parseCronPattern pattern = .ok cron)
    (hrange : 0 ≤ afterMs ∧ afterMs ≤ maxTime)
    (h : afterMs < maxTime → ∀ v, ¬ MayTake cron afterMs v) :
    nextCronOccurrence pattern afterMs none = .error (noCronMatch pattern) := by
  by_cases hend : afterMs < maxTime
  · exact utc_of_none hparse ⟨hrange.1, (start_in_range hrange).mpr hend⟩
      fun u hu hreach hyear => h hend u ⟨hu, hreach, hyear⟩
  · have := (start_in_range hrange).not.mpr hend
    exact utc_at_end hparse (by omega)

theorem dueUtc_of_mayTake (h : MayTake cron afterMs v)
    (hdated : Dated v.year v.month) : cron.DueUtc afterMs (v.seconds * 1000) := by
  obtain ⟨htaken, hreach, hyear⟩ := h
  obtain ⟨hvalid, hmatches⟩ := (taken_iff hdated).mp htaken
  have hclip := wallToNaiveUtc_clip hdated.1 hvalid.month
  rw [wallToNaiveUtc_eq hvalid hdated] at hclip
  refine dueUtc_iff.mpr ⟨v, rfl, hvalid, hmatches, hreach.1, hyear, ?_⟩
  by_contra hle
  rw [timeClip, if_neg (by omega)] at hclip
  cases hclip

theorem utc_of_least (hparse : parseCronPattern pattern = .ok cron)
    (hrange : 0 ≤ afterMs ∧ afterMs ≤ maxTime) {t : Int}
    (ht : IsLeast {t | cron.DueUtc afterMs t} t) (hfar : t < farTime) :
    nextCronOccurrence pattern afterMs none = .ok (some t) := by
  have hend := (start_in_range hrange).mpr (dueUtc_le_maxTime ht.1)
  obtain ⟨v, rfl, hvalid, hdated, hfirst⟩ := first_of_least hrange.1 ht hfar
  have hday := hvalid.day
  have hlength := monthLength_bounds v.year v.month
  rw [utc_of_first hparse ⟨hrange.1, hend⟩ hfirst (by omega), wallToNaiveUtc_eq hvalid hdated]

theorem walked_of_valid (h : v.Valid) : Walked v :=
  ⟨h.month, h.day.1, h.hour.1, h.minute.1, h.second⟩

theorem undated_of_far (hvalid : v.Valid) (hfar : farTime ≤ v.seconds * 1000) :
    Undated v.year v.month := by
  have hle : monthBegin 275760 9 ≤ v := by
    rw [← Wall.seconds_le_iff (monthBegin_valid _ (by omega)) hvalid]
    unfold farTime at hfar
    omega
  rw [Wall.le_iff] at hle
  simp only [monthBegin] at hle
  unfold Undated
  omega

/-- In the last month the code takes the instants of the days that it finds. -/
theorem dueUtc_of_mayTake_far {u : Wall} (h : MayTake cron afterMs u) (hyear : u.year = 275760)
    (hmonth : u.month = 9) (hlast : u.seconds * 1000 ≤ maxTime) :
    u.Valid ∧ cron.DueUtc afterMs (u.seconds * 1000) := by
  obtain ⟨htaken, hreach, hin⟩ := h
  have hfar := far_of_seconds (Walked.of_taken htaken) (by unfold Undated; omega) hlast
  have hvalid := valid_of_far htaken hyear hmonth hfar.2.2
  have hmatches := matches_of_taken_far htaken hvalid hyear hmonth hfar.2.2
  exact ⟨hvalid, dueUtc_iff.mpr ⟨u, rfl, hvalid, hmatches, hreach.1, hin, hlast⟩⟩

theorem utc_of_lateDay (hparse : parseCronPattern pattern = .ok cron)
    (hrange : 0 ≤ afterMs ∧ afterMs ≤ maxTime) {t : Int}
    (ht : IsLeast {t | cron.DueUtc afterMs t} t) (hfar : farTime ≤ t)
    (hlate : LateDay cron (.ofSeconds (t / 1000))) :
    nextCronOccurrence pattern afterMs none = .ok (some t) := by
  -- The first instant is in the last month, on a day that the code finds there.
  have hend := (start_in_range hrange).mpr (dueUtc_le_maxTime ht.1)
  obtain ⟨v, rfl, hvalid, hmatches, hle, hyear, hlast⟩ := dueUtc_iff.mp ht.1
  have hdiv : v.seconds * 1000 / 1000 = v.seconds := by omega
  rw [hdiv, Wall.ofSeconds_seconds hvalid] at hlate
  obtain ⟨hvyear, hvmonth, hvday⟩ :=
    far_of_seconds (walked_of_valid hvalid) (undated_of_far hvalid hfar) hlast
  have hpos := searchStart_year hrange.1
  have hfirst : FirstTaken cron afterMs v := by
    refine ⟨⟨(taken_far_iff hvalid hmatches hvyear hvmonth).mpr hlate,
      reaches_of_dated (by omega) hle (by omega), hyear⟩, ?_⟩
    intro u hu
    by_contra hlt
    replace hlt := not_le.mp hlt
    have hdue : u.Valid ∧ cron.DueUtc afterMs (u.seconds * 1000) := by
      rcases dated_or_undated u.month (year_pos_of_reached hrange.1 hu.2.1.1) with
        hdated | hundated
      · exact ⟨((taken_iff hdated).mp hu.1).1, dueUtc_of_mayTake hu hdated⟩
      · have hbefore := Wall.lt_iff.mp hlt
        unfold Undated at hundated
        have hyear' : u.year = 275760 := by omega
        have hmonth' : u.month = 9 := by omega
        have huvalid := valid_of_far hu.1 hyear' hmonth' (by omega)
        have hseconds := Wall.seconds_lt huvalid hvalid hlt
        exact dueUtc_of_mayTake_far hu hyear' hmonth' (by omega)
    have hseconds := Wall.seconds_lt hdue.1 hvalid hlt
    have := ht.2 hdue.2
    omega
  rw [utc_of_first hparse ⟨hrange.1, hend⟩ hfirst (by omega),
    wallToNaiveUtc_clip (by omega) hvalid.month, timeClip_of_bounds]
  have hlater := ht.1.later
  unfold maxTime at hlast ⊢
  omega

theorem day_le_of_taken (htaken : cron.Taken v) (hundated : Undated v.year v.month) :
    v.day ≤ 31 := by
  by_contra hlt
  have hmonth := cron.month.within _ htaken.month
  have hfirst := dayNumber_undated hundated hmonth
  have hdays : dayNumber v.year v.month v.day = dayNumber v.year v.month 1 + v.day - 1 := by
    unfold dayNumber
    omega
  have hend : dayNumber 275760 9 13 = dayNumber 275760 9 1 + 12 := by decide
  have hmax := maxTime_eq
  have hweekday : weekday v.year v.month v.day = none := by
    unfold weekday
    rw [dateUTC_eq (by unfold Undated at hundated; omega) hmonth, timeClip, if_neg (by omega)]
    rfl
  have hday := htaken.day
  rw [hweekday, daysInMonth_undated hundated hmonth] at hday
  exact hlt (le_of_cronDayMatches_none hday)

/-- The walk does not get out of a month that has no length. -/
theorem same_month {u : Wall} (hu : MayTake cron afterMs u) (hv : MayTake cron afterMs v)
    (hundated : Undated u.year u.month) : ¬ (u.year < v.year ∨ u.year = v.year ∧ u.month < v.month) := by
  intro hlt
  have hstart := Wall.le_iff.mp hu.2.1.1
  refine hv.2.1.2 u.year u.month hu.1.month (by omega) hlt ?_
  exact daysInMonth_undated hundated (cron.month.within _ hu.1.month)

theorem undated_of_mayTake (hafter : 0 ≤ afterMs) (hnone : ∀ t < farTime, ¬ cron.DueUtc afterMs t)
    (h : MayTake cron afterMs v) : Undated v.year v.month := by
  rcases dated_or_undated v.month (year_pos_of_reached hafter h.2.1.1) with
    hdated | hundated
  · exfalso
    have hvalid := ((taken_iff hdated).mp h.1).1
    refine hnone _ ?_ (dueUtc_of_mayTake h hdated)
    have hlt : v < monthBegin 275760 9 := by
      rw [Wall.lt_iff]
      simp only [monthBegin]
      unfold Dated at hdated
      omega
    have := Wall.seconds_lt hvalid (monthBegin_valid _ (by omega)) hlt
    unfold farTime
    omega
  · exact hundated

theorem exists_first (hafter : 0 ≤ afterMs) (hnone : ∀ t < farTime, ¬ cron.DueUtc afterMs t)
    (h : MayTake cron afterMs v) : ∃ u, FirstTaken cron afterMs u ∧ Undated u.year u.month := by
  have hundated {u : Wall} (hu : MayTake cron afterMs u) : Undated u.year u.month :=
    undated_of_mayTake hafter hnone hu
  have hmonth {u w : Wall} (hu : MayTake cron afterMs u) (hw : MayTake cron afterMs w) :
      u.year = w.year ∧ u.month = w.month := by
    have := same_month hu hw (hundated hu)
    have := same_month hw hu (hundated hw)
    omega
  have hseconds {u : Wall} (hu : MayTake cron afterMs u) : u.seconds =
      ((dayNumber v.year v.month 1 + u.day - 1) * 24 + u.hour) * 3600 + u.minute * 60 + u.second := by
    have hsame := hmonth hu h
    unfold Wall.seconds Wall.dayCount dayNumber
    rw [hsame.1, hsame.2]
    ring
  obtain ⟨least, ⟨u, hu, rfl⟩, hleast⟩ := Int.exists_least_of_bdd
    (P := fun s => ∃ u, MayTake cron afterMs u ∧ u.seconds = s) ⟨dayNumber v.year v.month 1 * 86400, by
      rintro s ⟨u, hu, rfl⟩
      have hwalked := Walked.of_taken hu.1
      have := hwalked.day
      have := hwalked.hour
      have := hwalked.minute
      have := hwalked.second
      rw [hseconds hu]
      omega⟩ ⟨v.seconds, v, h, rfl⟩
  refine ⟨u, ⟨hu, ?_⟩, hundated hu⟩
  intro w hw
  have hle := hleast w.seconds ⟨w, hw, rfl⟩
  have hsame := hmonth hu hw
  have hhour := cron.hour.within _ hu.1.hour
  have hminute := cron.minute.within _ hu.1.minute
  have hsecond := cron.second.within _ hu.1.second
  have hhour' := cron.hour.within _ hw.1.hour
  have hminute' := cron.minute.within _ hw.1.minute
  have hsecond' := cron.second.within _ hw.1.second
  rw [hseconds hu, hseconds hw] at hle
  rw [Wall.le_iff]
  omega

theorem lateDay_of_found (hrange : 0 ≤ afterMs ∧ afterMs ≤ maxTime) {t : Int}
    (hfirst : FirstTaken cron afterMs v) (hundated : Undated v.year v.month) (hfound : wallToNaiveUtc v = some t) :
    LateDay cron (.ofSeconds (t / 1000)) := by
  -- What the search finds in the last month, it finds on one of its days.
  have htakes : MayTake cron afterMs v := hfirst.1
  have hwalked := Walked.of_taken htakes.1
  rw [wallToNaiveUtc_clip (year_pos_of_reached hrange.1 htakes.2.1.1) hwalked.month, timeClip] at hfound
  split at hfound
  · rename_i hclip
    rw [Option.some.injEq] at hfound
    obtain ⟨hyear, hmonth, hday⟩ := far_of_seconds hwalked hundated hclip.2
    have hvalid := valid_of_far htakes.1 hyear hmonth hday
    have hmatches := matches_of_taken_far htakes.1 hvalid hyear hmonth hday
    have hdiv : t / 1000 = v.seconds := by omega
    rw [hdiv, Wall.ofSeconds_seconds hvalid]
    exact (taken_far_iff hvalid hmatches hyear hmonth).mp htakes.1
  · cases hfound

/-! ## The claim -/

/-- The search returns the first instant of the pattern, or says that there is none, just when it does
not depend on the length of a month that goes past the range of dates. -/
theorem nextCronOccurrence_utc_iff (hparse : parseCronPattern pattern = .ok cron)
    (hrange : 0 ≤ afterMs ∧ afterMs ≤ maxTime) :
    Answers pattern {t | cron.DueUtc afterMs t} (nextCronOccurrence pattern afterMs none) ↔
      UtcInRange cron afterMs := by
  by_cases hnear : ∃ t < farTime, cron.DueUtc afterMs t
  · refine iff_of_true ?_ (Or.inr (Or.inl hnear))
    obtain ⟨s, hs, hdue⟩ := hnear
    obtain ⟨t, ht⟩ := exists_least_dueUtc hdue
    exact Or.inl ⟨t, ht, utc_of_least hparse hrange ht ((ht.2 hdue).trans_lt hs)⟩
  have hnone : ∀ t < farTime, ¬ cron.DueUtc afterMs t := fun t ht hdue => hnear ⟨t, ht, hdue⟩
  constructor
  · rintro (⟨t, ht, hreply⟩ | ⟨hempty, hreply⟩)
    · have hend := dueUtc_le_maxTime ht.1
      by_cases htakes : ∃ v, MayTake cron afterMs v
      · obtain ⟨v, hv⟩ := htakes
        obtain ⟨u, hfirst, hundated⟩ := exists_first hrange.1 hnone hv
        have hday := day_le_of_taken hfirst.1.1 hundated
        rw [utc_of_first hparse ⟨hrange.1, (start_in_range hrange).mpr hend⟩ hfirst (by omega),
          Except.ok.injEq] at hreply
        exact Or.inr (Or.inr (Or.inl ⟨t, ht, lateDay_of_found hrange hfirst hundated hreply⟩))
      · rw [utc_of_mayTake_none hparse hrange fun _ v hv => htakes ⟨v, hv⟩] at hreply
        cases hreply
    · refine Or.inr (Or.inr (Or.inr ⟨fun t => Set.eq_empty_iff_forall_notMem.mp hempty t, ?_⟩))
      intro hend v hv
      obtain ⟨u, hfirst, hundated⟩ := exists_first hrange.1 hnone hv
      have hday := day_le_of_taken hfirst.1.1 hundated
      rw [utc_of_first hparse ⟨hrange.1, (start_in_range hrange).mpr hend⟩ hfirst (by omega)] at hreply
      cases hreply
  · rintro (hend | hdue | ⟨t, ht, hlate⟩ | ⟨hempty, htakes⟩)
    · have hempty : ∀ t, ¬ cron.DueUtc afterMs t := by
        intro t hdue
        refine hnone t ?_ hdue
        obtain ⟨v, rfl, hvalid, -, -, hyear, -⟩ := dueUtc_iff.mp hdue
        have hlt : v < monthBegin 275760 9 := by
          rw [Wall.lt_iff]
          simp only [monthBegin]
          omega
        have := Wall.seconds_lt hvalid (monthBegin_valid _ (by omega)) hlt
        unfold farTime
        omega
      refine Or.inr ⟨Set.eq_empty_iff_forall_notMem.mpr hempty,
        utc_of_mayTake_none hparse hrange fun _ v hv => ?_⟩
      have hundated := undated_of_mayTake hrange.1 hnone hv
      have := hv.2.2
      unfold Undated at hundated
      omega
    · exact absurd hdue hnear
    · have hfar : farTime ≤ t := by
        by_contra hlt
        exact hnone t (not_le.mp hlt) ht.1
      exact Or.inl ⟨t, ht, utc_of_lateDay hparse hrange ht hfar hlate⟩
    · exact Or.inr ⟨Set.eq_empty_iff_forall_notMem.mpr hempty,
        utc_of_mayTake_none hparse hrange htakes⟩

theorem exists_of_isOk {α : Type} {r : Except String α} (h : r.isOk = true) : ∃ a, r = .ok a := by
  cases r with
  | ok a => exact ⟨a, rfl⟩
  | error e => cases h

/-- From 2097 the next 29 February is in the eighth year. -/
theorem nextCronOccurrence_utc_leap : ∃ cron, parseCronPattern "0 0 29 2 *" = .ok cron ∧
    Answers "0 0 29 2 *" {t | cron.DueUtc 4007836800000 t}
      (nextCronOccurrence "0 0 29 2 *" 4007836800000 none) ∧
    nextCronOccurrence "0 0 29 2 *" 4007836800000 none = .ok (some 4233686400000) := by
  obtain ⟨cron, hparse⟩ := exists_of_isOk
    (show (parseCronPattern "0 0 29 2 *").isOk = true by decide +kernel)
  refine ⟨cron, hparse, ?_, by decide +kernel⟩
  exact (nextCronOccurrence_utc_iff hparse (by decide)).mpr (Or.inl (by decide +kernel))

/-- At the end of the dates the search takes a day that no date can hold. -/
theorem nextCronOccurrence_utc_nan : ∃ cron, parseCronPattern "0 0 20 * 1" = .ok cron ∧
    ¬ Answers "0 0 20 * 1" {t | cron.DueUtc 8639999990000000 t}
      (nextCronOccurrence "0 0 20 * 1" 8639999990000000 none) := by
  obtain ⟨cron, hparse⟩ := exists_of_isOk
    (show (parseCronPattern "0 0 20 * 1").isOk = true by decide +kernel)
  refine ⟨cron, hparse, ?_⟩
  have hreply : nextCronOccurrence "0 0 20 * 1" 8639999990000000 none = .ok none := by
    decide +kernel
  rw [hreply]
  rintro (⟨t, -, h⟩ | ⟨-, h⟩)
  · cases h
  · cases h

end GlideMq
