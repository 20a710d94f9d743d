import GlideMq.Model.CronPattern
import Mathlib.Data.List.Sort

/-!
# The next occurrence of a cron pattern

The search walks a wall clock upward, field by field, and hands every time that the pattern matches to
a function that turns it into an instant or declines. `Date` counts milliseconds and has an end, past
which its values are NaN. What `Intl.DateTimeFormat` knows of a time zone is a parameter.
-/

namespace GlideMq

open Calendar

/-! ## Dates -/

/-- An integer, or NaN. No comparison with NaN is true. -/
abbrev JsNumber := Option Int

def JsNumber.sub (a b : JsNumber) : JsNumber := do return (← a) - (← b)

def maxTime : Int := 8640000000000000

/-- A time value that is out of range is NaN. -/
def timeClip (t : Int) : JsNumber := if -maxTime ≤ t ∧ t ≤ maxTime then some t else none

/-- `Date.UTC`, with months from 0. The years up to 99 are those of the twentieth century. -/
def dateUTC (year month day hour minute second : Int) : JsNumber :=
  let year := if 0 ≤ year ∧ year ≤ 99 then 1900 + year else year
  let days := dayNumber (year + month / 12) (month % 12 + 1) day
  timeClip ((((days * 24 + hour) * 60 + minute) * 60 + second) * 1000)

/-- The day before the first of the next month. -/
def daysInMonth (year month : Int) : JsNumber :=
  (dateUTC year month 0 0 0 0).map fun t => (Wall.ofSeconds (t / 1000)).day

/-- `new Date(Date.UTC(year, month - 1, day)).getUTCDay()`. -/
def weekday (year month day : Int) : JsNumber :=
  (dateUTC year (month - 1) day 0 0 0).map fun t => dayOfWeek (t / 86400000)

/-- The clock, or NaN in every field. -/
def utcToWall (epochMs : JsNumber) : Option Wall :=
  (epochMs.bind timeClip).map fun t => Wall.ofSeconds (t / 1000)

def wallToNaiveUtc (w : Wall) : JsNumber :=
  dateUTC w.year (w.month - 1) w.day w.hour w.minute w.second

def wallPlusOneSecond (w : Wall) : Option Wall := utcToWall ((wallToNaiveUtc w).map (· + 1000))

/-! ## Days -/

/-- The weekday (Mon-Fri) nearest to day `n` without leaving the month. -/
def nearestWeekday (n : Int) (dowOfN monthLength : JsNumber) : Int :=
  if dowOfN.any fun d => 1 ≤ d ∧ d ≤ 5 then n
  else if dowOfN = some 6 then if 1 < n then n - 1 else n + 2
  else if monthLength.any (n < ·) then n + 1 else n - 2

def cronDomMatches (cron : CronPattern) (day : Int) (dayOfWeek monthLength : JsNumber) : Bool :=
  let dowOf (n : Int) : JsNumber := dayOfWeek.map fun d => (d + n - day) % 7
  decide (day ∈ cron.dom) || cron.domLast && decide (monthLength = some day) ||
    cron.domLastWeekday &&
      monthLength.any (fun last => day = nearestWeekday last (dowOf last) monthLength) ||
    cron.domNearestWeekday.any fun n =>
      monthLength.any (n ≤ ·) && decide (nearestWeekday n (dowOf n) monthLength = day)

def cronDowMatches (cron : CronPattern) (day : Int) (dayOfWeek monthLength : JsNumber) : Bool :=
  dayOfWeek.any (· ∈ cron.dow) ||
    dayOfWeek.any (· ∈ cron.dowLast) && monthLength.any (· < day + 7) ||
    cron.dowNth.any fun p => decide (some p.1 = dayOfWeek) && decide ((day + 6) / 7 = p.2)

/-- When both day fields are restricted, a day matches if either does. Otherwise both must. -/
def cronDayMatches (cron : CronPattern) (day : Int) (dayOfWeek monthLength : JsNumber) : Bool :=
  let domMatch := cronDomMatches cron day dayOfWeek monthLength
  let dowMatch := cronDowMatches cron day dayOfWeek monthLength
  if ¬ cron.domUnrestricted ∧ ¬ cron.dowUnrestricted then domMatch || dowMatch
  else domMatch && dowMatch

/-! ## The search -/

inductive CronStep where
  /-- On to the next value of a field. -/
  | skip (w : Wall)
  | due (w : Wall)
  deriving DecidableEq

/-- The clock at the first of a month. -/
def monthBegin (year month : Int) : Wall := ⟨year, month, 1, 0, 0, 0⟩

/-- One pass of the loop, up to `resolve`. -/
def searchStep (cron : CronPattern) (w : Wall) : CronStep :=
  if w.month ∉ cron.month then
    match cron.month.sorted.find? (w.month < ·) with
    | some month => .skip (monthBegin w.year month)
    | none => .skip (monthBegin (w.year + 1) (cron.month.sorted.head cron.hasMonth))
  else
    let length := daysInMonth w.year w.month
    if length.any (· < w.day) then
      .skip (if 12 < w.month + 1 then monthBegin (w.year + 1) 1 else monthBegin w.year (w.month + 1))
    else if ¬ cronDayMatches cron w.day (weekday w.year w.month w.day) length then
      .skip { w with day := w.day + 1, hour := 0, minute := 0, second := 0 }
    else if w.hour ∉ cron.hour then
      match cron.hour.sorted.find? (w.hour < ·) with
      | some hour => .skip { w with hour, minute := 0, second := 0 }
      | none => .skip { w with day := w.day + 1, hour := 0, minute := 0, second := 0 }
    else if w.minute ∉ cron.minute then
      match cron.minute.sorted.find? (w.minute < ·) with
      | some minute => .skip { w with minute, second := 0 }
      | none => .skip { w with hour := w.hour + 1, minute := 0, second := 0 }
    else if w.second ∉ cron.second then
      match cron.second.sorted.find? (w.second < ·) with
      | some second => .due { w with second }
      | none => .skip { w with minute := w.minute + 1, second := 0 }
    else .due w

def maxSearchYears : Int := 10

def maxSearchSteps : Nat := 200000

/-- The loop, with the steps that are left. `none` when it ends without an instant. -/
def searchFrom (cron : CronPattern) (endYear : Int) (resolve : Wall → Except String (Option JsNumber)) :
    Nat → Wall → Except String (Option JsNumber)
  | 0, _ => pure none
  | steps + 1, w =>
    if w.year ≤ endYear then
      match searchStep cron w with
      | .skip w => searchFrom cron endYear resolve steps w
      | .due w => do
        match ← resolve w with
        | some found => pure (some found)
        | none =>
          match wallPlusOneSecond w with
          | none => pure none
          | some w => searchFrom cron endYear resolve steps w
    else pure none

theorem searchFrom_succ (cron : CronPattern) (endYear : Int)
    (resolve : Wall → Except String (Option JsNumber)) (steps : Nat) (w : Wall) :
    searchFrom cron endYear resolve (steps + 1) w =
      if w.year ≤ endYear then
        match searchStep cron w with
        | .skip w => searchFrom cron endYear resolve steps w
        | .due w =>
          (resolve w).bind fun
            | some found => .ok (some found)
            | none =>
              match wallPlusOneSecond w with
              | none => .ok none
              | some w => searchFrom cron endYear resolve steps w
      else .ok none := by
  rfl

def noCronMatch (pattern : String) : String :=
  "No cron match found within " ++ toString maxSearchYears ++ " years for pattern: " ++ pattern

/-- A clock of NaN ends the search at once. -/
def searchCronWall (cron : CronPattern) (start : Option Wall) (pattern : String)
    (resolve : Wall → Except String (Option JsNumber)) : Except String JsNumber := do
  let found ←
    match start with
    | none => pure none
    | some w => searchFrom cron (w.year + maxSearchYears) resolve maxSearchSteps w
  match found with
  | some t => pure t
  | none => throw (noCronMatch pattern)

def nextCronOccurrenceUtc (pattern : String) (afterMs : Int) : Except String JsNumber := do
  let cron ← parseCronPattern pattern
  let start := utcToWall (some (afterMs / 1000 * 1000 + 1000))
  searchCronWall cron start pattern fun w => pure (some (wallToNaiveUtc w))

/-! ## Time zones -/

/-- The minutes that the clocks of a zone are ahead of UTC, at each minute since 1970. -/
abbrev Zone := Int → Int

def minuteMs : Int := 60000

/-- Upper bound on a DST shift and on the distance searched around one. -/
def dstWindowMs : Int := 3 * 60 * 60 * 1000

/-- The years before 1 are printed as years before Christ, without the era. -/
def printedYear (year : Int) : Int := if year ≤ 0 then 1 - year else year

def utcToTzParts (z : Zone) (epochMs : JsNumber) : Except String Wall :=
  match epochMs.bind timeClip with
  | none => throw "Invalid time value"
  | some t =>
    let w := Wall.ofSeconds (t / 1000 + 60 * z (t / minuteMs))
    pure { w with year := printedYear w.year }

def tzOffsetMs (z : Zone) (epochMs : JsNumber) : Except String JsNumber := do
  let floored := epochMs.map fun t => t / minuteMs * minuteMs
  let p ← utcToTzParts z floored
  return (dateUTC p.year (p.month - 1) p.day p.hour p.minute 0).sub floored

/-- The instants of the offsets that hold there. -/
def instantsOf (z : Zone) (naive : JsNumber) : List JsNumber → Except String (List Int)
  | [] => pure []
  | offset :: rest => do
    let candidate := naive.sub offset
    let held ← tzOffsetMs z candidate
    let instants ← instantsOf z naive rest
    return (if held.isSome ∧ held = offset then candidate.toList else []) ++ instants

/-- The instants at which the clocks of the zone show the time. -/
def tzWallToInstants (z : Zone) (w : Wall) : Except String (List Int) := do
  let naive := wallToNaiveUtc w
  let guess ← tzOffsetMs z naive
  let base := naive.sub guess
  let earlier ← tzOffsetMs z (base.map (· - dstWindowMs))
  let same ← tzOffsetMs z base
  let later ← tzOffsetMs z (base.map (· + dstWindowMs))
  let instants ← instantsOf z naive [guess, earlier, same, later].eraseDups
  return instants.eraseDups.insertionSort (· ≤ ·)

/-- The bisection, with the passes that are left. Each brings the ends a minute closer or more. -/
def gapLoop (z : Zone) (offsetBefore : Int) : Nat → Int → Int → Except String Int
  | 0, _, hi => pure hi
  | passes + 1, lo, hi =>
    if minuteMs < hi - lo then do
      let mid := lo + (hi - lo) / 2 / minuteMs * minuteMs
      if (← tzOffsetMs z (some mid)) = some offsetBefore then gapLoop z offsetBefore passes mid hi
      else gapLoop z offsetBefore passes lo mid
    else pure hi

theorem gapLoop_succ (z : Zone) (offsetBefore : Int) (passes : Nat) (lo hi : Int) :
    gapLoop z offsetBefore (passes + 1) lo hi =
      if minuteMs < hi - lo then
        (tzOffsetMs z (some (lo + (hi - lo) / 2 / minuteMs * minuteMs))).bind fun offset =>
          if offset = some offsetBefore then
            gapLoop z offsetBefore passes (lo + (hi - lo) / 2 / minuteMs * minuteMs) hi
          else gapLoop z offsetBefore passes lo (lo + (hi - lo) / 2 / minuteMs * minuteMs)
      else .ok hi := by
  rfl

/-- The first instant after the gap that skips the time. -/
def tzGapEnd (z : Zone) (w : Wall) : Except String JsNumber := do
  let naive : JsNumber := (wallToNaiveUtc w).map fun t => t / minuteMs * minuteMs
  let guess ← tzOffsetMs z naive
  let base := naive.sub guess
  let offsetBefore ← tzOffsetMs z (base.map (· - dstWindowMs))
  let offsetAfter ← tzOffsetMs z (base.map (· + dstWindowMs))
  match naive.sub offsetAfter, naive.sub offsetBefore, offsetBefore with
  | some lo, some hi, some offsetBefore =>
    return some (← gapLoop z offsetBefore ((hi - lo) / minuteMs).toNat lo hi)
  | _, hi, _ => return hi

def cronWallMatches (cron : CronPattern) (p : Wall) : Bool :=
  decide (p.month ∈ cron.month) &&
    cronDayMatches cron p.day (weekday p.year p.month p.day) (daysInMonth p.year p.month) &&
    decide (p.hour ∈ cron.hour) && decide (p.minute ∈ cron.minute) && decide (p.second ∈ cron.second)

/-- The first of `count` instants, one step apart, whose clock matches. -/
def scanInstants (z : Zone) (cron : CronPattern) (stepMs : Int) :
    Nat → Int → Except String (Option Int)
  | 0, _ => pure none
  | count + 1, t => do
    if cronWallMatches cron (← utcToTzParts z (some t)) then pure (some t)
    else scanInstants z cron stepMs count (t + stepMs)

/-- The scan of a wildcard pattern across clocks that are about to be set back. -/
def scanRepeat (z : Zone) (cron : CronPattern) (afterMs : Int) : Except String (Option Int) := do
  let offsetNow ← tzOffsetMs z (some afterMs)
  let offsetLater ← tzOffsetMs z (some (afterMs + dstWindowMs))
  match offsetNow, offsetLater with
  | some now, some later =>
    if later < now then
      let stepMs := if cron.hasSeconds then 1000 else minuteMs
      let first := afterMs / stepMs * stepMs + stepMs
      scanInstants z cron stepMs ((afterMs + (now - later) - first) / stepMs + 1).toNat first
    else pure none
  | _, _ => pure none

/-- The instant of a time that the pattern matches, if it has one after `afterMs`. -/
def resolveInZone (z : Zone) (cron : CronPattern) (afterMs : Int) (w : Wall) :
    Except String (Option JsNumber) := do
  let instants ← tzWallToInstants z w
  let eligible ←
    if instants = [] then
      if cron.wildcardTime then pure [] else do
        let gapEnd ← tzGapEnd z w
        pure gapEnd.toList
    else pure (if cron.wildcardTime then instants else instants.take 1)
  return (eligible.find? (afterMs < ·)).map some

def nextCronOccurrenceTz (pattern : String) (afterMs : Int) (z : Zone) : Except String JsNumber := do
  let cron ← parseCronPattern pattern
  let scanned ← if cron.wildcardTime then scanRepeat z cron afterMs else pure none
  match scanned with
  | some t => return some t
  | none => do
    let now ← utcToTzParts z (some afterMs)
    searchCronWall cron (wallPlusOneSecond now) pattern (resolveInZone z cron afterMs)

def nextCronOccurrence (pattern : String) (afterMs : Int) : Option Zone → Except String JsNumber
  | none => nextCronOccurrenceUtc pattern afterMs
  | some z => nextCronOccurrenceTz pattern afterMs z

end GlideMq
