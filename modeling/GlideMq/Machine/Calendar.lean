import Mathlib.Data.Prod.Lex
import Mathlib.Tactic.IntervalCases
import Mathlib.Tactic.Linarith

/-!
# The calendar

The Gregorian calendar, carried on before its first year, with the days counted from 1970-01-01. A
wall clock shows a date and a time of the day. Clocks are compared field by field, also where a field
has run over its end, and on a clock that shows a time that exists this is the order of the seconds.
-/

namespace Calendar

/-! ## Years and months -/

def isLeap (y : Int) : Bool := y % 4 = 0 ∧ (y % 100 ≠ 0 ∨ y % 400 = 0)

def yearLength (y : Int) : Int := if isLeap y then 366 else 365

/-- The number of the first day of a year. -/
def yearStart (y : Int) : Int :=
  365 * (y - 1970) + (y - 1969) / 4 - (y - 1901) / 100 + (y - 1601) / 400

def monthLength (y m : Int) : Int :=
  if m = 2 then if isLeap y then 29 else 28
  else if m = 4 ∨ m = 6 ∨ m = 9 ∨ m = 11 then 30
  else 31

/-- The days of a year before a month of it. -/
def monthStart (y m : Int) : Int :=
  (367 * m - 362) / 12 - if m ≤ 2 then 0 else if isLeap y then 1 else 2

def dayNumber (y m d : Int) : Int := yearStart y + monthStart y m + d - 1

/-- Sunday is 0. -/
def dayOfWeek (n : Int) : Int := (n + 4) % 7

theorem isLeap_iff {y : Int} : isLeap y = true ↔ y % 4 = 0 ∧ (y % 100 ≠ 0 ∨ y % 400 = 0) := by
  simp [isLeap]

theorem yearStart_succ (y : Int) : yearStart (y + 1) = yearStart y + yearLength y := by
  unfold yearStart yearLength
  split
  · rename_i h
    rw [isLeap_iff] at h
    omega
  · rename_i h
    rw [isLeap_iff] at h
    omega

theorem yearStart_mono {y z : Int} (h : y ≤ z) : yearStart y ≤ yearStart z := by
  unfold yearStart
  omega

theorem yearLength_cases (y : Int) : isLeap y = true ∧ yearLength y = 366 ∨
    ¬ isLeap y = true ∧ yearLength y = 365 := by
  unfold yearLength
  split
  · rename_i h
    exact Or.inl ⟨h, rfl⟩
  · rename_i h
    exact Or.inr ⟨h, rfl⟩

theorem monthLength_bounds (y m : Int) : 28 ≤ monthLength y m ∧ monthLength y m ≤ 31 := by
  unfold monthLength
  split_ifs <;> omega

theorem monthStart_one (y : Int) : monthStart y 1 = 0 := by
  simp [monthStart]

theorem monthStart_succ {m : Int} (y : Int) (hm : 1 ≤ m ∧ m ≤ 12) :
    monthStart y (m + 1) = monthStart y m + monthLength y m := by
  obtain ⟨h1, h2⟩ := hm
  unfold monthStart monthLength
  cases isLeap y <;> interval_cases m <;> rfl

theorem monthStart_end (y : Int) : monthStart y 13 = yearLength y := by
  unfold monthStart yearLength
  split_ifs <;> omega

theorem monthStart_mono {m n : Int} (y : Int) (hm : 1 ≤ m) (h : m ≤ n) (hn : n ≤ 13) :
    monthStart y m ≤ monthStart y n := by
  unfold monthStart
  split_ifs <;> omega

/-! ## The date of a day -/

def yearOf (n : Int) : Int :=
  let y := 1970 + n * 400 / 146097
  if n < yearStart y then y - 1 else if n < yearStart (y + 1) then y else y + 1

/-- The last month up to `k + 1` that starts by day `r` of the year. -/
def lastMonth (y r : Int) : Nat → Int
  | 0 => 1
  | k + 1 => if monthStart y (k + 2) ≤ r then k + 2 else lastMonth y r k

/-- The month of the day with number `r` in its year, from 0. -/
def monthOf (y r : Int) : Int := lastMonth y r 11

theorem yearOf_spec (n : Int) : yearStart (yearOf n) ≤ n ∧ n < yearStart (yearOf n + 1) := by
  unfold yearOf
  simp only
  split_ifs with h1 h2
  · rw [sub_add_cancel]
    unfold yearStart at *
    omega
  · exact ⟨by omega, h2⟩
  · unfold yearStart at *
    omega

theorem lastMonth_spec {y r : Int} (h0 : 0 ≤ r) (k : Nat) (h : r < monthStart y (k + 2)) :
    (1 ≤ lastMonth y r k ∧ lastMonth y r k ≤ k + 1) ∧
      monthStart y (lastMonth y r k) ≤ r ∧ r < monthStart y (lastMonth y r k + 1) := by
  induction k with
  | zero =>
    rw [lastMonth, monthStart_one]
    exact ⟨by omega, h0, h⟩
  | succ k ih =>
    rw [lastMonth]
    split
    · rename_i hle
      have hnext : ((k + 1 : Nat) : Int) + 2 = (k : Int) + 2 + 1 := by omega
      rw [hnext] at h
      exact ⟨by omega, hle, h⟩
    · rename_i hlt
      obtain ⟨hbounds, hspec⟩ := ih (not_le.mp hlt)
      exact ⟨by omega, hspec⟩

theorem monthOf_spec {y r : Int} (h0 : 0 ≤ r) (h : r < yearLength y) :
    (1 ≤ monthOf y r ∧ monthOf y r ≤ 12) ∧
      monthStart y (monthOf y r) ≤ r ∧ r < monthStart y (monthOf y r + 1) := by
  have hlast : r < monthStart y ((11 : Nat) + 2) := by
    rwa [show ((11 : Nat) : Int) + 2 = 13 by norm_num, monthStart_end]
  obtain ⟨hbounds, hspec⟩ := lastMonth_spec h0 11 hlast
  exact ⟨by push_cast at hbounds; exact hbounds, hspec⟩

/-! ## Clocks -/

@[ext]
structure Wall where
  year : Int
  month : Int
  day : Int
  hour : Int
  minute : Int
  second : Int
  deriving DecidableEq

namespace Wall

/-- The clock shows a time that exists. -/
structure Valid (w : Wall) : Prop where
  month : 1 ≤ w.month ∧ w.month ≤ 12
  day : 1 ≤ w.day ∧ w.day ≤ monthLength w.year w.month
  hour : 0 ≤ w.hour ∧ w.hour ≤ 23
  minute : 0 ≤ w.minute ∧ w.minute ≤ 59
  second : 0 ≤ w.second ∧ w.second ≤ 59

def dayCount (w : Wall) : Int := dayNumber w.year w.month w.day

/-- The seconds since 1970. -/
def seconds (w : Wall) : Int := ((w.dayCount * 24 + w.hour) * 60 + w.minute) * 60 + w.second

def ofSeconds (t : Int) : Wall :=
  let n := t / 86400
  let y := yearOf n
  let m := monthOf y (n - yearStart y)
  { year := y
    month := m
    day := n - yearStart y - monthStart y m + 1
    hour := t / 3600 % 24
    minute := t / 60 % 60
    second := t % 60 }

/-- The fields, compared from the year down. -/
def fields (w : Wall) : Int ×ₗ Int ×ₗ Int ×ₗ Int ×ₗ Int ×ₗ Int :=
  toLex (w.year, toLex (w.month, toLex (w.day, toLex (w.hour, toLex (w.minute, w.second)))))

theorem fields_injective : Function.Injective fields := by
  intro v w h
  simp only [fields, toLex_inj, Prod.mk.injEq] at h
  obtain ⟨hy, hmo, hd, hh, hmi, hs⟩ := h
  exact Wall.ext hy hmo hd hh hmi hs

instance : LinearOrder Wall := LinearOrder.lift' fields fields_injective

theorem lt_iff {v w : Wall} : v < w ↔
    v.year < w.year ∨ v.year = w.year ∧ (v.month < w.month ∨ v.month = w.month ∧
      (v.day < w.day ∨ v.day = w.day ∧ (v.hour < w.hour ∨ v.hour = w.hour ∧
        (v.minute < w.minute ∨ v.minute = w.minute ∧ v.second < w.second)))) := by
  change v.fields < w.fields ↔ _
  simp [fields, Prod.Lex.toLex_lt_toLex]

theorem le_iff {v w : Wall} : v ≤ w ↔
    v.year < w.year ∨ v.year = w.year ∧ (v.month < w.month ∨ v.month = w.month ∧
      (v.day < w.day ∨ v.day = w.day ∧ (v.hour < w.hour ∨ v.hour = w.hour ∧
        (v.minute < w.minute ∨ v.minute = w.minute ∧ v.second ≤ w.second)))) := by
  rw [← not_lt, lt_iff]
  omega

theorem dayCount_lt {v w : Wall} (hv : v.Valid) (hw : w.Valid)
    (h : v.year < w.year ∨ v.year = w.year ∧ (v.month < w.month ∨ v.month = w.month ∧ v.day < w.day)) :
    v.dayCount < w.dayCount := by
  have hvm := monthStart_succ v.year hv.month
  have hvd := hv.day
  have hwd := hw.day
  unfold dayCount dayNumber
  rcases h with hyear | ⟨hyear, hmonth | ⟨hmonth, hday⟩⟩
  · have hstart := yearStart_mono (show v.year + 1 ≤ w.year by omega)
    have hend := monthStart_mono v.year (m := v.month + 1) (n := 13) (by have := hv.month; omega)
      (by have := hv.month; omega) (by omega)
    have hzero := monthStart_mono w.year (m := 1) (n := w.month) (by omega) hw.month.1
      (by have := hw.month; omega)
    rw [yearStart_succ, ← monthStart_end] at hstart
    rw [monthStart_one] at hzero
    omega
  · rw [hyear] at hvm hvd ⊢
    have hnext := monthStart_mono w.year (m := v.month + 1) (n := w.month)
      (by have := hv.month; omega) (by omega) (by have := hw.month; omega)
    omega
  · rw [hyear, hmonth]
    omega

theorem seconds_lt {v w : Wall} (hv : v.Valid) (hw : w.Valid) (h : v < w) :
    v.seconds < w.seconds := by
  have hvh := hv.hour
  have hvm := hv.minute
  have hvs := hv.second
  have hwh := hw.hour
  have hwm := hw.minute
  have hws := hw.second
  unfold seconds
  rcases lt_iff.mp h with hyear | ⟨hyear, hmonth | ⟨hmonth, hday | ⟨hday, htime⟩⟩⟩
  · have := dayCount_lt hv hw (Or.inl hyear)
    omega
  · have := dayCount_lt hv hw (Or.inr ⟨hyear, Or.inl hmonth⟩)
    omega
  · have := dayCount_lt hv hw (Or.inr ⟨hyear, Or.inr ⟨hmonth, hday⟩⟩)
    omega
  · have : v.dayCount = w.dayCount := by rw [dayCount, dayCount, hyear, hmonth, hday]
    omega

theorem seconds_lt_iff {v w : Wall} (hv : v.Valid) (hw : w.Valid) :
    v.seconds < w.seconds ↔ v < w := by
  refine ⟨fun h => ?_, seconds_lt hv hw⟩
  by_contra hle
  rcases (not_lt.mp hle).lt_or_eq with hlt | heq
  · have := seconds_lt hw hv hlt
    omega
  · rw [heq] at h
    omega

theorem seconds_le_iff {v w : Wall} (hv : v.Valid) (hw : w.Valid) :
    v.seconds ≤ w.seconds ↔ v ≤ w := by
  rw [← not_lt, ← not_lt, seconds_lt_iff hw hv]

theorem seconds_injective {v w : Wall} (hv : v.Valid) (hw : w.Valid) (h : v.seconds = w.seconds) :
    v = w := by
  rcases lt_trichotomy v w with hlt | heq | hgt
  · have := seconds_lt hv hw hlt
    omega
  · exact heq
  · have := seconds_lt hw hv hgt
    omega

theorem ofSeconds_valid (t : Int) : (ofSeconds t).Valid := by
  obtain ⟨hstart, hend⟩ := yearOf_spec (t / 86400)
  rw [yearStart_succ] at hend
  obtain ⟨hmonth, hfirst, hlast⟩ := monthOf_spec (y := yearOf (t / 86400))
    (r := t / 86400 - yearStart (yearOf (t / 86400))) (by omega) (by omega)
  rw [monthStart_succ _ hmonth] at hlast
  constructor <;> simp only [ofSeconds]
  · exact hmonth
  all_goals omega

theorem seconds_ofSeconds (t : Int) : (ofSeconds t).seconds = t := by
  unfold seconds dayCount dayNumber
  simp only [ofSeconds]
  omega

theorem ofSeconds_seconds {w : Wall} (h : w.Valid) : ofSeconds w.seconds = w :=
  seconds_injective (ofSeconds_valid _) h (seconds_ofSeconds _)

end Wall

end Calendar
