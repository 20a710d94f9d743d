import GlideMq.Proofs.CronZones
import Mathlib.Data.Set.Card

/-!
# Occurrences in a time zone

Each occurrence that the code finds is the next instant that the pattern specifies, across clocks that
are set forward or back. So the occurrences, one after the other, are those instants in order.
-/

namespace GlideMq

open Calendar Clocks

variable {z : Zone} {cron : CronPattern} {u v w : Wall} {s t n afterMs : Int} {pattern : String}

/-! ## The instants of a pattern -/

/-- A pattern with a wildcard time is due each time the clocks show the time, a fixed time is due when
they first get there. -/
def CronPattern.At (cron : CronPattern) (z : Zone) (v : Wall) (t : Int) : Prop :=
  if cron.wildcardTime then clock z.off t = v.seconds * 1000 else Fires z.off (v.seconds * 1000) t

def CronPattern.Specifies (cron : CronPattern) (z : Zone) (t : Int) : Prop :=
  ∃ v : Wall, v.Valid ∧ cron.Matches v ∧ cron.At z v t

/-- The clock that the search starts at. -/
def zoneStart (z : Zone) (afterMs : Int) : Wall := nextSecond (z.shown afterMs)

def zoneEndYear (z : Zone) (afterMs : Int) : Int := (zoneStart z afterMs).year + maxSearchYears

/-- The instants of the pattern up to the end of the tenth year. -/
def CronPattern.DueIn (cron : CronPattern) (z : Zone) (afterMs t : Int) : Prop :=
  afterMs < t ∧ ∃ v : Wall, v.Valid ∧ cron.Matches v ∧ v.year ≤ zoneEndYear z afterMs ∧ cron.At z v t

theorem at_wildcard (h : cron.wildcardTime = true) :
    cron.At z v t ↔ clock z.off t = v.seconds * 1000 := by
  unfold CronPattern.At
  rw [if_pos h]

theorem at_fixed (h : cron.wildcardTime = false) :
    cron.At z v t ↔ Fires z.off (v.seconds * 1000) t := by
  unfold CronPattern.At
  rw [if_neg (by rw [h]; exact Bool.false_ne_true)]

/-- When it is due the clocks have got to the time. -/
theorem CronPattern.At.reached (hz : z.Regular) (h : cron.At z v t) :
    v.seconds * 1000 ≤ clock z.off t := by
  cases hwild : cron.wildcardTime
  · exact (((at_fixed hwild).mp h).isLeast hz.steady).1
  · exact ((at_wildcard hwild).mp h).ge

theorem at_le (hz : z.Regular) (hahead : clock z.off afterMs < u.seconds * 1000)
    (hleast : IsLeast {t | afterMs < t ∧ cron.At z u t} s) (hle : u.seconds ≤ v.seconds)
    (hlater : afterMs < t) (h : cron.At z v t) : s ≤ t := by
  cases hwild : cron.wildcardTime
  · exact ((at_fixed hwild).mp hleast.1.2).mono hz.steady ((at_fixed hwild).mp h) (by omega)
  · by_contra hlt
    have hs := (at_wildcard hwild).mp hleast.1.2
    rw [at_wildcard hwild] at h
    have hdrop := drop hz.steady (not_le.mp hlt) (by omega)
    obtain ⟨r, hr, hshown, hsame, hback⟩ := shown_before hz.steady (not_le.mp hlt) (by omega)
    rcases lt_or_ge afterMs r with hnew | hold
    · have := hleast.2 ⟨hnew, (at_wildcard hwild).mpr (hshown.trans hs)⟩
      omega
    -- The clocks would have been set forward and back within hours.
    · have := hz.steady.between r t afterMs hold hlater.le (by omega)
      unfold clock at *
      omega

/-! ## The instants of a time -/

theorem find?_least {l : List Int} (hsorted : l.Pairwise (· ≤ ·)) (h : l.find? (afterMs < ·) = some t) :
    IsLeast {t | afterMs < t ∧ t ∈ l} t := by
  obtain ⟨hlater, before, rest, rfl, hbefore⟩ := List.find?_eq_some_iff_append.mp h
  rw [decide_eq_true_eq] at hlater
  refine ⟨⟨hlater, by simp⟩, ?_⟩
  rintro s ⟨hs, hmem⟩
  rw [List.pairwise_append, List.pairwise_cons] at hsorted
  rw [List.mem_append, List.mem_cons] at hmem
  rcases hmem with hmem | rfl | hmem
  · have hnot := hbefore s hmem
    simp [hs] at hnot
  · exact le_rfl
  · exact hsorted.2.1.1 s hmem

/-- The code has the instants at which the time is due at hand, in order. -/
theorem resolveInZone_eligible (hz : z.Regular) (hnaive : wallToNaiveUtc v = some (v.seconds * 1000))
    (hn : Roomy (v.seconds * 1000)) (afterMs : Int) :
    ∃ l : List Int, resolveInZone z cron afterMs v = .ok ((l.find? (afterMs < ·)).map some) ∧
      l.Pairwise (· ≤ ·) ∧ (∀ t, t ∈ l ↔ cron.At z v t) ∧
      (l = [] → cron.wildcardTime = true ∧ ∀ t, clock z.off t ≠ v.seconds * 1000) := by
  obtain ⟨l, hl, hsorted, hmem⟩ := tzWallToInstants_spec hz hnaive hn
  cases hwild : cron.wildcardTime
  · rcases l with _ | ⟨first, rest⟩
    · have hskip (t : Int) : clock z.off t ≠ v.seconds * 1000 := fun heq => by
        have := (hmem t).mpr heq
        simp at this
      obtain ⟨gapEnd, hgap, hends⟩ := tzGapEnd_spec hz hnaive hn hskip
      have hfires : Fires z.off (v.seconds * 1000) gapEnd := Or.inr ⟨hskip, hends⟩
      refine ⟨[gapEnd], ?_, List.pairwise_singleton _ _, ?_, by simp⟩
      · simp only [resolveInZone, hl, hgap, hwild, bind, Except.bind, pure, Except.pure]
        rfl
      · intro t
        rw [at_fixed hwild, List.mem_singleton]
        exact ⟨fun heq => heq ▸ hfires, fun h => h.unique hz.steady hfires⟩
    · have hfires : Fires z.off (v.seconds * 1000) first := by
        refine Or.inl ⟨(hmem first).mp (List.mem_cons_self ..), ?_⟩
        intro t ht
        rcases List.mem_cons.mp ((hmem t).mpr ht) with rfl | hrest
        · exact le_rfl
        · exact (List.pairwise_cons.mp hsorted).1 t hrest
      refine ⟨[first], ?_, List.pairwise_singleton _ _, ?_, by simp⟩
      · simp only [resolveInZone, hl, hwild, bind, Except.bind, pure, Except.pure]
        rfl
      · intro t
        rw [at_fixed hwild, List.mem_singleton]
        exact ⟨fun heq => heq ▸ hfires, fun h => h.unique hz.steady hfires⟩
  · refine ⟨l, ?_, hsorted, ?_, ?_⟩
    · rcases l with _ | ⟨first, rest⟩
      · simp only [resolveInZone, hl, hwild, bind, Except.bind, pure, Except.pure]
        rfl
      · simp only [resolveInZone, hl, hwild, bind, Except.bind, pure, Except.pure]
        rfl
    · intro t
      rw [at_wildcard hwild]
      exact hmem t
    · rintro rfl
      refine ⟨rfl, fun t heq => ?_⟩
      have := (hmem t).mpr heq
      simp at this

theorem resolveInZone_least (hz : z.Regular) (hnaive : wallToNaiveUtc v = some (v.seconds * 1000))
    (hn : Roomy (v.seconds * 1000)) (hleast : IsLeast {t | afterMs < t ∧ cron.At z v t} t) :
    resolveInZone z cron afterMs v = .ok (some (some t)) := by
  obtain ⟨l, hl, hsorted, hmem, -⟩ := resolveInZone_eligible hz hnaive hn afterMs
  cases hfind : l.find? (afterMs < ·) with
  | none =>
    have := List.find?_eq_none.mp hfind t ((hmem t).mpr hleast.1.2)
    simp only [decide_eq_true_eq] at this
    exact absurd hleast.1.1 this
  | some s =>
    have hs := find?_least hsorted hfind
    simp only [hmem] at hs
    rw [hl, hfind, hs.unique hleast]
    rfl

theorem resolveInZone_none (hz : z.Regular) (hnaive : wallToNaiveUtc v = some (v.seconds * 1000))
    (hn : Roomy (v.seconds * 1000)) (hnone : ∀ t, cron.At z v t → t ≤ afterMs) :
    resolveInZone z cron afterMs v = .ok none ∧
      ((∃ t ≤ afterMs, cron.At z v t) ∨
        cron.wildcardTime = true ∧ ∀ t, clock z.off t ≠ v.seconds * 1000) := by
  obtain ⟨l, hl, -, hmem, hempty⟩ := resolveInZone_eligible hz hnaive hn afterMs
  have hfind : l.find? (afterMs < ·) = none := by
    rw [List.find?_eq_none]
    intro t ht
    have := hnone t ((hmem t).mp ht)
    simpa using this
  refine ⟨by rw [hl, hfind]; rfl, ?_⟩
  rcases l with _ | ⟨first, rest⟩
  · exact Or.inr (hempty rfl)
  · have hat := (hmem first).mp (List.mem_cons_self ..)
    exact Or.inl ⟨first, hnone first hat, hat⟩

/-! ## Clocks in range -/

theorem shown_valid (z : Zone) (t : Int) : (z.shown t).Valid := Wall.ofSeconds_valid _

theorem shown_eq (hv : v.Valid) (h : clock z.off t = v.seconds * 1000) : z.shown t = v := by
  apply Wall.seconds_injective (shown_valid z t) hv
  have := z.shown_seconds t
  omega

theorem lt_of_ahead (hv : v.Valid) (h : clock z.off afterMs < v.seconds * 1000) :
    zoneStart z afterMs ≤ v := by
  apply nextSecond_le (shown_valid z afterMs) hv
  rw [← Wall.seconds_lt_iff (shown_valid z afterMs) hv]
  have := z.shown_seconds afterMs
  omega

theorem ahead_of_start (hv : v.Valid) (h : zoneStart z afterMs ≤ v) :
    clock z.off afterMs < v.seconds * 1000 := by
  have hseconds := (Wall.seconds_le_iff (Wall.ofSeconds_valid _) hv).mpr h
  rw [Wall.seconds_ofSeconds] at hseconds
  have := z.shown_seconds afterMs
  omega

theorem roomy_dated (hv : v.Valid) (hn : Roomy (v.seconds * 1000)) : Dated v.year v.month := by
  apply dated_of_plain _ hv
  unfold Roomy at hn
  unfold Plain
  omega

theorem cronWallMatches_iff (hv : v.Valid) (hdated : Dated v.year v.month) :
    cronWallMatches cron v = true ↔ cron.Matches v := by
  unfold cronWallMatches
  rw [daysInMonth_eq hdated hv.month, weekday_eq hdated hv.month hv.day]
  simp only [Bool.and_eq_true, decide_eq_true_eq, cronDayMatches_iff cron hv.day]
  constructor
  · rintro ⟨⟨⟨⟨hmonth, hday⟩, hhour⟩, hminute⟩, hsecond⟩
    exact ⟨hsecond, hminute, hhour, hday, hmonth⟩
  · intro h
    exact ⟨⟨⟨⟨h.month, h.day⟩, h.hour⟩, h.minute⟩, h.second⟩

theorem wallPlusOneSecond_eq (hv : v.Valid) (hn : Roomy (v.seconds * 1000)) :
    wallPlusOneSecond v = some (nextSecond v) := by
  have hclip : timeClip (v.seconds * 1000 + 1000) = some (v.seconds * 1000 + 1000) := by
    apply timeClip_of_plain
    unfold Roomy at hn
    unfold Plain
    omega
  have hnext : (v.seconds * 1000 + 1000) / 1000 = v.seconds + 1 := by omega
  unfold wallPlusOneSecond utcToWall
  rw [wallToNaiveUtc_eq hv (roomy_dated hv hn), Option.map_some, Option.bind_some, hclip,
    Option.map_some, hnext]
  rfl

/-! ## Clocks that are set back -/

theorem scanInstants_spec (cron : CronPattern) {stepMs : Int} (count : Nat) {first : Int}
    (hshown : ∀ k : Nat, k < count → utcToTzParts z (some (first + k * stepMs)) =
      .ok (z.shown (first + k * stepMs))) :
    ∃ r, scanInstants z cron stepMs count first = .ok r ∧
      (∀ t, r = some t → ∃ k : Nat, k < count ∧ t = first + k * stepMs ∧
        cronWallMatches cron (z.shown t) ∧
        ∀ j : Nat, j < k → ¬ cronWallMatches cron (z.shown (first + j * stepMs))) ∧
      (r = none → ∀ k : Nat, k < count → ¬ cronWallMatches cron (z.shown (first + k * stepMs))) := by
  induction count generalizing first with
  | zero => exact ⟨none, rfl, by simp, by simp⟩
  | succ count ih =>
    have hfirst := hshown 0 (by omega)
    simp only [Nat.cast_zero, zero_mul, add_zero] at hfirst
    have hshift (k : Nat) : first + stepMs + k * stepMs = first + ((k + 1 : Nat) : Int) * stepMs := by
      push_cast
      ring
    rw [scanInstants]
    simp only [hfirst, bind, Except.bind]
    by_cases hmatch : cronWallMatches cron (z.shown first) = true
    · refine ⟨some first, by rw [if_pos hmatch]; rfl, ?_, by simp⟩
      rintro t ht
      obtain rfl := Option.some.inj ht
      exact ⟨0, by omega, by simp, hmatch, by simp⟩
    · obtain ⟨r, hr, hsome, hnone⟩ := @ih (first + stepMs) fun k hk => by
        rw [hshift]
        exact hshown (k + 1) (by omega)
      refine ⟨r, by rw [if_neg hmatch, hr], ?_, ?_⟩
      · intro t ht
        obtain ⟨k, hk, rfl, hat, hbefore⟩ := hsome t ht
        refine ⟨k + 1, by omega, hshift k, hat, ?_⟩
        rintro (_ | j) hj
        · simpa using hmatch
        · rw [← hshift]
          exact hbefore j (by omega)
      · rintro hempty (_ | k) hk
        · simpa using hmatch
        · rw [← hshift]
          exact hnone hempty k (by omega)

theorem set_back (hz : z.Regular) (hlater : afterMs < t) (hle : clock z.off t ≤ clock z.off afterMs) :
    z.off (afterMs + 10800000) = z.off t ∧ t ≤ afterMs + (z.off afterMs - z.off t) := by
  -- The clocks are set back in the next hours, if they have to show an earlier time again.
  have hdrop := drop hz.steady hlater hle
  have hbetween := hz.steady.between afterMs (afterMs + 10800000) t hlater.le (by omega) (by omega)
  omega

def scanStep (cron : CronPattern) : Int := if cron.hasSeconds then 1000 else minuteMs

theorem scanStep_cases (cron : CronPattern) :
    cron.hasSeconds = true ∧ scanStep cron = 1000 ∨ cron.hasSeconds = false ∧ scanStep cron = 60000 := by
  cases h : cron.hasSeconds
  · exact Or.inr ⟨rfl, by rw [scanStep, h]; rfl⟩
  · exact Or.inl ⟨rfl, by rw [scanStep, h]; rfl⟩

theorem scanStep_dvd (hmatches : cron.Matches v) (h : clock z.off t = v.seconds * 1000) :
    t % scanStep cron = 0 := by
  have hwhole := z.off_whole t
  unfold clock at h
  rcases scanStep_cases cron with ⟨-, hstep⟩ | ⟨hnone, hstep⟩
  · rw [hstep]
    omega
  · have hsecond := hmatches.second
    change v.second ∈ cron.second.sorted at hsecond
    rw [cron.wholeMinutes hnone, List.mem_singleton] at hsecond
    rw [hstep]
    unfold Wall.seconds at h
    omega

theorem scan_matches (cron : CronPattern) (hz : z.Regular) (hn : Roomy (clock z.off afterMs))
    (hlater : afterMs < t) (hsoon : t ≤ afterMs + 10800000) (hwhole : t % 1000 = 0) :
    utcToTzParts z (some t) = .ok (z.shown t) ∧
      (cronWallMatches cron (z.shown t) = true ↔
        ∃ v : Wall, v.Valid ∧ cron.Matches v ∧ clock z.off t = v.seconds * 1000) := by
  have hoff := hz.off_bounds afterMs
  have hoff' := hz.off_bounds t
  have hclock : Plain (clock z.off t) := by
    unfold Roomy clock at hn
    unfold Plain clock
    omega
  have hshown := z.shown_seconds t
  have hwholeOff := z.off_whole t
  have heq : clock z.off t = (z.shown t).seconds * 1000 := by
    unfold clock at *
    omega
  have hdated : Dated (z.shown t).year (z.shown t).month := by
    apply dated_of_plain _ (shown_valid z t)
    rwa [← heq]
  refine ⟨utcToTzParts_eq ?_ hclock, ?_⟩
  · unfold Roomy clock at hn
    unfold Plain
    omega
  · rw [cronWallMatches_iff (shown_valid z t) hdated]
    constructor
    · intro hmatches
      exact ⟨z.shown t, shown_valid z t, hmatches, heq⟩
    · rintro ⟨v, hv, hmatches, hclock⟩
      rwa [shown_eq hv hclock]

theorem scanRepeat_eq (hz : z.Regular) (hn : Roomy (clock z.off afterMs)) :
    scanRepeat z cron afterMs =
      if z.off (afterMs + 10800000) < z.off afterMs then
        scanInstants z cron (scanStep cron)
          ((afterMs + (z.off afterMs - z.off (afterMs + 10800000)) -
            (afterMs / scanStep cron * scanStep cron + scanStep cron)) / scanStep cron + 1).toNat
          (afterMs / scanStep cron * scanStep cron + scanStep cron)
      else .ok none := by
  have hoff := hz.off_bounds afterMs
  have hinner {d : Int} (hd : 0 ≤ d ∧ d ≤ 10800000) : Inner (afterMs + d) := by
    unfold Roomy clock at hn
    unfold Inner
    omega
  have hnow := tzOffsetMs_inner hz (hinner (d := 0) (by omega))
  have hlater := tzOffsetMs_inner hz (hinner (d := 10800000) (by omega))
  rw [add_zero] at hnow
  have hwindow : dstWindowMs = 10800000 := by decide
  unfold scanRepeat
  rw [hnow, hwindow, hlater]
  rfl

/-- The scan comes to the instants of its grid, in order. -/
theorem scan_grid (afterMs back t : Int) {step : Int} (hstep : step = 1000 ∨ step = 60000) :
    (∃ k : Nat, k < ((afterMs + back - (afterMs / step * step + step)) / step + 1).toNat ∧
      t = afterMs / step * step + step + k * step) ↔
      t % step = 0 ∧ afterMs < t ∧ t ≤ afterMs + back := by
  constructor
  · rintro ⟨k, hk, rfl⟩
    rcases hstep with rfl | rfl <;> omega
  · rintro ⟨hwhole, hlater, hlast⟩
    refine ⟨((t - (afterMs / step * step + step)) / step).toNat, ?_, ?_⟩ <;>
      rcases hstep with rfl | rfl <;> omega

theorem specifies_wildcard (hwild : cron.wildcardTime = true) : cron.Specifies z t ↔
    ∃ v : Wall, v.Valid ∧ cron.Matches v ∧ clock z.off t = v.seconds * 1000 := by
  unfold CronPattern.Specifies
  simp only [at_wildcard hwild]

theorem scanRepeat_spec (hz : z.Regular) (hn : Roomy (clock z.off afterMs))
    (hwild : cron.wildcardTime = true) :
    (∃ t, scanRepeat z cron afterMs = .ok (some t) ∧ t ≤ afterMs + 10800000 ∧
      IsLeast {t | afterMs < t ∧ cron.Specifies z t} t) ∨
    scanRepeat z cron afterMs = .ok none ∧ ∀ v t, v.Valid → cron.Matches v → cron.At z v t →
      afterMs < t → clock z.off afterMs < v.seconds * 1000 := by
  rw [scanRepeat_eq hz hn]
  have hnear := hz.steady.near afterMs (afterMs + 10800000) (by omega) (by omega)
  by_cases hback : z.off (afterMs + 10800000) < z.off afterMs
  · have hstep : scanStep cron = 1000 ∨ scanStep cron = 60000 := by
      rcases scanStep_cases cron with ⟨-, h⟩ | ⟨-, h⟩
      · exact Or.inl h
      · exact Or.inr h
    have hgrid (t : Int) := scan_grid afterMs (z.off afterMs - z.off (afterMs + 10800000)) t
      hstep
    have hdue {t : Int} (ht : cron.Specifies z t) : t % scanStep cron = 0 := by
      obtain ⟨v, -, hmatches, hclock⟩ := (specifies_wildcard hwild).mp ht
      exact scanStep_dvd hmatches hclock
    have hseconds {t : Int} : t % scanStep cron = 0 → t % 1000 = 0 := by
      rcases hstep with h | h <;> rw [h] <;> omega
    rw [if_pos hback]
    generalize ((afterMs + (z.off afterMs - z.off (afterMs + 10800000)) -
      (afterMs / scanStep cron * scanStep cron + scanStep cron)) / scanStep cron + 1).toNat = count at *
    generalize afterMs / scanStep cron * scanStep cron + scanStep cron = first at *
    have hwithin {k : Nat} (hk : k < count) := (hgrid _).mp ⟨k, hk, rfl⟩
    have hmatch {k : Nat} (hk : k < count) := by
      obtain ⟨hwhole, hlater, hlast⟩ := hwithin hk
      exact scan_matches cron hz hn hlater (by omega) (hseconds hwhole)
    simp only [← specifies_wildcard hwild] at hmatch
    obtain ⟨r, hr, hsome, hnone⟩ := scanInstants_spec cron count fun k hk => (hmatch hk).1
    rw [hr]
    rcases r with _ | t
    · refine Or.inr ⟨rfl, ?_⟩
      intro v t hv hmatches hat hlater
      have hspecifies : cron.Specifies z t := ⟨v, hv, hmatches, hat⟩
      rw [at_wildcard hwild] at hat
      by_contra hle
      have hset := set_back hz hlater (by omega)
      obtain ⟨k, hk, rfl⟩ := (hgrid t).mpr ⟨hdue hspecifies, hlater, by omega⟩
      exact hnone rfl k hk ((hmatch hk).2.mpr hspecifies)
    · obtain ⟨k, hk, rfl, hat, hbefore⟩ := hsome t rfl
      obtain ⟨-, hlater, hlast⟩ := hwithin hk
      refine Or.inl ⟨_, rfl, by omega, ⟨hlater, (hmatch hk).2.mp hat⟩, ?_⟩
      rintro s ⟨hs, hspecifies⟩
      by_contra hlt
      obtain ⟨j, hj, rfl⟩ := (hgrid s).mpr ⟨hdue hspecifies, hs, by omega⟩
      refine hbefore j ?_ ((hmatch hj).2.mpr hspecifies)
      rcases hstep with h | h <;> rw [h] at hlt <;> omega
  · refine Or.inr ⟨by rw [if_neg hback], ?_⟩
    intro v t hv hmatches hat hlater
    rw [at_wildcard hwild] at hat
    by_contra hle
    have hset := set_back hz hlater (by omega)
    have hdrop := drop hz.steady hlater (by omega)
    omega

/-! ## The walk -/

/-- The clocks never show the minute. -/
def Zone.Jumps (z : Zone) (minute : Int) : Prop := ∀ t, clock z.off t / 60000 ≠ minute

def jumpedMinutes (z : Zone) (afterMs : Int) : Set Int :=
  {m | clock z.off afterMs / 60000 ≤ m ∧ m * 60 < (monthBegin (zoneEndYear z afterMs + 1) 1).seconds ∧
    z.Jumps m}

/-- The search stays in the years from 100 that `Date` reads as they are, and ends before its last
year or finds an instant before. It has steps for the minutes that the clocks of the zone jump over. -/
structure ZoneInRange (cron : CronPattern) (z : Zone) (afterMs : Int) : Prop where
  first : 101 ≤ (z.shown afterMs).year
  last : zoneEndYear z afterMs < 275759 ∨
    ∃ t, cron.DueIn z afterMs t ∧ clock z.off t ≤ 8639970000000000
  jumps : cron.wildcardTime = true → (jumpedMinutes z afterMs).ncard ≤ 2500

theorem year_of_clock {y : Int} : y ≤ (z.shown t).year ↔ (monthBegin y 1).seconds * 1000 ≤ clock z.off t := by
  have h : y ≤ (z.shown t).year ↔ _ := year_of_seconds
  rw [h]
  unfold clock Zone.off
  omega

theorem shown_lt_zoneStart (z : Zone) (afterMs : Int) : z.shown afterMs < zoneStart z afterMs :=
  lt_nextSecond (shown_valid z afterMs)

theorem ZoneInRange.roomy (hz : z.Regular) (h : ZoneInRange cron z afterMs) :
    Roomy (clock z.off afterMs) := by
  have hlow := year_of_clock.mp h.first
  have hfirst : (monthBegin 101 1).seconds = -58979923200 := by decide
  refine ⟨by omega, ?_⟩
  rcases h.last with hlast | ⟨t, ⟨hlater, -⟩, hlast⟩
  · have hle := year_le (shown_lt_zoneStart z afterMs).le
    have hnot : ¬ 275759 ≤ (z.shown afterMs).year := by
      unfold zoneEndYear maxSearchYears at hlast
      omega
    rw [year_of_clock] at hnot
    have hend : (monthBegin 275759 1).seconds = 8639946345600 := by decide
    omega
  · have := clock_le hz.steady hlater.le
    omega

theorem ZoneInRange.roomy_of_walked (h : ZoneInRange cron z afterMs) (hv : v.Valid)
    (hle : zoneStart z afterMs ≤ v) (hlast : v.seconds * 1000 ≤ 8639975000000000) :
    Roomy (v.seconds * 1000) := by
  have hahead := ahead_of_start hv hle
  have hlow := year_of_clock.mp h.first
  have hfirst : (monthBegin 101 1).seconds = -58979923200 := by decide
  exact ⟨by omega, hlast⟩

theorem seconds_of_year (hv : v.Valid) (hyear : v.year < 275759) :
    v.seconds * 1000 ≤ 8639975000000000 := by
  have hlt : v < monthBegin 275759 1 := by
    rw [Wall.lt_iff]
    exact Or.inl hyear
  have := Wall.seconds_lt hv (monthBegin_valid _ (by omega)) hlt
  have hend : (monthBegin 275759 1).seconds = 8639946345600 := by decide
  omega

theorem minuteOf_eq (hv : v.Valid) : minuteOf v = .ofSeconds (v.seconds / 60 * 60) := by
  have hsecond := hv.second
  have hminute : (minuteOf v).Valid := ⟨hv.month, hv.day, hv.hour, hv.minute, by simp [minuteOf]⟩
  rw [← Wall.ofSeconds_seconds hminute]
  congr 1
  unfold minuteOf Wall.seconds Wall.dayCount
  simp only
  omega

/-- The times that the walk passes without an instant are in few minutes. -/
theorem exists_declined (hz : z.Regular) (h : ZoneInRange cron z afterMs) :
    ∃ declined : Finset Wall, declined.card ≤ 2700 ∧ ∀ u : Wall, u.Valid →
      zoneStart z afterMs ≤ u → u.year ≤ zoneEndYear z afterMs →
      ((∃ t ≤ afterMs, cron.At z u t) ∨
        cron.wildcardTime = true ∧ ∀ t, clock z.off t ≠ u.seconds * 1000) →
      minuteOf u ∈ declined := by
  classical
  have hfinite : (jumpedMinutes z afterMs).Finite := by
    apply (Set.finite_Icc (clock z.off afterMs / 60000)
      ((monthBegin (zoneEndYear z afterMs + 1) 1).seconds / 60)).subset
    rintro m ⟨hfirst, hlast, -⟩
    exact ⟨hfirst, by omega⟩
  let again := Finset.Icc (clock z.off afterMs / 60000) (clock z.off afterMs / 60000 + 180)
  let jumped := if cron.wildcardTime then hfinite.toFinset else ∅
  refine ⟨(again ∪ jumped).image fun m => .ofSeconds (m * 60), ?_, ?_⟩
  · have hagain : again.card = 181 := by
      simp only [again, Int.card_Icc]
      omega
    have hjumped : jumped.card ≤ 2500 := by
      simp only [jumped]
      split
      · rename_i hwild
        rw [← Set.ncard_eq_toFinset_card _ hfinite]
        exact h.jumps hwild
      · simp
    have := Finset.card_union_le again jumped
    exact Finset.card_image_le.trans (by omega)
  · intro u hu hle hyear hpassed
    have hahead := ahead_of_start hu hle
    rw [minuteOf_eq hu]
    refine Finset.mem_image.mpr ⟨u.seconds / 60, Finset.mem_union.mpr ?_, rfl⟩
    rcases hpassed with ⟨t, ht, hat⟩ | ⟨hwild, hskip⟩
    · refine Or.inl (Finset.mem_Icc.mpr ?_)
      have := hat.reached hz
      have := clock_le hz.steady ht
      omega
    · right
      simp only [jumped, if_pos hwild, Set.Finite.mem_toFinset]
      refine ⟨by omega, ?_, ?_⟩
      · have hlt : u < monthBegin (zoneEndYear z afterMs + 1) 1 := by
          rw [Wall.lt_iff]
          left
          simp only [monthBegin]
          omega
        have := Wall.seconds_lt hu (monthBegin_valid _ (by omega)) hlt
        omega
      · intro t ht
        exact hskip _ (shows_of_minute (t := t) (by omega))

theorem ZoneInRange.zoneStart_year (h : ZoneInRange cron z afterMs) :
    101 ≤ (zoneStart z afterMs).year :=
  h.first.trans (year_le (shown_lt_zoneStart z afterMs).le)

theorem zoneStart_walked (z : Zone) (afterMs : Int) :
    Walked (zoneStart z afterMs) ∧ (zoneStart z afterMs).day ≤ 31 := nextSecond_walked _

theorem declined_of_passed (hz : z.Regular) (hu : u.Valid) (hn : Roomy (u.seconds * 1000))
    (hnone : ∀ t, cron.At z u t → t ≤ afterMs) : Declined (resolveInZone z cron afterMs) u := by
  -- The walk goes on from a time that has no instant to come.
  have hdated := roomy_dated hu hn
  refine ⟨(resolveInZone_none hz (wallToNaiveUtc_eq hu hdated) hn hnone).1, hu,
    wallPlusOneSecond_eq hu hn, ?_⟩
  rw [daysInMonth_eq hdated hu.month]
  exact Option.some_ne_none _

/-- The search finds the first time with an instant to come. -/
theorem searchFrom_zone (hz : z.Regular) (hrange : ZoneInRange cron z afterMs) (hv : v.Valid)
    (hmatches : cron.Matches v) (hyear : v.year ≤ zoneEndYear z afterMs)
    (hstart : zoneStart z afterMs ≤ v) (hleast : IsLeast {t | afterMs < t ∧ cron.At z v t} t)
    (hn : Roomy (v.seconds * 1000))
    (hpassed : ∀ u : Wall, u.Valid → cron.Matches u → zoneStart z afterMs ≤ u → u < v →
      ∀ t, cron.At z u t → t ≤ afterMs) :
    searchFrom cron (zoneEndYear z afterMs) (resolveInZone z cron afterMs) maxSearchSteps
      (zoneStart z afterMs) = .ok (some (some t)) := by
  have hdated := roomy_dated hv hn
  have hfirst := hrange.zoneStart_year
  obtain ⟨declined, hcard, hdeclined⟩ := exists_declined hz hrange
  obtain ⟨hwalked, hday⟩ := zoneStart_walked z afterMs
  have hvday := hv.day
  have hlength := monthLength_bounds v.year v.month
  have hreach : Reaches cron (zoneStart z afterMs) v := by
    refine reaches_of_dated (by omega) hstart ?_
    unfold Dated at hdated
    omega
  refine searchFrom_found declined ((taken_iff hdated).mpr ⟨hv, hmatches⟩) (by omega)
    hyear (resolveInZone_least hz (wallToNaiveUtc_eq hv hdated) hn hleast) ?_ le_rfl hwalked
    (hday.trans (by norm_num)) hreach (start_cost hwalked hday hcard)
  intro u hu hle hlt
  have hudated : Dated u.year u.month := by
    have := year_le hle
    rw [Wall.lt_iff] at hlt
    unfold Dated at *
    omega
  obtain ⟨huvalid, humatches⟩ := (taken_iff hudated).mp hu
  have hroomy : Roomy (u.seconds * 1000) := by
    have := Wall.seconds_lt huvalid hv hlt
    have := hn.2
    exact hrange.roomy_of_walked huvalid hle (by omega)
  have hnone := hpassed u huvalid humatches hle hlt
  refine ⟨declined_of_passed hz huvalid hroomy hnone, ?_, hv⟩
  exact hdeclined u huvalid hle ((year_le hlt.le).trans hyear)
    (resolveInZone_none hz (wallToNaiveUtc_eq huvalid hudated) hroomy hnone).2

theorem searchFrom_zone_none (hz : z.Regular) (hrange : ZoneInRange cron z afterMs)
    (hlast : zoneEndYear z afterMs < 275759)
    (hpassed : ∀ u : Wall, u.Valid → cron.Matches u → zoneStart z afterMs ≤ u →
      u.year ≤ zoneEndYear z afterMs → ∀ t, cron.At z u t → t ≤ afterMs) :
    searchFrom cron (zoneEndYear z afterMs) (resolveInZone z cron afterMs) maxSearchSteps
      (zoneStart z afterMs) = .ok none := by
  have hfirst := hrange.zoneStart_year
  refine searchFrom_none ?_ (zoneStart_walked z afterMs).1 _
  intro u hu hreach hyear
  have hudated : Dated u.year u.month := by
    have := year_le hreach.1
    unfold Dated
    omega
  obtain ⟨huvalid, humatches⟩ := (taken_iff hudated).mp hu
  have hroomy := hrange.roomy_of_walked huvalid hreach.1 (seconds_of_year huvalid (by omega))
  exact declined_of_passed hz huvalid hroomy (hpassed u huvalid humatches hreach.1 hyear)

/-! ## One occurrence -/

theorem zone_scanned (hparse : parseCronPattern pattern = .ok cron) (hwild : cron.wildcardTime = true)
    (hscan : scanRepeat z cron afterMs = .ok (some t)) :
    nextCronOccurrence pattern afterMs (some z) = .ok (some t) := by
  simp only [nextCronOccurrence, nextCronOccurrenceTz, hparse, hwild, hscan, bind, Except.bind]
  rfl

theorem zone_walked (hz : z.Regular) (hrange : ZoneInRange cron z afterMs)
    (hparse : parseCronPattern pattern = .ok cron)
    (hscan : cron.wildcardTime = true → scanRepeat z cron afterMs = .ok none) :
    nextCronOccurrence pattern afterMs (some z) =
      searchCronWall cron (some (zoneStart z afterMs)) pattern (resolveInZone z cron afterMs) := by
  have hroomy := hrange.roomy hz
  have hoff := hz.off_bounds afterMs
  have hshown : utcToTzParts z (some afterMs) = .ok (z.shown afterMs) := by
    apply utcToTzParts_eq
    · unfold Roomy clock at hroomy
      unfold Plain
      omega
    · unfold Roomy at hroomy
      unfold Plain
      omega
  have hnext : wallPlusOneSecond (z.shown afterMs) = some (zoneStart z afterMs) := by
    apply wallPlusOneSecond_eq (shown_valid z afterMs)
    rw [z.shown_seconds]
    have hlow := year_of_clock.mp hrange.first
    have hfirst : (monthBegin 101 1).seconds = -58979923200 := by decide
    exact ⟨by omega, by have := hroomy.2; omega⟩
  cases hwild : cron.wildcardTime
  · simp only [nextCronOccurrence, nextCronOccurrenceTz, hparse, hwild, bind, Except.bind, pure,
      Except.pure, hshown, hnext]
    rfl
  · simp only [nextCronOccurrence, nextCronOccurrenceTz, hparse, hwild, hscan hwild, bind, Except.bind,
      hshown, hnext]
    rfl

theorem yearBegin_seconds (y : Int) : (monthBegin y 1).seconds = yearStart y * 86400 := by
  unfold monthBegin Wall.seconds Wall.dayCount dayNumber
  simp only [monthStart_one]
  omega

theorem year_soon (hsoon : clock z.off t ≤ clock z.off afterMs + 86400000) :
    (z.shown t).year ≤ (z.shown afterMs).year + 1 := by
  by_contra hlt
  have hlate := year_of_clock.mp (show (z.shown afterMs).year + 1 + 1 ≤ (z.shown t).year by omega)
  have hearly := year_of_clock.not.mp
    (show ¬ (z.shown afterMs).year + 1 ≤ (z.shown afterMs).year by omega)
  have hlength := yearLength_cases ((z.shown afterMs).year + 1)
  rw [yearBegin_seconds] at hlate hearly
  rw [yearStart_succ] at hlate
  omega

/-- A pattern that is due after the instant is due at a time that the clocks have not got to, but for
clocks that are set back. -/
theorem ahead_fixed (hz : z.Regular) (hwild : cron.wildcardTime = false) (hat : cron.At z v t)
    (hlater : afterMs < t) : clock z.off afterMs < v.seconds * 1000 := by
  by_contra hle
  have := (((at_fixed hwild).mp hat).isLeast hz.steady).2 (not_lt.mp hle)
  omega

theorem exists_first_due (hz : z.Regular)
    (hahead : ∀ v t, v.Valid → cron.Matches v → cron.At z v t → afterMs < t →
      clock z.off afterMs < v.seconds * 1000)
    (hdue : cron.DueIn z afterMs s) :
    ∃ v t, v.Valid ∧ cron.Matches v ∧ v.year ≤ zoneEndYear z afterMs ∧ zoneStart z afterMs ≤ v ∧
      IsLeast {t | afterMs < t ∧ cron.At z v t} t ∧ IsLeast {t | cron.DueIn z afterMs t} t ∧
      v.seconds * 1000 ≤ clock z.off s ∧
      ∀ u : Wall, u.Valid → cron.Matches u → zoneStart z afterMs ≤ u → u < v →
        ∀ t, cron.At z u t → t ≤ afterMs := by
  obtain ⟨hlater, w, hw, hwmatches, hwyear, hwat⟩ := hdue
  obtain ⟨first, ⟨v, hv, hmatches, hyear, rfl, r, hr, hat⟩, hleast⟩ := Int.exists_least_of_bdd
    (P := fun x => ∃ v : Wall, v.Valid ∧ cron.Matches v ∧ v.year ≤ zoneEndYear z afterMs ∧
      v.seconds = x ∧ ∃ t, afterMs < t ∧ cron.At z v t)
    ⟨clock z.off afterMs / 1000, by
      rintro x ⟨v, hv, hmatches, -, rfl, t, ht, hat⟩
      have := hahead v t hv hmatches hat ht
      omega⟩
    ⟨w.seconds, w, hw, hwmatches, hwyear, rfl, s, hlater, hwat⟩
  obtain ⟨t, ⟨ht, hat⟩, htleast⟩ := Int.exists_least_of_bdd
    (P := fun t => afterMs < t ∧ cron.At z v t) ⟨afterMs, fun t ht => ht.1.le⟩ ⟨r, hr, hat⟩
  have hvleast : IsLeast {t | afterMs < t ∧ cron.At z v t} t := ⟨⟨ht, hat⟩, fun s hs => htleast s hs⟩
  have hstart := lt_of_ahead hv (hahead v t hv hmatches hat ht)
  refine ⟨v, t, hv, hmatches, hyear, hstart, hvleast, ⟨⟨ht, v, hv, hmatches, hyear, hat⟩, ?_⟩, ?_, ?_⟩
  · rintro s ⟨hs, u, hu, humatches, huyear, huat⟩
    exact at_le hz (hahead v t hv hmatches hat ht) hvleast
      (hleast _ ⟨u, hu, humatches, huyear, rfl, s, hs, huat⟩) hs huat
  · have := hleast _ ⟨w, hw, hwmatches, hwyear, rfl, s, hlater, hwat⟩
    have := hwat.reached hz
    omega
  · intro u hu humatches hle hlt x hx
    by_contra hnew
    have := hleast _ ⟨u, hu, humatches, (year_le hlt.le).trans hyear, rfl, x, not_le.mp hnew, hx⟩
    have := Wall.seconds_lt hu hv hlt
    omega

/-- The code returns the first instant of the pattern, or says that there is none. -/
theorem zone_answers (hz : z.Regular) (hparse : parseCronPattern pattern = .ok cron)
    (hrange : ZoneInRange cron z afterMs) :
    Answers pattern {t | cron.DueIn z afterMs t} (nextCronOccurrence pattern afterMs (some z)) := by
  have hroomy := hrange.roomy hz
  by_cases hscanned : ∃ t, cron.wildcardTime = true ∧ scanRepeat z cron afterMs = .ok (some t)
  · obtain ⟨t, hwild, hscan⟩ := hscanned
    left
    rcases scanRepeat_spec hz hroomy hwild with ⟨s, hs, hsoon, hleast⟩ | ⟨hnone, -⟩
    · refine ⟨s, ⟨⟨hleast.1.1, ?_⟩, ?_⟩, zone_scanned hparse hwild hs⟩
      · obtain ⟨v, hv, hmatches, hat⟩ := hleast.1.2
        refine ⟨v, hv, hmatches, ?_, hat⟩
        rw [at_wildcard hwild] at hat
        have hnear := hz.steady.near afterMs s hleast.1.1.le (by have := hleast.1.1; omega)
        have hyear : (z.shown s).year ≤ (z.shown afterMs).year + 1 := year_soon (by
          unfold clock
          omega)
        rw [shown_eq hv hat] at hyear
        have := year_le (shown_lt_zoneStart z afterMs).le
        unfold zoneEndYear maxSearchYears
        omega
      · rintro r ⟨hr, v, hv, hmatches, -, hat⟩
        exact hleast.2 ⟨hr, v, hv, hmatches, hat⟩
    · rw [hnone] at hscan
      cases hscan
  have hscan : cron.wildcardTime = true → scanRepeat z cron afterMs = .ok none := by
    intro hwild
    rcases scanRepeat_spec hz hroomy hwild with ⟨s, hs, -⟩ | ⟨hnone, -⟩
    · exact absurd ⟨s, hwild, hs⟩ hscanned
    · exact hnone
  have hahead (v : Wall) (t : Int) (hv : v.Valid) (hmatches : cron.Matches v) (hat : cron.At z v t)
      (ht : afterMs < t) : clock z.off afterMs < v.seconds * 1000 := by
    cases hwild : cron.wildcardTime
    · exact ahead_fixed hz hwild hat ht
    · rcases scanRepeat_spec hz hroomy hwild with ⟨s, hs, -⟩ | ⟨-, hahead⟩
      · exact absurd ⟨s, hwild, hs⟩ hscanned
      · exact hahead v t hv hmatches hat ht
  rw [zone_walked hz hrange hparse hscan]
  have hfound {s : Int} (hdue : cron.DueIn z afterMs s)
      (hlast : zoneEndYear z afterMs < 275759 ∨ clock z.off s ≤ 8639970000000000) :
      ∃ t, IsLeast {t | cron.DueIn z afterMs t} t ∧
        searchCronWall cron (some (zoneStart z afterMs)) pattern (resolveInZone z cron afterMs) =
          .ok (some t) := by
    obtain ⟨v, t, hv, hmatches, hyear, hstart, hvleast, hleast, hsoon, hpassed⟩ :=
      exists_first_due hz hahead hdue
    have hn : Roomy (v.seconds * 1000) := by
      refine hrange.roomy_of_walked hv hstart ?_
      rcases hlast with hlast | hlast
      · exact seconds_of_year hv (by omega)
      · omega
    have hsearch := searchFrom_zone hz hrange hv hmatches hyear hstart hvleast hn hpassed
    exact ⟨t, hleast, searchCronWall_some hsearch⟩
  by_cases hsome : ∃ t, cron.DueIn z afterMs t
  · obtain ⟨s, hs⟩ := hsome
    rcases hrange.last with hlast | ⟨r, hr, hlast⟩
    · exact Or.inl (hfound hs (Or.inl hlast))
    · exact Or.inl (hfound hr (Or.inr hlast))
  · have hlast : zoneEndYear z afterMs < 275759 := by
      rcases hrange.last with hlast | ⟨r, hr, -⟩
      · exact hlast
      · exact absurd ⟨r, hr⟩ hsome
    refine Or.inr ⟨Set.eq_empty_iff_forall_notMem.mpr fun t ht => hsome ⟨t, ht⟩, ?_⟩
    have hsearch := searchFrom_zone_none hz hrange hlast fun u hu hmatches _ hyear t hat => by
      by_contra hnew
      exact hsome ⟨t, not_le.mp hnew, u, hu, hmatches, hyear, hat⟩
    exact searchCronWall_some hsearch

/-! ## All occurrences -/

theorem le_of_specifies (hz : z.Regular) (hleast : IsLeast {t | cron.DueIn z afterMs t} t)
    (hlater : afterMs < s) (hs : cron.Specifies z s) : t ≤ s := by
  obtain ⟨v, hv, hmatches, hat⟩ := hs
  obtain ⟨⟨ht, w, hw, hwmatches, hyear, hwat⟩, hfirst⟩ := hleast
  by_cases hin : v.year ≤ zoneEndYear z afterMs
  · exact hfirst ⟨hlater, v, hv, hmatches, hin, hat⟩
  have hlt : w < v := by
    rw [Wall.lt_iff]
    omega
  have hseconds := Wall.seconds_lt hw hv hlt
  by_contra hlate
  cases hwild : cron.wildcardTime
  · rw [at_fixed hwild] at hat hwat
    exact hlate (hwat.mono hz.steady hat (by omega))
  · have hclock := (at_wildcard hwild).mp hat
    have hwclock := (at_wildcard hwild).mp hwat
    have hdrop := drop hz.steady (not_le.mp hlate) (by omega)
    obtain ⟨u, hu, hshown, hsame, hback⟩ := shown_before hz.steady (not_le.mp hlate) (by omega)
    rcases lt_or_ge afterMs u with hnew | hold
    · have := hfirst ⟨hnew, w, hw, hwmatches, hyear, (at_wildcard hwild).mpr (hshown.trans hwclock)⟩
      omega
    -- The time is hours away, and the search goes on for years.
    · have hbetween := hz.steady.between u s afterMs hold hlater.le (by omega)
      have hsoon : (z.shown s).year ≤ (z.shown afterMs).year + 1 := year_soon (by
        unfold clock
        omega)
      rw [shown_eq hv hclock] at hsoon
      have := year_le (shown_lt_zoneStart z afterMs).le
      unfold zoneEndYear maxSearchYears at hin
      omega

/-- The occurrences one after the other, `count` of them or as many as there are. -/
def occurrences (pattern : String) (z : Zone) : Nat → Int → List Int
  | 0, _ => []
  | count + 1, afterMs =>
    match nextCronOccurrence pattern afterMs (some z) with
    | .ok (some t) => t :: occurrences pattern z count t
    | _ => []

theorem occurrences_succ (hz : z.Regular) (hparse : parseCronPattern pattern = .ok cron) (count : Nat)
    (hrange : ZoneInRange cron z afterMs) :
    (∃ t, IsLeast {t | cron.DueIn z afterMs t} t ∧
      occurrences pattern z (count + 1) afterMs = t :: occurrences pattern z count t) ∨
    (∀ t, ¬ cron.DueIn z afterMs t) ∧ occurrences pattern z (count + 1) afterMs = [] := by
  rcases zone_answers hz hparse hrange with ⟨t, hleast, hreply⟩ | ⟨hempty, hreply⟩
  · exact Or.inl ⟨t, hleast, by rw [occurrences, hreply]⟩
  · exact Or.inr ⟨fun t => Set.eq_empty_iff_forall_notMem.mp hempty t, by rw [occurrences, hreply]⟩

section

variable (hz : z.Regular) (hparse : parseCronPattern pattern = .ok cron) (count : Nat)
include hz hparse

theorem occurrences_sorted
    (hrange : ∀ s ∈ afterMs :: occurrences pattern z count afterMs, ZoneInRange cron z s) :
    (afterMs :: occurrences pattern z count afterMs).Pairwise (· < ·) := by
  induction count generalizing afterMs with
  | zero => exact List.pairwise_singleton _ _
  | succ count ih =>
    rcases occurrences_succ hz hparse count (hrange _ (List.mem_cons_self ..)) with
      ⟨t, hleast, heq⟩ | ⟨-, heq⟩
    · rw [heq] at hrange ⊢
      have hrest := ih fun s hs => hrange s (List.mem_cons_of_mem _ hs)
      refine List.pairwise_cons.mpr ⟨?_, hrest⟩
      intro s hs
      rcases List.mem_cons.mp hs with rfl | hs
      · exact hleast.1.1
      · exact hleast.1.1.trans ((List.pairwise_cons.mp hrest).1 s hs)
    · rw [heq]
      exact List.pairwise_singleton _ _

theorem le_last_occurrence
    (hrange : ∀ s ∈ afterMs :: occurrences pattern z count afterMs, ZoneInRange cron z s) :
    afterMs ≤ (occurrences pattern z count afterMs).getLastD afterMs := by
  have hsorted := List.pairwise_cons.mp (occurrences_sorted hz hparse count hrange)
  rcases List.mem_cons.mp (List.getLastD_mem_cons (l := occurrences pattern z count afterMs) (a := afterMs)) with
    heq | hmem
  · exact heq.ge
  · exact (hsorted.1 _ hmem).le

theorem mem_occurrences
    (hrange : ∀ s ∈ afterMs :: occurrences pattern z count afterMs, ZoneInRange cron z s) :
    s ∈ occurrences pattern z count afterMs ↔
      afterMs < s ∧ s ≤ (occurrences pattern z count afterMs).getLastD afterMs ∧
        cron.Specifies z s := by
  induction count generalizing afterMs with
  | zero =>
    simp only [occurrences, List.not_mem_nil, List.getLastD_nil, false_iff]
    rintro ⟨hlater, hle, -⟩
    omega
  | succ count ih =>
    rcases occurrences_succ hz hparse count (hrange _ (List.mem_cons_self ..)) with
      ⟨t, hleast, heq⟩ | ⟨-, heq⟩
    · rw [heq] at hrange ⊢
      have hrest (s : Int) (hs : s ∈ t :: occurrences pattern z count t) :=
        hrange s (List.mem_cons_of_mem _ hs)
      have hlast := le_last_occurrence hz hparse count hrest
      obtain ⟨hlater, v, hv, hmatches, -, hat⟩ := hleast.1
      rw [List.mem_cons, List.getLastD_cons, ih hrest]
      constructor
      · rintro (rfl | ⟨hs, hle, hspecifies⟩)
        · exact ⟨hlater, hlast, v, hv, hmatches, hat⟩
        · exact ⟨hlater.trans hs, hle, hspecifies⟩
      · rintro ⟨hs, hle, hspecifies⟩
        rcases (le_of_specifies hz hleast hs hspecifies).eq_or_lt with heq | hlt
        · exact Or.inl heq.symm
        · exact Or.inr ⟨hlt, hle, hspecifies⟩
    · rw [heq]
      simp only [List.not_mem_nil, List.getLastD_nil, false_iff]
      rintro ⟨hlater, hle, -⟩
      omega

theorem occurrences_end
    (hrange : ∀ s ∈ afterMs :: occurrences pattern z count afterMs, ZoneInRange cron z s)
    (hend : (occurrences pattern z count afterMs).length < count) :
    ∀ t, ¬ cron.DueIn z ((occurrences pattern z count afterMs).getLastD afterMs) t := by
  -- They end when there is no instant in the time of the search.
  induction count generalizing afterMs with
  | zero => simp at hend
  | succ count ih =>
    rcases occurrences_succ hz hparse count (hrange _ (List.mem_cons_self ..)) with
      ⟨t, hleast, heq⟩ | ⟨hnone, heq⟩
    · rw [heq] at hrange hend ⊢
      rw [List.getLastD_cons]
      exact ih (fun s hs => hrange s (List.mem_cons_of_mem _ hs)) (by simpa using hend)
    · rw [heq]
      exact hnone

end

/-- The occurrences are the instants that the pattern specifies, in order and up to the last of them,
and they only end when there is none in the time of the search. -/
theorem occurrences_specified (hz : z.Regular) (hparse : parseCronPattern pattern = .ok cron)
    (count : Nat)
    (hrange : ∀ s ∈ afterMs :: occurrences pattern z count afterMs, ZoneInRange cron z s) :
    (afterMs :: occurrences pattern z count afterMs).Pairwise (· < ·) ∧
      (∀ t, t ∈ occurrences pattern z count afterMs ↔
        afterMs < t ∧ t ≤ (occurrences pattern z count afterMs).getLastD afterMs ∧
          cron.Specifies z t) ∧
      (∀ s ∈ afterMs :: occurrences pattern z count afterMs,
        Answers pattern {t | cron.DueIn z s t} (nextCronOccurrence pattern s (some z))) ∧
      ((occurrences pattern z count afterMs).length < count →
        ∀ t, ¬ cron.DueIn z ((occurrences pattern z count afterMs).getLastD afterMs) t) :=
  ⟨occurrences_sorted hz hparse count hrange, fun _ => mem_occurrences hz hparse count hrange,
    fun s hs => zone_answers hz hparse (hrange s hs), occurrences_end hz hparse count hrange⟩

/-- The clocks of New York, set forward on 8 March 2026. -/
def springZone : Zone := fun m => if m < 29549220 then -300 else -240

theorem springZone_regular : springZone.Regular where
  bounded m := by
    unfold springZone
    split <;> omega
  small m := by
    unfold springZone
    split_ifs <;> omega
  isolated m n hm hn hlt := by
    unfold springZone at hm hn
    split_ifs at hm hn <;> omega

/-- Half past two is jumped over in the night, and due when the clocks are set. The next day it is due at
its time. -/
theorem occurrences_spring : ∃ cron, parseCronPattern "30 2 * * *" = .ok cron ∧
    occurrences "30 2 * * *" springZone 2 1772884800000 = [1772953200000, 1773037800000] ∧
    ∀ t, t ∈ occurrences "30 2 * * *" springZone 2 1772884800000 ↔
      1772884800000 < t ∧ t ≤ 1773037800000 ∧ cron.Specifies springZone t := by
  obtain ⟨cron, hparse⟩ := exists_of_isOk
    (show (parseCronPattern "30 2 * * *").isOk = true by decide +kernel)
  have hfixed : cron.wildcardTime = false := by
    have h : (parseCronPattern "30 2 * * *").map CronPattern.wildcardTime = .ok false := by
      decide +kernel
    rw [hparse] at h
    exact Except.ok.inj h
  have heq : occurrences "30 2 * * *" springZone 2 1772884800000 =
      [1772953200000, 1773037800000] := by
    decide +kernel
  have hrange (s : Int) (hfirst : 101 ≤ (springZone.shown s).year)
      (hlast : zoneEndYear springZone s < 275759) : ZoneInRange cron springZone s :=
    ⟨hfirst, Or.inl hlast, fun hwild => by rw [hfixed] at hwild; cases hwild⟩
  refine ⟨cron, hparse, heq, ?_⟩
  have hall (s : Int) (hs : s ∈ 1772884800000 :: occurrences "30 2 * * *" springZone 2 1772884800000) :
      ZoneInRange cron springZone s := by
    rw [heq] at hs
    simp only [List.mem_cons, List.not_mem_nil, or_false] at hs
    rcases hs with rfl | rfl | rfl
    all_goals exact hrange _ (by decide +kernel) (by decide +kernel)
  have h := occurrences_specified springZone_regular hparse 2 hall
  rw [heq] at h ⊢
  exact h.2.1

/-- `Date.UTC` takes the year 68 for 1968. -/
theorem zone_answers_early : ∃ cron, parseCronPattern "* * * * *" = .ok cron ∧
    Zone.Regular (fun _ => 0) ∧ ¬ Answers "* * * * *" {t | cron.DueIn (fun _ => 0) (-60000000000000) t}
      (nextCronOccurrence "* * * * *" (-60000000000000) (some fun _ => 0)) := by
  obtain ⟨cron, hparse⟩ := exists_of_isOk
    (show (parseCronPattern "* * * * *").isOk = true by decide +kernel)
  have hwild : cron.wildcardTime = true := by
    have h : (parseCronPattern "* * * * *").map CronPattern.wildcardTime = .ok true := by
      decide +kernel
    rw [hparse] at h
    exact Except.ok.inj h
  have hreply : nextCronOccurrence "* * * * *" (-60000000000000) (some fun _ => 0) =
      .ok (some (-41855940000)) := by
    decide +kernel
  refine ⟨cron, hparse, ?_, ?_⟩
  · constructor <;> intros <;> omega
  · rw [hreply]
    rintro (⟨t, hleast, h⟩ | ⟨-, h⟩)
    · obtain rfl : -41855940000 = t := by simpa using h
      obtain ⟨-, v, hv, -, hyear, hat⟩ := hleast.1
      rw [at_wildcard hwild] at hat
      rw [← shown_eq hv hat] at hyear
      revert hyear
      decide +kernel
    · cases h

end GlideMq
