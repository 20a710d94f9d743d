import GlideMq.Machine.Clocks
import GlideMq.Proofs.CronUtc

/-!
# Clocks of a time zone

The clocks of a zone are steady when its transitions are far apart and small. Within the years that
`Date` reads as they are, the code finds the instants of a time, and the end of the gap of a time that
is skipped.
-/

namespace GlideMq

open Calendar Clocks

/-! ## Zones -/

/-- Offsets are less than a day, the clocks are set by three hours at most, and two days pass before they are
set again. -/
structure Zone.Regular (z : Zone) : Prop where
  bounded : ∀ m, -1440 < z m ∧ z m < 1440
  small : ∀ m, z m ≤ z (m - 1) + 180 ∧ z (m - 1) ≤ z m + 180
  isolated : ∀ m n, z (m - 1) ≠ z m → z (n - 1) ≠ z n → m < n → m + 2880 ≤ n

/-- Milliseconds ahead of UTC. -/
def Zone.off (z : Zone) (t : Int) : Int := z (t / 60000) * 60000

/-- What the clocks of the zone show. -/
def Zone.shown (z : Zone) (t : Int) : Wall := .ofSeconds (t / 1000 + 60 * z (t / 60000))

variable {z : Zone} {cron : CronPattern} {v w : Wall} {t n afterMs : Int}

theorem Zone.exists_change {a b : Int} (hle : a ≤ b) (hne : z a ≠ z b) :
    ∃ m, a < m ∧ m ≤ b ∧ z (m - 1) ≠ z m := by
  by_contra hnone
  push Not at hnone
  have hsame (k : Nat) : a + k ≤ b → z (a + k) = z a := by
    induction k with
    | zero => simp
    | succ k ih =>
      intro hk
      have hstep := hnone (a + (k + 1 : Nat)) (by omega) hk
      rw [show a + ((k + 1 : Nat) : Int) - 1 = a + k by omega] at hstep
      rw [← hstep, ih (by omega)]
  have := hsame (b - a).toNat (by omega)
  rw [show a + ((b - a).toNat : Int) = b by omega] at this
  exact hne this.symm

theorem Zone.Regular.between (hz : z.Regular) {a b m : Int} (ha : a ≤ m) (hb : m ≤ b)
    (hwindow : b ≤ a + 2880) : z m = z a ∨ z m = z b := by
  by_contra hne
  push Not at hne
  obtain ⟨i, hi, hi', hchange⟩ := exists_change ha (Ne.symm hne.1)
  obtain ⟨j, hj, hj', hchange'⟩ := exists_change hb hne.2
  have := hz.isolated i j hchange hchange' (by omega)
  omega

theorem Zone.Regular.near (hz : z.Regular) {a b : Int} (hle : a ≤ b) (hwindow : b ≤ a + 2880) :
    z a ≤ z b + 180 ∧ z b ≤ z a + 180 := by
  by_cases heq : z a = z b
  · omega
  · obtain ⟨m, hm, hm', hchange⟩ := exists_change hle heq
    have hsmall := hz.small m
    have hbefore := hz.between (show a ≤ m - 1 by omega) (by omega) hwindow
    have hafter := hz.between hm.le hm' hwindow
    omega

theorem Zone.Regular.steady (hz : z.Regular) : Steady z.off 172800000 10800000 where
  nonneg := by norm_num
  room := by norm_num
  between x y m hx hy hwindow := by
    have := hz.between (a := x / 60000) (b := y / 60000) (m := m / 60000) (by omega) (by omega)
      (by omega)
    unfold off
    omega
  near x y hle hwindow := by
    have := hz.near (a := x / 60000) (b := y / 60000) (by omega) (by omega)
    unfold off
    omega

theorem Zone.Regular.off_bounds (hz : z.Regular) (t : Int) :
    -86400000 < z.off t ∧ z.off t < 86400000 := by
  have := hz.bounded (t / 60000)
  unfold off
  omega

theorem Zone.off_floor (z : Zone) (t : Int) : z.off (t / 60000 * 60000) = z.off t := by
  unfold off
  rw [Int.mul_ediv_cancel _ (by norm_num)]

theorem Zone.shown_seconds (z : Zone) (t : Int) :
    (z.shown t).seconds * 1000 = clock z.off t / 1000 * 1000 := by
  unfold shown clock off
  rw [Wall.seconds_ofSeconds]
  omega

/-! ## The years that are read as they are -/

/-- Instants, and readings of clocks, that the code works with as they are. -/
def Plain (t : Int) : Prop := -59011000000000 ≤ t ∧ t ≤ 8639977000000000

/-- The same with some days to spare. -/
def Inner (t : Int) : Prop := -59010000000000 ≤ t ∧ t ≤ 8639976000000000

theorem year_of_seconds {s y : Int} :
    y ≤ (Wall.ofSeconds s).year ↔ (monthBegin y 1).seconds ≤ s := by
  have hvalid := Wall.ofSeconds_valid s
  have hbegin : (monthBegin y 1).Valid := monthBegin_valid y (by omega)
  have hmonth := hvalid.month
  have hday := hvalid.day
  have hhour := hvalid.hour
  have hminute := hvalid.minute
  have hsecond := hvalid.second
  have hle := Wall.seconds_le_iff hbegin hvalid
  rw [Wall.seconds_ofSeconds] at hle
  rw [hle, Wall.le_iff]
  simp only [monthBegin]
  omega

theorem dated_of_plain (h : Plain (w.seconds * 1000)) (hvalid : w.Valid) : Dated w.year w.month := by
  have hlow := (year_of_seconds (s := w.seconds) (y := 100)).mpr (by
    have : (monthBegin 100 1).seconds = -59011459200 := by decide
    unfold Plain at h
    omega)
  have hhigh := (year_of_seconds (s := w.seconds) (y := 275760)).not.mpr (by
    have : (monthBegin 275760 1).seconds = 8639977881600 := by decide
    unfold Plain at h
    omega)
  rw [Wall.ofSeconds_seconds hvalid] at hlow hhigh
  exact ⟨hlow, by omega⟩

theorem timeClip_of_plain (h : Plain t) : timeClip t = some t := by
  apply timeClip_of_bounds
  unfold Plain at h
  unfold maxTime
  omega

/-! ## Instants of a time -/

theorem utcToTzParts_eq (ht : Plain t) (hclock : Plain (clock z.off t)) :
    utcToTzParts z (some t) = .ok (z.shown t) := by
  have hyear : 100 ≤ (z.shown t).year := by
    refine year_of_seconds.mpr ?_
    have : (monthBegin 100 1).seconds = -59011459200 := by decide
    unfold Plain clock Zone.off at hclock
    omega
  unfold utcToTzParts
  rw [Option.bind_some, timeClip_of_plain ht]
  simp only [minuteMs]
  change Except.ok _ = _
  have hprinted : printedYear (z.shown t).year = (z.shown t).year := if_neg (by omega)
  rw [Except.ok.injEq]
  exact Wall.ext hprinted rfl rfl rfl rfl rfl

theorem tzOffsetMs_eq (ht : Inner t) (hclock : Plain (clock z.off (t / 60000 * 60000))) :
    tzOffsetMs z (some t) = .ok (some (z.off t)) := by
  have hplain : Plain (t / 60000 * 60000) := by
    unfold Inner at ht
    unfold Plain
    omega
  have hvalid := Wall.ofSeconds_valid (t / 60000 * 60000 / 1000 + 60 * z (t / 60000 * 60000 / 60000))
  have hseconds := z.shown_seconds (t / 60000 * 60000)
  have hwhole : clock z.off (t / 60000 * 60000) / 1000 * 1000 = clock z.off (t / 60000 * 60000) := by
    unfold clock Zone.off
    omega
  rw [hwhole] at hseconds
  have hdated : Dated (z.shown (t / 60000 * 60000)).year (z.shown (t / 60000 * 60000)).month :=
    dated_of_plain (by rwa [hseconds]) hvalid
  have hsecond : (z.shown (t / 60000 * 60000)).second = 0 := by
    unfold Zone.shown
    simp only [Wall.ofSeconds]
    omega
  have hnaive : dateUTC (z.shown (t / 60000 * 60000)).year ((z.shown (t / 60000 * 60000)).month - 1)
      (z.shown (t / 60000 * 60000)).day (z.shown (t / 60000 * 60000)).hour
      (z.shown (t / 60000 * 60000)).minute 0 = some (clock z.off (t / 60000 * 60000)) := by
    have hplace := wallToNaiveUtc_eq hvalid hdated
    change wallToNaiveUtc (z.shown (t / 60000 * 60000)) = _ at hplace
    unfold wallToNaiveUtc at hplace
    rw [hsecond] at hplace
    rw [hplace, ← hseconds]
    rfl
  unfold tzOffsetMs
  simp only [Option.map_some, minuteMs, utcToTzParts_eq hplain hclock, bind, Except.bind, pure,
    Except.pure, hnaive, JsNumber.sub, Option.bind_some]
  unfold clock
  rw [Zone.off_floor]
  congr 2
  omega

theorem tzOffsetMs_inner (hz : z.Regular) (ht : Inner t) :
    tzOffsetMs z (some t) = .ok (some (z.off t)) := by
  apply tzOffsetMs_eq ht
  have hoff := hz.off_bounds (t / 60000 * 60000)
  unfold Inner at ht
  unfold Plain clock
  omega

/-- A reading with room for the instants around it. -/
def Roomy (n : Int) : Prop := -59008980000000 ≤ n ∧ n ≤ 8639975000000000

theorem inner_of_roomy (hn : Roomy n) {d : Int} (hd : -259200000 ≤ d ∧ d ≤ 259200000) :
    Inner (n + d) := by
  unfold Roomy at hn
  unfold Inner
  omega

theorem instantsOf_spec (hz : z.Regular) (hn : Roomy n) (l : List JsNumber)
    (hl : ∀ o ∈ l, ∃ i, o = some i ∧ -86400000 < i ∧ i < 86400000) :
    ∃ l', instantsOf z (some n) l = .ok l' ∧
      ∀ t, t ∈ l' ↔ some (n - t) ∈ l ∧ clock z.off t = n := by
  induction l with
  | nil => exact ⟨[], rfl, by simp⟩
  | cons o l ih =>
    obtain ⟨l', hl', hmem⟩ := ih fun o ho => hl o (List.mem_cons_of_mem _ ho)
    obtain ⟨i, rfl, hlow, hhigh⟩ := hl o (List.mem_cons_self ..)
    have hinner : Inner (n - i) := by
      have := inner_of_roomy hn (d := -i) (by omega)
      rwa [← sub_eq_add_neg] at this
    have hoffset := tzOffsetMs_inner hz hinner
    refine ⟨_, by
      rw [instantsOf]
      simp only [JsNumber.sub, bind, Option.bind_some, pure, hoffset, Except.bind, hl', Except.pure]
      rfl, ?_⟩
    intro t
    simp only [Option.isSome_some, true_and, Option.some.injEq, List.mem_append, List.mem_cons, hmem]
    by_cases hheld : z.off (n - i) = i
    · rw [if_pos hheld]
      simp only [Option.toList_some, List.mem_singleton]
      constructor
      · rintro (rfl | ⟨hin, hclock⟩)
        · refine ⟨Or.inl (by omega), ?_⟩
          unfold clock
          omega
        · exact ⟨Or.inr hin, hclock⟩
      · rintro ⟨hin | hin, hclock⟩
        · exact Or.inl (by omega)
        · exact Or.inr ⟨hin, hclock⟩
    · rw [if_neg hheld]
      simp only [List.not_mem_nil, false_or]
      constructor
      · rintro ⟨hin, hclock⟩
        exact ⟨Or.inr hin, hclock⟩
      · rintro ⟨hin | hin, hclock⟩
        · exfalso
          apply hheld
          have hsame : n - i = t := by omega
          rw [hsame]
          unfold clock at hclock
          omega
        · exact ⟨hin, hclock⟩

/-- The offsets that the code tries are those of all instants of the reading. -/
theorem tried_offset (hz : z.Regular) (hclock : clock z.off t = n) :
    z.off t = z.off (n - z.off n - 10800000) ∨ z.off t = z.off (n - z.off n + 10800000) := by
  have hoff := hz.off_bounds t
  have hnear : z.off t ≤ z.off n + 10800000 ∧ z.off n ≤ z.off t + 10800000 := by
    unfold clock at hclock
    rcases le_total t n with hle | hle
    · exact hz.steady.near t n hle (by omega)
    · have := hz.steady.near n t hle (by omega)
      exact ⟨this.2, this.1⟩
  unfold clock at hclock
  exact hz.steady.between _ _ t (by omega) (by omega) (by omega)

theorem tzWallToInstants_spec (hz : z.Regular) (hnaive : wallToNaiveUtc w = some n) (hn : Roomy n) :
    ∃ l, tzWallToInstants z w = .ok l ∧ l.Pairwise (· ≤ ·) ∧ ∀ t, t ∈ l ↔ clock z.off t = n := by
  have hoff := hz.off_bounds
  have hguess := tzOffsetMs_inner hz (by have := inner_of_roomy hn (d := 0) (by omega); rwa [add_zero] at this)
  have hbase {d : Int} (hd : -10800000 ≤ d ∧ d ≤ 10800000) :
      tzOffsetMs z (some (n - z.off n + d)) = .ok (some (z.off (n - z.off n + d))) := by
    have hbounds := hoff n
    apply tzOffsetMs_inner hz
    have := inner_of_roomy hn (d := -z.off n + d) (by omega)
    rwa [← add_assoc, ← sub_eq_add_neg] at this
  have hearlier := hbase (d := -10800000) (by omega)
  have hsame := hbase (d := 0) (by omega)
  have hlater := hbase (d := 10800000) (by omega)
  rw [← sub_eq_add_neg] at hearlier
  rw [add_zero] at hsame
  obtain ⟨l, hl, hmem⟩ := instantsOf_spec hz hn
    [some (z.off n), some (z.off (n - z.off n - 10800000)), some (z.off (n - z.off n)),
      some (z.off (n - z.off n + 10800000))].eraseDups (by
    intro o ho
    rw [List.mem_eraseDups] at ho
    simp only [List.mem_cons, List.not_mem_nil, or_false] at ho
    rcases ho with rfl | rfl | rfl | rfl
    all_goals exact ⟨_, rfl, hoff _⟩)
  refine ⟨l.eraseDups.insertionSort (· ≤ ·), ?_, List.pairwise_insertionSort _ _, ?_⟩
  · unfold tzWallToInstants
    simp only [hnaive, hguess, bind, Except.bind, JsNumber.sub, Option.bind_some, pure, Option.map_some,
      dstWindowMs]
    norm_num only
    simp only [hearlier, hsame, hlater, hl]
    rfl
  · intro t
    rw [List.mem_insertionSort, List.mem_eraseDups, hmem, List.mem_eraseDups]
    refine and_iff_right_of_imp fun hclock => ?_
    have htried := tried_offset hz hclock
    have ht : n - t = z.off t := by
      unfold clock at hclock
      omega
    rw [ht]
    simp only [List.mem_cons, Option.some.injEq]
    omega

/-! ## The end of a gap -/

/-- The bisection ends at the transition between its ends. -/
theorem gapLoop_spec {before lo hi turn : Int} (passes : Nat)
    (hlo : lo % 60000 = 0) (hhi : hi % 60000 = 0) (hturn : turn % 60000 = 0)
    (hwithin : lo < turn ∧ turn ≤ hi) (hpasses : (hi - lo) / 60000 ≤ passes)
    (hoffset : ∀ m, lo < m → m ≤ hi →
      ∃ o, tzOffsetMs z (some m) = .ok (some o) ∧ (o = before ↔ m < turn)) :
    gapLoop z before passes lo hi = .ok turn := by
  induction passes generalizing lo hi with
  | zero => omega
  | succ passes ih =>
    have hunit : minuteMs = 60000 := rfl
    rw [gapLoop_succ]
    by_cases hlong : minuteMs < hi - lo
    · have hmid : lo < lo + (hi - lo) / 2 / 60000 * 60000 ∧
          lo + (hi - lo) / 2 / 60000 * 60000 < hi := by omega
      obtain ⟨o, ho, hiff⟩ := hoffset _ hmid.1 hmid.2.le
      rw [if_pos hlong, hunit, ho]
      simp only [Except.bind, Option.some.injEq]
      by_cases heq : o = before
      · have hlt := hiff.mp heq
        rw [if_pos heq]
        exact ih (by omega) hhi ⟨hlt, hwithin.2⟩ (by omega)
          fun m hm hm' => hoffset m (hmid.1.trans hm) hm'
      · have hge := hiff.not.mp heq
        rw [if_neg heq]
        exact ih hlo (by omega) ⟨hwithin.1, by omega⟩ (by omega)
          fun m hm hm' => hoffset m hm (hm'.trans hmid.2.le)
    · rw [if_neg hlong, show hi = turn by omega]

theorem Zone.off_whole (z : Zone) (t : Int) : z.off t % 60000 = 0 := by
  unfold off
  omega

/-- Around a reading that is skipped there is one transition, and the clocks jump over the reading there. -/
theorem exists_turn {lo hi : Int} (hz : z.Regular) (hwhole : n % 60000 = 0)
    (hskip : ∀ t, clock z.off t ≠ n) (hlo : lo = n - z.off n - 10800000)
    (hhi : hi = n - z.off n + 10800000) :
    ∃ turn, turn % 60000 = 0 ∧ lo < turn ∧ turn ≤ hi ∧
      (∀ m, lo ≤ m → m < turn → z.off m = z.off lo) ∧ (∀ m, turn ≤ m → m ≤ hi → z.off m = z.off hi) ∧
      z.off lo ≠ z.off hi ∧ (lo ≤ n - z.off hi ∧ n - z.off hi < turn) ∧
      turn ≤ n - z.off lo ∧ n - z.off lo ≤ hi := by
  have hoff := hz.off_bounds n
  have hsteady := hz.steady
  have hwholeOff := z.off_whole n
  have hshown {o : Int} (ho : z.off (n - o) = o) : False := by
    apply hskip (n - o)
    unfold clock
    omega
  -- The offset at the reading is the one before or the one after.
  have hguess : z.off n = z.off lo ∨ z.off n = z.off hi := by
    by_contra hne
    push Not at hne
    have hconst : z.off lo = z.off hi := by
      rcases le_total n lo with hle | hle
      · rcases hsteady.between n hi lo hle (by omega) (by omega) with heq | heq
        · omega
        · exact heq
      · rcases le_total n hi with hle' | hle'
        · have := hsteady.between lo hi n hle hle' (by omega)
          omega
        · rcases hsteady.between lo n hi (by omega) hle' (by omega) with heq | heq
          · exact heq.symm
          · omega
    have hnear : z.off n ≤ z.off lo + 10800000 ∧ z.off lo ≤ z.off n + 10800000 := by
      rcases le_total n lo with hle | hle
      · exact hsteady.near n lo hle (by omega)
      · exact (hsteady.near lo n hle (by omega)).symm
    have := hsteady.between lo hi (n - z.off lo) (by omega) (by omega) (by omega)
    exact hshown (o := z.off lo) (by omega)
  have hends := hsteady.near lo hi (by omega) (by omega)
  have hne : z.off lo ≠ z.off hi := by
    intro heq
    have := hsteady.between lo hi (n - z.off n) (by omega) (by omega) (by omega)
    exact hshown (o := z.off n) (by omega)
  have hlate : z.off (n - z.off lo) = z.off hi := by
    rcases hsteady.between lo hi (n - z.off lo) (by omega) (by omega) (by omega) with heq | heq
    · exact (hshown heq).elim
    · exact heq
  have hearly : z.off (n - z.off hi) = z.off lo := by
    rcases hsteady.between lo hi (n - z.off hi) (by omega) (by omega) (by omega) with heq | heq
    · exact heq
    · exact (hshown heq).elim
  obtain ⟨turn, ⟨hfirst, hturn⟩, hleast⟩ := Int.exists_least_of_bdd
    (P := fun m => lo ≤ m ∧ z.off m = z.off hi) ⟨lo, fun m hm => hm.1⟩ ⟨hi, by omega, rfl⟩
  have hle : turn ≤ n - z.off lo := hleast _ ⟨by omega, hlate⟩
  have hafter (m : Int) (hm : turn ≤ m) (hm' : m ≤ hi) : z.off m = z.off hi := by
    rcases hsteady.between turn hi m hm hm' (by omega) with heq | heq
    · rw [heq, hturn]
    · exact heq
  have hbefore (m : Int) (hm : lo ≤ m) (hm' : m < turn) : z.off m = z.off lo := by
    rcases hsteady.between lo hi m hm (by omega) (by omega) with heq | heq
    · exact heq
    · exact absurd (hleast m ⟨hm, heq⟩) (not_le.mpr hm')
  have hminute : turn ≤ turn / 60000 * 60000 := by
    apply hleast
    rw [z.off_floor]
    exact ⟨by omega, hturn⟩
  refine ⟨turn, by omega, ?_, by omega, hbefore, hafter, hne, ⟨by omega, ?_⟩, hle, by omega⟩
  · rcases hfirst.lt_or_eq with hlt | rfl
    · exact hlt
    · exact absurd hturn hne
  · by_contra hge
    rw [hafter _ (not_lt.mp hge) (by omega)] at hearly
    exact hne hearly.symm

theorem shows_of_minute (h : clock z.off t / 60000 = n / 60000) :
    clock z.off (t + (n - clock z.off t)) = n := by
  have hwhole := z.off_whole t
  have hsame : z.off (t + (n - clock z.off t)) = z.off t := by
    unfold clock at *
    unfold Zone.off at *
    congr 2
    omega
  unfold clock at *
  rw [hsame]
  omega

theorem skips_minute (hskip : ∀ t, clock z.off t ≠ n) (t : Int) :
    clock z.off t ≠ n / 60000 * 60000 := by
  intro heq
  exact hskip _ (shows_of_minute (t := t) (by omega))

theorem tzGapEnd_spec (hz : z.Regular) (hnaive : wallToNaiveUtc w = some n) (hn : Roomy n)
    (hskip : ∀ t, clock z.off t ≠ n) :
    ∃ t, tzGapEnd z w = .ok (some t) ∧ EndsGap z.off n t := by
  have hroomy : Roomy (n / 60000 * 60000) := by
    unfold Roomy at *
    omega
  have hlong : n - n / 60000 * 60000 < 60000 ∧ 0 ≤ n - n / 60000 * 60000 := by omega
  have hwhole : n / 60000 * 60000 % 60000 = 0 := by omega
  have hskip' := skips_minute hskip
  have hfloor : (wallToNaiveUtc w).map (fun t => t / minuteMs * minuteMs) =
      some (n / 60000 * 60000) := by
    rw [hnaive]
    rfl
  generalize n / 60000 * 60000 = m at hroomy hskip' hwhole hlong hfloor
  obtain ⟨turn, hturn, hlo, hhi, hbefore, hafter, hne, ⟨hfirst, hfirst'⟩, hlast, hlast'⟩ :=
    exists_turn hz hwhole hskip' rfl rfl
  have hbounds := hz.off_bounds m
  have hoffset {t : Int} (ht : -259200000 ≤ t - m ∧ t - m ≤ 259200000) :
      tzOffsetMs z (some t) = .ok (some (z.off t)) := by
    apply tzOffsetMs_inner hz
    have := inner_of_roomy hroomy ht
    rwa [add_sub_cancel] at this
  have hguess := hoffset (t := m) (by omega)
  have hearlier := hoffset (t := m - z.off m - 10800000) (by omega)
  have hlater := hoffset (t := m - z.off m + 10800000) (by omega)
  generalize hloEq : m - z.off m - 10800000 = lo at *
  generalize hhiEq : m - z.off m + 10800000 = hi at *
  have hwholeLo := z.off_whole lo
  have hwholeHi := z.off_whole hi
  have hloop : gapLoop z (z.off lo) ((m - z.off lo - (m - z.off hi)) / minuteMs).toNat
      (m - z.off hi) (m - z.off lo) = .ok turn := by
    refine gapLoop_spec _ (by omega) (by omega) hturn ⟨hfirst', hlast⟩ ?_ ?_
    · have hunit : minuteMs = 60000 := rfl
      rw [hunit]
      omega
    · intro k hk hk'
      refine ⟨z.off k, hoffset (by omega), ?_⟩
      constructor
      · intro heq
        by_contra hge
        exact hne (heq.symm.trans (hafter k (not_lt.mp hge) (by omega)))
      · exact hbefore k (by omega)
  refine ⟨turn, ?_, ?_, ?_⟩
  · unfold tzGapEnd
    simp only [hfloor, hguess, bind, Except.bind, JsNumber.sub, Option.bind_some, pure, Option.map_some,
      dstWindowMs]
    norm_num only
    simp only [hloEq, hhiEq, hearlier, hlater, Option.bind_some, hloop]
    rfl
  · have := hbefore (turn - 1) (by omega) (by omega)
    unfold clock
    omega
  · have := hafter turn le_rfl (by omega)
    unfold clock
    omega

end GlideMq
