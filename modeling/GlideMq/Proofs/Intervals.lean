import GlideMq.Machine.Grid
import GlideMq.Model.Schedulers

/-!
# Intervals

The runs of a schedule with `every` stay in phase with its start, however late the ticks are, as long as
the sums are safe integers.
-/

namespace GlideMq

/-- A schedule of one interval. -/
structure Schedule.IsInterval (schedule : Schedule) : Prop where
  every : isValidSchedulerEvery schedule.every
  pattern : nonempty schedule.pattern = none
  repeatAfterComplete : schedule.repeatAfterComplete = 0

/-- The first sums are safe integers. -/
structure Schedule.StaysSafe (schedule : Schedule) (now : Int) : Prop where
  positive : 0 < now
  later : now + schedule.every ≤ maxSafeInteger
  elapsed : ∀ start ∈ schedule.startDate, now + schedule.every - start ≤ maxSafeInteger

/-- A tick that finds the entry, with the id reserved for its job. -/
structure Tick where
  now : Int
  /-- Whether the template makes a job. -/
  prepared : Bool := true
  jobId : JobId := "1"

/-- What becomes of an entry that only the tick touches. -/
inductive TickOutcome where
  | same
  | gone
  | moved (next : SchedulerEntry)

section

variable {nextCronOccurrence : String → Int → Option String → Except String Int}
variable {schedule : Schedule} {e next : SchedulerEntry} {now first x t : Int}

/-! ## The two functions -/

theorem Schedule.IsInterval.pos (h : schedule.IsInterval) : 0 < schedule.every := by
  have hvalid := h.every
  simp only [isValidSchedulerEvery, decide_eq_true_eq] at hvalid
  exact hvalid.1

theorem withinEnd_eq_some {endDate : Option Int} :
    withinEnd endDate x = some t ↔ x = t ∧ ∀ last ∈ endDate, t ≤ last := by
  unfold withinEnd
  split
  · rename_i hpast
    obtain ⟨last, hlast, hlt⟩ := hpast
    refine iff_of_false (by simp) ?_
    rintro ⟨rfl, hle⟩
    exact absurd (hle last hlast) (not_le.mpr hlt)
  · rename_i hwithin
    rw [Option.some.injEq]
    refine ⟨?_, And.left⟩
    rintro rfl
    exact ⟨rfl, fun last hlast => not_lt.mp fun hlt => hwithin ⟨last, hlast, hlt⟩⟩

theorem computeInitial_interval (h : schedule.IsInterval) :
    computeInitialSchedulerNextRun nextCronOccurrence schedule now =
      .ok (withinEnd schedule.endDate (firstInterval schedule.every schedule.startDate now)) := by
  have hevery := h.pos
  unfold computeInitialSchedulerNextRun validateSchedulerEvery
  simp [h.pattern, h.repeatAfterComplete, h.every, hevery.ne']
  rfl

theorem Schedule.IsInterval.le (h : schedule.IsInterval) : schedule.every ≤ maxSafeInteger := by
  have hvalid := h.every
  simp only [isValidSchedulerEvery, decide_eq_true_eq] at hvalid
  exact hvalid.2

theorem nearestInt_of_safe (hlow : -maxSafeInteger ≤ x) (hhigh : x ≤ maxSafeInteger) : Lua.nearestInt x = x := by
  apply Lua.nearestInt_of_abs_lt
  rw [abs_lt]
  unfold maxSafeInteger at hlow hhigh
  constructor <;> omega

theorem firstInterval_past (h : schedule.IsInterval) (hsafe : schedule.StaysSafe now) {start : Int}
    (hstart : schedule.startDate = some start) (hpast : start ≤ now) :
    firstInterval schedule.every schedule.startDate now = Grid.atOrAfter schedule.every start now := by
  have hpos := h.pos
  have hevery := h.le
  have hpositive := hsafe.positive
  have hlater := hsafe.later
  have hroom := hsafe.elapsed start hstart
  -- The steps reach `now`, and overshoot by less than an interval.
  have hfloor := Int.ediv_mul_le (-(now - start)) hpos.ne'
  have hover := Int.lt_ediv_add_one_mul_self (-(now - start)) hpos
  rw [add_mul, one_mul] at hover
  rw [hstart]
  unfold firstInterval Grid.atOrAfter
  unfold maxSafeInteger at hevery hlater hroom
  have helapsed : Lua.nearestInt (now - start) = now - start := nearestInt_of_safe (by unfold maxSafeInteger; omega)
    (by unfold maxSafeInteger; omega)
  have hsteps : ⌈Lua.nearest ((now - start : Int) / schedule.every)⌉ = -(-(now - start) / schedule.every) :=
    Lua.ceil_nearest_div (by omega) (by omega) hpos (by omega)
  simp only [not_lt.mpr hpast, if_false, helapsed, hsteps, neg_mul]
  generalize -(now - start) / schedule.every * schedule.every = back at hfloor hover ⊢
  rw [nearestInt_of_safe (x := -back) (by unfold maxSafeInteger; omega) (by unfold maxSafeInteger; omega)]
  exact nearestInt_of_safe (by unfold maxSafeInteger; omega) (by unfold maxSafeInteger; omega)

theorem computeFollowing_interval (h : e.IsInterval) (hpositive : 0 < e.nextRun) (hdue : e.nextRun ≤ t)
    (hsafe : t + e.every ≤ maxSafeInteger) :
    computeFollowingSchedulerNextRun nextCronOccurrence e t =
      .ok (withinEnd e.endDate (Grid.after e.every e.nextRun t)) := by
  have hrunnable : e.isRunnable = true := by simp [SchedulerEntry.isRunnable, h.every]
  have hpos := h.pos
  have hevery := h.le
  have hfloor := Int.ediv_mul_le (t - e.nextRun) hpos.ne'
  have hmissed : (t - e.nextRun) / e.every ≤ t - e.nextRun := Int.ediv_le_self _ (by omega)
  have hnonneg : 0 ≤ (t - e.nextRun) / e.every := Int.ediv_nonneg (by omega) hpos.le
  have hback : 0 ≤ (t - e.nextRun) / e.every * e.every := mul_nonneg hnonneg hpos.le
  unfold maxSafeInteger at hevery hsafe
  unfold computeFollowingSchedulerNextRun Grid.after
  rw [hrunnable, h.repeatAfterComplete, h.pattern]
  simp only [Bool.not_true, Bool.false_eq_true, if_false, ne_eq, not_true_eq_false, hpos.ne', hdue, if_true]
  have helapsed : Lua.nearestInt (t - e.nextRun) = t - e.nextRun :=
    nearestInt_of_safe (by unfold maxSafeInteger; omega) (by unfold maxSafeInteger; omega)
  have hsteps : ⌊Lua.nearest ((t - e.nextRun : Int) / e.every)⌋ = (t - e.nextRun) / e.every :=
    Lua.floor_nearest_div (by omega) (by omega) hpos (by omega)
  rw [helapsed, hsteps]
  rw [nearestInt_of_safe (x := (t - e.nextRun) / e.every + 1) (by unfold maxSafeInteger; omega)
    (by unfold maxSafeInteger; omega), add_mul, one_mul]
  generalize (t - e.nextRun) / e.every * e.every = back at hfloor hback ⊢
  rw [nearestInt_of_safe (x := back + e.every) (by unfold maxSafeInteger; omega) (by unfold maxSafeInteger; omega),
    nearestInt_of_safe (x := e.nextRun + (back + e.every)) (by unfold maxSafeInteger; omega)
      (by unfold maxSafeInteger; omega)]
  rfl

/-- The first run of a schedule. -/
structure IsFirstRun (schedule : Schedule) (now first : Int) : Prop where
  fromCreation : schedule.startDate = none → first = now + schedule.every
  fromStart : ∀ start ∈ schedule.startDate,
    IsLeast {t | t ≡ start [ZMOD schedule.every] ∧ start ≤ t ∧ now ≤ t} first

theorem firstInterval_isFirstRun (h : schedule.IsInterval) (hsafe : schedule.StaysSafe now) :
    IsFirstRun schedule now (firstInterval schedule.every schedule.startDate now) where
  fromCreation := by
    intro hstart
    have hpositive := hsafe.positive
    have hpos := h.pos
    rw [hstart]
    exact nearestInt_of_safe (by unfold maxSafeInteger; omega) hsafe.later
  fromStart := by
    intro start hstart
    rcases lt_or_ge now start with hahead | hpast
    · rw [Option.mem_def.mp hstart]
      simp only [firstInterval, hahead, if_true]
      exact ⟨⟨Int.ModEq.refl start, le_rfl, hahead.le⟩, fun t ht => ht.2.1⟩
    · rw [firstInterval_past h hsafe hstart hpast]
      obtain ⟨⟨hphase, hle⟩, hleast⟩ := Grid.isLeast_atOrAfter (x := now) (p := start) h.pos
      exact ⟨⟨hphase, hpast.trans hle, hle⟩, fun t ht => hleast ⟨ht.1, ht.2.2⟩⟩

theorem IsFirstRun.phase (h : IsFirstRun schedule now first) :
    first ≡ schedule.startDate.getD now [ZMOD schedule.every] := by
  cases hstart : schedule.startDate with
  | none =>
    have hnext : now + 1 * schedule.every ≡ now [ZMOD schedule.every] := Grid.modEq_add_mul 1
    rwa [one_mul, ← h.fromCreation hstart] at hnext
  | some start => exact (h.fromStart start hstart).1.1

theorem IsFirstRun.positive (h : IsFirstRun schedule now first) (hinterval : schedule.IsInterval)
    (hnow : 0 < now) : 0 < first := by
  cases hstart : schedule.startDate with
  | none =>
    rw [h.fromCreation hstart]
    have hpos := hinterval.pos
    omega
  | some start => exact hnow.trans_le (h.fromStart start hstart).1.2.2

/-! ## Ticks -/

variable (nextCronOccurrence) in
def runTick (e : SchedulerEntry) (tick : Tick) : TickOutcome :=
  match planTick nextCronOccurrence e tick.now tick.prepared with
  | .wait | .parked _ => .same
  | .delete => .gone
  | .skip next => .moved next
  | .fire following _ =>
    match firedEntry e tick.now following tick.jobId with
    | none => .gone
    | some next => .moved next

variable (nextCronOccurrence) in
/-- The runs after the first one, each with the tick that set it. -/
def laterRuns : SchedulerEntry → List Tick → List (Int × Int)
  | _, [] => []
  | e, tick :: ticks =>
    match runTick nextCronOccurrence e tick with
    | .same => laterRuns e ticks
    | .gone => []
    | .moved next => (tick.now, next.nextRun) :: laterRuns next ticks

/-- An entry moves on to its next run, with the same schedule. -/
structure MovesOn (e next : SchedulerEntry) (now : Int) : Prop where
  due : e.nextRun ≤ now
  schedule : next.toSchedule = e.toSchedule
  nextRun : next.nextRun = Grid.after e.every e.nextRun now
  within : ∀ last ∈ e.endDate, next.nextRun ≤ last

/-- An entry that ends at a tick has no further run, or it has a limit. -/
def SchedulerEntry.EndsAt (e : SchedulerEntry) (now : Int) : Prop :=
  e.limit = none → (∀ last ∈ e.endDate, e.nextRun ≤ last) →
    ∃ last ∈ e.endDate, last < Grid.after e.every e.nextRun now

theorem withinEnd_eq_none {endDate : Option Int} : withinEnd endDate x = none ↔ ∃ last ∈ endDate, last < x := by
  simp [withinEnd]

theorem endsAt_of_withinEnd (h : withinEnd e.endDate (Grid.after e.every e.nextRun now) = none) : e.EndsAt now :=
  fun _ _ => withinEnd_eq_none.mp h

theorem endsAt_of_limitReached (h : e.limitReached = true) : e.EndsAt now := by
  intro hlimit
  unfold SchedulerEntry.limitReached at h
  rw [hlimit] at h
  cases h

theorem planDue_interval (h : e.IsInterval) (hpositive : 0 < e.nextRun) (hsafe : now + e.every ≤ maxSafeInteger)
    {prepared : Bool} {inflight : Option JobId} {plan : TickPlan}
    (hplan : planTick.planDue nextCronOccurrence e now prepared inflight = plan) :
    match plan with
    | .wait => now < e.nextRun
    | .delete => e.nextRun ≤ now ∧ e.EndsAt now
    | .parked _ => False
    | .skip next => MovesOn e next now
    | .fire following _ =>
      e.nextRun ≤ now ∧ following = withinEnd e.endDate (Grid.after e.every e.nextRun now) := by
  unfold planTick.planDue at hplan
  split at hplan
  · rename_i hwaits
    subst hplan
    exact hwaits.resolve_left hpositive.ne'
  rename_i hnow
  have hdue : e.nextRun ≤ now := by
    rw [not_or, not_lt] at hnow
    exact hnow.2
  split at hplan
  · rename_i hover
    subst hplan
    refine ⟨hdue, ?_⟩
    rcases hover with hlimit | ⟨last, hlast, hlt⟩
    · exact endsAt_of_limitReached hlimit
    · exact fun _ hwithin => absurd (hwithin last hlast) (not_le.mpr hlt)
  rw [computeFollowing_interval h hpositive hdue hsafe] at hplan
  cases prepared with
  | true =>
    subst hplan
    exact ⟨hdue, rfl⟩
  | false =>
    cases hrun : withinEnd e.endDate (Grid.after e.every e.nextRun now) with
    | none =>
      rw [hrun] at hplan
      subst hplan
      exact ⟨hdue, endsAt_of_withinEnd hrun⟩
    | some nextRun =>
      rw [hrun] at hplan
      subst hplan
      obtain ⟨hnext, hlast⟩ := withinEnd_eq_some.mp hrun
      exact ⟨hdue, rfl, hnext.symm, hlast⟩

theorem firedEntry_interval (h : e.IsInterval) {following : Option Int} {J : JobId}
    (hfired : firedEntry e now following J = some next) :
    next.toSchedule = e.toSchedule ∧ following = some next.nextRun := by
  have hnot : isValidSchedulerEvery e.repeatAfterComplete = false := by
    rw [h.repeatAfterComplete]
    rfl
  unfold firedEntry at hfired
  simp only [hnot, Bool.false_eq_true, if_false] at hfired
  split at hfired
  · cases hfired
  · obtain ⟨nextRun, hrun, rfl⟩ := Option.map_eq_some_iff.mp hfired
    exact ⟨rfl, hrun⟩

theorem firedEntry_eq_none (h : e.IsInterval) {following : Option Int} {J : JobId}
    (hfired : firedEntry e now following J = none) (hlimit : e.limit = none) : following = none := by
  have hnot : isValidSchedulerEvery e.repeatAfterComplete = false := by
    rw [h.repeatAfterComplete]
    rfl
  unfold firedEntry SchedulerEntry.limitReached at hfired
  simpa [hnot, hlimit] using hfired

/-- What a tick does to an entry. -/
inductive Ticked (e : SchedulerEntry) (now : Int) : TickOutcome → Prop where
  | early (h : now < e.nextRun) : Ticked e now .same
  | ended (hdue : e.nextRun ≤ now) (h : e.EndsAt now) : Ticked e now .gone
  | moves {next : SchedulerEntry} (h : MovesOn e next now) : Ticked e now (.moved next)

theorem Ticked.lt (h : Ticked e now .same) : now < e.nextRun := by
  cases h
  assumption

theorem Ticked.endsAt (h : Ticked e now .gone) : e.EndsAt now := by
  cases h
  assumption

theorem Ticked.movesOn (h : Ticked e now (.moved next)) : MovesOn e next now := by
  cases h
  assumption

theorem runTick_interval (h : e.IsInterval) (hpositive : 0 < e.nextRun) {tick : Tick}
    (hsafe : tick.now + e.every ≤ maxSafeInteger) : Ticked e tick.now (runTick nextCronOccurrence e tick) := by
  have hrunnable : e.isRunnable = true := by simp [SchedulerEntry.isRunnable, h.every]
  have hnot : isValidSchedulerEvery e.repeatAfterComplete = false := by
    rw [h.repeatAfterComplete]
    rfl
  have hplan : planTick nextCronOccurrence e tick.now tick.prepared =
      planTick.planDue nextCronOccurrence e tick.now tick.prepared (nonempty e.inflightJobId) := by
    unfold planTick
    cases nonempty e.inflightJobId <;> simp [hrunnable, hnot]
  unfold runTick
  rw [hplan]
  cases hcase : planTick.planDue nextCronOccurrence e tick.now tick.prepared
    (nonempty e.inflightJobId) with
  | wait => exact .early (planDue_interval h hpositive hsafe hcase)
  | delete =>
    obtain ⟨hdue, hends⟩ := planDue_interval h hpositive hsafe hcase
    exact .ended hdue hends
  | parked J => exact (planDue_interval h hpositive hsafe hcase).elim
  | skip moved => exact .moves (planDue_interval h hpositive hsafe hcase)
  | fire following awaited =>
    obtain ⟨hdue, hrun⟩ := planDue_interval h hpositive hsafe hcase
    simp only
    split
    · rename_i hfired
      exact .ended hdue fun hlimit =>
        endsAt_of_withinEnd (hrun.symm.trans (firedEntry_eq_none h hfired hlimit)) hlimit
    · rename_i hfired
      obtain ⟨hschedule, hfollowing⟩ := firedEntry_interval h hfired
      obtain ⟨hnext, hlast⟩ := withinEnd_eq_some.mp (hrun.symm.trans hfollowing)
      exact .moves ⟨hdue, hschedule, hnext.symm, hlast⟩

theorem MovesOn.isLeast (h : MovesOn e next now) (hinterval : e.IsInterval) :
    IsLeast {t | t ≡ e.nextRun [ZMOD e.every] ∧ now < t} next.nextRun := by
  rw [h.nextRun]
  exact Grid.isLeast_after hinterval.pos

theorem MovesOn.lt (h : MovesOn e next now) (hinterval : e.IsInterval) : e.nextRun < next.nextRun :=
  h.due.trans_lt (h.isLeast hinterval).1.2

theorem MovesOn.isInterval (h : MovesOn e next now) (hinterval : e.IsInterval) : next.IsInterval := by
  rw [h.schedule]
  exact hinterval

theorem MovesOn.every (h : MovesOn e next now) : next.every = e.every := by rw [h.schedule]

theorem MovesOn.grid (h : MovesOn e next now) (hinterval : e.IsInterval) :
    {t | t ≡ next.nextRun [ZMOD e.every] ∧ x < t} = {t | t ≡ e.nextRun [ZMOD e.every] ∧ x < t} := by
  ext t
  exact and_congr_left' (Grid.modEq_iff_of_modEq (h.isLeast hinterval).1.1)

/-! ## Runs -/

/-- The runs after `first`, each with the tick that set it. -/
structure FollowsGrid (schedule : Schedule) (first : Int) (later : List (Int × Int)) : Prop where
  /-- The tick comes when the run before is due. -/
  due : (first :: later.map Prod.snd).Pairwise (· < ·) ∧
    List.IsChain (fun p q => p.2 ≤ q.1) ((first, first) :: later)
  least : ∀ p ∈ later, IsLeast {t | t ≡ first [ZMOD schedule.every] ∧ p.1 < t} p.2
  within : ∀ p ∈ later, ∀ last ∈ schedule.endDate, p.2 ≤ last

theorem FollowsGrid.nil : FollowsGrid schedule first [] where
  due := ⟨List.pairwise_singleton _ _, List.IsChain.singleton _⟩
  least := by simp
  within := by simp

theorem FollowsGrid.cons {later : List (Int × Int)} (h : e.IsInterval) (hmoves : MovesOn e next now)
    (hrest : FollowsGrid e.toSchedule next.nextRun later) :
    FollowsGrid e.toSchedule e.nextRun ((now, next.nextRun) :: later) := by
  obtain ⟨hincreasing, hchain⟩ := hrest.due
  refine ⟨⟨?_, ?_⟩, ?_, ?_⟩
  · rw [List.map_cons, List.pairwise_cons]
    refine ⟨fun t ht => ?_, hincreasing⟩
    rcases List.mem_cons.mp ht with rfl | ht
    · exact hmoves.lt h
    · exact (hmoves.lt h).trans ((List.pairwise_cons.mp hincreasing).1 t ht)
  · rw [List.isChain_cons_cons]
    refine ⟨hmoves.due, ?_⟩
    cases later with
    | nil => exact List.IsChain.singleton _
    | cons p later => exact List.isChain_cons_cons.mpr (List.isChain_cons_cons.mp hchain)
  · intro p hp
    rcases List.mem_cons.mp hp with rfl | hp
    · exact hmoves.isLeast h
    · rw [← hmoves.grid h]
      exact hrest.least p hp
  · intro p hp
    rcases List.mem_cons.mp hp with rfl | hp
    · exact hmoves.within
    · exact hrest.within p hp

/-- The ticks leave room for one interval. -/
def TicksStaySafe (schedule : Schedule) (ticks : List Tick) : Prop :=
  ∀ tick ∈ ticks, tick.now + schedule.every ≤ maxSafeInteger

theorem laterRuns_followsGrid (h : e.IsInterval) (hpositive : 0 < e.nextRun) {ticks : List Tick}
    (hsafe : TicksStaySafe e.toSchedule ticks) :
    FollowsGrid e.toSchedule e.nextRun (laterRuns nextCronOccurrence e ticks) := by
  -- The run lemma, by induction on the ticks.
  induction ticks generalizing e with
  | nil => exact .nil
  | cons tick ticks ih =>
    obtain ⟨htick, hticks⟩ := List.forall_mem_cons.mp hsafe
    have hstep : Ticked e tick.now (runTick nextCronOccurrence e tick) := runTick_interval h hpositive htick
    rw [laterRuns]
    cases hrun : runTick nextCronOccurrence e tick with
    | same => exact ih h hpositive hticks
    | gone => exact .nil
    | moved next =>
      rw [hrun] at hstep
      have hmoves := hstep.movesOn
      have hrest := ih (hmoves.isInterval h) (hpositive.trans (hmoves.lt h)) (by rwa [hmoves.schedule])
      rw [hmoves.schedule] at hrest
      exact .cons h hmoves hrest

/-- The runs leave nothing out: the ticks come in order, and a run is set for every tick that is due. -/
theorem laterRuns_complete (h : e.IsInterval) (hpositive : 0 < e.nextRun) (hlimit : e.limit = none)
    (hlast : ∀ last ∈ e.endDate, e.nextRun ≤ last) {ticks : List Tick} (hsafe : TicksStaySafe e.toSchedule ticks)
    (hsorted : ticks.Pairwise (·.now ≤ ·.now)) {tick : Tick} (htick : tick ∈ ticks) (hdue : e.nextRun ≤ tick.now)
    {n : Int} (hn : IsLeast {t | t ≡ e.nextRun [ZMOD e.every] ∧ tick.now < t} n)
    (hwithin : ∀ last ∈ e.endDate, n ≤ last) :
    n ∈ (laterRuns nextCronOccurrence e ticks).map Prod.snd := by
  induction ticks generalizing e with
  | nil => cases htick
  | cons first ticks ih =>
    obtain ⟨hfirst, hticks⟩ := List.forall_mem_cons.mp hsafe
    obtain ⟨hbefore, hsorted⟩ := List.pairwise_cons.mp hsorted
    have hle : first.now ≤ tick.now := by
      rcases List.mem_cons.mp htick with rfl | hmem
      · exact le_rfl
      · exact hbefore tick hmem
    have hstep : Ticked e first.now (runTick nextCronOccurrence e first) := runTick_interval h hpositive hfirst
    -- The run after the first tick is not after the one asked for.
    have hafter : Grid.after e.every e.nextRun first.now ≤ n :=
      (Grid.isLeast_after h.pos).2 ⟨hn.1.1, hle.trans_lt hn.1.2⟩
    rw [laterRuns]
    cases hrun : runTick nextCronOccurrence e first with
    | same =>
      rw [hrun] at hstep
      have hearly := hstep.lt
      rcases List.mem_cons.mp htick with rfl | hmem
      · exact absurd hdue (not_le.mpr hearly)
      · exact ih h hpositive hlimit hlast hticks hsorted hmem hdue hn hwithin
    | gone =>
      rw [hrun] at hstep
      obtain ⟨last, hmem, hlt⟩ := hstep.endsAt hlimit hlast
      exact absurd (hafter.trans (hwithin last hmem)) (not_le.mpr hlt)
    | moved next =>
      rw [hrun] at hstep
      have hmoves := hstep.movesOn
      rw [List.map_cons, List.mem_cons]
      rcases lt_or_ge tick.now next.nextRun with hset | hagain
      · left
        have hleast := hmoves.isLeast h
        exact le_antisymm (hn.2 ⟨hleast.1.1, hset⟩) (hmoves.nextRun ▸ hafter)
      · right
        have hmem : tick ∈ ticks := by
          refine (List.mem_cons.mp htick).resolve_left ?_
          rintro rfl
          exact absurd (hmoves.isLeast h).1.2 (not_lt.mpr hagain)
        rw [← hmoves.grid h, ← hmoves.every] at hn
        refine ih (hmoves.isInterval h) (hpositive.trans (hmoves.lt h)) ?_ ?_ ?_ hsorted hmem hagain hn ?_
        · rw [hmoves.schedule]
          exact hlimit
        · rw [hmoves.schedule]
          exact hmoves.within
        · rwa [hmoves.schedule]
        · rw [hmoves.schedule]
          exact hwithin

/-- What is said of the runs of an interval. -/
structure KeepsPhase (schedule : Schedule) (now first : Int) (ticks : List Tick) (later : List (Int × Int)) : Prop where
  phase : ∀ t ∈ first :: later.map Prod.snd, t ≡ schedule.startDate.getD now [ZMOD schedule.every]
  fromStart : ∀ start ∈ schedule.startDate,
    IsLeast {t | t ≡ start [ZMOD schedule.every] ∧ start ≤ t ∧ now ≤ t} first
  /-- Each later run is the first one after the tick that fired the run before it. -/
  next : List.IsChain (fun p q => p.2 ≤ q.1) ((first, first) :: later) ∧
    ∀ p ∈ later,
      IsLeast {t | t ≡ schedule.startDate.getD now [ZMOD schedule.every] ∧ p.1 < t} p.2
  increasing : (first :: later.map Prod.snd).Pairwise (· < ·)
  within : ∀ t ∈ first :: later.map Prod.snd, ∀ last ∈ schedule.endDate, t ≤ last
  /-- No tick from the first run on is without a run after it, but for the end date. -/
  complete : schedule.limit = none → ticks.Pairwise (·.now ≤ ·.now) → ∀ tick ∈ ticks, first ≤ tick.now →
    ∀ n, IsLeast {t | t ≡ schedule.startDate.getD now [ZMOD schedule.every] ∧ tick.now < t} n →
      (∀ last ∈ schedule.endDate, n ≤ last) → n ∈ later.map Prod.snd

theorem keepsPhase_of_isFirstRun (h : e.IsInterval) (hnow : 0 < now) (hfirst : IsFirstRun e.toSchedule now e.nextRun)
    (hlast : ∀ last ∈ e.endDate, e.nextRun ≤ last) {ticks : List Tick} (hsafe : TicksStaySafe e.toSchedule ticks) :
    KeepsPhase e.toSchedule now e.nextRun ticks (laterRuns nextCronOccurrence e ticks) := by
  have hpositive := hfirst.positive h hnow
  have hphase : e.nextRun ≡ e.startDate.getD now [ZMOD e.every] := hfirst.phase
  have hgrid {x : Int} : {t | t ≡ e.startDate.getD now [ZMOD e.every] ∧ x < t} =
      {t | t ≡ e.nextRun [ZMOD e.every] ∧ x < t} := by
    ext t
    exact and_congr_left' (Grid.modEq_iff_of_modEq hphase).symm
  have hruns : FollowsGrid e.toSchedule e.nextRun (laterRuns nextCronOccurrence e ticks) :=
    laterRuns_followsGrid h hpositive hsafe
  obtain ⟨⟨hincreasing, hchain⟩, hleast, hwithin⟩ := hruns
  refine ⟨?_, hfirst.fromStart, ⟨hchain, fun p hp => ?_⟩, hincreasing, ?_, ?_⟩
  · intro t ht
    rcases List.mem_cons.mp ht with rfl | ht
    · exact hphase
    · obtain ⟨p, hp, rfl⟩ := List.mem_map.mp ht
      exact (hleast p hp).1.1.trans hphase
  · rw [hgrid]
    exact hleast p hp
  · intro t ht
    rcases List.mem_cons.mp ht with rfl | ht
    · exact hlast
    · obtain ⟨p, hp, rfl⟩ := List.mem_map.mp ht
      exact hwithin p hp
  · intro hlimit hsorted tick htick hdue n hn hend
    rw [hgrid] at hn
    exact laterRuns_complete h hpositive hlimit hlast hsafe hsorted htick hdue hn hend

/-- The schedule has no run, its first one being past the end date, or its entry keeps the phase, at any
ticks. -/
theorem intervals_keep_phase (h : schedule.IsInterval) (hsafe : schedule.StaysSafe now) :
    ∃ first, IsFirstRun schedule now first ∧
      (computeInitialSchedulerNextRun nextCronOccurrence schedule now = .ok none ∧
          (∃ last ∈ schedule.endDate, last < first) ∨
        computeInitialSchedulerNextRun nextCronOccurrence schedule now = .ok (some first) ∧
          ∀ (e : SchedulerEntry) (ticks : List Tick), e.toSchedule = schedule → e.nextRun = first →
            TicksStaySafe schedule ticks →
            KeepsPhase schedule now first ticks (laterRuns nextCronOccurrence e ticks)) := by
  have hfirst := firstInterval_isFirstRun h hsafe
  refine ⟨firstInterval schedule.every schedule.startDate now, hfirst, ?_⟩
  rw [computeInitial_interval h]
  cases hrun : withinEnd schedule.endDate (firstInterval schedule.every schedule.startDate now) with
  | none => exact .inl ⟨rfl, withinEnd_eq_none.mp hrun⟩
  | some first =>
    obtain ⟨rfl, hlast⟩ := withinEnd_eq_some.mp hrun
    refine .inr ⟨rfl, ?_⟩
    rintro e ticks rfl hnext hticks
    rw [← hnext] at hfirst hlast ⊢
    exact keepsPhase_of_isFirstRun h hsafe.positive hfirst hlast hticks

end

/-- A start date in the past and a tick that is late by two intervals. -/
theorem intervals_keep_phase_late :
    let schedule : Schedule := { every := 1000, startDate := some 500, endDate := some 6000 }
    let never : String → Int → Option String → Except String Int := fun _ _ _ => .error ""
    let ticks : List Tick := [{ now := 2400 }, { now := 4600 }, { now := 5500 }]
    KeepsPhase schedule 2300 2500 ticks (laterRuns never { schedule with nextRun := 2500 } ticks) := by
  intro schedule never ticks
  have hinterval : schedule.IsInterval := ⟨rfl, rfl, rfl⟩
  have hsafe : schedule.StaysSafe 2300 := ⟨by decide, by decide, by decide⟩
  have hticks : TicksStaySafe schedule ticks := by simp [TicksStaySafe, ticks, schedule, maxSafeInteger]
  have hcomputed : computeInitialSchedulerNextRun never schedule 2300 = .ok (some 2500) := by decide +kernel
  obtain ⟨first, -, ⟨hnone, -⟩ | ⟨hsome, hkeeps⟩⟩ :=
    @intervals_keep_phase never schedule 2300 hinterval hsafe
  · rw [hcomputed] at hnone
    cases hnone
  · rw [hcomputed] at hsome
    cases hsome
    exact hkeeps { schedule with nextRun := 2500 } ticks rfl rfl hticks

/-- The longest interval, from a clock reading of our days: the sum is rounded. -/
theorem interval_leaves_phase :
    ¬ ∀ (schedule : Schedule) (now first : Int) (e : SchedulerEntry) (ticks : List Tick), schedule.IsInterval →
      0 < now → computeInitialSchedulerNextRun (fun _ _ _ => .error "") schedule now = .ok (some first) →
      e.toSchedule = schedule → e.nextRun = first →
      KeepsPhase schedule now first ticks (laterRuns (fun _ _ _ => .error "") e ticks) := by
  intro hclaim
  have hkeeps := hclaim { every := 9007199254740991 } 1700000000000 9008899254740992
    { every := 9007199254740991, nextRun := 9008899254740992 } [] ⟨by decide, rfl, rfl⟩ (by decide) (by decide +kernel)
    rfl rfl
  exact absurd (hkeeps.phase _ List.mem_cons_self) (by decide)

end GlideMq
