import GlideMq.Lua.Number
import GlideMq.Machine.Runs
import GlideMq.Model.SchedulerSteps

/-!
# The jobs that a scheduler fires

An entry fires no more jobs than its limit, and one with `repeatAfterComplete` fires no job beside
its last one. The entry itself has what this needs, the count and the id of the last job, and only a
tick writes them.
-/

namespace GlideMq

open Queue Machine

/-- What is said of a transaction that fires a job: the entry has fired less than its limit, and its
last job has been over if it must not run beside the next. -/
def FiresInTurn (s : SchedulerState) : SchedulerStep → Prop
  | .writeBatch _ _ =>
    match s.holder with
    | .write e _ (.fire _) =>
      (∀ limit ∈ e.limit, (s.fired : Int) + 1 ≤ limit) ∧
        (isValidSchedulerEvery e.repeatAfterComplete → ∀ J ∈ s.lastFired, s.wasOver J)
    | _ => True
  | _ => True

/-- An entry that is only moved to another run. -/
def Reruns (e next : SchedulerEntry) : Prop := ∃ n, next = { e with nextRun := n }

/-- What workers and the server can do to an entry. -/
inductive Drifts : Option SchedulerEntry → Option SchedulerEntry → Prop where
  | same (entry : Option SchedulerEntry) : Drifts entry entry
  | gone (entry : Option SchedulerEntry) : Drifts entry none
  | advanced {e next : SchedulerEntry} : e.nextRun = 0 → Reruns e next → Drifts (some e) (some next)

/-- The entry has the count and the last job. -/
def Accounts (entry : Option SchedulerEntry) (fired : Nat) (last : Option JobId) : Prop :=
  match entry with
  | none => fired = 0 ∧ last = none
  | some e => (fired : Int) ≤ e.iterationCount ∧ ∀ J ∈ last, nonempty e.inflightJobId = some J

/-- The entry that a tick is to write is there or gone. It waits for no job. -/
structure Held (entry : Option SchedulerEntry) (e : SchedulerEntry) : Prop where
  entry : entry = some e ∨ entry = none
  due : e.nextRun ≠ 0
  counted : 0 ≤ e.iterationCount

def HolderOk (s : SchedulerState) : Prop :=
  match s.holder with
  | .advance e next => Reruns e next
  | .await e _ _ J =>
    e.nextRun ≠ 0 ∧ e.limitReached = false ∧ nonempty e.inflightJobId = some J
  | .write e _ (.put next) => Held s.entry e ∧ Reruns e next
  | .write e _ (.fire _) =>
    Held s.entry e ∧ e.limitReached = false ∧
      (isValidSchedulerEvery e.repeatAfterComplete → ∀ J ∈ s.lastFired, s.wasOver J)
  | .cas schedule _ _ existing next =>
    next.inflightJobId = existing.bind SchedulerEntry.inflightJobId ∧
      next.iterationCount = ((existing.filter (keepsCount · schedule)).map SchedulerEntry.iterationCount).getD 0
  | _ => True

def CompletionOk : Completion → Prop
  | .cas _ _ _ e next _ => e.nextRun = 0 ∧ Reruns e next
  | _ => True

structure FiringInv (s : SchedulerState) : Prop where
  accounts : Accounts s.entry s.fired s.lastFired
  wasOver : ∀ J ∈ s.lastFired, ended (s.server.stateOf J) → s.wasOver J
  holder : HolderOk s
  completions : ∀ w, CompletionOk (s.completions w)

section

variable {nextCronOccurrence : String → Int → Option String → Except String Int}
variable {s : SchedulerState} {t : Queue} {e next : SchedulerEntry} {now : Int}

/-! ## The functions -/

theorem Reruns.count (h : Reruns e next) : next.iterationCount = e.iterationCount := by
  obtain ⟨n, rfl⟩ := h
  rfl

theorem Reruns.inflight (h : Reruns e next) : next.inflightJobId = e.inflightJobId := by
  obtain ⟨n, rfl⟩ := h
  rfl

theorem advancedEntry_reruns (h : advancedEntry nextCronOccurrence e now = some next) : Reruns e next := by
  unfold advancedEntry at h
  split at h
  · split at h
    · cases h
    · cases h
      exact ⟨_, rfl⟩
  · cases h

theorem casSchedulerEntry_cases (q : Queue) (name : String) (old : Option SchedulerEntry)
    (next : SchedulerEntry) :
    (q.schedulers name = old ∧ casSchedulerEntry q name old next = (q.setScheduler name (some next), true)) ∨
      casSchedulerEntry q name old next = (q, false) := by
  unfold casSchedulerEntry
  split
  · rename_i heq
    exact .inl ⟨heq, rfl⟩
  · exact .inr rfl

@[simp] theorem setScheduler_schedulers_self (q : Queue) (name : String) (entry : Option SchedulerEntry) :
    (q.setScheduler name entry).schedulers name = entry := by
  simp [Queue.setScheduler]

@[simp] theorem setScheduler_stateOf (q : Queue) (name : String) (entry : Option SchedulerEntry)
    (J : JobId) : (q.setScheduler name entry).stateOf J = q.stateOf J := rfl

theorem SchedulerEntry.advance_drifts {J : JobId} {timestamp : Int} :
    Drifts (some e) (e.advance J timestamp) := by
  unfold SchedulerEntry.advance
  split
  · exact .same _
  · rename_i hparked
    rw [not_or, not_not] at hparked
    split
    · exact .same _
    · dsimp only
      split
      · exact .gone _
      · exact .advanced hparked.2 ⟨_, rfl⟩

theorem advanceRepeatAfterComplete_drifts (q : Queue) (name : String) (J : JobId) (timestamp : Int) :
    Drifts (q.schedulers name) ((advanceRepeatAfterComplete q J timestamp).schedulers name) := by
  unfold advanceRepeatAfterComplete
  split
  · exact .same _
  · rename_i other _
    split
    · exact .same _
    · rename_i e he
      by_cases hname : name = other
      · subst hname
        rw [he, setScheduler_schedulers_self]
        exact SchedulerEntry.advance_drifts
      · have : (q.setScheduler other (e.advance J timestamp)).schedulers name = q.schedulers name := by
          simp [Queue.setScheduler, hname]
        rw [this]
        exact .same _

/-! ## Workers and the server -/

theorem Accounts.drifts {entry entry' : Option SchedulerEntry} {fired : Nat} {last : Option JobId}
    (h : Accounts entry fired last) (hdrifts : Drifts entry entry') :
    Accounts entry' (if entry' = none then 0 else fired) (if entry' = none then none else last) := by
  cases hdrifts with
  | same =>
    split
    · rename_i hnone
      rw [hnone]
      exact ⟨rfl, rfl⟩
    · exact h
  | gone => exact ⟨rfl, rfl⟩
  | advanced hparked hreruns =>
    unfold Accounts at h ⊢
    simp only [reduceCtorEq, if_false] at h ⊢
    rwa [hreruns.count, hreruns.inflight]

theorem Held.drifts {entry entry' : Option SchedulerEntry} (h : Held entry e) (hdrifts : Drifts entry entry') :
    Held entry' e := by
  refine ⟨?_, h.due, h.counted⟩
  have hentry := h.entry
  cases hdrifts with
  | same => exact hentry
  | gone => exact .inr rfl
  | advanced hparked _ =>
    rcases hentry with heq | hnone
    · cases heq
      exact absurd hparked h.due
    · cases hnone

theorem FiringInv.withServer (h : FiringInv s) (hdrifts : Drifts s.entry (t.schedulers s.name)) :
    FiringInv (s.withServer t) where
  accounts := h.accounts.drifts hdrifts
  wasOver J hJ hended := by
    simp only [SchedulerState.withServer] at hended ⊢
    rw [hended, Bool.or_true]
  holder := by
    have hholder := h.holder
    have hover (J : JobId) (hJ : J ∈ (s.withServer t).lastFired)
        (hlast : ∀ J ∈ s.lastFired, s.wasOver J) : (s.withServer t).wasOver J := by
      simp only [SchedulerState.withServer, Option.mem_def] at hJ ⊢
      split at hJ
      · cases hJ
      · rw [hlast J hJ, Bool.true_or]
    have hsame : (s.withServer t).holder = s.holder := rfl
    unfold HolderOk at hholder ⊢
    rw [hsame]
    cases hcase : s.holder with
    | free | tick | look | upsert | done => trivial
    | advance | await | cas =>
      rw [hcase] at hholder
      exact hholder
    | write e now w =>
      rw [hcase] at hholder
      cases w with
      | delete => trivial
      | put next => exact ⟨hholder.1.drifts hdrifts, hholder.2⟩
      | fire following =>
        obtain ⟨hheld, hlimit, hlast⟩ := hholder
        exact ⟨hheld.drifts hdrifts, hlimit, fun hvalid J hJ => hover J hJ (hlast hvalid)⟩
  completions := h.completions

/-! ## The holder of the lock -/

theorem Accounts.reruns {fired : Nat} {last : Option JobId} (h : Accounts (some e) fired last)
    (hreruns : Reruns e next) : Accounts (some next) fired last := by
  unfold Accounts at h ⊢
  simp only at h ⊢
  rwa [hreruns.count, hreruns.inflight]

theorem Held.fired_le (hheld : Held s.entry e) (h : FiringInv s) : (s.fired : Int) ≤ e.iterationCount := by
  have haccounts := h.accounts
  have hcounted := hheld.counted
  rcases hheld.entry with hentry | hentry <;> rw [hentry] at haccounts
  · exact haccounts.1
  · rw [haccounts.1]
    exact hcounted

theorem held_of_entry (h : FiringInv s) (hentry : s.entry = some e) (hdue : e.nextRun ≠ 0) :
    Held s.entry e := by
  have haccounts := h.accounts
  rw [hentry] at haccounts
  exact ⟨.inl hentry, hdue, le_trans (Int.natCast_nonneg _) haccounts.1⟩

theorem FiringInv.written (h : FiringInv s) {entry : Option SchedulerEntry}
    (hentry : t.schedulers s.name = entry) (haccounts : Accounts entry s.fired s.lastFired ∨ entry = none) :
    FiringInv { s.withServer t with holder := .done } where
  accounts := by
    have hnew : ({ s.withServer t with holder := .done } : SchedulerState).entry = entry := hentry
    rw [hnew]
    simp only [SchedulerState.withServer, hentry]
    split
    · rename_i hnone
      rw [hnone]
      exact ⟨rfl, rfl⟩
    · rename_i hsome
      exact haccounts.resolve_right hsome
  wasOver J hJ hended := by
    simp only [SchedulerState.withServer] at hended ⊢
    rw [hended, Bool.or_true]
  holder := trivial
  completions := h.completions

theorem FiringInv.moves (h : FiringInv s) {holder : LockHolder} {readAt : Nat}
    (hholder : HolderOk { s with holder, readAt }) : FiringInv { s with holder, readAt } :=
  ⟨h.accounts, h.wasOver, hholder, h.completions⟩

theorem planDue_cases {prepared : Bool} {inflight : Option JobId} {plan : TickPlan}
    (hplan : planTick.planDue nextCronOccurrence e now prepared inflight = plan) :
    match plan with
    | .parked _ => False
    | .skip next => e.nextRun ≠ 0 ∧ Reruns e next
    | .fire _ awaited => e.nextRun ≠ 0 ∧ e.limitReached = false ∧
        awaited = if isValidSchedulerEvery e.repeatAfterComplete then inflight else none
    | _ => True := by
  unfold planTick.planDue at hplan
  split at hplan
  · subst hplan
    trivial
  rename_i hnow
  rw [not_or] at hnow
  split at hplan
  · subst hplan
    trivial
  rename_i hends
  rw [not_or, Bool.not_eq_true] at hends
  split at hplan
  · subst hplan
    trivial
  · split at hplan
    · subst hplan
      exact ⟨hnow.1, hends.1, rfl⟩
    · split at hplan
      · subst hplan
        trivial
      · subst hplan
        exact ⟨hnow.1, _, rfl⟩

theorem planTick_ok (h : FiringInv s) (hentry : s.entry = some e) {prepared : Bool} {readAt : Nat} :
    HolderOk { s with holder := tickWork e now (planTick nextCronOccurrence e now prepared), readAt } := by
  unfold planTick
  split
  · trivial
  have hdue (inflight : Option JobId) (hsame : nonempty e.inflightJobId = inflight) :
      HolderOk
        { s with holder := tickWork e now (planTick.planDue nextCronOccurrence e now prepared inflight), readAt } := by
    cases hplan : planTick.planDue nextCronOccurrence e now prepared inflight with
    | wait | delete | parked J => trivial
    | skip next =>
      obtain ⟨hnext, hreruns⟩ := planDue_cases hplan
      have hheld : Held s.entry e := held_of_entry h hentry hnext
      exact ⟨hheld, hreruns⟩
    | fire following awaited =>
      obtain ⟨hnext, hlimit, hawaited⟩ := planDue_cases hplan
      have hheld : Held s.entry e := held_of_entry h hentry hnext
      cases awaited with
      | none =>
        refine ⟨hheld, hlimit, fun hvalid J hJ => ?_⟩
        -- the entry has no last job, and it would have one
        rw [if_pos hvalid] at hawaited
        have haccounts := h.accounts
        rw [hentry] at haccounts
        have hlast := haccounts.2 J hJ
        rw [hsame, ← hawaited] at hlast
        cases hlast
      | some J =>
        refine ⟨hnext, hlimit, ?_⟩
        split at hawaited
        · rw [hsame, hawaited]
        · cases hawaited
  cases hinflight : nonempty e.inflightJobId with
  | none => exact hdue none hinflight
  | some J =>
    simp only
    split
    · trivial
    · exact hdue (some J) hinflight

theorem schedulerAwaitInflight_cases (q : Queue) (name : String) (J : JobId) (e : SchedulerEntry) :
    (schedulerAwaitInflight q name J e = (q, .changed) ∨
      q.schedulers name = some e ∧ ended (q.stateOf J) ∧ schedulerAwaitInflight q name J e = (q, .finished)) ∨
      q.schedulers name = some e ∧
        schedulerAwaitInflight q name J e = (q.setScheduler name (some { e with nextRun := 0 }), .parked) := by
  unfold schedulerAwaitInflight
  split
  · exact .inl (.inl rfl)
  · rename_i hentry
    rw [not_not] at hentry
    split
    · rename_i hended
      exact .inl (.inr ⟨hentry, hended, rfl⟩)
    · exact .inr ⟨hentry, rfl⟩

theorem awaitInflight_firingInv (h : FiringInv s) {following : Option Int} {J : JobId}
    (hholder : s.holder = .await e now following J) :
    FiringInv (schedulerStep nextCronOccurrence s .awaitInflight) := by
  have hok := h.holder
  unfold HolderOk at hok
  rw [hholder] at hok
  obtain ⟨hdue, hlimit, hinflight⟩ := hok
  have hsame : FiringInv (s.withServer s.server) := h.withServer (.same _)
  simp only [schedulerStep, hholder]
  rcases schedulerAwaitInflight_cases s.server s.name J e with
    (hchanged | ⟨hentry, hended, hfinished⟩) | ⟨hentry, hparked⟩
  · rw [hchanged]
    exact hsame.moves trivial
  · rw [hfinished]
    have hheld : Held (s.withServer s.server).entry e := held_of_entry hsame hentry hdue
    refine hsame.moves ⟨hheld, hlimit, fun _ K hK => ?_⟩
    have haccounts := hsame.accounts
    rw [show (s.withServer s.server).entry = some e from hentry] at haccounts
    have hlast := haccounts.2 K hK
    rw [hinflight, Option.some.injEq] at hlast
    subst hlast
    exact hsame.wasOver J hK hended
  · rw [hparked]
    have haccounts := h.accounts
    rw [show s.entry = some e from hentry] at haccounts
    exact h.written (setScheduler_schedulers_self _ _ _) (.inl (haccounts.reruns ⟨0, rfl⟩))

theorem nonempty_repr (n : Nat) : nonempty (some n.repr) = some n.repr := by
  have hdigits := Lua.isDigits_repr n
  have hne : n.repr ≠ "" := by
    intro hempty
    rw [hempty] at hdigits
    exact absurd hdigits (by decide)
  simp [nonempty, hne]

theorem firedEntry_cases {following : Option Int} {J : JobId} (h : firedEntry e now following J = some next) :
    next.iterationCount = e.iterationCount + 1 ∧ next.inflightJobId = some J := by
  unfold firedEntry at h
  dsimp only at h
  split at h
  · cases h
  · split at h
    · cases h
      exact ⟨rfl, rfl⟩
    · obtain ⟨n, -, rfl⟩ := Option.map_eq_some_iff.mp h
      exact ⟨rfl, rfl⟩

theorem recordFired_firingInv (h : FiringInv s) (hheld : Held s.entry e) {following : Option Int} {id : Nat}
    (hentry : t.schedulers s.name = firedEntry e now following id.repr) :
    FiringInv { (s.withServer t).recordFired id.repr with holder := .done } := by
  unfold SchedulerState.recordFired
  split
  · rename_i hnone
    exact h.written hnone (.inr rfl)
  · rename_i hsome
    have hnew : (s.withServer t).entry = firedEntry e now following id.repr := hentry
    cases hfired : firedEntry e now following id.repr with
    | none => exact absurd (hnew.trans hfired) hsome
    | some next =>
      obtain ⟨hcount, hinflight⟩ := firedEntry_cases hfired
      have hle := hheld.fired_le h
      have hkept : (s.withServer t).fired = s.fired := by
        simp [SchedulerState.withServer, hentry, hfired]
      refine ⟨?_, ?_, trivial, h.completions⟩
      · change Accounts (s.withServer t).entry ((s.withServer t).fired + 1) (some id.repr)
        rw [hnew, hfired, hkept]
        refine ⟨?_, fun J hJ => ?_⟩
        · rw [hcount]
          omega
        · cases hJ
          rw [hinflight]
          exact nonempty_repr id
      · rintro J hJ hended
        cases hJ
        simpa using hended

theorem writeBatch_firingInv (h : FiringInv s) {w : TickWrite} (hholder : s.holder = .write e now w)
    (id : Nat) (args : AddArgs) :
    FiringInv (schedulerStep nextCronOccurrence s (.writeBatch id args)) := by
  have hok := h.holder
  unfold HolderOk at hok
  rw [hholder] at hok
  simp only [schedulerStep, hholder]
  cases w with
  | put next =>
    obtain ⟨hheld, hreruns⟩ := hok
    refine h.written (setScheduler_schedulers_self _ _ _) (.inl ?_)
    have hle := hheld.fired_le h
    have haccounts := h.accounts
    rcases hheld.entry with hentry | hentry <;> rw [hentry] at haccounts
    · exact haccounts.reruns hreruns
    · refine ⟨by rw [hreruns.count]; exact hle, fun J hJ => ?_⟩
      rw [haccounts.2] at hJ
      cases hJ
  | delete => exact h.written (setScheduler_schedulers_self _ _ _) (.inr rfl)
  | fire following => exact recordFired_firingInv h hok.1 (setScheduler_schedulers_self _ _ _)

/-! ## Upserts -/

theorem upsertEntry_ok {existing : Option SchedulerEntry} {schedule : Schedule} {template : Option String}
    (h : upsertEntry nextCronOccurrence existing schedule template now = .ok next) :
    next.inflightJobId = existing.bind SchedulerEntry.inflightJobId ∧
      next.iterationCount =
        ((existing.filter (keepsCount · schedule)).map SchedulerEntry.iterationCount).getD 0 := by
  unfold upsertEntry at h
  cases hinitial : computeInitialSchedulerNextRun nextCronOccurrence schedule now with
  | error message =>
    rw [hinitial] at h
    cases h
  | ok initial =>
    rw [hinitial] at h
    simp only [bind, Except.bind] at h
    split at h
    · cases h
    · cases h
      exact ⟨rfl, rfl⟩

theorem casUpsert_firingInv (h : FiringInv s) {schedule : Schedule} {template : Option String}
    {attempt : Nat} {existing : Option SchedulerEntry}
    (hholder : s.holder = .cas schedule template attempt existing next) :
    FiringInv (schedulerStep nextCronOccurrence s .casUpsert) := by
  have hok := h.holder
  unfold HolderOk at hok
  rw [hholder] at hok
  obtain ⟨hinflight, hcount⟩ := hok
  simp only [schedulerStep, hholder]
  rcases casSchedulerEntry_cases s.server s.name existing next with ⟨hentry, hwritten⟩ | hfailed
  · rw [hwritten]
    have haccounts := h.accounts
    rw [show s.entry = existing from hentry] at haccounts
    have hnew : (s.server.setScheduler s.name (some next)).schedulers s.name = some next :=
      setScheduler_schedulers_self _ _ _
    have hlast : (s.withServer (s.server.setScheduler s.name (some next))).lastFired = s.lastFired := by
      simp [SchedulerState.withServer]
    have hfired : (s.withServer (s.server.setScheduler s.name (some next))).fired = s.fired := by
      simp [SchedulerState.withServer]
    refine ⟨?_, fun J hJ hended => ?_, trivial, h.completions⟩
    · change Accounts ((s.server.setScheduler s.name (some next)).schedulers s.name)
        (if existing.any (keepsCount · schedule) then
          (s.withServer (s.server.setScheduler s.name (some next))).fired else 0)
        (s.withServer (s.server.setScheduler s.name (some next))).lastFired
      rw [hnew, hlast, hfired]
      unfold Accounts
      simp only
      rw [hinflight, hcount]
      cases existing with
      | none =>
        refine ⟨by simp, fun J hJ => ?_⟩
        rw [haccounts.2] at hJ
        cases hJ
      | some old =>
        refine ⟨?_, haccounts.2⟩
        cases hkeeps : keepsCount old schedule with
        | false => simp [hkeeps, Option.filter]
        | true => simpa [hkeeps, Option.filter] using haccounts.1
    · simp only [SchedulerState.recordUpsert, SchedulerState.withServer] at hended ⊢
      rw [hended, Bool.or_true]
  · rw [hfailed]
    simp only
    split
    · exact h.moves trivial
    · exact h.moves trivial

/-! ## Runs -/

theorem writeEntry_firingInv (h : FiringInv s) (w : Nat) :
    FiringInv (schedulerStep nextCronOccurrence s (.writeEntry w)) := by
  have hothers {t : Queue} {stage : Completion} (hdrifts : Drifts s.entry (t.schedulers s.name))
      (hstage : CompletionOk stage) :
      FiringInv { s.withServer t with completions := Function.update s.completions w stage } := by
    have hnext := h.withServer hdrifts
    exact ⟨hnext.accounts, hnext.wasOver, hnext.holder, forall_update h.completions hstage⟩
  simp only [schedulerStep]
  split
  · refine hothers ?_ trivial
    rw [setScheduler_schedulers_self]
    exact .gone _
  · rename_i J now attempt e next readAt hstage
    have hok := h.completions w
    rw [hstage] at hok
    have hidle (written : Bool) : CompletionOk
        (if written ∨ 3 ≤ attempt + 1 then .idle else .read J now (attempt + 1)) := by
      split <;> trivial
    rcases casSchedulerEntry_cases s.server s.name (some e) next with ⟨hentry, hwritten⟩ | hfailed
    · rw [hwritten]
      refine hothers ?_ (hidle true)
      rw [setScheduler_schedulers_self, show s.entry = some e from hentry]
      exact .advanced hok.1 hok.2
    · rw [hfailed]
      exact hothers (.same _) (hidle false)
  · exact h

theorem readEntry_firingInv (h : FiringInv s) (w : Nat) :
    FiringInv (schedulerStep nextCronOccurrence s (.readEntry w)) := by
  simp only [schedulerStep]
  split
  · rename_i J now attempt hstage
    refine ⟨h.accounts, h.wasOver, h.holder, forall_update h.completions ?_⟩
    split
    · trivial
    · rename_i e hentry
      split
      · trivial
      · rename_i hreports
        split
        · trivial
        · rename_i next hadvanced
          refine ⟨?_, advancedEntry_reruns hadvanced⟩
          simp only [ignoresCompletion, Bool.not_eq_true, Bool.or_eq_false_iff] at hreports
          simpa using hreports.1.2
  · exact h

/-- The step lemma, by cases on what the party does. -/
theorem schedulerStep_firingInv (h : FiringInv s) (c : SchedulerStep) :
    FiringInv (schedulerStep nextCronOccurrence s c) := by
  cases c with
  | lockTick now =>
    simp only [schedulerStep]
    split
    · exact h.moves trivial
    · exact h
  | readTick prepared =>
    simp only [schedulerStep]
    split
    · split
      · exact h.moves trivial
      · rename_i hentry
        exact h.moves (planTick_ok h hentry)
    · exact h
  | lookAtJob =>
    simp only [schedulerStep]
    split
    · split
      · split
        · exact h.moves trivial
        · rename_i hadvanced
          exact h.moves (advancedEntry_reruns hadvanced)
      · exact h.moves trivial
    · exact h
  | advanceParked =>
    simp only [schedulerStep]
    split
    · rename_i e next hholder
      have hok := h.holder
      unfold HolderOk at hok
      rw [hholder] at hok
      have haccounts := h.accounts
      rcases casSchedulerEntry_cases s.server s.name (some e) next with ⟨hentry, hwritten⟩ | hfailed
      · rw [hwritten]
        rw [show s.entry = some e from hentry] at haccounts
        exact h.written (setScheduler_schedulers_self _ _ _) (.inl (haccounts.reruns hok))
      · rw [hfailed]
        exact h.written rfl (.inl haccounts)
    · exact h
  | awaitInflight =>
    cases hholder : s.holder with
    | await e now following J => exact awaitInflight_firingInv h hholder
    | _ =>
      simp only [schedulerStep, hholder]
      exact h
  | writeBatch id args =>
    cases hholder : s.holder with
    | write e now w => exact writeBatch_firingInv h hholder id args
    | _ =>
      simp only [schedulerStep, hholder]
      exact h
  | lockUpsert schedule template =>
    simp only [schedulerStep]
    split
    · exact h.moves trivial
    · exact h
  | readUpsert now =>
    simp only [schedulerStep]
    split
    · split
      · exact h.moves trivial
      · rename_i hnext
        exact h.moves (upsertEntry_ok hnext)
    · exact h
  | casUpsert =>
    cases hholder : s.holder with
    | cas schedule template attempt existing next => exact casUpsert_firingInv h hholder
    | _ =>
      simp only [schedulerStep, hholder]
      exact h
  | release => exact h.moves trivial
  | removeScheduler =>
    simp only [schedulerStep]
    split
    · refine h.withServer ?_
      rw [setScheduler_schedulers_self]
      exact .gone _
    · exact h
  | complete w J now =>
    simp only [schedulerStep]
    split
    · exact ⟨h.accounts, h.wasOver, h.holder, forall_update h.completions trivial⟩
    · exact h
  | readEntry w => exact readEntry_firingInv h w
  | writeEntry w => exact writeEntry_firingInv h w
  | failJob J timestamp => exact h.withServer (advanceRepeatAfterComplete_drifts _ _ _ _)
  | others t => exact h.withServer (.same _)

theorem firesInTurn_of_inv (h : FiringInv s) (c : SchedulerStep) : FiresInTurn s c := by
  cases c with
  | writeBatch id args =>
    unfold FiresInTurn
    cases hholder : s.holder with
    | write e now w =>
      cases w with
      | put next | delete => trivial
      | fire following =>
        have hok := h.holder
        unfold HolderOk at hok
        rw [hholder] at hok
        obtain ⟨hheld, hlimit, hlast⟩ := hok
        refine ⟨fun limit hmem => ?_, hlast⟩
        have hle := hheld.fired_le h
        unfold SchedulerEntry.limitReached at hlimit
        rw [Option.mem_def.mp hmem, Option.any_some, decide_eq_false_iff_not] at hlimit
        omega
    | _ => trivial
  | _ => trivial

theorem meets_of_firingInv (h : FiringInv s) (steps : List SchedulerStep) :
    Meets (schedulerStep nextCronOccurrence) FiresInTurn s steps := by
  induction steps generalizing s with
  | nil => trivial
  | cons c steps ih => exact ⟨firesInTurn_of_inv h c, ih (schedulerStep_firingInv h c)⟩

/-- In every run from a queue without the entry, each job is fired in turn. -/
theorem schedulers_fire_in_turn {q : Queue} {name : String} (hnew : q.schedulers name = none)
    (steps : List SchedulerStep) :
    Meets (schedulerStep nextCronOccurrence) FiresInTurn { server := q, name } steps := by
  have haccounts : Accounts (q.schedulers name) 0 none := by
    rw [hnew]
    exact ⟨rfl, rfl⟩
  have hinv : FiringInv { server := q, name } := ⟨haccounts, by simp, trivial, fun _ => trivial⟩
  exact meets_of_firingInv hinv steps

end

/-- Two ticks, the second one after the job of the first was removed. -/
theorem schedulers_fire_in_turn_twice :
    let never : String → Int → Option String → Except String Int := fun _ _ _ => .error ""
    Meets (schedulerStep never) FiresInTurn { server := { name := "q" }, name := "s" }
      [.lockUpsert { repeatAfterComplete := 1000, limit := some 2 } none, .readUpsert 10, .casUpsert, .release,
        .lockTick 10, .readTick true, .writeBatch 1 { timestamp := 10, serverNow := 10 }, .release,
        .others { name := "q" }, .lockTick 20, .readTick true, .lookAtJob, .advanceParked, .release,
        .lockTick 1020, .readTick true, .awaitInflight,
        .writeBatch 2 { timestamp := 1020, serverNow := 1020 }] :=
  schedulers_fire_in_turn rfl _

end GlideMq
