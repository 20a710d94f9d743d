import GlideMq.Machine.FixedWindow
import GlideMq.Proofs.GroupRuns

/-!
# The rate window of a group

The counter of a group whose settings never change counts the activations of its current window, as
long as only activations of that window are given back and no job of the group starts past the gates.
So no window holds more than the group allows.
-/

namespace GlideMq

open Queue Redis FixedWindow

/-- The activations of a group, without those that were given back, the latest first. -/
abbrev ActivationLog := List (JobId × Int)

/-- The job whose activation in the group the call gives back. -/
def Call.undoneIn (s : Queue) (gk : GroupKey) : Call → Option JobId
  | .deferActive a =>
    if a.undoGroupClaim ∧ s.jobs a.jobId ≠ none ∧ (s.job a.jobId).groupKey = some gk then some a.jobId
    else none
  | _ => none

/-- The job of the group that the call starts. -/
def Call.startedIn (s : Queue) (gk : GroupKey) (c : Call) : Option JobId :=
  match c.activation s with
  | some (J, _, fields) => if fields.groupKey = some gk then some J else none
  | none => none

def Call.logged (s : Queue) (gk : GroupKey) (c : Call) (log : ActivationLog) : ActivationLog :=
  match c.undoneIn s gk, c.startedIn s gk with
  | some J, _ => forget log J
  | none, some J => (J, c.startsAt.getD 0) :: log
  | none, none => log

def SysCall.logged (S : Sys) (q : QueueName) (gk : GroupKey) (log : ActivationLog) : SysCall → ActivationLog
  | .on q' c => if q' = q then c.logged (S q) gk log else log
  | _ => log

/-- A step of a run with the activations of one group. -/
def loggedStep (q : QueueName) (gk : GroupKey) (x : Sys × ActivationLog) (call : Int × SysCall) :
    Sys × ActivationLog :=
  (sysStep x.1 call.2, call.2.logged x.1 q gk x.2)

/-! ## Conditions -/

/-- Settings that leave the window of the group as it is. -/
def Config.KeepsRate (rateMax duration : Int) (g : GroupHash) : Config → Prop
  | .add c => c.rateMax = rateMax ∧ c.rateDuration = duration
  | .flow c => c.rateMax = rateMax ∧ c.rateDuration = duration ∨ c.rateMax ≤ 0 ∧ 0 < g.rateMax

/-- What is given back was activated in the current window, or the window is empty. -/
def Call.UndoesCurrent (s : Queue) (gk : GroupKey) (c : Call) : Prop :=
  ∀ J ∈ c.undoneIn s gk, (s.groups gk).rateCount ≤ 0 ∨ (s.job J).state = some .active ∧
    ∃ since ∈ (s.job J).processedOn, (s.groups gk).rateWindowStart ≤ since

/-- A chain call finds no job of the group in the LIFO list. -/
def Call.NoLifoJob (s : Queue) (gk : GroupKey) (c : Call) : Prop :=
  c.chains → ∀ J ∈ s.lifoList, (s.job J).groupKey ≠ some gk

def SysCall.StaysCounted (S : Sys) (q : QueueName) (gk : GroupKey) : SysCall → Prop
  | .on q' c => q' = q → c.UndoesCurrent (S q) gk ∧ c.NoLifoJob (S q) gk
  | _ => True

/-- A call on a group whose settings stay as they are, at the time `x` of the workers' clock. -/
structure SteadyRateCall (q : QueueName) (gk : GroupKey) (rateMax duration : Int)
    (x : Sys × ActivationLog) (call : Int × SysCall) : Prop where
  clock : ∀ y ∈ call.2.startsAt, y = call.1
  settings : call.2.Carries fun q' gk' f =>
    q' = q ∧ gk' = gk → f.KeepsRate rateMax duration ((x.1 q).groups gk)
  first : call.2.FirstStart x.1 q gk

/-! ## Postings of the log -/

section

variable {s : Queue} {gk : GroupKey} {c : Call} {J : JobId}

theorem undoneIn_eq_some : c.undoneIn s gk = some J ↔ ∃ a, c = .deferActive a ∧ J = a.jobId ∧
    a.undoGroupClaim ∧ s.jobs a.jobId ≠ none ∧ (s.job a.jobId).groupKey = some gk := by
  constructor
  · intro h
    cases c with
    | deferActive a =>
      unfold Call.undoneIn at h
      simp only at h
      split at h
      · rename_i hundo
        exact ⟨a, rfl, (Option.some.inj h).symm, hundo⟩
      · cases h
    | _ => cases h
  · rintro ⟨a, rfl, rfl, hundo⟩
    exact if_pos hundo

theorem startedIn_eq_some : c.startedIn s gk = some J ↔
    ∃ e fields, c.activation s = some (J, e, fields) ∧ fields.groupKey = some gk := by
  unfold Call.startedIn
  constructor
  · intro h
    split at h
    · rename_i K e fields hact
      split at h
      · rename_i hgk
        cases h
        exact ⟨e, fields, hact, hgk⟩
      · cases h
    · cases h
  · rintro ⟨e, fields, hact, hgk⟩
    rw [hact]
    exact if_pos hgk

theorem undoneIn_key (h : c.undoneIn s gk = some J) : (s.job J).groupKey = some gk := by
  obtain ⟨a, -, rfl, -, -, hgk⟩ := undoneIn_eq_some.mp h
  exact hgk

theorem undoneIn_of_activation {r : JobId × Option Nat × Job} (h : c.activation s = some r) :
    c.undoneIn s gk = none := by
  cases c with
  | deferActive a => cases h
  | _ => rfl

theorem startedIn_key (h : c.startedIn s gk = some J) : (s.job J).groupKey = some gk := by
  obtain ⟨e, fields, hact, hgk⟩ := startedIn_eq_some.mp h
  exact call_keys s (adds_of_activation hact) J (by rw [← activation_groupKey hact, hgk])

/-- What the call does to the log, and what it posts. -/
inductive Record (s : Queue) (gk : GroupKey) (c : Call) : Prop
  | none (hundo : c.undoneIn s gk = none) (hstart : c.startedIn s gk = none)
      (hpost : c.posting s gk = none) (hlog : ∀ log, c.logged s gk log = log)
  | started {J : JobId} {y cost : Int} (h : c.startedIn s gk = some J) (hy : c.startsAt = some y)
      (hpost : c.posting s gk = some (.charge cost))
      (hlog : ∀ log, c.logged s gk log = (J, y) :: log)
  | undone {J : JobId} {cost : Int} (h : c.undoneIn s gk = some J)
      (hpost : c.posting s gk = some (.credit cost))
      (hlog : ∀ log, c.logged s gk log = forget log J)

theorem call_record (hlifo : c.NoLifoJob s gk) : Record s gk c := by
  cases hundo : c.undoneIn s gk with
  | some J =>
    obtain ⟨a, rfl, rfl, hcond⟩ := undoneIn_eq_some.mp hundo
    exact .undone hundo (if_pos hcond) fun log => by simp [Call.logged, hundo]
  | none =>
    cases hstart : c.startedIn s gk with
    | some J =>
      obtain ⟨e, fields, hact, hgk⟩ := startedIn_eq_some.mp hstart
      obtain ⟨y, hy⟩ := startsAt_of_activation hact
      have hgates : ¬ c.tookLifo s e = true := by
        intro htook
        refine hlifo (of_decide_eq_true htook).1 J (lifo_mem_of_tookLifo hact htook) ?_
        exact startedIn_key hstart
      have hpost : c.posting s gk = some (.charge (fields.cost.getD 1000)) := by
        unfold Call.posting
        split
        · cases hact
        · rw [hact]
          exact if_pos ⟨hgk, hgates⟩
      exact .started hstart hy hpost fun log => by simp [Call.logged, hundo, hstart, hy]
    | none =>
      refine .none hundo hstart ?_ fun log => by simp [Call.logged, hundo, hstart]
      unfold Call.posting
      split
      · rename_i a
        refine if_neg fun hcond => ?_
        rw [undoneIn_eq_some.mpr ⟨a, rfl, rfl, hcond⟩] at hundo
        cases hundo
      · split
        · rename_i K e fields hact
          refine if_neg fun h => ?_
          rw [startedIn_eq_some.mpr ⟨e, fields, hact, h.1⟩] at hstart
          cases hstart
        · rfl

end

/-! ## The window of a group -/

def GroupHash.window (g : GroupHash) : Window := ⟨g.rateWindowStart, g.rateCount⟩

structure RateUnset (g : GroupHash) : Prop where
  rateMax : g.rateMax = 0
  window : g.window = ⟨0, 0⟩

structure RateSet (rateMax duration : Int) (g : GroupHash) : Prop where
  rateMax : g.rateMax = rateMax
  duration : g.rateDuration = duration

section

variable {rateMax duration x now cost : Int} {g g' : GroupHash}

theorem rateFields_tbRefill (g : GroupHash) (x : Int) : (tbRefill g x).1.rateFields = g.rateFields := by
  unfold tbRefill GroupHash.rateFields
  grind

theorem Refilled.rateFields (h : Refilled x g g') : g'.rateFields = g.rateFields := by
  change g'.quota.rateFields = g.quota.rateFields
  rcases h with heq | heq
  · rw [heq]
  · rw [heq, rateFields_tbRefill]

theorem rateFields_charge (hset : RateSet rateMax duration g) (hmax : 0 < rateMax)
    (hduration : 0 < duration) :
    (g.charge cost now).rateFields =
      (rateMax, duration, (g.window.enter duration now).start, (g.window.enter duration now).count) := by
  have hrate := hset.rateMax
  have hdur := hset.duration
  unfold GroupHash.charge GroupHash.rateFields GroupHash.window Window.enter
  grind

theorem rateFields_credit :
    (g.credit cost).rateFields =
      (g.rateMax, g.rateDuration, g.window.release.start, g.window.release.count) := by
  unfold GroupHash.credit GroupHash.rateFields GroupHash.window Window.release
  grind

theorem window_open (hadmits : g.Admits cost now) (hset : RateSet rateMax duration g)
    (hmax : 0 < rateMax) (hduration : 0 < duration) :
    duration ≤ now - g.window.start ∨ g.window.count < rateMax := by
  have hwindow := hadmits.window
  have hrate := hset.rateMax
  have hdur := hset.duration
  unfold windowDelay at hwindow
  unfold GroupHash.window
  grind

/-! ## Settings -/

theorem rateFields_apply (f : Config) (g : GroupHash) (x : Int) :
    (f.apply x g).rateFields =
      match f with
      | .add c => (addedGroup g c 0 x).rateFields
      | .flow c => (flowGroup g c true x).rateFields := by
  cases f with
  | add c =>
    have hfields : ((Config.add c).apply x g).quota.rateFields = (addedGroup g c 0 x).quota.rateFields := by
      rw [quota_addedGroup]
    exact hfields
  | flow c => rfl

theorem rateFields_of_set (h : RateSet rateMax duration g) :
    g.rateFields = (rateMax, duration, g.window.start, g.window.count) := by
  unfold GroupHash.rateFields
  rw [h.rateMax, h.duration]
  rfl

theorem rateSet_of_fields {w : Window} (h : g.rateFields = (rateMax, duration, w.start, w.count)) :
    RateSet rateMax duration g ∧ g.window = w := by
  unfold GroupHash.rateFields at h
  simp only [Prod.mk.injEq] at h
  obtain ⟨hmax, hdur, hstart, hcount⟩ := h
  refine ⟨⟨hmax, hdur⟩, ?_⟩
  unfold GroupHash.window
  rw [hstart, hcount]

theorem rateFields_configured {g₀ : GroupHash} (hmax : 0 < rateMax) (hset : RateSet rateMax duration g)
    (h : Configured x (Config.KeepsRate rateMax duration g₀) g g') : g'.rateFields = g.rateFields := by
  induction h with
  | quiet h => exact h.rateFields
  | @config g g' f hf h =>
    change g'.quota.rateFields = g.rateFields
    rw [h]
    change (f.apply x g).rateFields = _
    rw [rateFields_apply, rateFields_of_set hset]
    cases f with
    | add c =>
      obtain ⟨hc, hd⟩ := hf
      simp only [addedGroup_rateFields, hc, hd, if_pos hmax]
      rfl
    | flow c =>
      simp only [flowGroup_rateFields]
      rcases hf with ⟨hc, hd⟩ | ⟨hc, -⟩
      · rw [hc, hd, if_pos hmax]
        rfl
      · rw [if_neg (not_lt.mpr hc), rateFields_of_set hset]
  | trans _ _ ih ih' =>
    have hmid := ih hset
    have hset' := (rateSet_of_fields (hmid.trans (rateFields_of_set hset))).1
    exact (ih' hset').trans hmid

/-- A window that nothing has started in. -/
inductive RateFresh (rateMax duration : Int) (g : GroupHash) : Prop
  | unset (h : RateUnset g)
  | set (h : RateSet rateMax duration g) (hwindow : g.window = ⟨0, 0⟩)

theorem RateFresh.window (h : RateFresh rateMax duration g) : g.window = ⟨0, 0⟩ := by
  cases h with
  | unset h => exact h.window
  | set h hwindow => exact hwindow

theorem rateSet_config {g₀ : GroupHash} {f : Config} (hmax : 0 < rateMax) (hunset : g₀.rateMax = 0)
    (hf : f.KeepsRate rateMax duration g₀) (hfresh : RateFresh rateMax duration g)
    (h : g'.quota = (f.apply x g).quota) : RateSet rateMax duration g' ∧ g'.window = ⟨0, 0⟩ := by
  apply rateSet_of_fields
  change g'.quota.rateFields = _
  rw [h]
  change (f.apply x g).rateFields = _
  have hwindow := hfresh.window
  unfold GroupHash.window at hwindow
  simp only [Window.mk.injEq] at hwindow
  rw [rateFields_apply]
  cases f with
  | add c =>
    obtain ⟨hc, hd⟩ := hf
    simp only [addedGroup_rateFields, hc, hd, if_pos hmax, hwindow]
  | flow c =>
    rcases hf with ⟨hc, hd⟩ | ⟨hc, hpos⟩
    · simp only [flowGroup_rateFields, hc, hd, if_pos hmax, hwindow]
    · omega

theorem RateFresh.configured {g₀ : GroupHash} (hmax : 0 < rateMax) (hunset : g₀.rateMax = 0)
    (hfresh : RateFresh rateMax duration g)
    (h : Configured x (Config.KeepsRate rateMax duration g₀) g g') : RateFresh rateMax duration g' := by
  induction h with
  | @quiet g g' h =>
    have hfields := h.rateFields
    unfold GroupHash.rateFields at hfields
    simp only [Prod.mk.injEq] at hfields
    have hwindow : g'.window = g.window := by
      unfold GroupHash.window
      rw [hfields.2.2.1, hfields.2.2.2]
    cases hfresh with
    | unset h => exact .unset ⟨hfields.1.trans h.rateMax, hwindow.trans h.window⟩
    | set h hzero =>
      exact .set ⟨hfields.1.trans h.rateMax, hfields.2.1.trans h.duration⟩ (hwindow.trans hzero)
  | config hf h =>
    obtain ⟨hset, hwindow⟩ := rateSet_config hmax hunset hf hfresh h
    exact .set hset hwindow
  | trans _ _ ih ih' => exact ih' (ih hfresh)

theorem RateFresh.reconfigured {g₀ : GroupHash} (hmax : 0 < rateMax) (hunset : g₀.rateMax = 0)
    (hfresh : RateFresh rateMax duration g)
    (h : Reconfigured x (Config.KeepsRate rateMax duration g₀) g g') : RateSet rateMax duration g' := by
  obtain ⟨g₁, g₂, f, hbefore, hf, heq, hafter⟩ := h
  obtain ⟨hset, -⟩ := rateSet_config hmax hunset hf (hfresh.configured hmax hunset hbefore) heq
  have hfields := rateFields_configured hmax hset hafter
  exact (rateSet_of_fields (hfields.trans (rateFields_of_set hset))).1

end

/-! ## The invariant -/

/-- The log of a group: its window is right about it, and it has every job that runs. -/
inductive Watched (rateMax duration : Int) (gk : GroupKey) (s : Queue) (log : ActivationLog) : Prop
  | unset (h : RateUnset (s.groups gk)) (hkeys : ∀ J, (s.job J).groupKey ≠ some gk) (hlog : log = [])
  | set (h : RateSet rateMax duration (s.groups gk))
      (hok : Ok rateMax duration (s.groups gk).window log)
      (hactive : ∀ J, (s.job J).state = some .active → (s.job J).groupKey = some gk →
        ∃ since, (s.job J).processedOn = some since ∧ log.find? (·.1 = J) = some (J, since))

section

variable {rateMax duration x start now : Int} {gk : GroupKey} {s t : Queue} {log : ActivationLog}

/-- A step keeps the log right, and every window within the limit. -/
structure WatchStep (rateMax duration x : Int) (gk : GroupKey) (s t : Queue) (log log' : ActivationLog) :
    Prop where
  watched : Watched rateMax duration gk t log'
  kept : ∀ start now, now ≤ x → Kept rateMax duration start now (s.groups gk).window log →
    Kept rateMax duration start x (t.groups gk).window log'

theorem Watched.adds {y : Int} {ok : GroupKey → Config → Prop} (hmax : 0 < rateMax)
    (h : Watched rateMax duration gk s log)
    (hok : ∀ f, ok gk f → f.KeepsRate rateMax duration (s.groups gk)) (hadds : Adds y ok s t) :
    WatchStep rateMax duration x gk s t log log := by
  have hconf := (hadds.groups gk).mono hok
  cases h with
  | unset h hkeys hlog =>
    have hfresh : RateFresh rateMax duration (s.groups gk) := .unset h
    have hwindow : (t.groups gk).window = (s.groups gk).window :=
      (hfresh.configured hmax h.rateMax hconf).window.trans hfresh.window.symm
    refine ⟨?_, fun start now hx hkept => by rw [hwindow]; exact hkept.later hx⟩
    cases hfresh.configured hmax h.rateMax hconf with
    | unset h' =>
      refine .unset h' (fun J hJ => ?_) hlog
      rcases hadds.keys J gk hJ with hold | ⟨g₁, g₂, f, hbefore, hf, heq, hafter⟩
      · exact hkeys J hold
      · have hset := hfresh.reconfigured hmax h.rateMax
          ⟨g₁, g₂, f, hbefore.mono hok, hok f hf, heq, hafter.mono hok⟩
        have := hset.rateMax
        rw [h'.rateMax] at this
        omega
    | set hset hzero =>
      refine .set hset ?_ fun J hst hJ => ?_
      · rw [hzero, hlog]
        exact ok_nil hmax.le 0
      · have hclaim := ((hadds.jobs J).active hst).2
        unfold Job.claim at hclaim
        simp only [Prod.mk.injEq] at hclaim
        exact absurd (hclaim.2.2 ▸ hJ) (hkeys J)
  | set h hok' hactive =>
    have hfields := (rateFields_configured hmax h hconf).trans (rateFields_of_set h)
    obtain ⟨hset, hwindow⟩ := rateSet_of_fields hfields
    refine ⟨.set hset (by rwa [hwindow]) fun J hst hJ => ?_,
      fun start now hx hkept => by rw [hwindow]; exact hkept.later hx⟩
    obtain ⟨hst', hclaim⟩ := (hadds.jobs J).active hst
    unfold Job.claim at hclaim
    simp only [Prod.mk.injEq] at hclaim
    rw [hclaim.2.1]
    exact hactive J hst' (hclaim.2.2 ▸ hJ)

theorem active_logged {c : Call}
    (hactive : ∀ J, (s.job J).state = some .active → (s.job J).groupKey = some gk →
      ∃ since, (s.job J).processedOn = some since ∧ log.find? (·.1 = J) = some (J, since))
    (J : JobId) (hst : ((c.run s).job J).state = some .active)
    (hJ : ((c.run s).job J).groupKey = some gk) :
    ∃ since, ((c.run s).job J).processedOn = some since ∧
      (c.logged s gk log).find? (·.1 = J) = some (J, since) := by
  cases call_active s c hst with
  | @started e fields hact hsince =>
    obtain ⟨y, hy⟩ := startsAt_of_activation hact
    have hundo : c.undoneIn s gk = none := undoneIn_of_activation hact
    have hstart : c.startedIn s gk = some J :=
      startedIn_eq_some.mpr ⟨e, fields, hact, by rw [activation_groupKey hact, hJ]⟩
    refine ⟨y, hsince.trans hy, ?_⟩
    unfold Call.logged
    rw [hundo, hstart, hy]
    simp
  | kept hnot hundo hst' hclaim =>
    unfold Job.claim at hclaim
    simp only [Prod.mk.injEq] at hclaim
    obtain ⟨since, hsince, hfind⟩ := hactive J hst' (hclaim.2.2 ▸ hJ)
    refine ⟨since, hclaim.2.1.trans hsince, ?_⟩
    unfold Call.logged
    cases hundone : c.undoneIn s gk with
    | some K =>
      obtain ⟨a, rfl, rfl, -, hj, -⟩ := undoneIn_eq_some.mp hundone
      exact (find_forget_of_ne (hundo a rfl hj)).trans hfind
    | none =>
      cases hstart : c.startedIn s gk with
      | some K =>
        obtain ⟨e, fields, hact, -⟩ := startedIn_eq_some.mp hstart
        have hne : K ≠ J := by
          rintro rfl
          exact hnot e fields hact
        rw [← hfind]
        exact List.find?_cons_of_neg (by simpa using hne)
      | none => exact hfind

theorem Watched.call {c : Call} (hmax : 0 < rateMax) (hduration : 0 < duration)
    (h : Watched rateMax duration gk s log) (hc : c.adds = false) (hclock : ∀ y ∈ c.startsAt, y = x)
    (hfirst : c.FirstStart s gk) (hundo : c.UndoesCurrent s gk) (hlifo : c.NoLifoJob s gk) :
    WatchStep rateMax duration x gk s (c.run s) log (c.logged s gk log) := by
  have hcarries : c.Carries fun _ _ => False := by
    cases c <;> trivial
  have hquota : QuotaStep (c.serverNow.getD 0) (c.startsAt.getD 0) (s.groups gk) ((c.run s).groups gk)
      (c.posting s gk) := by
    rcases call_quota (x := c.serverNow.getD 0) s (fun y hy => by rw [hy]; rfl) hcarries hfirst with hstep | ⟨hnone, hconf⟩
    · exact hstep
    · rw [hnone]
      exact .quiet (hconf.refilled fun _ hf => hf)
  have hkeys (J : JobId) : ((c.run s).job J).groupKey = some gk → (s.job J).groupKey = some gk :=
    call_keys s hc J
  cases h with
  | unset h hnokey hlog =>
    -- the group has no job yet
    cases call_record hlifo with
    | started hstart => exact absurd (startedIn_key hstart) (hnokey _)
    | undone hun => exact absurd (undoneIn_key hun) (hnokey _)
    | none hun hstart hpost hlog' =>
      rw [hpost] at hquota
      rw [hlog']
      cases hquota with
      | quiet hr =>
        have hfields := hr.rateFields
        unfold GroupHash.rateFields at hfields
        simp only [Prod.mk.injEq] at hfields
        have hwindow : ((c.run s).groups gk).window = (s.groups gk).window := by
          unfold GroupHash.window
          rw [hfields.2.2.1, hfields.2.2.2]
        refine ⟨.unset ⟨hfields.1.trans h.rateMax, hwindow.trans h.window⟩ (fun J hJ => ?_) hlog,
          fun start now hx hkept => by rw [hwindow]; exact hkept.later hx⟩
        exact hnokey J (hkeys J hJ)
  | set h hok hactive =>
    have hactive' := active_logged (c := c) hactive
    cases call_record hlifo with
    | none hun hstart hpost hlog =>
      rw [hpost] at hquota
      rw [hlog] at hactive' ⊢
      cases hquota with
      | quiet hr =>
        obtain ⟨hset, hwindow⟩ := rateSet_of_fields (hr.rateFields.trans (rateFields_of_set h))
        exact ⟨.set hset (by rwa [hwindow]) hactive',
          fun start now hx hkept => by rw [hwindow]; exact hkept.later hx⟩
    | @started J y cost hstart hy hpost hlog =>
      rw [hpost, hy] at hquota
      rw [hlog] at hactive' ⊢
      obtain rfl := hclock y hy
      cases hquota with
      | charge hr hfull hadmits hr' =>
        obtain ⟨hset₁, hwindow₁⟩ := rateSet_of_fields (hr.rateFields.trans (rateFields_of_set h))
        have hcharged := @rateFields_charge rateMax duration y cost _ hset₁ hmax hduration
        obtain ⟨hset, hwindow⟩ := rateSet_of_fields (hr'.rateFields.trans hcharged)
        rw [hwindow₁] at hwindow
        have hopen := window_open hadmits hset₁ hmax hduration
        rw [hwindow₁] at hopen
        refine ⟨.set hset ?_ hactive', fun start now hx hkept => ?_⟩
        · rw [hwindow]
          exact hok.enter hduration hmax hopen
        · rw [hwindow]
          exact hkept.enter hok hx
    | @undone J cost hun hpost hlog =>
      rw [hpost] at hquota
      rw [hlog] at hactive' ⊢
      cases hquota with
      | credit heq =>
        have hcredited : ((c.run s).groups gk).rateFields =
            (rateMax, duration, (s.groups gk).window.release.start,
              (s.groups gk).window.release.count) := by
          change ((c.run s).groups gk).quota.rateFields = _
          rw [heq]
          change ((s.groups gk).credit cost).rateFields = _
          rw [rateFields_credit, h.rateMax, h.duration]
        obtain ⟨hset, hwindow⟩ := rateSet_of_fields hcredited
        refine ⟨.set hset ?_ hactive', fun start now hx hkept => ?_⟩
        · rw [hwindow]
          refine hok.release ?_
          rcases hundo J hun with hzero | ⟨hst, since, hsince, hle⟩
          · exact .inl hzero
          · obtain ⟨since', hsince', hfind⟩ := hactive J hst (undoneIn_key hun)
            rw [hsince] at hsince'
            obtain rfl := Option.some.inj hsince'
            exact .inr ⟨since, hfind, hle⟩
        · rw [hwindow]
          exact (hkept.later hx).release

theorem WatchStep.refl (h : Watched rateMax duration gk s log) : WatchStep rateMax duration x gk s s log log :=
  ⟨h, fun _ _ hx hkept => hkept.later hx⟩

theorem logged_of_adds {c : Call} (hc : c.adds = true) (log : ActivationLog) : c.logged s gk log = log := by
  cases c <;> first | rfl | cases hc

end

section

variable {rateMax duration start now : Int} {q : QueueName} {gk : GroupKey} {x : Sys × ActivationLog}
  {call : Int × SysCall} {run : List (Int × SysCall)}

theorem Watched.loggedStep (hmax : 0 < rateMax) (hduration : 0 < duration)
    (h : Watched rateMax duration gk (x.1 q) x.2) (hsteady : SteadyRateCall q gk rateMax duration x call)
    (hcounted : call.2.StaysCounted x.1 q gk) :
    WatchStep rateMax duration call.1 gk (x.1 q) ((loggedStep q gk x call).1 q) x.2
      (loggedStep q gk x call).2 := by
  have hclock := hsteady.clock
  have hsettings := hsteady.settings
  have hfirst := hsteady.first
  obtain ⟨S, log⟩ := x
  obtain ⟨y, c⟩ := call
  unfold GlideMq.loggedStep
  dsimp only at *
  have hok (f : Config) (hf : q = q ∧ gk = gk → f.KeepsRate rateMax duration ((S q).groups gk)) :=
    hf ⟨rfl, rfl⟩
  cases c with
  | on q' c =>
    by_cases hq : q' = q
    · subst hq
      simp only [SysCall.logged, if_true, sysStep, onQueue, Function.update_self]
      obtain ⟨hundo, hlifo⟩ := hcounted rfl
      cases hadds : c.adds with
      | false => exact h.call hmax hduration hadds hclock (hfirst rfl) hundo hlifo
      | true =>
        rw [logged_of_adds hadds]
        have hcarries : c.Carries fun gk' f =>
          q' = q' ∧ gk' = gk → f.KeepsRate rateMax duration ((S q').groups gk) := hsettings
        exact h.adds hmax hok (call_adds (x := c.serverNow.getD 0) (S q') hadds
          (fun y hy => by rw [hy]; rfl) hcarries)
    · simp only [SysCall.logged, if_neg hq, sysStep, onQueue, Function.update_of_ne (Ne.symm hq)]
      exact .refl h
  | addFlow a => exact h.adds hmax hok (addFlow_adds rfl hsettings S q)
  | registerParent child parent =>
    have hadds : SysAdds 0 (fun _ _ _ => False) S (registerParent S child parent).1 :=
      registerParent_adds S child parent
    exact h.adds hmax (fun _ hf => hf.elim) (hadds q)

/-- No step of a run overfills the window that opened at `start`. -/
theorem windows_kept (hmax : 0 < rateMax) (hduration : 0 < duration)
    (h : Watched rateMax duration gk (x.1 q) x.2)
    (hkept : Kept rateMax duration start now ((x.1 q).groups gk).window x.2)
    (hfrom : ∀ call ∈ run, now ≤ call.1) (hclock : run.Pairwise (·.1 ≤ ·.1))
    (hsteady : Machine.Meets (loggedStep q gk) (fun x call =>
      SteadyRateCall q gk rateMax duration x call ∧ call.2.StaysCounted x.1 q gk) x run) :
    let y := Machine.run (loggedStep q gk) x run
    Watched rateMax duration gk (y.1 q) y.2 ∧
      ∃ now', Kept rateMax duration start now' ((y.1 q).groups gk).window y.2 := by
  induction run generalizing x now with
  | nil => exact ⟨h, now, hkept⟩
  | cons call run ih =>
    obtain ⟨⟨hcall, hcounted⟩, hrest⟩ := hsteady
    obtain ⟨hlater, hclock'⟩ := List.pairwise_cons.mp hclock
    have hstep := h.loggedStep hmax hduration hcall hcounted
    have hkept' := hstep.kept start now (hfrom call List.mem_cons_self) hkept
    exact ih hstep.watched hkept' hlater hclock' hrest

theorem Watched.held_le (h : Watched rateMax duration gk (x.1 q) x.2) (hmax : 0 < rateMax)
    (hkept : Kept rateMax duration start now ((x.1 q).groups gk).window x.2) :
    held duration start x.2 ≤ rateMax := by
  cases h with
  | unset h hkeys hlog =>
    rw [hlog]
    exact hmax.le
  | set h hok hactive => exact hkept.bound hok

/-- A window that was current at some time never holds more activations than the group allows, if only
activations of the current window are given back. -/
theorem rateWindow_limit (hmax : 0 < rateMax) (hduration : 0 < duration)
    {before after : List (Int × SysCall)} (hclock : (before ++ after).Pairwise (·.1 ≤ ·.1))
    (hsteady : Machine.Meets (loggedStep q gk) (fun x call =>
      SteadyRateCall q gk rateMax duration x call ∧ call.2.StaysCounted x.1 q gk)
      (emptySys, []) (before ++ after)) :
    held duration
        (((Machine.run (loggedStep q gk) (emptySys, []) before).1 q).groups gk).rateWindowStart
        (Machine.run (loggedStep q gk) (emptySys, []) (before ++ after)).2 ≤ rateMax := by
  obtain ⟨hbefore, hafter⟩ := hsteady.append
  obtain ⟨hclock₁, hclock₂, -⟩ := List.pairwise_append.mp hclock
  have hempty : Watched rateMax duration gk (emptySys q) [] :=
    .unset ⟨rfl, rfl⟩ (fun J hJ => nomatch hJ) rfl
  -- a lower bound of the times of a run
  have hfirst (run : List (Int × SysCall)) (hrun : run.Pairwise (·.1 ≤ ·.1)) :
      ∃ now, ∀ call ∈ run, now ≤ call.1 := by
    cases run with
    | nil => exact ⟨0, by simp⟩
    | cons call run =>
      refine ⟨call.1, fun c hc => ?_⟩
      rcases List.mem_cons.mp hc with rfl | hc
      · exact le_rfl
      · exact (List.pairwise_cons.mp hrun).1 c hc
  obtain ⟨now₁, hfrom₁⟩ := hfirst before hclock₁
  obtain ⟨now₂, hfrom₂⟩ := hfirst after hclock₂
  have hmid := (windows_kept hmax hduration hempty (.current rfl) hfrom₁ hclock₁ hbefore).1
  obtain ⟨hend, now, hkept⟩ := windows_kept hmax hduration hmid (.current rfl) hfrom₂ hclock₂ hafter
  rw [Machine.run_append]
  exact hend.held_le hmax hkept

end

/-- A job of a group that may start one job a second. -/
def windowedAdd : SysCall :=
  .on "q" (.addJob
    { timestamp := 0, serverNow := 0, orderingKey := some "k",
      group := { concurrency := 3, rateMax := 1, rateDuration := 1000 } })

def startFromStream (J : JobId) (entryId : Nat) (now : Int) : SysCall :=
  .on "q" (.moveToActive { jobId := J, entryId := some entryId, group := "w", timestamp := now, serverNow := now })

/-- The first job starts in a chain call and is given back when the next window is in use. -/
def lateUndo : List (Int × SysCall) :=
  [(0, .on "q" (.addJob { timestamp := 0, serverNow := 0 })),
   (0, windowedAdd), (0, windowedAdd), (0, windowedAdd),
   (1000, .on "q" (.readGroup "w" "a")), (1000, startFromStream "1" 1 1000),
   (1000, .on "q" (.completeAndFetchNext
    { jobId := "1", entryId := some 1, timestamp := 1000, serverNow := 1000, group := "w",
      consumer := "a" })),
   (2000, .on "q" (.readGroup "w" "b")), (2000, startFromStream "3" 3 2000),
   (2100, .on "q" (.deferActive
    { jobId := "2", entryId := some 2, group := "w", undoGroupClaim := true })),
   (2200, .on "q" (.readGroup "w" "b")), (2200, startFromStream "4" 4 2200)]

theorem steady_windowedAdd (x : Sys × ActivationLog) :
    SteadyRateCall "q" "k" 1 1000 x (0, windowedAdd) :=
  ⟨nofun, by rintro gk ⟨⟩ -; exact ⟨rfl, rfl⟩, fun _ => trivial⟩

theorem steady_read (x : Sys × ActivationLog) (now : Int) (consumer : String) :
    SteadyRateCall "q" "k" 1 1000 x (now, .on "q" (.readGroup "w" consumer)) :=
  ⟨nofun, trivial, fun _ => trivial⟩

theorem steady_startFromStream {x : Sys × ActivationLog} {J : JobId} {entryId : Nat} {now : Int}
    (h : isReturning (x.1 "q") "k" J = false) :
    SteadyRateCall "q" "k" 1 1000 x (now, startFromStream J entryId now) :=
  ⟨by rintro y ⟨⟩; rfl, trivial, fun _ _ => by simp [h]⟩

theorem lateUndo_overfills_window :
    lateUndo.Pairwise (·.1 ≤ ·.1) ∧
      Machine.Meets (loggedStep "q" "k") (SteadyRateCall "q" "k" 1 1000) (emptySys, []) lateUndo ∧
      let x := Machine.run (loggedStep "q" "k") (emptySys, []) lateUndo
      ((x.1 "q").groups "k").rateWindowStart = 2000 ∧ x.2 = [("4", 2200), ("3", 2000)] ∧
        1 < held 1000 ((x.1 "q").groups "k").rateWindowStart x.2 := by
  refine ⟨by simp [lateUndo], ⟨⟨nofun, nofun, fun _ => trivial⟩, steady_windowedAdd _, steady_windowedAdd _,
    steady_windowedAdd _, steady_read _ _ _, steady_startFromStream (by decide +kernel), ⟨?_, trivial, fun _ => trivial⟩,
    steady_read _ _ _, steady_startFromStream (by decide +kernel), ⟨nofun, trivial, fun _ => trivial⟩,
    steady_read _ _ _, steady_startFromStream (by decide +kernel), trivial⟩, by decide +kernel⟩
  rintro y ⟨⟩
  rfl

/-- A job that is given back in its own window, and starts again. -/
def promptUndo : List (Int × SysCall) :=
  [(0, windowedAdd), (1000, .on "q" (.readGroup "w" "a")), (1000, startFromStream "1" 1 1000),
   (1100, .on "q" (.deferActive
    { jobId := "1", entryId := some 1, group := "w", undoGroupClaim := true })),
   (1200, .on "q" (.readGroup "w" "a")), (1200, startFromStream "1" 2 1200)]

theorem promptUndo_within_limit :
    (Machine.run (loggedStep "q" "k") (emptySys, []) (promptUndo ++ [])).2 = [("1", 1200)] ∧
      held 1000
        (((Machine.run (loggedStep "q" "k") (emptySys, []) promptUndo).1 "q").groups "k").rateWindowStart
        (Machine.run (loggedStep "q" "k") (emptySys, []) (promptUndo ++ [])).2 ≤ (1 : Int) := by
  have hquiet {c : Call} {s : Queue} (hundo : c.undoneIn s "k" = none) (hchains : c.chains = false) :
      c.UndoesCurrent s "k" ∧ c.NoLifoJob s "k" := by
    unfold Call.UndoesCurrent Call.NoLifoJob
    rw [hundo, hchains]
    exact ⟨nofun, nofun⟩
  refine ⟨by decide +kernel, rateWindow_limit (by decide) (by decide) (by simp [promptUndo])
    ⟨⟨steady_windowedAdd _, fun _ => hquiet rfl rfl⟩, ⟨steady_read _ _ _, fun _ => hquiet rfl rfl⟩,
      ⟨steady_startFromStream (by decide +kernel), fun _ => hquiet rfl rfl⟩,
      ⟨⟨nofun, trivial, fun _ => trivial⟩, fun _ => ⟨?_, nofun⟩⟩,
      ⟨steady_read _ _ _, fun _ => hquiet rfl rfl⟩,
      ⟨steady_startFromStream (by decide +kernel), fun _ => hquiet rfl rfl⟩, trivial⟩⟩
  intro J hJ
  obtain ⟨a, ha, rfl, -⟩ := undoneIn_eq_some.mp hJ
  cases ha
  exact .inr ⟨by decide +kernel, 1000, by decide +kernel, by decide +kernel⟩

end GlideMq
