import GlideMq.Proofs.GroupConfigs
import GlideMq.Proofs.Postings

/-!
# What the calls of a run do to a group

A call posts to the quota of a group, or it adds jobs and configures it. A job that is active after a
call was active before, or the call's reply names it.
-/

namespace GlideMq

open Queue Redis

def SysCall.serverNow : SysCall → Option Int
  | .on _ c => c.serverNow
  | .addFlow a => some a.parent.serverNow
  | .registerParent _ _ => none

def SysCall.startsAt : SysCall → Option Int
  | .on _ c => c.startsAt
  | _ => none

/-- What the call posts to a group of one queue. -/
def SysCall.posting (S : Sys) (q : QueueName) (gk : GroupKey) : SysCall → Option Posting
  | .on q' c => if q' = q then c.posting (S q) gk else none
  | _ => none

/-- The jobs that a call adds carry settings that meet the condition. -/
def Call.Carries (ok : GroupKey → Config → Prop) : Call → Prop
  | .addJob a => ∀ gk ∈ a.orderingKey, ok gk (.add a.group)
  | .dedup a => ∀ gk ∈ a.orderingKey, ok gk (.add a.group)
  | _ => True

def SysCall.Carries (ok : QueueName → GroupKey → Config → Prop) : SysCall → Prop
  | .on q c => c.Carries (ok q)
  | .addFlow a => a.Carries ok
  | .registerParent _ _ => True

def Call.adds : Call → Bool
  | .addJob _ | .dedup _ => true
  | _ => false

/-- The call activates no job of the group for a second time. -/
def Call.FirstStart (s : Queue) (gk : GroupKey) : Call → Prop
  | .moveToActive a => (s.job a.jobId).groupKey = some gk → ¬ isReturning s gk a.jobId
  | _ => True

def SysCall.FirstStart (S : Sys) (q : QueueName) (gk : GroupKey) : SysCall → Prop
  | .on q' c => q' = q → c.FirstStart (S q) gk
  | _ => True

/-- A step of a run with times. -/
def timedStep (S : Sys) (call : Int × SysCall) : Sys := sysStep S call.2

def Posting.cost : Posting → Int
  | .charge cost | .credit cost => cost

section

variable {gk : GroupKey} {x : Int} {s t u : Queue}

theorem Attempt.fields_eq {now : Int} {J : JobId} {fields : Job}
    (h : Attempt x now s t J (some fields)) : fields = readBefore (s.job J) (t.job J) := by
  generalize hf : some fields = f at h
  cases h with
  | started => exact Option.some.inj hf
  | returned => exact Option.some.inj hf
  | idle => cases hf

theorem FetchEnd.activation_eq {now : Int} {next : ChainNext} {J : JobId} {e : Option Nat} {fields : Job}
    (h : FetchEnd x now s t next) (ha : next.activation = some (J, e, fields)) : fields = t.job J := by
  cases h with
  | started hidle hstarts hfields hkey =>
    cases ha
    exact hfields
  | idle hidle hnext =>
    cases next with
    | hash J' e' fields' => exact absurd rfl (hnext J' e' fields')
    | _ => cases ha

/-- What the reply says of `listSourced`. A chain call reads the hash after its write. -/
def Call.repliedSource (c : Call) (before stored : Job) : Option Bool :=
  match c with
  | .moveToActive _ => before.listSourced
  | _ => stored.listSourced

/-- The reply of an activation has the hash as it is then, but for the mark of `moveToActive`. -/
theorem activation_eq {c : Call} {J : JobId} {e : Option Nat} {fields : Job}
    (h : c.activation s = some (J, e, fields)) :
    fields = { (c.run s).job J with listSourced := c.repliedSource (s.job J) ((c.run s).job J) } := by
  cases c with
  | moveToActive a =>
    have hattempt := moveToActive_attempt s a
    simp only [Call.activation] at h
    obtain ⟨fields', hfields, heq⟩ := Option.map_eq_some_iff.mp h
    cases heq
    rw [hfields] at hattempt
    exact hattempt.fields_eq
  | completeAndFetchNext a =>
    simp only [Call.activation] at h
    rcases completeAndFetchNext_end s a with ⟨hnone, hs⟩ | ⟨reply, hreply, hend⟩
    · rw [hnone] at h
      cases h
    · rw [hreply] at h
      exact hend.activation_eq h
  | failAndFetchNext a consumer => exact (failAndFetchNext_end s a consumer).activation_eq h
  | _ => cases h

theorem activation_groupKey {c : Call} {J : JobId} {e : Option Nat} {fields : Job}
    (h : c.activation s = some (J, e, fields)) : fields.groupKey = ((c.run s).job J).groupKey := by
  rw [activation_eq h]

theorem startsAt_of_activation {c : Call} {r : JobId × Option Nat × Job} (h : c.activation s = some r) :
    ∃ y, c.startsAt = some y := by
  cases c with
  | moveToActive a => exact ⟨a.timestamp, rfl⟩
  | completeAndFetchNext a => exact ⟨a.timestamp, rfl⟩
  | failAndFetchNext a consumer => exact ⟨a.timestamp, rfl⟩
  | _ => cases h

theorem adds_of_activation {c : Call} {r : JobId × Option Nat × Job} (h : c.activation s = some r) :
    c.adds = false := by
  cases c with
  | addJob a => cases h
  | dedup a => cases h
  | _ => rfl

theorem posting_of_not_posts {c : Call} (hc : c.posts = false) : c.posting s gk = none := by
  cases c <;> first | rfl | cases hc

theorem activation_of_not_posts {c : Call} (hc : c.posts = false) : c.activation s = none := by
  cases c <;> first | rfl | cases hc

/-! ## Handed back claims -/

theorem jobs_undoClaim (s : Queue) (J : JobId) : (undoClaim s J).jobs = s.jobs := by
  unfold undoClaim
  simp only
  split <;> rfl

theorem deferActive_kept (s : Queue) (a : DeferArgs) (K : JobId) :
    JobKept (s.job K) ((deferActive s a).1.job K) := by
  rw [deferActive_eq]
  split
  · rw [job_of_jobs (jobs_giveBack s a.jobId a.group a.entryId)]
    exact .refl _
  have hkept : JobKept (s.job K) ((putBack s a).job K) := (putBack_settles (x := 0) s a).idle_call.jobs K
  split
  · rwa [job_of_jobs (jobs_undoClaim _ _)]
  · exact hkept

theorem deferActive_not_active {a : DeferArgs} (hj : s.jobs a.jobId ≠ none) :
    ((deferActive s a).1.job a.jobId).state ≠ some .active := by
  rw [deferActive_eq, if_neg hj]
  have hst : ((putBack s a).job a.jobId).state = some .waiting := by rw [job_putBack]
  split
  · rw [job_of_jobs (jobs_undoClaim _ _), hst]
    exact nofun
  · rw [hst]
    exact nofun

/-! ## Active jobs -/

/-- How a job comes to be active after a call. -/
inductive ActiveAfter (s t : Queue) (c : Call) (J : JobId) : Prop
  | started {e : Option Nat} {fields : Job} (h : c.activation s = some (J, e, fields))
      (hsince : (t.job J).processedOn = c.startsAt)
  | kept (hnot : ∀ e fields, c.activation s ≠ some (J, e, fields))
      (hundo : ∀ a, c = .deferActive a → s.jobs a.jobId ≠ none → J ≠ a.jobId)
      (hactive : (s.job J).state = some .active) (hclaim : (t.job J).claim = (s.job J).claim)

theorem ActiveAfter.of_calm {c : Call} {J : JobId} (hact : c.activation s = none)
    (hdefer : ∀ a, c ≠ .deferActive a) (hkept : JobCalm (s.job J) (t.job J))
    (h : (t.job J).state = some .active) : ActiveAfter s t c J := by
  obtain ⟨hst, hclaim⟩ := hkept.active h
  refine .kept (fun e fields => ?_) (fun a hc => absurd hc (hdefer a)) hst hclaim
  rw [hact]
  exact nofun

theorem Starts.active_after {now : Int} {c : Call} {J K : JobId} {e : Option Nat} {fields : Job}
    {charge : Option GroupKey} (hidle : Idle x s u) (h : Starts x now u t J charge)
    (hact : c.activation s = some (J, e, fields)) (hnow : c.startsAt = some now)
    (hdefer : ∀ a, c ≠ .deferActive a) (hK : (t.job K).state = some .active) : ActiveAfter s t c K := by
  by_cases heq : K = J
  · subst heq
    exact .started hact (h.since.trans hnow.symm)
  · rw [h.others K heq] at hK
    obtain ⟨hst, hclaim⟩ := (hidle.jobs K).active hK
    refine .kept (fun e' fields' => ?_) (fun a hc => absurd hc (hdefer a)) hst ?_
    · rw [hact]
      rintro ⟨⟩
      exact heq rfl
    · rw [h.others K heq, hclaim]

theorem FetchEnd.active_after {now : Int} {next : ChainNext} {c : Call} {K : JobId}
    (h : FetchEnd x now s t next) (hact : c.activation s = next.activation)
    (hnow : c.startsAt = some now) (hdefer : ∀ a, c ≠ .deferActive a)
    (hK : (t.job K).state = some .active) : ActiveAfter s t c K := by
  cases h with
  | started hidle hstarts hfields hkey => exact hstarts.active_after hidle hact hnow hdefer hK
  | idle hidle hnext =>
    have hnone : next.activation = none := by
      cases next with
      | hash J e fields => exact absurd rfl (hnext J e fields)
      | _ => rfl
    exact .of_calm (hact.trans hnone) hdefer (hidle.jobs K).toJobCalm hK

theorem Attempt.active_after {now : Int} {c : Call} {J K : JobId} {e : Option Nat}
    {fields : Option Job} (h : Attempt x now s t J fields)
    (hact : c.activation s = fields.map fun fields => (J, e, fields)) (hnow : c.startsAt = some now)
    (hdefer : ∀ a, c ≠ .deferActive a) (hK : (t.job K).state = some .active) : ActiveAfter s t c K := by
  cases h with
  | started hidle hkey h => exact h.active_after hidle hact hnow hdefer hK
  | returned hkey hreturns hactive hself hothers hquotas =>
    by_cases heq : K = J
    · subst heq
      exact .started hact (hactive.2.trans hnow.symm)
    · rw [hothers K heq] at hK
      refine .kept (fun e' fields' => ?_) (fun a hc => absurd hc (hdefer a)) hK (by rw [hothers K heq])
      rw [hact]
      rintro ⟨⟩
      exact heq rfl
  | idle hidle => exact .of_calm hact hdefer (hidle.jobs K).toJobCalm hK

theorem call_adds (s : Queue) {c : Call} (hc : c.adds = true) (hx : ∀ y ∈ c.serverNow, y = x)
    {ok : GroupKey → Config → Prop} (hok : c.Carries ok) : Adds x ok s (c.run s) := by
  cases c with
  | addJob a => exact addJob_adds (hx _ rfl) hok s
  | dedup a => exact dedup_adds (hx _ rfl) hok s
  | _ => cases hc

theorem call_active (s : Queue) (c : Call) {K : JobId} (hK : ((c.run s).job K).state = some .active) :
    ActiveAfter s (c.run s) c K := by
  by_cases hc : c.posts = false
  · have hidle := call_idle (x := c.serverNow.getD 0) s hc fun y hy => by rw [hy]; rfl
    refine .of_calm (activation_of_not_posts hc) ?_ (hidle.jobs K).toJobCalm hK
    rintro a rfl
    cases hc
  cases c with
  | addJob a =>
    have hadds : Adds _ (fun _ _ => True) s (addJob s a).1 := addJob_adds rfl (by simp) s
    exact .of_calm rfl (by simp) (hadds.jobs K) hK
  | dedup a =>
    have hadds : Adds _ (fun _ _ => True) s (dedup s a).1 := dedup_adds rfl (by simp) s
    exact .of_calm rfl (by simp) (hadds.jobs K) hK
  | moveToActive a =>
    have hattempt := moveToActive_attempt s a
    have hact : (Call.moveToActive a).activation s =
        (moveToActive s a).2.fields.map fun fields => (a.jobId, a.entryId, fields) := rfl
    exact hattempt.active_after hact rfl (by simp) hK
  | completeAndFetchNext a =>
    change ((completeAndFetchNext s a).1.job K).state = some .active at hK
    change ActiveAfter s (completeAndFetchNext s a).1 _ K
    rcases completeAndFetchNext_end s a with ⟨hnone, hs⟩ | ⟨reply, hreply, hend⟩
    · rw [hs] at hK ⊢
      refine .of_calm ?_ (by simp) (JobKept.refl _).toJobCalm hK
      simp [Call.activation, hnone]
    · refine hend.active_after ?_ rfl (by simp) hK
      simp [Call.activation, hreply]
  | failAndFetchNext a consumer =>
    exact (failAndFetchNext_end s a consumer).active_after rfl rfl (by simp) hK
  | deferActive a =>
    obtain ⟨hst, hclaim⟩ := (deferActive_kept s a K).active hK
    have hact : (Call.deferActive a).activation s = none := rfl
    refine .kept (by simp [hact]) ?_ hst hclaim
    rintro _ ⟨⟩ hj rfl
    exact deferActive_not_active hj hK
  | _ => exact absurd rfl hc

theorem Starts.keys {now : Int} {J : JobId} {charge : Option GroupKey} (h : Starts x now u t J charge)
    (K : JobId) : (t.job K).groupKey = (u.job K).groupKey := by
  by_cases hK : K = J
  · rw [hK, h.group]
  · rw [h.others K hK]

theorem Attempt.keys {now : Int} {J : JobId} {fields : Option Job} (h : Attempt x now s t J fields)
    (K : JobId) (hK : (t.job K).groupKey = some gk) : (s.job K).groupKey = some gk := by
  cases h with
  | started hidle hkey h => exact (hidle.jobs K).group gk (h.keys K ▸ hK)
  | returned hkey hreturns hactive hself hothers hquotas =>
    by_cases heq : K = J
    · rw [heq, hself.1] at hK
      rw [heq, hkey, hK]
    · rwa [hothers K heq] at hK
  | idle hidle => exact (hidle.jobs K).group gk hK

theorem FetchEnd.keys {now : Int} {next : ChainNext} (h : FetchEnd x now s t next) (K : JobId)
    (hK : (t.job K).groupKey = some gk) : (s.job K).groupKey = some gk := by
  cases h with
  | started hidle hstarts hfields hkey => exact (hidle.jobs K).group gk (hstarts.keys K ▸ hK)
  | idle hidle hnext => exact (hidle.jobs K).group gk hK

theorem call_keys (s : Queue) {c : Call} (hc : c.adds = false) (K : JobId)
    (hK : ((c.run s).job K).groupKey = some gk) : (s.job K).groupKey = some gk := by
  -- Only an add puts a job into a group.
  by_cases hposts : c.posts = false
  · have hidle := call_idle (x := c.serverNow.getD 0) s hposts fun y hy => by rw [hy]; rfl
    exact (hidle.jobs K).group gk hK
  cases c with
  | addJob a => cases hc
  | dedup a => cases hc
  | moveToActive a =>
    have hattempt := moveToActive_attempt s a
    exact hattempt.keys K hK
  | completeAndFetchNext a =>
    rcases completeAndFetchNext_end s a with ⟨hnone, hs⟩ | ⟨reply, hreply, hend⟩
    · change ((completeAndFetchNext s a).1.job K).groupKey = some gk at hK
      rwa [hs] at hK
    · exact hend.keys K hK
  | failAndFetchNext a consumer => exact (failAndFetchNext_end s a consumer).keys K hK
  | deferActive a => exact (deferActive_kept s a K).group gk hK
  | _ => exact absurd rfl hposts

theorem FetchEnd.lifo_mem {now : Int} {next : ChainNext} {J : JobId} {e : Option Nat} {fields : Job}
    (h : FetchEnd x now s t next) (ha : next.activation = some (J, e, fields)) (he : e = none)
    (hshort : t.lifoList.length < s.lifoList.length) : J ∈ s.lifoList := by
  cases h with
  | started hidle hstarts hfields hkey =>
    cases ha
    rcases hkey with ⟨hcharge, hsame⟩ | ⟨hcharge, he', hlt, hmem⟩
    · rw [hsame he] at hshort
      exact absurd hshort (lt_irrefl _)
    · exact hmem
  | idle hidle hnext =>
    cases next with
    | hash J' e' fields' => exact absurd rfl (hnext J' e' fields')
    | _ => cases ha

theorem lifo_mem_of_tookLifo {c : Call} {J : JobId} {e : Option Nat} {fields : Job}
    (h : c.activation s = some (J, e, fields)) (htook : c.tookLifo s e = true) : J ∈ s.lifoList := by
  obtain ⟨hchains, he, hshort⟩ := of_decide_eq_true htook
  cases c with
  | completeAndFetchNext a =>
    simp only [Call.activation] at h
    rcases completeAndFetchNext_end s a with ⟨hnone, hs⟩ | ⟨reply, hreply, hend⟩
    · rw [hnone] at h
      cases h
    · rw [hreply] at h
      exact hend.lifo_mem h he hshort
  | failAndFetchNext a consumer => exact (failAndFetchNext_end s a consumer).lifo_mem h he hshort
  | _ => cases hchains

theorem call_quota {ok : GroupKey → Config → Prop} (s : Queue) {c : Call} (hx : ∀ y ∈ c.serverNow, y = x)
    (hok : c.Carries ok) (hfirst : c.FirstStart s gk) :
    QuotaStep x (c.startsAt.getD 0) (s.groups gk) ((c.run s).groups gk) (c.posting s gk) ∨
      c.posting s gk = none ∧ Configured x (ok gk) (s.groups gk) ((c.run s).groups gk) := by
  -- A call either posts, or it adds jobs.
  by_cases hc : c.posts = false
  · rw [posting_of_not_posts hc]
    exact .inl (.quiet ((call_idle s hc hx).quotas gk))
  cases c with
  | addJob a => exact .inr ⟨rfl, (call_adds s rfl hx hok).groups gk⟩
  | dedup a => exact .inr ⟨rfl, (call_adds s rfl hx hok).groups gk⟩
  | moveToActive a =>
    obtain rfl := hx _ rfl
    exact .inl (moveToActive_quota_step s a gk hfirst)
  | completeAndFetchNext a =>
    obtain rfl := hx _ rfl
    exact .inl (completeAndFetchNext_quota_step s a gk)
  | failAndFetchNext a consumer =>
    obtain rfl := hx _ rfl
    exact .inl (failAndFetchNext_quota_step s a consumer gk)
  | deferActive a => exact .inl (deferActive_quota_step s a gk)
  | _ => exact absurd rfl hc

end

section

variable {q : QueueName} {gk : GroupKey} {sets : Config → Prop} {S : Sys} {c : SysCall} {x : Int}

theorem sysStep_quota (hclock : ∀ y ∈ c.serverNow, y = x)
    (hsettings : c.Carries fun q' gk' f => q' = q ∧ gk' = gk → sets f) (hfirst : c.FirstStart S q gk) :
    QuotaStep x (c.startsAt.getD 0) ((S q).groups gk) ((sysStep S c q).groups gk) (c.posting S q gk) ∨
      c.posting S q gk = none ∧ Configured x sets ((S q).groups gk) ((sysStep S c q).groups gk) := by
  have hmono {g g' : GroupHash}
      (h : Configured x (fun f => q = q ∧ gk = gk → sets f) g g') : Configured x sets g g' :=
    h.mono fun f hf => hf ⟨rfl, rfl⟩
  cases c with
  | on q' c =>
    by_cases hq : q' = q
    · subst hq
      have hok : c.Carries fun gk' f => q' = q' ∧ gk' = gk → sets f := hsettings
      have hcall := call_quota (S q') hclock hok (hfirst rfl)
      simp only [SysCall.posting, if_true, sysStep, onQueue, Function.update_self]
      rcases hcall with hstep | ⟨hnone, hconf⟩
      · exact .inl hstep
      · exact .inr ⟨hnone, hmono hconf⟩
    · simp only [SysCall.posting, if_neg hq, sysStep, onQueue, Function.update_of_ne (Ne.symm hq)]
      exact .inr ⟨trivial, .quiet (.refl _)⟩
  | addFlow a => exact .inr ⟨rfl, hmono ((addFlow_adds (hclock _ rfl) hsettings S q).groups gk)⟩
  | registerParent child parent =>
    have hadds : SysAdds x (fun _ _ => sets) S (registerParent S child parent).1 :=
      registerParent_adds S child parent
    exact .inr ⟨rfl, (hadds q).groups gk⟩

end

end GlideMq
