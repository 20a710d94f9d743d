import GlideMq.Proofs.GroupRuns

/-!
# Jobs out of reach

A chain call comes to a job through a list, through the stream, through a wait queue that it promotes
from, or as the parent of the job that it settles. A group is out of its reach where none of these
holds a job of the group that could start.
-/

namespace GlideMq

open Queue Redis

/-- A job of the group that is neither revoked nor past its time. -/
structure Job.Fit (gk : GroupKey) (now : Int) (j : Job) : Prop where
  key : j.groupKey = some gk
  live : j.revoked = false
  due : isExpired j now = false

structure Job.Startable (gk : GroupKey) (now : Int) (j : Job) : Prop extends j.Fit gk now where
  waits : isActivatable j.state
  known : j.state ≠ none

/-- A parent that may come back once its children are done. -/
structure Job.Awaits (gk : GroupKey) (now : Int) (j : Job) : Prop extends j.Fit gk now where
  children : j.state = some .waitingChildren

/-- The keys that reach is about. -/
def Queue.waits (s : Queue) : (JobId → Option Job) × Stream JobEntry × (GroupKey → SortedSet JobId) ×
    SortedSet GroupKey × List JobId × List JobId × QueueName × (JobId → List DepMember) × Bool :=
  (s.jobs, s.stream, s.groupq, s.ratelimited, s.priorityList, s.lifoList, s.name, s.parents, s.paused)

/-- Whose jobs are looked for, by a call at which time and for which consumer group. -/
structure Lookout where
  gk : GroupKey
  now : Int
  group : Group
  /-- Jobs of the group may be parked, since the group is paused. -/
  parks : Prop
  /-- The parents that hear of the settled job. -/
  told : JobId → Prop
  /-- The queue before the call. -/
  before : Queue

/-- No job of the group can be come to, but for those that are parked where that is allowed. -/
structure OutOfReach (w : Lookout) (t : Queue) : Prop where
  lists : ∀ k, ∀ J ∈ t.list k, ¬ (t.job J).Startable w.gk w.now
  entries : ∀ e ∈ t.stream.entries, (t.stream.groups w.group).lastDelivered < e.id →
    ¬ (t.job e.val.jobId).Startable w.gk w.now
  parked : ∀ k, ∀ J ∈ t.groupq k, (t.job J).Startable w.gk w.now → w.parks ∧ k = w.gk
  paused : w.parks → w.now < (t.ratelimited.score w.gk).getD 0
  parents : ∀ J, w.told J → ¬ (t.job J).Awaits w.gk w.now
  name : t.name = w.before.name
  edges : t.parents = w.before.parents
  stopped : t.paused = w.before.paused

/-- A job that gets this hash comes no closer to a start. -/
structure JobStays (gk : GroupKey) (now : Int) (j j' : Job) : Prop where
  startable : j'.Startable gk now → j.Startable gk now
  awaits : j'.Awaits gk now → j.Awaits gk now

section

variable {gk : GroupKey} {now : Int} {j j' : Job}

theorem Job.Fit.of_eq (hk : j'.groupKey = j.groupKey) (hr : j'.revoked = j.revoked)
    (ht : j'.expireAt = j.expireAt) (h : j'.Fit gk now) : j.Fit gk now :=
  ⟨hk ▸ h.key, hr ▸ h.live, by simpa only [isExpired, ht] using h.due⟩

theorem JobStays.touch (hst : j'.state = j.state) (hk : j'.groupKey = j.groupKey)
    (hr : j'.revoked = j.revoked) (ht : j'.expireAt = j.expireAt) : JobStays gk now j j' where
  startable h := ⟨h.toFit.of_eq hk hr ht, hst ▸ h.waits, hst ▸ h.known⟩
  awaits h := ⟨h.toFit.of_eq hk hr ht, hst ▸ h.children⟩

theorem JobStays.refl (j : Job) : JobStays gk now j j := .touch rfl rfl rfl rfl

theorem JobStays.trans {j'' : Job} (h : JobStays gk now j j') (h' : JobStays gk now j' j'') :
    JobStays gk now j j'' where
  startable hj := h.startable (h'.startable hj)
  awaits hj := h.awaits (h'.awaits hj)

theorem JobStays.rest (hst : isActivatable j'.state = false) (hw : j'.state ≠ some .waitingChildren) :
    JobStays gk now j j' where
  startable h := by simpa [hst] using h.waits
  awaits h := absurd h.children hw

theorem JobStays.other (hk : j'.groupKey ≠ some gk) : JobStays gk now j j' where
  startable h := absurd h.key hk
  awaits h := absurd h.key hk

end

section

variable {w : Lookout} {k : GroupKey} {x serverNow : Int} {t u : Queue} {J : JobId}

/-! ## Writes -/

theorem OutOfReach.quiet (h : OutOfReach w t) (hu : u.waits = t.waits) :
    OutOfReach w u := by
  simp only [Queue.waits, Prod.mk.injEq] at hu
  obtain ⟨hjobs, hstream, hgroupq, hlimited, hpriority, hlifo, hname, hparents, hpaused⟩ := hu
  have hjob (K : JobId) : u.job K = t.job K := job_of_jobs hjobs K
  refine ⟨fun k K hK => ?_, ?_, ?_, ?_, ?_, hname.trans h.name, hparents.trans h.edges,
    hpaused.trans h.stopped⟩
  · rw [hjob]
    refine h.lists k K ?_
    have hlist : u.list k = t.list k := by
      cases k
      · exact hpriority
      · exact hlifo
    rwa [← hlist]
  · simp only [hstream, hjob]
    exact h.entries
  · simp only [hgroupq, hjob]
    exact h.parked
  · rw [hlimited]
    exact h.paused
  · simp only [hjob]
    exact h.parents

theorem OutOfReach.update (h : OutOfReach w t) {j : Option Job}
    (hj : JobStays w.gk w.now (t.job J) (j.getD {})) :
    OutOfReach w { t with jobs := Function.update t.jobs J j } := by
  have hstays (K : JobId) :
      JobStays w.gk w.now (t.job K) (Queue.job { t with jobs := Function.update t.jobs J j } K) := by
    unfold Queue.job at *
    by_cases hK : K = J
    · subst hK
      simpa using hj
    · simp only [Function.update_of_ne hK]
      exact .refl _
  refine ⟨fun k K hK hst => ?_, fun e he hnew hst => ?_, fun k K hK hst => ?_, h.paused,
    fun K hK hst => ?_, h.name, h.edges, h.stopped⟩
  · refine h.lists k K ?_ ((hstays K).startable hst)
    cases k <;> exact hK
  · exact h.entries e he hnew ((hstays e.val.jobId).startable hst)
  · exact h.parked k K hK ((hstays K).startable hst)
  · exact h.parents K hK ((hstays K).awaits hst)

theorem OutOfReach.hset_at (h : OutOfReach w t) {f : Job → Job}
    (hf : JobStays w.gk w.now (t.job J) (f (t.job J))) :
    OutOfReach w (t.hset J f) := h.update hf

theorem OutOfReach.hset (h : OutOfReach w t) {f : Job → Job}
    (hf : ∀ j, JobStays w.gk w.now j (f j)) : OutOfReach w (t.hset J f) :=
  h.hset_at (hf _)

theorem OutOfReach.hmod (h : OutOfReach w t) {f : Job → Job}
    (hf : ∀ j, JobStays w.gk w.now j (f j)) : OutOfReach w (t.hmod J f) := by
  refine h.update ?_
  unfold Queue.job
  cases t.jobs J with
  | none => exact .refl _
  | some j => exact hf j

theorem OutOfReach.unlinkJob (h : OutOfReach w t) :
    OutOfReach w (t.unlinkJob J) := h.update (.other nofun)

theorem OutOfReach.xadd (h : OutOfReach w t) {v : JobEntry}
    (hv : ¬ (t.job v.jobId).Startable w.gk w.now) :
    OutOfReach w { t with stream := t.stream.xadd v } where
  lists k J hJ := by
    refine h.lists k J ?_
    cases k <;> exact hJ
  entries e he hnew := by
    rcases Stream.mem_entries_xadd.mp he with he | rfl
    · exact h.entries e he hnew
    · exact hv
  parked := h.parked
  paused := h.paused
  parents := h.parents
  name := h.name
  edges := h.edges
  stopped := h.stopped

theorem OutOfReach.xaddJob (h : OutOfReach w t)
    (hJ : ¬ (t.job J).Startable w.gk w.now) : OutOfReach w (t.xaddJob J) := h.xadd hJ

theorem OutOfReach.setStream (h : OutOfReach w t) {z : Stream JobEntry}
    (hz : ∀ e ∈ z.entries, (z.groups w.group).lastDelivered < e.id →
      e ∈ t.stream.entries ∧ (t.stream.groups w.group).lastDelivered < e.id) :
    OutOfReach w { t with stream := z } where
  lists k J hJ := by
    refine h.lists k J ?_
    cases k <;> exact hJ
  entries e he hnew := h.entries e (hz e he hnew).1 (hz e he hnew).2
  parked := h.parked
  paused := h.paused
  parents := h.parents
  name := h.name
  edges := h.edges
  stopped := h.stopped

theorem OutOfReach.ackDel (h : OutOfReach w t) {group : Group} {e : Option Nat} :
    OutOfReach w (ackDel t group e) := by
  cases e with
  | none => exact h
  | some n =>
    refine h.setStream (z := (t.stream.xack group n).xdel n) fun e he hnew => ⟨?_, ?_⟩
    · exact (Stream.mem_entries_xdel.mp he).1
    · simp only [Stream.xdel, Stream.xack, Stream.setGroup] at hnew
      split at hnew
      · rename_i hgroup
        rw [hgroup]
        exact hnew
      · exact hnew

theorem OutOfReach.deliver (h : OutOfReach w t) {consumer : String}
    {e : Entry JobEntry} (hnew : (t.stream.groups w.group).lastDelivered < e.id) :
    OutOfReach w (t.deliver w.group consumer e) := by
  refine h.setStream (z := t.stream.deliver w.group consumer e) fun e' he' hnew' => ⟨he', ?_⟩
  simp only [Stream.deliver, Stream.setGroup, if_true] at hnew'
  exact hnew.trans hnew'

theorem OutOfReach.drop (h : OutOfReach w t) (k : ListKey) :
    OutOfReach w (t.drop k) where
  lists k' J hJ := by
    rw [job_drop]
    refine h.lists k' J ?_
    cases k <;> cases k'
    · exact List.dropLast_subset _ hJ
    · exact hJ
    · exact hJ
    · exact List.dropLast_subset _ hJ
  entries e he hnew := by
    rw [job_drop]
    cases k <;> exact h.entries e he hnew
  parked k' J hJ hst := by
    rw [job_drop] at hst
    cases k <;> exact h.parked k' J hJ hst
  paused hp := by cases k <;> exact h.paused hp
  parents J hJ := by
    rw [job_drop]
    exact h.parents J hJ
  name := by cases k <;> exact h.name
  edges := by cases k <;> exact h.edges
  stopped := by cases k <;> exact h.stopped

theorem OutOfReach.setGroupq (h : OutOfReach w t) {z : SortedSet JobId}
    (hz : ∀ J ∈ z, J ∈ t.groupq k ∨ ((t.job J).Startable w.gk w.now → w.parks ∧ k = w.gk)) :
    OutOfReach w { t with groupq := Function.update t.groupq k z } where
  lists k' J hJ := by
    refine h.lists k' J ?_
    cases k' <;> exact hJ
  entries := h.entries
  parked k' J hJ hst := by
    by_cases hk : k' = k
    · subst hk
      simp only [Function.update_self] at hJ
      rcases hz J hJ with hJ | hJ
      · exact h.parked k' J hJ hst
      · exact hJ hst
    · simp only [Function.update_of_ne hk] at hJ
      exact h.parked k' J hJ hst
  paused := h.paused
  parents := h.parents
  name := h.name
  edges := h.edges
  stopped := h.stopped

theorem OutOfReach.zremGroupq (h : OutOfReach w t) :
    OutOfReach w (t.zremGroupq k J) :=
  h.setGroupq fun _ hK => .inl (SortedSet.mem_rem.mp hK).2

theorem OutOfReach.zaddGroupq (h : OutOfReach w t)
    (hJ : (t.job J).Startable w.gk w.now → w.parks ∧ k = w.gk) :
    OutOfReach w (t.zaddGroupq k J x) := by
  refine h.setGroupq fun K hK => ?_
  rcases SortedSet.mem_add.mp hK with rfl | hK
  · exact .inr hJ
  · exact .inl hK

theorem OutOfReach.zaddRatelimited (h : OutOfReach w t)
    (hk : w.parks → k ≠ w.gk) : OutOfReach w (t.zaddRatelimited k x) where
  lists k' J hJ := by
    refine h.lists k' J ?_
    cases k' <;> exact hJ
  entries := h.entries
  parked := h.parked
  paused hp := by
    simp only [zaddRatelimited_ratelimited, SortedSet.score_add, if_neg (Ne.symm (hk hp))]
    exact h.paused hp
  parents := h.parents
  name := h.name
  edges := h.edges
  stopped := h.stopped

/-! ### Writes to other keys -/

theorem waits_markOrderingDone (s : Queue) (J : JobId) (k : Option GroupKey) (n : Option Nat) :
    (markOrderingDone s J k n).waits = s.waits := by
  unfold markOrderingDone
  simp only
  repeat' split
  all_goals rfl

theorem waits_advanceRepeatAfterComplete (s : Queue) (J : JobId) (t : Int) :
    (advanceRepeatAfterComplete s J t).waits = s.waits := by
  unfold advanceRepeatAfterComplete
  repeat' split
  all_goals rfl

theorem waits_noteActivationFailure (s : Queue) (J : JobId) (r : String) :
    (noteActivationFailure s J r).waits = s.waits := by
  unfold noteActivationFailure
  split <;> rfl

theorem waits_consumeOrderedTombstone (s : Queue) (gk : GroupKey) (n : Nat) (J : JobId) (x : Int) :
    (consumeOrderedTombstone s gk n J x).1.waits = s.waits := by
  unfold consumeOrderedTombstone
  split
  · rfl
  · exact waits_markOrderingDone s J _ _

theorem waits_skipToNext (s : Queue) (gk : GroupKey) (n : Nat) :
    (skipToNext s gk n).1.waits = s.waits := by
  unfold skipToNext
  simp only
  repeat' split
  all_goals rfl

/-! ## Groups -/

theorem OutOfReach.clearRetainedSlot (h : OutOfReach w t) : OutOfReach w (clearRetainedSlot t J) :=
  h.hmod fun _ => .touch rfl rfl rfl rfl

theorem OutOfReach.closeOrderingHole (h : OutOfReach w t) : OutOfReach w (closeOrderingHole t J) := by
  unfold GlideMq.closeOrderingHole
  simp only
  cases ((t.jobs J).getD {}).groupKey with
  | none => exact h
  | some k =>
    simp only
    split
    · exact h
    · have hskip : OutOfReach w ((t.hgroup k fun g =>
          { g with skip := g.skip.insert ((t.jobs J).getD {}).orderingSeq }).zremReturning k J) :=
        h.quiet rfl
      split
      · exact hskip.clearRetainedSlot.quiet rfl
      · exact hskip

theorem OutOfReach.setFailed (h : OutOfReach w t) {reason : String} {y : Int} :
    OutOfReach w (t.setFailed J reason y) := h.hset fun _ => .rest rfl nofun

theorem OutOfReach.zaddFailed (h : OutOfReach w t) : OutOfReach w (t.zaddFailed J x) := h.quiet rfl

theorem OutOfReach.failOversize (h : OutOfReach w t) : OutOfReach w (failOversize t J k x) := by
  unfold GlideMq.failOversize
  have hmark : OutOfReach w (markOrderingDone (t.zaddFailed J x) J (some k)
      (some ((t.zaddFailed J x).job J).orderingSeq)) :=
    h.zaddFailed.quiet (waits_markOrderingDone _ _ _ _)
  exact hmark.setFailed.quiet (waits_advanceRepeatAfterComplete _ _ _)

theorem OutOfReach.failHead (h : OutOfReach w t) : OutOfReach w (failHead t k J x) := by
  unfold GlideMq.failHead
  have hnote : OutOfReach w (noteActivationFailure
      (GlideMq.failOversize (t.zremGroupq k J) J k x) J costReason) :=
    h.zremGroupq.failOversize.quiet (waits_noteActivationFailure _ _ _)
  have hrecord (d : Int) : OutOfReach w (recordFailed (noteActivationFailure
      (GlideMq.failOversize (t.zremGroupq k J) J k x) J costReason) x d) := hnote.quiet rfl
  exact (hrecord _).closeOrderingHole

theorem OutOfReach.peekHead (h : OutOfReach w t) (hk : w.parks → k ≠ w.gk) (tokens : Int)
    (passes n : Nat) : OutOfReach w (peekHead k x tokens passes t n).1 := by
  induction passes generalizing t n with
  | zero => exact h
  | succ passes ih =>
    rw [GlideMq.peekHead]
    split
    · exact h
    · split
      · exact ih (h.zremGroupq.quiet (waits_consumeOrderedTombstone _ _ _ _ _)) _
      · simp only
        split
        · exact ih h.failHead n
        · split
          · split
            · exact h
            · exact h.zaddRatelimited hk
          · exact h

theorem OutOfReach.tokenGate (h : OutOfReach w t) (hk : w.parks → k ≠ w.gk) :
    OutOfReach w (tokenGate t k x serverNow).1 := by
  unfold GlideMq.tokenGate
  simp only
  split
  · have hrefill : OutOfReach w (refill t k serverNow).1 := h.quiet rfl
    exact hrefill.peekHead hk _ 10 _
  · exact h

theorem OutOfReach.promoteJobOfGroup (h : OutOfReach w t) (hst : t.stateOf J = some .groupWaiting)
    (hJ : ¬ (t.job J).Startable w.gk w.now) : OutOfReach w (promoteJobOfGroup t J) := by
  have hadd : OutOfReach w (t.xaddJob J) := h.xaddJob hJ
  unfold GlideMq.promoteJobOfGroup Queue.setState
  refine hadd.hset_at ⟨fun hstart => ?_, fun hawait => ?_⟩
  · rw [stateOf_eq] at hst
    have hfit : (t.job J).Fit w.gk w.now := ⟨hstart.key, hstart.live, hstart.due⟩
    exact absurd ⟨hfit, by simp [hst, isActivatable], by simp [hst]⟩ hJ
  · exact absurd hawait.children (by simp)

theorem OutOfReach.promoteLoop (h : OutOfReach w t) (hk : w.parks → k ≠ w.gk) (iter left n : Nat) :
    OutOfReach w (promoteLoop k iter left t n) := by
  induction iter generalizing left t n with
  | zero => rwa [GlideMq.promoteLoop]
  | succ iter ih =>
    cases left with
    | zero => rwa [GlideMq.promoteLoop]
    | succ left =>
      rw [GlideMq.promoteLoop]
      split
      · exact h
      · rename_i J score hfirst
        have hJ : ¬ (t.job J).Startable w.gk w.now := fun hst => by
          obtain ⟨hparks, heq⟩ := h.parked k J (SortedSet.mem_of_first? hfirst) hst
          exact hk hparks heq
        simp only
        split
        · exact ih h.zremGroupq (left + 1) n
        · rename_i hst
          split
          · exact h.zremGroupq.zaddGroupq fun hst => absurd hst hJ
          · exact ih (h.zremGroupq.promoteJobOfGroup (not_not.mp hst) hJ) left _

theorem OutOfReach.promoteFromGroupq (h : OutOfReach w t) (hk : w.parks → k ≠ w.gk) (newActive : Int) :
    OutOfReach w (promoteFromGroupq t k newActive x serverNow) := by
  unfold GlideMq.promoteFromGroupq
  simp only
  split
  · exact h
  split
  · exact h
  split
  · exact h.zaddRatelimited hk
  have hgate : OutOfReach w (GlideMq.tokenGate t k x serverNow).1 := h.tokenGate hk
  split
  all_goals
    rename_i heq
    rw [heq] at hgate
  · exact hgate
  · exact hgate.zaddRatelimited hk
  · exact (hgate.quiet (waits_skipToNext _ _ _)).promoteLoop hk _ _ _

theorem OutOfReach.releaseGroupSlotAndPromote (h : OutOfReach w t) {hint : Option GroupKey}
    {keepSlot : Bool} (hk : w.parks → (hint <|> (t.job J).groupKey) ≠ some w.gk) :
    OutOfReach w (releaseGroupSlotAndPromote t J x serverNow hint keepSlot) := by
  unfold GlideMq.releaseGroupSlotAndPromote
  simp only
  split
  · exact h
  · rename_i k heq
    rw [heq] at hk
    have hk' (hp : w.parks) : k ≠ w.gk := fun he => hk hp (by rw [he])
    split
    · exact h.promoteFromGroupq hk' _
    · have hslot : OutOfReach w (releaseSlot t J k) := h.clearRetainedSlot.quiet rfl
      exact hslot.promoteFromGroupq hk' _

theorem OutOfReach.closeOrderingHoleAndPromote (h : OutOfReach w t) :
    OutOfReach w (closeOrderingHoleAndPromote t J w.now serverNow) := by
  -- The one promotion that asks whether its group is paused.
  unfold GlideMq.closeOrderingHoleAndPromote
  simp only
  have hclose : OutOfReach w (GlideMq.closeOrderingHole t J) := h.closeOrderingHole
  split
  · exact hclose
  · rename_i k hkey
    split
    · exact hclose
    · rename_i hopen
      refine hclose.releaseGroupSlotAndPromote fun hparks he => hopen ?_
      obtain rfl : k = w.gk := by simpa using he
      exact hclose.paused hparks

theorem OutOfReach.expireJob (h : OutOfReach w t) {st : Option JobState} (hst : st ≠ some .active)
    {k g : Option GroupKey} {n : Option Nat} : OutOfReach w (expireJob t J w.now serverNow st k n g) := by
  unfold GlideMq.expireJob
  split
  · exact h
  simp only
  have hfail : OutOfReach w ((t.zaddFailed J w.now).setFailed J "expired" w.now) := h.zaddFailed.setFailed
  have hmark : OutOfReach w (markOrderingDone (advanceRepeatAfterComplete
      ((t.zaddFailed J w.now).setFailed J "expired" w.now) J w.now) J k n) :=
    (hfail.quiet (waits_advanceRepeatAfterComplete _ _ _)).quiet (waits_markOrderingDone _ _ _ _)
  exact hmark.closeOrderingHoleAndPromote.quiet rfl

/-! ## The fetch -/

/-- The reply activates no job of the group. -/
def ChainNext.Spares (gk : GroupKey) (next : ChainNext) : Prop :=
  ∀ J e fields, next = .hash J e fields → fields.groupKey ≠ some gk

theorem ChainNext.Spares.activation {gk : GroupKey} {next : ChainNext} (h : next.Spares gk) {J : JobId}
    {e : Option Nat} {fields : Job} (hact : next.activation = some (J, e, fields)) :
    fields.groupKey ≠ some gk := by
  cases next with
  | hash J' e' fields' =>
    cases hact
    exact h J e fields rfl
  | _ => cases hact

/-- A phase goes on, or it ends with a reply that spares the group. -/
def Fetched.Spares (w : Lookout) (r : Fetched) : Prop :=
  match r with
  | (t, none) => OutOfReach w t
  | (_, some next) => next.Spares w.gk

theorem not_mem_of_not_startable (hJ : ¬ (t.job J).Startable w.gk w.now) (hst : (t.job J).state ≠ none)
    (hwaits : isActivatable (t.job J).state) (hlive : (t.job J).revoked = false)
    (hdue : isExpired (t.job J) w.now = false) : (t.job J).groupKey ≠ some w.gk :=
  fun hkey => hJ ⟨⟨hkey, hlive, hdue⟩, hwaits, hst⟩

theorem OutOfReach.park (h : OutOfReach w t) (hJ : (t.job J).groupKey ≠ some w.gk) :
    OutOfReach w (park t k J x) := by
  have hadd : OutOfReach w (t.zaddGroupq k J x) := h.zaddGroupq fun hst => absurd hst.key hJ
  unfold GlideMq.park Queue.setState
  exact hadd.hset_at (.other hJ)

theorem OutOfReach.failOversizePriority (h : OutOfReach w t) {a : FetchArgs} (hnow : a.timestamp = w.now) :
    OutOfReach w (failOversizePriority t a J k) := by
  unfold GlideMq.failOversizePriority
  simp only [hnow]
  have hfail : OutOfReach w ((t.zaddFailed J w.now).setFailed J costReason w.now) := h.zaddFailed.setFailed
  have hnote : OutOfReach w (noteActivationFailure (advanceRepeatAfterComplete
      ((t.zaddFailed J w.now).setFailed J costReason w.now) J w.now) J costReason) :=
    (hfail.quiet (waits_advanceRepeatAfterComplete _ _ _)).quiet (waits_noteActivationFailure _ _ _)
  have hrecord (d : Int) : OutOfReach w (recordFailedUnless a.skipMetrics (noteActivationFailure
      (advanceRepeatAfterComplete ((t.zaddFailed J w.now).setFailed J costReason w.now) J w.now) J
        costReason) w.now d) := by
    refine hnote.quiet ?_
    unfold recordFailedUnless
    split <;> rfl
  split
  · exact ((hrecord _).quiet (waits_markOrderingDone _ _ _ _)).closeOrderingHoleAndPromote
  · exact hrecord _

theorem fetchPriorityInGroup_spares (h : OutOfReach w t) {a : FetchArgs} (hnow : a.timestamp = w.now)
    (hkey : (t.job J).groupKey = some k) (hk : k ≠ w.gk) :
    Fetched.Spares w (fetchPriorityInGroup t a J k) := by
  have hJ : (t.job J).groupKey ≠ some w.gk := by
    rw [hkey]
    exact fun he => hk (Option.some.inj he)
  unfold fetchPriorityInGroup
  simp only
  have hskip : OutOfReach w (skipToNext t k (t.groups k).nextSeq).1 := h.quiet (waits_skipToNext _ _ _)
  have hjobs := skipToNext_jobs t k (t.groups k).nextSeq
  generalize skipToNext t k (t.groups k).nextSeq = r at *
  obtain ⟨u, n⟩ := r
  simp only at hskip hjobs ⊢
  have hJu : (u.job J).groupKey ≠ some w.gk := by rwa [job_of_jobs hjobs]
  split
  · exact hskip.park hJu
  have hrefill : OutOfReach w (refill u k a.serverNow).1 := hskip.quiet rfl
  split
  · exact hrefill.failOversizePriority hnow
  generalize (ite (tokenDelay _ _ _).isSome none (windowDelay _ _)) = rl
  split
  · intro J' e fields
    exact nofun
  · rintro J' e fields ⟨⟩
    have hstart := congrArg Job.groupKey (job_activate_self (chargeGroup (refill u k a.serverNow).1 k
      ((t.job J).cost.getD 1000) a.timestamp) J a.timestamp true)
    refine ne_of_eq_of_ne ?_ hJu
    split <;> split <;> exact hstart

theorem fetchPriority_spares (h : OutOfReach w t) {a : FetchArgs} (hnow : a.timestamp = w.now)
    (hJ : ¬ (t.job J).Startable w.gk w.now) : Fetched.Spares w (fetchPriority t a J) := by
  unfold fetchPriority
  simp only
  split
  · exact h
  rename_i hdrop
  simp only [not_or, not_not] at hdrop
  split
  · have hst : (t.job J).state ≠ some .active := fun hst => by simp [hst, isActivatable] at hdrop
    rw [hnow]
    exact h.expireJob hst
  rename_i hdue
  have hkey : (t.job J).groupKey ≠ some w.gk :=
    not_mem_of_not_startable hJ hdrop.1 hdrop.2.1 (by simpa using hdrop.2.2) (by simpa [hnow] using hdue)
  split
  · rename_i k heq
    exact fetchPriorityInGroup_spares h hnow heq fun he => hkey (by rw [heq, he])
  · rintro J' e fields ⟨⟩
    exact (congrArg Job.groupKey (job_activate_self t J a.timestamp true)).trans_ne hkey

theorem fetchLifo_spares (h : OutOfReach w t) {a : FetchArgs} (hnow : a.timestamp = w.now)
    (hJ : ¬ (t.job J).Startable w.gk w.now) : Fetched.Spares w (fetchLifo t a J) := by
  unfold fetchLifo
  simp only
  split
  · exact h
  rename_i hdrop
  simp only [not_or, not_not] at hdrop
  split
  · have hst : (t.job J).state ≠ some .active := fun hst => by simp [hst, isActivatable] at hdrop
    rw [hnow]
    exact h.expireJob hst
  · rename_i hdue
    have hkey : (t.job J).groupKey ≠ some w.gk :=
      not_mem_of_not_startable hJ hdrop.1 hdrop.2.1 (by simpa using hdrop.2.2) (by simpa [hnow] using hdue)
    rintro J' e fields ⟨⟩
    exact (congrArg Job.groupKey (job_activate_self t J a.timestamp true)).trans_ne hkey

theorem listPhase_spares {l : ListKey} {fetch : Queue → JobId → Fetched}
    (hfetch : ∀ t J, OutOfReach w t → ¬ (t.job J).Startable w.gk w.now → Fetched.Spares w (fetch t J))
    (attempts : Nat) (h : OutOfReach w t) :
    Fetched.Spares w ((listPhase l fetch attempts t).1, (listPhase l fetch attempts t).2.1) := by
  induction attempts generalizing t with
  | zero => exact h
  | succ attempts ih =>
    rw [listPhase]
    split
    · exact h
    · rename_i J hlast
      have hJ : ¬ ((t.drop l).job J).Startable w.gk w.now := by
        rw [job_drop]
        exact h.lists l J (List.mem_of_getLast? hlast)
      have hspares := hfetch (t.drop l) J (h.drop l) hJ
      split
      · rename_i heq
        rwa [heq] at hspares
      · rename_i u heq
        rw [heq] at hspares
        exact ih hspares

/-- The phase picks no job of the group. -/
def StreamPick.Spares (w : Lookout) (r : Queue × StreamPick) : Prop :=
  match r.2 with
  | .reply next => next.Spares w.gk
  | .picked J _ => (r.1.job J).groupKey ≠ some w.gk

theorem spares_none (gk : GroupKey) : ChainNext.none.Spares gk := by
  intro J e fields h
  cases h

theorem streamPhase_spares {a : FetchArgs} (hnow : a.timestamp = w.now) (hgroup : a.group = w.group)
    (listsEmpty : Bool) (attempts : Nat) (h : OutOfReach w t) :
    StreamPick.Spares w (streamPhase a listsEmpty attempts t) := by
  induction attempts generalizing t with
  | zero => exact spares_none _
  | succ attempts ih =>
    rw [streamPhase]
    split
    · exact spares_none _
    rename_i e hnext
    have hnew : (t.stream.groups w.group).lastDelivered < e.id := by
      rw [← hgroup]
      simpa using List.find?_some hnext
    have hJ : ¬ (t.job e.val.jobId).Startable w.gk w.now :=
      h.entries e (Stream.mem_of_next? hnext) hnew
    have hdeliver : OutOfReach w (t.deliver a.group a.consumer e) := by
      rw [hgroup]
      exact h.deliver hnew
    have hjob : (t.deliver a.group a.consumer e).job e.val.jobId = t.job e.val.jobId := rfl
    simp only [hjob]
    split
    · exact spares_none _
    rename_i hst
    split
    · intro J e' fields heq
      cases heq
    rename_i hlive
    split
    · exact ih hdeliver.ackDel
    rename_i hwaits
    simp only [not_not] at hwaits
    split
    · have hactive : (t.job e.val.jobId).state ≠ some .active := fun hst => by
        simp [hst, isActivatable] at hwaits
      rw [hnow]
      exact ih (hdeliver.expireJob hactive).ackDel
    · rename_i hdue
      have hkey : (t.job e.val.jobId).groupKey ≠ some w.gk :=
        not_mem_of_not_startable hJ hst hwaits (by simpa using hlive) (by simpa [hnow] using hdue)
      exact hkey

theorem fetchStreamInGroup_spares {a : FetchArgs} {e : Nat} (hJ : (t.job J).groupKey ≠ some w.gk) :
    (fetchStreamInGroup t a J e k).2.Spares w.gk := by
  have hjob := job_skipIf t k (t.job J).orderingSeq J
  unfold fetchStreamInGroup
  simp only
  generalize (if 0 < (t.job J).orderingSeq then skipToNext t k (t.groups k).nextSeq
    else (t, 0)) = r at *
  split
  · exact spares_none _
  split
  · exact spares_none _
  split
  · exact spares_none _
  split
  · exact spares_none _
  · rintro J' e' fields ⟨⟩
    have hstart := congrArg Job.groupKey (job_activate_self (chargeGroup (refill r.1 k a.serverNow).1 k
      ((t.job J).cost.getD 1000) a.timestamp) J a.timestamp false)
    have hsame : ((refill r.1 k a.serverNow).1.job J).groupKey = (t.job J).groupKey := congrArg Job.groupKey hjob
    refine ne_of_eq_of_ne ?_ hJ
    rw [← hsame]
    split <;> split <;> exact hstart

theorem fetchStream_spares (h : OutOfReach w t) {a : FetchArgs} (hnow : a.timestamp = w.now)
    (hgroup : a.group = w.group) (listsEmpty : Bool) : (fetchStream t a listsEmpty).2.Spares w.gk := by
  have hphase := streamPhase_spares hnow hgroup listsEmpty 3 h
  unfold fetchStream
  generalize streamPhase a listsEmpty 3 t = r at *
  obtain ⟨u, pick⟩ := r
  cases pick with
  | reply next => exact hphase
  | picked J e =>
    have hkey : (u.job J).groupKey ≠ some w.gk := hphase
    simp only
    split
    · rename_i k hk
      exact fetchStreamInGroup_spares hkey
    · rintro J' e' fields ⟨⟩
      exact (congrArg Job.groupKey (job_activate_self u J a.timestamp false)).trans_ne hkey

theorem fetchNextForChain_spares (h : OutOfReach w t) {a : FetchArgs} (hnow : a.timestamp = w.now)
    (hgroup : a.group = w.group) : (fetchNextForChain t a).2.Spares w.gk := by
  have hpriority := listPhase_spares (l := .priority) (fun t J ht => fetchPriority_spares ht hnow (J := J)) 3 h
  unfold fetchNextForChain
  split
  · exact spares_none _
  split
  · rename_i heq
    rwa [heq] at hpriority
  rename_i u priorityEmpty heq
  rw [heq] at hpriority
  have hlifo := listPhase_spares (l := .lifo) (fun t J ht => fetchLifo_spares ht hnow (J := J)) 3 hpriority
  split
  · rename_i heq'
    rwa [heq'] at hlifo
  · rename_i heq'
    rw [heq'] at hlifo
    exact fetchStream_spares hlifo hnow hgroup _

end

end GlideMq
