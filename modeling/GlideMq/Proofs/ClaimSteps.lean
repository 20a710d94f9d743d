import GlideMq.Model.Chain
import GlideMq.Proofs.GroupSteps

/-!
# What a claim does

A claim on a job ends in one of a few outcomes: the job is parked, it fails, or it starts to run.
The worker's call and the three phases of a chain call are the same up to these.
-/

namespace GlideMq

open Queue

/-! ## Steps -/

/-- An entry id that was issued for `J`. A list claim has none. -/
def EntryOf (s : Queue) (J : JobId) (entryId : Option Nat) : Prop :=
  ∀ n ∈ entryId, n ≤ s.stream.lastId ∧ ∀ e ∈ s.stream.entries, e.id = n → e.val.jobId = J

theorem EntryOf.extends {s t : Queue} {J : JobId} {entryId : Option Nat} (h : EntryOf s J entryId)
    (hext : s.stream.Extends t.stream) : EntryOf t J entryId := by
  intro n hn
  obtain ⟨hle, hjob⟩ := h n hn
  refine ⟨le_trans hle hext.lastId, fun e he hid => ?_⟩
  rcases hext.entries e he with he | he
  · exact hjob e he hid
  · omega

/-- What a job takes when it starts to run for the first time. -/
def startInGroup (s : Queue) (gk : GroupKey) (J : JobId) (seq : Nat) : Queue :=
  if 0 < seq then (takeSlot s gk seq).zremGroupq gk J else takeSlot s gk seq

/-- What is known about the claims of a call. -/
structure ClaimMode where
  /-- The entries that are acknowledged are the job's own. -/
  ownEntries : Prop
  /-- The claims are those of a chain call. -/
  chain : Prop
  /-- The job was popped from the LIFO list, which has no group gates. -/
  ungated : Prop

/-- The ways a claim on `J` ends. -/
inductive ClaimOutcome (M : ClaimMode) (J : JobId) (s : Queue) : Queue → Prop
  | park {gk group e x t} (hst : isActivatable (s.stateOf J)) (hj : s.jobs J ≠ none)
      (hkey : (s.job J).groupKey = some gk) (hW : M.ownEntries → EntryOf s J e)
      (h : t.core = (park (ackDel s group e) gk J x).core) : ClaimOutcome M J s t
  | fail {group e x r y t} (hst : isActivatable (s.stateOf J)) (hj : s.jobs J ≠ none)
      (hW : M.ownEntries → EntryOf s J e)
      (h : t.core = (closeOrderingHole (endFailed (ackDel s group e) J x r y) J).core) :
      ClaimOutcome M J s t
  /-- Outside a group, or from the LIFO list. -/
  | start {t} (hst : isActivatable (s.stateOf J)) (hj : s.jobs J ≠ none)
      (hkey : (s.job J).groupKey = none ∨ M.ungated) (h : t.core = (s.setState J .active).core) :
      ClaimOutcome M J s t
  | startFirst {gk t} (hst : isActivatable (s.stateOf J)) (hj : s.jobs J ≠ none)
      (hkey : (s.job J).groupKey = some gk)
      (hnext : (s.job J).orderingSeq = 0 ∨ (s.groups gk).nextSeq = 0 ∨
        (s.job J).orderingSeq = (s.groups gk).nextSeq)
      (hfull : (s.groups gk).maxConcurrency ≤ 0 ∨
        (s.groups gk).active < (s.groups gk).maxConcurrency)
      (h : t.core = ((startInGroup s gk J (s.job J).orderingSeq).setState J .active).core) :
      ClaimOutcome M J s t
  /-- A job from before the frontier already has its slot. -/
  | startAgain {gk t} (inQueue : Bool) (hchain : inQueue → M.chain)
      (hst : isActivatable (s.stateOf J)) (hj : s.jobs J ≠ none)
      (hkey : (s.job J).groupKey = some gk) (hseq : 0 < (s.job J).orderingSeq)
      (hnext : (s.job J).orderingSeq < (s.groups gk).nextSeq)
      (h : t.core = ((if inQueue then s else s.zremGroupq gk J).setState J .active).core) :
      ClaimOutcome M J s t

/-- What may surround an outcome. -/
inductive ClaimTail (M : ClaimMode) (s : Queue) : Queue → Prop
  | group {t} (h : GroupStep s t) : ClaimTail M s t
  /-- The entry of a job that does not wait for it goes. -/
  | ack {J group e} (hst : s.stateOf J ≠ some .waiting) (hW : M.ownEntries → EntryOf s J e) :
      ClaimTail M s (ackDel s group e)

abbrev ClaimTails (M : ClaimMode) : Queue → Queue → Prop := Relation.ReflTransGen (ClaimTail M)

inductive ClaimStep (M : ClaimMode) (s : Queue) : Queue → Prop
  | tail {t} (h : ClaimTail M s t) : ClaimStep M s t
  | outcome {J t} (h : ClaimOutcome M J s t) : ClaimStep M s t

abbrev ClaimSteps (M : ClaimMode) : Queue → Queue → Prop := Relation.ReflTransGen (ClaimStep M)

/-- A claim on `J` that came to its end. -/
def Claims (M : ClaimMode) (J : JobId) (s t : Queue) : Prop :=
  ∃ u v, ClaimTails M s u ∧ ClaimOutcome M J u v ∧ ClaimTails M v t

section

variable {M : ClaimMode} {s t u : Queue}

theorem GroupSteps.tails (h : GroupSteps s t) : ClaimTails M s t :=
  h.keeps (fun _ _ hstep hc => hc.tail (.group hstep)) .refl

theorem ClaimTails.of_core (h : t.core = s.core) : ClaimTails M s t := (GroupSteps.of_core h).tails

theorem ClaimTails.keeps {I : Queue → Prop} (hI : ∀ s t, ClaimTail M s t → I s → I t)
    (h : ClaimTails M s t) (hs : I s) : I t := by
  induction h with
  | refl => exact hs
  | tail _ hstep ih => exact hI _ _ hstep ih

theorem ClaimTails.steps (h : ClaimTails M s t) : ClaimSteps M s t :=
  h.keeps (fun _ _ hstep hc => hc.tail (.tail hstep)) .refl

theorem ClaimSteps.of_core (h : t.core = s.core) : ClaimSteps M s t := (ClaimTails.of_core h).steps

theorem ClaimSteps.keeps {I : Queue → Prop} (hI : ∀ s t, ClaimStep M s t → I s → I t)
    (h : ClaimSteps M s t) (hs : I s) : I t := by
  induction h with
  | refl => exact hs
  | tail _ hstep ih => exact hI _ _ hstep ih

theorem ClaimOutcome.claims {J : JobId} (h : ClaimOutcome M J s t) : Claims M J s t :=
  ⟨s, t, .refl, h, .refl⟩

theorem Claims.steps {J : JobId} (h : Claims M J s t) : ClaimSteps M s t := by
  obtain ⟨u, v, hu, hv, ht⟩ := h
  exact (hu.steps.tail (.outcome hv)).trans ht.steps

theorem Claims.after {J : JobId} (h : ClaimTails M s t) (h' : Claims M J t u) : Claims M J s u := by
  obtain ⟨v, w, hv, hw, hu⟩ := h'
  exact ⟨v, w, h.trans hv, hw, hu⟩

theorem Claims.before {J : JobId} (h : Claims M J s t) (h' : ClaimTails M t u) : Claims M J s u := by
  obtain ⟨v, w, hv, hw, ht⟩ := h
  exact ⟨v, w, hv, hw, ht.trans h'⟩

theorem Claims.quiet {J : JobId} (h : Claims M J s t) (h' : u.core = t.core) : Claims M J s u :=
  h.before (.of_core h')

end

/-! ## Lists -/

theorem list_of_core {s t : Queue} (h : t.core = s.core) (k : ListKey) : t.list k = s.list k :=
  key_of_core (Queue.list · k) (fun _ => by cases k <;> rfl) h

theorem closeOrderingHole_list (s : Queue) (J : JobId) (k : ListKey) :
    (closeOrderingHole s J).list k = s.list k := by
  unfold closeOrderingHole
  simp only
  repeat' split
  all_goals cases k <;> rfl

theorem GroupStep.list {s t : Queue} (h : GroupStep s t) (k : ListKey) : t.list k = s.list k := by
  cases h with
  | quiet h => exact list_of_core h k
  | skip gk =>
    unfold skipToNext
    simp only
    repeat' split
    all_goals cases k <;> rfl
  | @tombstone gk J x _ _ =>
    unfold consumeOrderedTombstone
    split
    · cases k <;> rfl
    · exact list_of_core (core_markOrderingDone (s.zremGroupq gk J) J _ _) k
  | @failParked gk J t x r y _ _ _ _ h =>
    rw [list_of_core h, closeOrderingHole_list]
    cases k <;> rfl
  | _ => cases k <;> rfl

theorem ackDel_list (s : Queue) (group : Group) (e : Option Nat) (k : ListKey) :
    (ackDel s group e).list k = s.list k := by
  cases e <;> cases k <;> rfl

theorem ClaimOutcome.list {M : ClaimMode} {J : JobId} {s t : Queue} (h : ClaimOutcome M J s t)
    (k : ListKey) : t.list k = s.list k := by
  cases h with
  | @park gk group e x t _ _ _ _ h =>
    rw [list_of_core h, ← ackDel_list s group e]
    cases k <;> rfl
  | @fail group e x r y t _ _ _ h =>
    rw [list_of_core h, closeOrderingHole_list, ← ackDel_list s group e]
    cases k <;> rfl
  | start _ _ _ h => rw [list_of_core h]; cases k <;> rfl
  | @startFirst gk t _ _ _ _ _ h =>
    rw [list_of_core h]
    unfold startInGroup
    split <;> cases k <;> rfl
  | @startAgain gk t inQueue _ _ _ _ _ _ h =>
    rw [list_of_core h]
    cases inQueue <;> cases k <;> rfl

theorem ClaimSteps.list {M : ClaimMode} {s t : Queue} (h : ClaimSteps M s t) (k : ListKey) :
    t.list k = s.list k := by
  refine h.keeps (I := fun u => u.list k = s.list k) (fun u v hstep hu => ?_) rfl
  cases hstep with
  | tail h =>
    cases h with
    | group h => rw [h.list, hu]
    | ack _ _ => rw [ackDel_list, hu]
  | outcome h => rw [h.list, hu]

/-! ## The frontier -/

theorem le_runSkips (skip : List Nat) : ∀ (steps n : Nat), n ≤ (runSkips steps skip n).2 := by
  intro steps
  induction steps generalizing skip with
  | zero => intro n; exact le_rfl
  | succ steps ih =>
    intro n
    rw [runSkips]
    split
    · exact le_trans (Nat.le_succ n) (ih _ (n + 1))
    · exact le_rfl

theorem le_skipsEnd (g : GroupHash) (n : Nat) : n ≤ skipsEnd g n := le_runSkips g.skip _ n

theorem skipToNext_snd (s : Queue) (gk : GroupKey) :
    (skipToNext s gk (s.groups gk).nextSeq).2 =
      ((skipToNext s gk (s.groups gk).nextSeq).1.groups gk).nextSeq := by
  unfold skipToNext
  by_cases hz : (s.groups gk).nextSeq = 0
  · simp [hz]
  · simp only [if_neg hz]
    have hle := le_skipsEnd (s.groups gk) (s.groups gk).nextSeq
    split
    · simp [setNextSeq]
    · simp only [advancePastSkips, hgroup_groups, Function.update_self]
      omega

/-- The queue and the frontier that the gates work with. -/
structure AtFrontier (s : Queue) (gk : GroupKey) (seq : Nat) (r : Queue × Nat) : Prop where
  steps : GroupSteps s r.1
  jobs : r.1.jobs = s.jobs
  stream : r.1.stream = s.stream
  next : 0 < seq → r.2 = (r.1.groups gk).nextSeq

theorem atFrontier_skipToNext (s : Queue) (gk : GroupKey) (seq : Nat) :
    AtFrontier s gk seq (skipToNext s gk (s.groups gk).nextSeq) where
  steps := .one (.skip gk)
  jobs := skipToNext_jobs s gk _
  stream := skipToNext_stream s gk _
  next _ := skipToNext_snd s gk

/-- A job without a sequence skips no marker. -/
def frontierOf (s : Queue) (gk : GroupKey) (seq : Nat) : Queue × Nat :=
  if 0 < seq then skipToNext s gk (s.groups gk).nextSeq else (s, 0)

theorem atFrontier_frontierOf (s : Queue) (gk : GroupKey) (seq : Nat) :
    AtFrontier s gk seq (frontierOf s gk seq) := by
  unfold frontierOf
  split
  · exact atFrontier_skipToNext s gk seq
  · rename_i hseq
    exact ⟨.refl, rfl, rfl, fun h => absurd h hseq⟩

/-! ## Writes of a claim -/

section

variable {s t : Queue} (h : t.core = s.core)

include h

theorem core_setState (J : JobId) (st : JobState) : (t.setState J st).core = (s.setState J st).core :=
  core_hset h J fun _ => rfl

theorem core_zremGroupq (gk : GroupKey) (J : JobId) :
    (t.zremGroupq gk J).core = (s.zremGroupq gk J).core := by
  have hself (q : Queue) : (q.zremGroupq gk J).core = q.core.zremGroupq gk J := rfl
  rw [hself, hself, h]

theorem core_takeSlot (gk : GroupKey) (seq : Nat) :
    (takeSlot t gk seq).core = (takeSlot s gk seq).core :=
  core_hgroup_congr h gk fun _ => rfl

theorem core_startInGroup (gk : GroupKey) (J : JobId) (seq : Nat) :
    (startInGroup t gk J seq).core = (startInGroup s gk J seq).core := by
  unfold startInGroup
  split
  · exact core_zremGroupq (core_takeSlot h gk seq) gk J
  · exact core_takeSlot h gk seq

theorem entryOf_of_core {J : JobId} {e : Option Nat} : EntryOf t J e ↔ EntryOf s J e := by
  unfold EntryOf
  rw [entries_of_core h, lastId_of_core h]

end

theorem core_activate (s : Queue) (J : JobId) (now : Int) (l : Bool) :
    (activate s J now l).core = (s.setState J .active).core := by
  unfold activate Queue.setState
  rw [core_hset_eq, core_hset_eq]
  rfl

/-! ## The worker's claim -/

/-- A job that may be claimed, and the claim's entry. -/
structure Claimable (M : ClaimMode) (J : JobId) (e : Option Nat) (s : Queue) : Prop where
  hst : isActivatable (s.stateOf J)
  hj : s.jobs J ≠ none
  hW : M.ownEntries → EntryOf s J e

theorem Claimable.of_eq {M : ClaimMode} {J : JobId} {e : Option Nat} {s t : Queue}
    (h : Claimable M J e s) (hjobs : t.jobs = s.jobs) (hstream : t.stream = s.stream) :
    Claimable M J e t where
  hst := by unfold Queue.stateOf; rw [hjobs]; exact h.hst
  hj := by rw [hjobs]; exact h.hj
  hW hw := by unfold EntryOf; rw [hstream]; exact h.hW hw

theorem Claimable.of_core {M : ClaimMode} {J : JobId} {e : Option Nat} {s t : Queue}
    (h : Claimable M J e s) (hcore : t.core = s.core) : Claimable M J e t where
  hst := by rw [stateOf_of_core hcore]; exact h.hst
  hj := fun hn => h.hj ((jobs_none_of_core hcore J).mp hn)
  hW hw := (entryOf_of_core hcore).mpr (h.hW hw)

section

variable {M : ClaimMode} {J : JobId} {e : Option Nat} {s : Queue} (h : Claimable M J e s)

include h

theorem claims_park {gk : GroupKey} (hkey : (s.job J).groupKey = some gk) (group : Group) (x : Int) :
    Claims M J s (park (ackDel s group e) gk J x) :=
  (ClaimOutcome.park h.hst h.hj hkey h.hW rfl).claims

theorem claims_failOversize (group : Group) (gk : GroupKey) (now serverNow : Int) :
    Claims M J s
      (closeOrderingHoleAndPromote (failOversize (ackDel s group e) J gk now) J now serverNow) := by
  have hfail : ClaimOutcome M J s (closeOrderingHole (failOversize (ackDel s group e) J gk now) J) :=
    .fail h.hst h.hj h.hW (core_closeOrderingHole (core_failOversize _ J gk now) J)
  exact hfail.claims.before (closeOrderingHoleAndPromote_steps _ J now serverNow).tails

theorem claims_expireJob (group : Group) (now serverNow : Int) (k : Option GroupKey)
    (n : Option Nat) (g : Option GroupKey) :
    Claims M J s (ackDel (expireJob s J now serverNow (s.stateOf J) k n g) group e) := by
  have hne : s.stateOf J ≠ some .failed ∧ s.stateOf J ≠ some .active := by
    have hst := h.hst
    constructor <;> intro hf <;> simp [hf, isActivatable] at hst
  unfold expireJob
  simp only [if_neg hne.1, if_neg hne.2]
  generalize hv : markOrderingDone _ J k n = v
  have hcore : v.core = (endFailed s J now "expired" now).core := by
    rw [← hv, core_markOrderingDone, core_advanceRepeatAfterComplete]
    rfl
  have hfail : ClaimOutcome M J s (closeOrderingHole v J) := by
    have hclosed : (closeOrderingHole v J).core =
        (closeOrderingHole (endFailed (ackDel s group none) J now "expired" now) J).core :=
      core_closeOrderingHole hcore J
    exact .fail h.hst h.hj (fun _ => by simp [EntryOf]) hclosed
  have hsteps := closeOrderingHoleAndPromote_steps v J now serverNow
  have hfailed : (closeOrderingHole v J).stateOf J = some .failed := by
    rw [closeOrderingHole_stateOf, stateOf_of_core hcore, stateOf_endFailed, if_pos rfl]
  have hext : s.stream.Extends (closeOrderingHoleAndPromote v J now serverNow).stream := by
    refine Redis.Stream.Extends.trans ?_ hsteps.extends
    rw [closeOrderingHole_stream]
    have hentries := entries_of_core hcore
    have hlast := lastId_of_core hcore
    exact .of_eq hentries hlast
  refine ((hfail.claims.before hsteps.tails).quiet (core_recordFailed _ _ _)).before (.single (.ack (J := J) ?_ ?_))
  · have hlast : (closeOrderingHoleAndPromote v J now serverNow).stateOf J = some .failed :=
      hsteps.failed hfailed
    intro hw
    rw [stateOf_of_core (core_recordFailed _ _ _), hlast] at hw
    cases hw
  · exact fun hw => (h.hW hw).extends hext

end

section

variable {M : ClaimMode} {J : JobId} {e : Option Nat} {s t u : Queue} {gk : GroupKey}

theorem outcome_startFirst (h : Claimable M J e s) (hkey : (s.job J).groupKey = some gk)
    (hnext : (s.job J).orderingSeq = 0 ∨ (s.groups gk).nextSeq = 0 ∨
      (s.job J).orderingSeq = (s.groups gk).nextSeq)
    (hfull : (s.groups gk).maxConcurrency ≤ 0 ∨ (s.groups gk).active < (s.groups gk).maxConcurrency)
    (hcore : t.core = s.core)
    (hu : u.core = ((startInGroup t gk J (s.job J).orderingSeq).setState J .active).core) :
    ClaimOutcome M J s u :=
  .startFirst h.hst h.hj hkey hnext hfull
    (hu.trans (core_setState (core_startInGroup hcore gk J _) J .active))

theorem outcome_startAgain (h : Claimable M J e s) (hkey : (s.job J).groupKey = some gk)
    (hseq : 0 < (s.job J).orderingSeq) (hnext : (s.job J).orderingSeq < (s.groups gk).nextSeq)
    (hcore : t.core = s.core) (inQueue : Bool) (hchain : inQueue → M.chain)
    (hu : u.core = ((if inQueue then t else t.zremGroupq gk J).setState J .active).core) :
    ClaimOutcome M J s u := by
  refine .startAgain inQueue hchain h.hst h.hj hkey hseq hnext (hu.trans ?_)
  cases inQueue
  · exact core_setState (core_zremGroupq hcore gk J) J .active
  · exact core_setState hcore J .active

end

theorem claimInGroup_claims {M : ClaimMode} {s : Queue} {a : MoveArgs} {gk : GroupKey}
    (h : Claimable M a.jobId a.entryId s) (hkey : (s.job a.jobId).groupKey = some gk) :
    Claims M a.jobId s (claimInGroup s a gk).1 := by
  unfold claimInGroup
  simp only
  generalize hr : (if 0 < (s.job a.jobId).orderingSeq then skipToNext s gk (s.groups gk).nextSeq
    else (s, 0)) = r
  have hzero : (s.job a.jobId).orderingSeq = 0 → r.2 = 0 := fun hz => by rw [← hr, hz]; rfl
  obtain ⟨hsteps, hjobs, hstream, hnext⟩ : AtFrontier s gk (s.job a.jobId).orderingSeq r :=
    hr ▸ atFrontier_frontierOf s gk (s.job a.jobId).orderingSeq
  obtain ⟨u, n⟩ := r
  simp only at hsteps hjobs hstream hnext hzero ⊢
  have hjob : u.job a.jobId = s.job a.jobId := by unfold Queue.job; rw [hjobs]
  have hu := h.of_eq hjobs hstream
  have hkey' : (u.job a.jobId).groupKey = some gk := by rw [hjob]; exact hkey
  by_cases hearly : 0 < n ∧ n < (s.job a.jobId).orderingSeq
  · rw [if_pos hearly]
    exact (claims_park hu hkey' _ _).after hsteps.tails
  rw [if_neg hearly]
  by_cases hfull : 0 < (u.groups gk).maxConcurrency ∧
      (u.groups gk).maxConcurrency ≤ (u.groups gk).active ∧
      ¬ (decide (0 < n ∧ (s.job a.jobId).orderingSeq < n)) = true
  · rw [if_pos hfull]
    exact (claims_park hu hkey' _ _).after hsteps.tails
  rw [if_neg hfull]
  have hrefill : (refill u gk a.serverNow).1.core = u.core := core_refill u gk a.serverNow
  have hv := hu.of_core hrefill
  generalize (refill u gk a.serverNow) = q at *
  obtain ⟨v, tokens⟩ := q
  simp only at hrefill hv ⊢
  have hkeyv : (v.job a.jobId).groupKey = some gk := by
    rw [job_of_core Job.groupKey (fun _ => rfl) hrefill, hkey']
  have hsteps' : ClaimTails M s v := hsteps.tails.trans (ClaimTails.of_core hrefill)
  split
  · exact (claims_failOversize hv _ gk _ _).after hsteps'
  split
  · exact ((claims_park hv hkeyv _ _).before (GroupSteps.one (.limit gk _)).tails).after hsteps'
  -- the job starts
  refine Claims.after hsteps.tails (ClaimOutcome.claims ?_)
  have hcharge : (chargeGroup v gk ((s.job a.jobId).cost.getD 1000) a.timestamp).core = u.core :=
    (core_chargeGroup v gk _ a.timestamp).trans hrefill
  by_cases hreturning : 0 < n ∧ (s.job a.jobId).orderingSeq < n
  · have hseq : 0 < (s.job a.jobId).orderingSeq := by omega
    refine outcome_startAgain hu hkey' (by rwa [hjob]) (by rw [hjob, ← hnext hseq]; exact hreturning.2)
      hcharge false (by simp) ?_
    simp only [hreturning, hseq, if_true, and_self, decide_true]
    exact core_activate _ _ _ _
  · refine outcome_startFirst hu hkey' ?_ ?_ hcharge ?_
    · rw [hjob]
      rcases Nat.eq_zero_or_pos (s.job a.jobId).orderingSeq with hz | hseq
      · exact Or.inl hz
      · have := hnext hseq
        omega
    · simp only [hreturning, decide_false, Bool.false_eq_true, not_false_eq_true, and_true] at hfull
      omega
    · simp only [hreturning, decide_false, hjob]
      rw [core_activate]
      unfold startInGroup
      split <;> rfl

theorem claims_start {M : ClaimMode} {J : JobId} {e : Option Nat} {s : Queue} (h : Claimable M J e s)
    (hkey : (s.job J).groupKey = none ∨ M.ungated) (now : Int) (l : Bool) :
    Claims M J s (activate s J now l) :=
  (ClaimOutcome.start h.hst h.hj hkey (core_activate s J now l)).claims

/-- What the worker's claim does: nothing, the end of a stale entry, or a claim. -/
theorem moveToActiveClaim_cases {M : ClaimMode} {s : Queue} {a : MoveArgs}
    (hW : M.ownEntries → EntryOf s a.jobId a.entryId) :
    (moveToActiveClaim s a).1 = s ∨
      (s.jobs a.jobId ≠ none ∧ ¬ isActivatable (s.stateOf a.jobId) ∧
        (moveToActiveClaim s a).1 = ackDel s a.group a.entryId) ∨
      Claims M a.jobId s (moveToActiveClaim s a).1 := by
  unfold moveToActiveClaim
  simp only
  cases hj : s.jobs a.jobId with
  | none => exact Or.inl rfl
  | some job =>
    have hstate : s.stateOf a.jobId = job.state := by simp [Queue.stateOf, hj]
    have hjob : s.job a.jobId = job := by simp [Queue.job, hj]
    simp only
    by_cases hst : isActivatable job.state
    · have h : Claimable M a.jobId a.entryId s := ⟨by rwa [hstate], by simp [hj], hW⟩
      rw [if_neg (by simp [hst])]
      split
      · exact Or.inl rfl
      split
      · exact Or.inl rfl
      split
      · rw [← hstate]
        exact Or.inr (Or.inr (claims_expireJob h _ _ _ _ _ _))
      split
      · exact Or.inl rfl
      split
      · rename_i gk hgk
        exact Or.inr (Or.inr (claimInGroup_claims h (by rwa [hjob])))
      · rename_i hkey
        exact Or.inr (Or.inr (claims_start h (Or.inl (by rwa [hjob])) _ _))
    · refine Or.inr (Or.inl ⟨by simp, by rwa [hstate], ?_⟩)
      rw [if_pos (by simp [hst])]

end GlideMq
