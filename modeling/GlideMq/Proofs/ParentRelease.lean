import GlideMq.Machine.Runs
import GlideMq.Model.Admin
import GlideMq.Proofs.ClaimSteps
import GlideMq.Proofs.ParentFrame

/-!
# Releasing a parent

A parent counts each registered child once, and goes back into the stream exactly when the last one
is done. This holds for every order of registrations and completions, also late, early and repeated
ones.
-/

namespace GlideMq

open Queue

/-! ## Counting -/

/-- A job hash whose counter is the number of its distinct members recorded as done, all of them
registered. -/
structure Job.Counted (j : Job) (deps : List DepMember) : Prop where
  counted : j.depsCompleted = j.depdone.length
  once : j.depdone.Nodup
  done_registered : ∀ m ∈ j.depdone, m ∈ deps

structure Counts (s : Queue) (P : JobId) : Prop where
  registered : (s.deps P).Nodup
  job : (s.job P).Counted (s.deps P)

/-- Every registered member is recorded as done. -/
def AllDone (s : Queue) (P : JobId) : Prop := ∀ m ∈ s.deps P, m ∈ (s.job P).depdone

theorem Counts.remaining_le_zero {s : Queue} {P : JobId} (h : Counts s P) :
    remainingDeps s P ≤ 0 ↔ AllDone s P := by
  unfold remainingDeps
  rw [h.job.counted]
  constructor
  · intro hle m hm
    have hsub : (s.job P).depdone.Subperm (s.deps P) :=
      List.subperm_of_subset h.job.once h.job.done_registered
    have hperm := hsub.perm_of_length_le (by omega)
    exact hperm.mem_iff.mpr hm
  · intro hall
    have hsub : (s.deps P).Subperm (s.job P).depdone := List.subperm_of_subset h.registered hall
    have := hsub.length_le
    omega

theorem Job.markDone_depdone (j : Job) (m : DepMember) :
    (j.markDone m).depdone = j.depdone.insert m := by
  unfold Job.markDone
  by_cases hm : m ∈ j.depdone
  · simp [hm]
  · simp [hm]

theorem Job.Counted.markDone {j : Job} {deps : List DepMember} (h : j.Counted deps) {m : DepMember}
    (hm : m ∈ deps) : (j.markDone m).Counted deps := by
  unfold Job.markDone
  split
  · exact h
  · rename_i hnew
    refine ⟨by simp [h.counted], List.nodup_cons.mpr ⟨hnew, h.once⟩, ?_⟩
    rintro m' hm'
    rcases List.mem_cons.mp hm' with rfl | hold
    · exact hm
    · exact h.done_registered m' hold

theorem Job.Counted.countEarly {j : Job} {deps : List DepMember} (h : j.Counted deps)
    {m : DepMember} (hm : m ∈ deps) : (j.countEarly m).Counted deps := by
  have h' : Job.Counted
      { j with depearly := j.depearly.filter (· ≠ m), depsEarly := j.depsEarly - 1 } deps :=
    ⟨h.counted, h.once, h.done_registered⟩
  exact h'.markDone hm

theorem Job.Counted.foldl_countEarly {deps : List DepMember} (ms : List DepMember) {j : Job}
    (h : j.Counted deps) (hms : ∀ m ∈ ms, m ∈ deps) : (ms.foldl Job.countEarly j).Counted deps := by
  induction ms generalizing j with
  | nil => exact h
  | cons m ms ih =>
    exact ih (h.countEarly (hms m (by simp))) fun m' hm' => hms m' (by simp [hm'])

theorem Job.mem_depdone_countEarly {j : Job} {m m' : DepMember} (h : m' ∈ j.depdone) :
    m' ∈ (j.countEarly m).depdone := by
  unfold Job.countEarly
  rw [Job.markDone_depdone]
  exact List.mem_insert_of_mem h

theorem Job.mem_depdone_foldl_countEarly (ms : List DepMember) {j : Job} {m : DepMember}
    (h : m ∈ j.depdone) : m ∈ (ms.foldl Job.countEarly j).depdone := by
  induction ms generalizing j with
  | nil => exact h
  | cons m' ms ih => exact ih (Job.mem_depdone_countEarly h)

theorem Job.depdone_foldl_countEarly_of_done {ms : List DepMember} {j : Job}
    (h : ∀ m ∈ ms, m ∈ j.depdone) : (ms.foldl Job.countEarly j).depdone = j.depdone := by
  induction ms generalizing j with
  | nil => rfl
  | cons m ms ih =>
    have hm : (j.countEarly m).depdone = j.depdone := by
      unfold Job.countEarly
      rw [Job.markDone_depdone]
      exact List.insert_of_mem (h m (by simp))
    rw [List.foldl_cons, ih, hm]
    intro m' hm'
    rw [hm]
    exact h m' (by simp [hm'])

/-! ## The invariant of a parent -/

/-- The entries of `P` with an id after `b`. -/
def newEntries (b : Nat) (s : Queue) (P : JobId) : List (Redis.Entry JobEntry) :=
  s.stream.entries.filter fun e => e.val.jobId = P ∧ b < e.id

structure ParentBase (s : Queue) (P : JobId) : Prop where
  here : s.jobs P ≠ none
  counts : Counts s P
  keyed : (s.job P).groupKey ≠ none → 0 < (s.job P).orderingSeq
  unfinished : P ∉ s.completed

structure ParentInv (s : Queue) (P : JobId) : Prop extends ParentBase s P where
  /-- It waits for something. -/
  waits : s.stateOf P = some .waitingChildren → s.deps P ≠ [] → ¬ AllDone s P
  /-- Only a parked job, or one that failed while it was parked, is in a wait queue. -/
  parked : ∀ gk, P ∈ s.groupq gk → (s.job P).groupKey = some gk ∧
    (s.stateOf P = some .groupWaiting ∨ s.stateOf P = some .failed)

/-- What a write does to a parent that it is not about: the parent goes on waiting for its
children, or goes on not waiting for them. -/
structure Passes (P : JobId) (s t : Queue) : Prop where
  inv : ParentInv t P
  state : t.stateOf P = some .waitingChildren ↔ s.stateOf P = some .waitingChildren
  lastId : s.stream.lastId ≤ t.stream.lastId
  entries : s.stateOf P = some .waitingChildren →
    ∀ b, newEntries b s P = [] → newEntries b t P = []

theorem Passes.refl {P : JobId} {s : Queue} (h : ParentInv s P) : Passes P s s :=
  ⟨h, Iff.rfl, le_rfl, fun _ _ hb => hb⟩

theorem Passes.trans {P : JobId} {s t u : Queue} (h : Passes P s t) (h' : Passes P t u) :
    Passes P s u where
  inv := h'.inv
  state := h'.state.trans h.state
  lastId := le_trans h.lastId h'.lastId
  entries hs b hb := h'.entries (h.state.mpr hs) b (h.entries hs b hb)

/-- The fields of a parent's hash that the invariant is about. -/
def Job.asParent (j : Job) : Job where
  state := j.state
  groupKey := j.groupKey
  orderingSeq := j.orderingSeq
  depsCompleted := j.depsCompleted
  depdone := j.depdone

/-- A write that leaves the parent's keys alone. -/
structure Same (P : JobId) (s t : Queue) : Prop where
  jobs : (t.jobs P).map Job.asParent = (s.jobs P).map Job.asParent
  deps : t.deps P = s.deps P
  groupq : ∀ gk, P ∈ t.groupq gk → P ∈ s.groupq gk
  completed : P ∈ t.completed → P ∈ s.completed
  lastId : s.stream.lastId ≤ t.stream.lastId
  entries : ∀ e ∈ t.stream.entries, e.val.jobId = P → e ∈ s.stream.entries

section

variable {P : JobId} {s t : Queue}

theorem Same.none (h : Same P s t) : t.jobs P = none ↔ s.jobs P = none := by
  have := congrArg Option.isSome h.jobs
  simp only [Option.isSome_map] at this
  rw [← Option.not_isSome_iff_eq_none, ← Option.not_isSome_iff_eq_none, this]

theorem Same.job {α : Type} (h : Same P s t) (f : Job → α) (hf : ∀ j, f j.asParent = f j) :
    f (t.job P) = f (s.job P) := by
  have := h.jobs
  unfold Queue.job
  cases ht : t.jobs P <;> cases hs : s.jobs P <;> simp [ht, hs] at this ⊢
  rw [← hf, this, hf]

theorem Same.stateOf (h : Same P s t) : t.stateOf P = s.stateOf P := by
  rw [stateOf_eq, stateOf_eq]
  exact h.job Job.state fun _ => rfl

theorem Same.counted (h : Same P s t) : Counts t P ↔ Counts s P := by
  have hcount := h.job Job.depsCompleted fun _ => rfl
  have hdone := h.job Job.depdone fun _ => rfl
  constructor
  · rintro ⟨hreg, hc, hn, hd⟩
    rw [h.deps] at hreg
    rw [hcount, hdone] at hc
    rw [hdone] at hn
    rw [hdone, h.deps] at hd
    exact ⟨hreg, hc, hn, hd⟩
  · rintro ⟨hreg, hc, hn, hd⟩
    rw [← h.deps] at hreg
    rw [← hcount, ← hdone] at hc
    rw [← hdone] at hn
    rw [← hdone, ← h.deps] at hd
    exact ⟨hreg, hc, hn, hd⟩

theorem Same.allDone (h : Same P s t) : AllDone t P ↔ AllDone s P := by
  unfold AllDone
  rw [h.deps, h.job Job.depdone fun _ => rfl]

theorem Same.newEntries (h : Same P s t) {b : Nat} (hb : newEntries b s P = []) :
    newEntries b t P = [] := by
  unfold GlideMq.newEntries at hb ⊢
  rw [List.filter_eq_nil_iff] at hb ⊢
  intro e he hnew
  simp only [decide_eq_true_eq] at hnew
  exact hb e (h.entries e he hnew.1) (by simpa using hnew)

theorem Same.inv (h : Same P s t) (hs : ParentInv s P) : ParentInv t P where
  here := fun hn => hs.here (h.none.mp hn)
  counts := h.counted.mpr hs.counts
  waits := by
    rw [h.stateOf, h.deps, h.allDone]
    exact hs.waits
  parked gk hq := by
    rw [h.stateOf, h.job Job.groupKey fun _ => rfl]
    exact hs.parked gk (h.groupq gk hq)
  keyed := by
    rw [h.job Job.groupKey fun _ => rfl, h.job Job.orderingSeq fun _ => rfl]
    exact hs.keyed
  unfinished := fun hc => hs.unfinished (h.completed hc)

theorem Same.passes (h : Same P s t) (hs : ParentInv s P) : Passes P s t where
  inv := h.inv hs
  state := by rw [h.stateOf]
  lastId := h.lastId
  entries _ _ hb := h.newEntries hb

theorem Same.of_core (h : t.core = s.core) : Same P s t where
  jobs := by
    have hjobs : (t.jobs P).map Job.core = (s.jobs P).map Job.core :=
      congrFun (congrArg Queue.jobs h) P
    have hcore (o : Option Job) : o.map Job.asParent = (o.map Job.core).map Job.asParent := by
      rw [Option.map_map]; rfl
    rw [hcore (t.jobs P), hjobs, ← hcore]
  deps := by rw [key_of_core Queue.deps (fun _ => rfl) h]
  groupq gk hq := by rwa [key_of_core Queue.groupq (fun _ => rfl) h] at hq
  completed hc := by rwa [key_of_core Queue.completed (fun _ => rfl) h] at hc
  lastId := (lastId_of_core h).ge
  entries e he _ := by rwa [entries_of_core h] at he

theorem Same.trans {u : Queue} (h : Same P s t) (h' : Same P t u) : Same P s u where
  jobs := h'.jobs.trans h.jobs
  deps := h'.deps.trans h.deps
  groupq gk hq := h.groupq gk (h'.groupq gk hq)
  completed hc := h.completed (h'.completed hc)
  lastId := le_trans h.lastId h'.lastId
  entries e he hP := h.entries e (h'.entries e he hP) hP

end

/-! ## Writes about other jobs -/

section

variable {P : JobId} {s t : Queue}

theorem Same.of_keys (hjobs : t.jobs P = s.jobs P) (hdeps : t.deps P = s.deps P)
    (hq : ∀ gk, P ∈ t.groupq gk → P ∈ s.groupq gk) (hc : P ∈ t.completed → P ∈ s.completed)
    (hstream : t.stream = s.stream) : Same P s t where
  jobs := by rw [hjobs]
  deps := hdeps
  groupq := hq
  completed := hc
  lastId := by rw [hstream]
  entries e he _ := by rwa [hstream] at he

theorem Same.hset {J : JobId} (hne : P ≠ J) (f : Job → Job) : Same P s (s.hset J f) :=
  .of_keys (by simp [hne]) rfl (fun _ h => h) id rfl

theorem Same.hmod {J : JobId} (hne : P ≠ J) (f : Job → Job) : Same P s (s.hmod J f) :=
  .of_keys (by simp [hne]) rfl (fun _ h => h) id rfl

theorem Same.xadd {J : JobId} (hne : P ≠ J) : Same P s (s.xaddJob J) where
  jobs := rfl
  deps := rfl
  groupq _ h := h
  completed := id
  lastId := Nat.le_succ _
  entries e he hP := by
    rcases Redis.Stream.mem_entries_xadd.mp he with he | rfl
    · exact he
    · exact absurd hP.symm hne

theorem Same.zremGroupq (gk : GroupKey) (J : JobId) : Same P s (s.zremGroupq gk J) := by
  refine .of_keys rfl rfl (fun k h => ?_) id rfl
  simp only [zremGroupq_groupq, Function.update_apply] at h
  split at h
  · rename_i hk; subst hk
    exact (Redis.SortedSet.mem_rem.mp h).2
  · exact h

theorem Same.zaddGroupq {J : JobId} (hne : P ≠ J) (gk : GroupKey) (x : Int) :
    Same P s (s.zaddGroupq gk J x) := by
  refine .of_keys rfl rfl (fun k h => ?_) id rfl
  simp only [zaddGroupq_groupq, Function.update_apply] at h
  split at h
  · rename_i hk; subst hk
    exact (Redis.SortedSet.mem_add.mp h).resolve_left hne
  · exact h

theorem Same.ackDel (group : Group) (e : Option Nat) : Same P s (ackDel s group e) := by
  cases e with
  | none => exact .of_keys rfl rfl (fun _ h => h) id rfl
  | some n =>
    refine ⟨rfl, rfl, fun _ h => h, id, le_rfl, fun e he _ => ?_⟩
    exact (Redis.Stream.mem_entries_xdel.mp he).1

theorem Same.closeOrderingHole {J : JobId} (hne : P ≠ J) : Same P s (closeOrderingHole s J) := by
  unfold GlideMq.closeOrderingHole
  simp only
  split
  · exact .of_keys rfl rfl (fun _ h => h) id rfl
  split
  · exact .of_keys rfl rfl (fun _ h => h) id rfl
  split
  · exact .of_keys (by simp [clearRetainedSlot, hne]) rfl (fun _ h => h) id rfl
  · exact .of_keys rfl rfl (fun _ h => h) id rfl

theorem Same.endFailed {J : JobId} (hne : P ≠ J) (x : Int) (r : String) (y : Int) :
    Same P s (endFailed s J x r y) := by
  have hadd : Same P s (s.zaddFailed J x) := .of_keys rfl rfl (fun _ h => h) id rfl
  unfold GlideMq.endFailed setFailed
  exact hadd.trans (.hset hne _)

theorem Same.skip (gk : GroupKey) (n : Nat) : Same P s (skipToNext s gk n).1 := by
  unfold skipToNext
  simp only
  repeat' split
  all_goals exact .of_keys rfl rfl (fun _ h => h) id rfl

theorem Same.tombstone (gk : GroupKey) (n : Nat) (J : JobId) (x : Int) :
    Same P s (consumeOrderedTombstone s gk n J x).1 := by
  unfold consumeOrderedTombstone
  split
  · exact .of_core rfl
  · have hmark : Same P s (markOrderingDone s J (some gk) (some n)) :=
      .of_core (core_markOrderingDone s J _ _)
    exact hmark.trans (.of_keys rfl rfl (fun _ h => h) id rfl)

end

/-! ## The parent's own moves -/

/-- What a parent keeps when it moves between containers. -/
def Job.edges (j : Job) : Nat × List DepMember × Option GroupKey × Nat :=
  (j.depsCompleted, j.depdone, j.groupKey, j.orderingSeq)

/-- A move of the parent itself, outside its wait for children. -/
structure Moves (P : JobId) (s t : Queue) : Prop where
  edges : (t.jobs P).map Job.edges = (s.jobs P).map Job.edges
  deps : t.deps P = s.deps P
  completed : P ∈ t.completed → P ∈ s.completed
  lastId : s.stream.lastId ≤ t.stream.lastId

section

variable {P : JobId} {s t : Queue}

theorem Same.moves (h : Same P s t) : Moves P s t where
  edges := by
    have hedges (o : Option Job) : o.map Job.edges = (o.map Job.asParent).map Job.edges := by
      rw [Option.map_map]; rfl
    rw [hedges (t.jobs P), h.jobs, ← hedges]
  deps := h.deps
  completed := h.completed
  lastId := h.lastId

theorem Moves.trans {u : Queue} (h : Moves P s t) (h' : Moves P t u) : Moves P s u where
  edges := h'.edges.trans h.edges
  deps := h'.deps.trans h.deps
  completed hc := h.completed (h'.completed hc)
  lastId := le_trans h.lastId h'.lastId

theorem Moves.job {α : Type} (h : Moves P s t) (f : Nat × List DepMember × Option GroupKey × Nat → α) :
    f (t.job P).edges = f (s.job P).edges := by
  have := h.edges
  unfold Queue.job
  cases ht : t.jobs P <;> cases hs : s.jobs P <;> simp [ht, hs] at this ⊢
  rw [this]

theorem Moves.hset (hP : s.jobs P ≠ none) {f : Job → Job} (hf : ∀ j, (f j).edges = j.edges) :
    Moves P s (s.hset P f) := by
  obtain ⟨j, hj⟩ := Option.ne_none_iff_exists'.mp hP
  exact ⟨by simp [hj, hf], rfl, id, le_rfl⟩

theorem Moves.base (h : Moves P s t) (hs : ParentBase s P) : ParentBase t P := by
  have hcount : (t.job P).depsCompleted = (s.job P).depsCompleted := h.job (·.1)
  have hdone : (t.job P).depdone = (s.job P).depdone := h.job (·.2.1)
  have hkey : (t.job P).groupKey = (s.job P).groupKey := h.job (·.2.2.1)
  have hseq : (t.job P).orderingSeq = (s.job P).orderingSeq := h.job (·.2.2.2)
  have hhere : t.jobs P ≠ none := by
    intro hn
    have := h.edges
    rw [hn, Option.map_none, eq_comm, Option.map_eq_none_iff] at this
    exact hs.here this
  have hcounts : Counts t P := by
    refine ⟨by rw [h.deps]; exact hs.counts.registered, ?_, ?_, ?_⟩
    · rw [hcount, hdone]; exact hs.counts.job.counted
    · rw [hdone]; exact hs.counts.job.once
    · rw [hdone, h.deps]; exact hs.counts.job.done_registered
  exact ⟨hhere, hcounts, by rw [hkey, hseq]; exact hs.keyed, fun hc => hs.unfinished (h.completed hc)⟩

theorem Moves.inv (h : Moves P s t) (hs : ParentBase s P)
    (hstate : t.stateOf P ≠ some .waitingChildren)
    (hq : ∀ gk, P ∈ t.groupq gk → (s.job P).groupKey = some gk ∧
      (t.stateOf P = some .groupWaiting ∨ t.stateOf P = some .failed)) : ParentInv t P where
  toParentBase := h.base hs
  waits := fun hw => absurd hw hstate
  parked := by
    have hkey : (t.job P).groupKey = (s.job P).groupKey := h.job (·.2.2.1)
    rw [hkey]
    exact hq

theorem Moves.passes (h : Moves P s t) (hs : ParentInv s P)
    (hold : s.stateOf P ≠ some .waitingChildren) (hstate : t.stateOf P ≠ some .waitingChildren)
    (hq : ∀ gk, P ∈ t.groupq gk → (s.job P).groupKey = some gk ∧
      (t.stateOf P = some .groupWaiting ∨ t.stateOf P = some .failed)) : Passes P s t where
  inv := h.inv hs.toParentBase hstate hq
  state := iff_of_false hstate hold
  lastId := h.lastId
  entries hw := absurd hw hold

end

/-! ## Group steps -/

theorem ParentInv.unparked {P : JobId} {s : Queue} (h : ParentInv s P)
    (hw : s.stateOf P = some .waitingChildren) (gk : GroupKey) : P ∉ s.groupq gk := by
  intro hq
  rcases (h.parked gk hq).2 with hst | hst <;> rw [hw] at hst <;> cases hst

theorem Moves.closeOrderingHole (P : JobId) (s : Queue) : Moves P s (closeOrderingHole s P) := by
  unfold GlideMq.closeOrderingHole
  simp only
  split
  · exact (Same.of_core rfl).moves
  split
  · exact (Same.of_core rfl).moves
  split
  · refine ⟨?_, rfl, id, le_rfl⟩
    simp only [clearRetainedSlot, hgroup_jobs, hmod_jobs, zremReturning_jobs, Function.update_self]
    rw [Option.map_map]
    rfl
  · exact ⟨rfl, rfl, id, le_rfl⟩

theorem groupq_closeOrderingHole (s : Queue) (J : JobId) :
    (closeOrderingHole s J).groupq = s.groupq := by
  unfold closeOrderingHole
  simp only
  repeat' split
  all_goals rfl

theorem Moves.endFailed {P : JobId} {s : Queue} (hP : s.jobs P ≠ none) (x : Int) (r : String)
    (y : Int) : Moves P s (endFailed s P x r y) := by
  have hadd : Moves P s (s.zaddFailed P x) := ⟨rfl, rfl, id, le_rfl⟩
  unfold GlideMq.endFailed setFailed
  exact hadd.trans (.hset (by exact hP) fun _ => rfl)

theorem passes_fail {P : JobId} {s u t : Queue} (hs : ParentInv s P)
    (hold : s.stateOf P ≠ some .waitingChildren) (hu : Same P s u) {x : Int} {r : String} {y : Int}
    (h : t.core = (closeOrderingHole (endFailed u P x r y) P).core) : Passes P s t := by
  have hstate : t.stateOf P = some .failed := by
    rw [stateOf_of_core h, closeOrderingHole_stateOf, stateOf_endFailed, if_pos rfl]
  have hmoves : Moves P s t := by
    refine (hu.moves.trans ((Moves.endFailed (hu.inv hs).here x r y).trans ?_)).trans
      (Same.of_core h).moves
    exact .closeOrderingHole P _
  refine hmoves.passes hs hold (by simp [hstate]) fun gk hq => ?_
  rw [key_of_core Queue.groupq (fun _ => rfl) h, groupq_closeOrderingHole] at hq
  exact ⟨(hs.parked gk (hu.groupq gk hq)).1, Or.inr hstate⟩

theorem passes_setState {P : JobId} {s u t : Queue} {st : JobState} (hs : ParentInv s P)
    (hold : s.stateOf P ≠ some .waitingChildren) (hu : Moves P s u) (hst : st ≠ .waitingChildren)
    (h : t.core = (u.setState P st).core)
    (hq : ∀ gk, P ∈ u.groupq gk → (s.job P).groupKey = some gk ∧
      (st = .groupWaiting ∨ st = .failed)) : Passes P s t := by
  have hstate : t.stateOf P = some st := by
    rw [stateOf_of_core h, setState, stateOf_hset, if_pos rfl]
  have hhere : u.jobs P ≠ none := by
    intro hn
    have := hu.edges
    rw [hn, Option.map_none, eq_comm, Option.map_eq_none_iff] at this
    exact hs.here this
  have hset : Moves P u (u.setState P st) := .hset hhere fun _ => rfl
  have hmoves : Moves P s t := (hu.trans hset).trans (Same.of_core h).moves
  refine hmoves.passes hs hold (by simpa [hstate] using hst) fun gk hgk => ?_
  rw [key_of_core Queue.groupq (fun _ => rfl) h] at hgk
  simpa [hstate] using hq gk hgk

theorem ParentInv.not_mem_zremGroupq {P : JobId} {s : Queue} (h : ParentInv s P) {gk : GroupKey}
    (hkey : (s.job P).groupKey = some gk) (k : GroupKey) : P ∉ (s.zremGroupq gk P).groupq k := by
  intro hk
  have hne : k ≠ gk := by rintro rfl; simp at hk
  have hkey' := (h.parked k ((Same.zremGroupq (s := s) gk P).groupq k hk)).1
  exact hne (Option.some.inj (hkey'.symm.trans hkey))

theorem GroupStep.passes {P : JobId} {s t : Queue} (h : GroupStep s t) (hs : ParentInv s P) :
    Passes P s t := by
  cases h with
  | quiet h => exact (Same.of_core h).passes hs
  | limit gk x =>
    have hsame : Same P s (s.zaddRatelimited gk x) := .of_keys rfl rfl (fun _ h => h) id rfl
    exact hsame.passes hs
  | skip gk => exact (Same.skip gk _).passes hs
  | @tombstone gk J x hq hj => exact ((Same.zremGroupq gk J).trans (.tombstone gk _ J x)).passes hs
  | @drop gk J hq hst => exact (Same.zremGroupq gk J).passes hs
  | @putBack gk J hq x =>
    by_cases hJ : P = J
    · subst hJ
      have hsame : Same P s ((s.zremGroupq gk P).zaddGroupq gk P x) := by
        refine .of_keys rfl rfl (fun k hk => ?_) id rfl
        by_cases hgk : k = gk
        · rwa [hgk]
        · simpa [hgk] using hk
      exact hsame.passes hs
    · exact ((Same.zremGroupq gk J).trans (.zaddGroupq hJ gk x)).passes hs
  | @promote gk J hq hst =>
    unfold promoteJobOfGroup
    by_cases hJ : P = J
    · subst hJ
      have hadd : Moves P s ((s.zremGroupq gk P).xaddJob P) := ⟨rfl, rfl, id, Nat.le_succ _⟩
      refine passes_setState hs (by simp [hst]) hadd (by simp) rfl fun k hk => ?_
      exact absurd hk (hs.not_mem_zremGroupq (hs.parked gk hq).1 k)
    · exact ((Same.zremGroupq gk J).trans ((Same.xadd hJ).trans (.hset hJ _))).passes hs
  | @failParked gk J t x r y hq hj hcap hcost h =>
    by_cases hJ : P = J
    · subst hJ
      refine passes_fail hs ?_ (Same.zremGroupq gk P) h
      rcases (hs.parked gk hq).2 with hst | hst <;> simp [hst]
    · refine Same.passes (Same.trans ?_ (.of_core h)) hs
      exact (Same.zremGroupq gk J).trans ((Same.endFailed hJ x r y).trans (.closeOrderingHole hJ))

theorem GroupSteps.passes {P : JobId} {s t : Queue} (h : GroupSteps s t) (hs : ParentInv s P) :
    Passes P s t := by
  refine h.keeps (I := fun u => Passes P s u) ?_ (.refl hs)
  exact fun u v hstep hu => hu.trans (hstep.passes hu.inv)

/-! ## Claims -/

theorem ClaimOutcome.passes {M : ClaimMode} (hM : ¬ M.chain ∧ ¬ M.ungated) {P J : JobId} {s t : Queue}
    (h : ClaimOutcome M J s t) (hs : ParentInv s P) : Passes P s t := by
  have hown (hJ : P = J) (hst : isActivatable (s.stateOf J)) :
      s.stateOf P ≠ some .waitingChildren := by
    subst hJ
    intro hw
    simp [hw, isActivatable] at hst
  cases h with
  | @park gk group e x t hst hj hkey hW h =>
    have hack : Same P s (GlideMq.ackDel s group e) := .ackDel group e
    unfold GlideMq.park at h
    by_cases hJ : P = J
    · have hadd : Moves P s ((GlideMq.ackDel s group e).zaddGroupq gk P x) :=
        hack.moves.trans ⟨rfl, rfl, id, le_rfl⟩
      subst hJ
      refine passes_setState hs (hown rfl hst) hadd (by simp) h fun k hk => ?_
      refine ⟨?_, Or.inl rfl⟩
      by_cases hgk : k = gk
      · rwa [hgk]
      · have hk' : P ∈ (GlideMq.ackDel s group e).groupq k := by simpa [hgk] using hk
        exact (hs.parked k (hack.groupq k hk')).1
    · exact (hack.trans ((Same.zaddGroupq hJ gk x).trans ((Same.hset hJ _).trans
        (.of_core h)))).passes hs
  | @fail group e x r y t hst hj hW h =>
    by_cases hJ : P = J
    · exact passes_fail hs (hown hJ hst) (Same.ackDel group e) (by rw [hJ]; exact h)
    · refine Same.passes (Same.trans ?_ (.of_core h)) hs
      exact (Same.ackDel group e).trans ((Same.endFailed hJ x r y).trans (.closeOrderingHole hJ))
  | @start t hst hj hkey h =>
    by_cases hJ : P = J
    · subst hJ
      refine passes_setState hs (hown rfl hst) (Same.of_core rfl).moves (by simp) h fun k hk => ?_
      rcases hkey with hkey | hchain
      · have := (hs.parked k hk).1
        rw [hkey] at this
        cases this
      · exact absurd hchain hM.2
    · exact ((Same.hset hJ _).trans (.of_core h)).passes hs
  | @startFirst gk t hst hj hkey hnext hfull h =>
    by_cases hJ : P = J
    · subst hJ
      have hseq : 0 < (s.job P).orderingSeq := hs.keyed (by simp [hkey])
      unfold startInGroup at h
      rw [if_pos hseq] at h
      have hslot : Moves P s ((takeSlot s gk (s.job P).orderingSeq).zremGroupq gk P) :=
        ⟨rfl, rfl, id, le_rfl⟩
      refine passes_setState hs (hown rfl hst) hslot (by simp) h fun k hk => ?_
      exact absurd hk (hs.not_mem_zremGroupq hkey k)
    · have hslot : Same P s (takeSlot s gk (s.job J).orderingSeq) :=
        .of_keys rfl rfl (fun _ h => h) id rfl
      have hstart : Same P s (startInGroup s gk J (s.job J).orderingSeq) := by
        unfold startInGroup
        split
        · exact hslot.trans (.zremGroupq gk J)
        · exact hslot
      exact (hstart.trans ((Same.hset hJ _).trans (.of_core h))).passes hs
  | @startAgain gk t inQueue hchain hst hj hkey hseq hnext h =>
    obtain rfl : inQueue = false := by
      cases inQueue
      · rfl
      · exact absurd (hchain rfl) hM.1
    have hrem : Same P s (s.zremGroupq gk J) := .zremGroupq gk J
    by_cases hJ : P = J
    · subst hJ
      refine passes_setState hs (hown rfl hst) hrem.moves (by simp) h fun k hk => ?_
      exact absurd hk (hs.not_mem_zremGroupq hkey k)
    · exact (hrem.trans ((Same.hset hJ _).trans (.of_core h))).passes hs

theorem ClaimStep.passes {M : ClaimMode} (hM : ¬ M.chain ∧ ¬ M.ungated) {P : JobId} {s t : Queue}
    (h : ClaimStep M s t) (hs : ParentInv s P) : Passes P s t := by
  cases h with
  | tail h =>
    cases h with
    | group h => exact h.passes hs
    | ack hst hW => exact (Same.ackDel _ _).passes hs
  | outcome h => exact h.passes hM hs

theorem ClaimSteps.passes {M : ClaimMode} (hM : ¬ M.chain ∧ ¬ M.ungated) {P : JobId} {s t : Queue}
    (h : ClaimSteps M s t) (hs : ParentInv s P) : Passes P s t := by
  refine h.keeps (I := fun u => Passes P s u) ?_ (.refl hs)
  exact fun u v hstep hu => hu.trans (hstep.passes hM hu.inv)

theorem moveToActive_passes {P : JobId} {s : Queue} (hs : ParentInv s P) (a : MoveArgs) :
    Passes P s (moveToActive s a).1 := by
  have hclaim : Passes P s (moveToActiveClaim s a).1 := by
    rcases moveToActiveClaim_cases (M := ⟨False, False, False⟩) (s := s) (a := a) False.elim with
      heq | ⟨_, _, heq⟩ | hclaims
    · rw [heq]; exact .refl hs
    · rw [heq]; exact (Same.ackDel _ _).passes hs
    · exact hclaims.steps.passes ⟨id, id⟩ hs
  unfold moveToActive
  generalize moveToActiveClaim s a = r at hclaim ⊢
  obtain ⟨t, result⟩ := r
  have hquiet {u : Queue} (h : Same P t u) : Passes P s u := hclaim.trans (h.passes hclaim.inv)
  simp only at hclaim ⊢
  split
  · split
    · exact hquiet (.of_keys rfl rfl (fun _ h => h) id rfl)
    · split
      · exact hquiet (.of_keys rfl rfl (fun _ h => h) id rfl)
      · exact hclaim
  · exact hclaim

/-! ## One call -/

/-- What becomes of a parent that waits for its children: it goes on waiting, or it went back into
the stream once, with every member done. The new entries are those after `b`. -/
def Episode (b : Nat) (s : Queue) (P : JobId) : Prop :=
  (s.stateOf P = some .waitingChildren ∧ newEntries b s P = []) ∨
    (s.stateOf P = some .waiting ∧ AllDone s P ∧ (newEntries b s P).length = 1)

/-- Where the parent is within a call. `waiting` says whether the call found it waiting for its
children, and `b` is the last entry id before the call. -/
structure Phase (waiting : Prop) (b : Nat) (s : Queue) (P : JobId) : Prop where
  inv : ParentInv s P
  lastId : b ≤ s.stream.lastId
  episode : waiting → Episode b s P
  rest : ¬ waiting → s.stateOf P ≠ some .waitingChildren

theorem newEntries_lastId (s : Queue) (P : JobId) : newEntries s.stream.lastId s P = [] := by
  unfold newEntries
  rw [List.filter_eq_nil_iff]
  intro e he hnew
  have := s.stream.le_lastId e he
  simp only [decide_eq_true_eq] at hnew
  omega

theorem Phase.start {P : JobId} {s : Queue} (h : ParentInv s P) :
    Phase (s.stateOf P = some .waitingChildren) s.stream.lastId s P where
  inv := h
  lastId := le_rfl
  episode hw := Or.inl ⟨hw, newEntries_lastId s P⟩
  rest := id

theorem Phase.of_passes {P : JobId} {s t : Queue} (h : Passes P s t) :
    Phase (s.stateOf P = some .waitingChildren) s.stream.lastId t P where
  inv := h.inv
  lastId := h.lastId
  episode hw := Or.inl ⟨h.state.mpr hw, h.entries hw _ (newEntries_lastId s P)⟩
  rest hw ht := hw (h.state.mp ht)

/-- A write that leaves the parent's keys and its entries alone. -/
structure Apart (P : JobId) (s t : Queue) : Prop where
  same : Same P s t
  entries : ∀ b, newEntries b t P = newEntries b s P

section

variable {P : JobId} {s t : Queue} {w : Prop} {b : Nat}

theorem Phase.apart (h : Phase w b s P) (ha : Apart P s t) : Phase w b t P where
  inv := ha.same.inv h.inv
  lastId := le_trans h.lastId ha.same.lastId
  episode hw := by
    unfold Episode
    rw [ha.same.stateOf, ha.entries, ha.same.allDone]
    exact h.episode hw
  rest hw := by
    rw [ha.same.stateOf]
    exact h.rest hw

theorem Apart.refl (s : Queue) : Apart P s s := ⟨.of_core rfl, fun _ => rfl⟩

theorem Apart.trans {u : Queue} (h : Apart P s t) (h' : Apart P t u) : Apart P s u :=
  ⟨h.same.trans h'.same, fun b => (h'.entries b).trans (h.entries b)⟩

theorem Apart.of_stream (h : Same P s t) (hstream : t.stream = s.stream) : Apart P s t :=
  ⟨h, fun b => by unfold newEntries; rw [hstream]⟩

theorem Apart.of_core (h : t.core = s.core) : Apart P s t :=
  ⟨.of_core h, fun b => by unfold newEntries; rw [entries_of_core h]⟩

theorem Apart.hmod {J : JobId} (hne : P ≠ J) (f : Job → Job) : Apart P s (s.hmod J f) :=
  .of_stream (.hmod hne f) rfl

theorem Apart.hset {J : JobId} (hne : P ≠ J) (f : Job → Job) : Apart P s (s.hset J f) :=
  .of_stream (.hset hne f) rfl

theorem newEntries_xaddJob (b : Nat) (s : Queue) (J P : JobId) :
    newEntries b (s.xaddJob J) P =
      newEntries b s P ++ if J = P ∧ b < s.stream.lastId + 1 then [⟨s.stream.lastId + 1, ⟨J, none⟩⟩]
        else [] := by
  unfold newEntries
  simp only [xaddJob_stream, Redis.Stream.xadd, List.filter_append]
  congr 1
  by_cases h : J = P ∧ b < s.stream.lastId + 1
  · rw [if_pos h]
    simp [h.1, h.2]
  · rw [if_neg h, List.filter_eq_nil_iff]
    intro e he hnew
    rw [List.mem_singleton.mp he] at hnew
    exact h (of_decide_eq_true hnew)

theorem Apart.xaddJob {J : JobId} (hne : P ≠ J) : Apart P s (s.xaddJob J) := by
  refine ⟨.xadd hne, fun b => ?_⟩
  rw [newEntries_xaddJob, if_neg (fun h => hne h.1.symm), List.append_nil]

end

/-! ## Recording completions -/

/-- Members are recorded as done, nothing else changes for the parent. -/
structure Records (P : JobId) (s t : Queue) : Prop where
  here : t.jobs P ≠ none
  counts : Counts t P
  deps : t.deps P = s.deps P
  grows : ∀ m ∈ (s.job P).depdone, m ∈ (t.job P).depdone
  state : t.stateOf P = s.stateOf P
  keys : (t.job P).groupKey = (s.job P).groupKey ∧ (t.job P).orderingSeq = (s.job P).orderingSeq
  groupq : t.groupq = s.groupq
  completed : t.completed = s.completed
  stream : t.stream = s.stream

section

variable {P : JobId} {s t : Queue} {w : Prop} {b : Nat}

theorem Records.allDone (h : Records P s t) (hall : AllDone s P) : AllDone t P := by
  intro m hm
  rw [h.deps] at hm
  exact h.grows m (hall m hm)

theorem Records.base (h : Records P s t) (hs : ParentBase s P) : ParentBase t P where
  here := h.here
  counts := h.counts
  keyed := by
    rw [h.keys.1, h.keys.2]
    exact hs.keyed
  unfinished := by
    rw [h.completed]
    exact hs.unfinished

theorem Records.inv (h : Records P s t) (hs : ParentInv s P)
    (hw : t.stateOf P = some .waitingChildren → t.deps P ≠ [] → ¬ AllDone t P) :
    ParentInv t P where
  toParentBase := h.base hs.toParentBase
  waits := hw
  parked gk hq := by
    rw [h.keys.1, h.state]
    exact hs.parked gk (by rwa [h.groupq] at hq)

theorem newEntries_of_stream (h : t.stream = s.stream) : newEntries b t P = newEntries b s P := by
  unfold newEntries
  rw [h]

theorem Phase.records (hp : Phase w b s P) (h : Records P s t)
    (hw : t.stateOf P = some .waitingChildren → t.deps P ≠ [] → ¬ AllDone t P) : Phase w b t P where
  inv := h.inv hp.inv hw
  lastId := by rw [h.stream]; exact hp.lastId
  episode hc := by
    unfold Episode
    rw [h.state, newEntries_of_stream h.stream]
    rcases hp.episode hc with hwait | ⟨hst, hall, hlen⟩
    · exact Or.inl hwait
    · exact Or.inr ⟨hst, h.allDone hall, hlen⟩
  rest hc := by
    rw [h.state]
    exact hp.rest hc

theorem Phase.records_nothing (hp : Phase w b s P) (h : Records P s t)
    (hdone : (t.job P).depdone = (s.job P).depdone) : Phase w b t P := by
  refine hp.records h fun hst hne hall => ?_
  rw [h.state] at hst
  rw [h.deps] at hne
  refine hp.inv.waits hst hne fun m hm => ?_
  rw [← hdone]
  exact hall m (by rwa [h.deps])

theorem Phase.released {w : Prop} (hbase : ParentBase t P) (hq : ∀ gk, P ∉ t.groupq gk)
    (hlast : b ≤ t.stream.lastId) (hnew : newEntries b t P = []) (hall : AllDone t P) :
    Phase w b ((t.setState P .waiting).xaddJob P) P := by
  have hstate : ((t.setState P .waiting).xaddJob P).stateOf P = some .waiting := by
    have : (t.setState P .waiting).stateOf P = some .waiting := by
      rw [setState, stateOf_hset, if_pos rfl]
    exact this
  have hset : Moves P t (t.setState P .waiting) := .hset hbase.here fun _ => rfl
  have hadd : Moves P (t.setState P .waiting) ((t.setState P .waiting).xaddJob P) :=
    ⟨rfl, rfl, id, Nat.le_succ _⟩
  have hmoves := hset.trans hadd
  have hdone : (((t.setState P .waiting).xaddJob P).job P).depdone = (t.job P).depdone :=
    hmoves.job (·.2.1)
  refine ⟨hmoves.inv hbase (by simp [hstate]) fun gk hk => absurd hk (hq gk),
    le_trans hlast hmoves.lastId, fun _ => Or.inr ⟨hstate, fun m hm => ?_, ?_⟩,
    fun _ => by simp [hstate]⟩
  · rw [hdone]
    exact hall m hm
  · rw [newEntries_xaddJob]
    have hset' : newEntries b (t.setState P .waiting) P = [] := hnew
    rw [hset', if_pos ⟨rfl, Nat.lt_succ_of_le hlast⟩]
    rfl

theorem Phase.release (hp : Phase w b s P) (h : Records P s t) :
    Phase w b (releaseParentIfReady t P).1 P := by
  -- Members are recorded, and the parent goes back into the stream if they were the last ones.
  unfold releaseParentIfReady
  simp only
  by_cases hready : remainingDeps t P ≤ 0 ∧ t.stateOf P = some .waitingChildren
  · rw [if_pos hready]
    have hst : s.stateOf P = some .waitingChildren := by rw [← h.state]; exact hready.2
    have hnew : newEntries b t P = [] := by
      rw [newEntries_of_stream h.stream]
      by_cases hc : w
      · rcases hp.episode hc with hwait | ⟨hst', _⟩
        · exact hwait.2
        · rw [hst] at hst'; cases hst'
      · exact absurd hst (hp.rest hc)
    refine .released (h.base hp.inv.toParentBase) (fun gk hq => ?_)
      (by rw [h.stream]; exact hp.lastId) hnew (h.counts.remaining_le_zero.mp hready.1)
    rw [h.groupq] at hq
    exact hp.inv.unparked hst gk hq
  · rw [if_neg hready]
    refine hp.records h fun hst _ hall => hready ⟨?_, hst⟩
    exact h.counts.remaining_le_zero.mpr hall

end

section

variable {P : JobId} {s t : Queue}

theorem Records.refl (h : ParentBase s P) : Records P s s :=
  ⟨h.here, h.counts, rfl, fun _ hm => hm, rfl, ⟨rfl, rfl⟩, rfl, rfl, rfl⟩

theorem Records.trans {u : Queue} (h : Records P s t) (h' : Records P t u) : Records P s u where
  here := h'.here
  counts := h'.counts
  deps := h'.deps.trans h.deps
  grows m hm := h'.grows m (h.grows m hm)
  state := h'.state.trans h.state
  keys := ⟨h'.keys.1.trans h.keys.1, h'.keys.2.trans h.keys.2⟩
  groupq := h'.groupq.trans h.groupq
  completed := h'.completed.trans h.completed
  stream := h'.stream.trans h.stream

theorem job_hmod_self (h : s.jobs P ≠ none) (f : Job → Job) : (s.hmod P f).job P = f (s.job P) := by
  obtain ⟨j, hj⟩ := Option.ne_none_iff_exists'.mp h
  simp [Queue.job, hj]

theorem Records.hmod (h : ParentBase s P) {f : Job → Job}
    (hcount : (f (s.job P)).Counted (s.deps P))
    (hgrows : ∀ m ∈ (s.job P).depdone, m ∈ (f (s.job P)).depdone)
    (hf : ∀ j, (f j).state = j.state ∧ (f j).groupKey = j.groupKey ∧
      (f j).orderingSeq = j.orderingSeq) : Records P s (s.hmod P f) where
  here := by
    obtain ⟨j, hj⟩ := Option.ne_none_iff_exists'.mp h.here
    simp [hj]
  counts := ⟨h.counts.registered, by rw [job_hmod_self h.here]; exact hcount⟩
  deps := rfl
  grows := by rw [job_hmod_self h.here]; exact hgrows
  state := stateOf_hmod s P P f fun j => (hf j).1
  keys := by rw [job_hmod_self h.here]; exact (hf _).2
  groupq := rfl
  completed := rfl
  stream := rfl

theorem Job.markDone_keys (j : Job) (m : DepMember) :
    (j.markDone m).state = j.state ∧ (j.markDone m).groupKey = j.groupKey ∧
      (j.markDone m).orderingSeq = j.orderingSeq := by
  unfold Job.markDone
  split <;> exact ⟨rfl, rfl, rfl⟩

theorem Job.foldl_countEarly_keys (ms : List DepMember) (j : Job) :
    (ms.foldl Job.countEarly j).state = j.state ∧
      (ms.foldl Job.countEarly j).groupKey = j.groupKey ∧
      (ms.foldl Job.countEarly j).orderingSeq = j.orderingSeq := by
  induction ms generalizing j with
  | nil => exact ⟨rfl, rfl, rfl⟩
  | cons m ms ih =>
    obtain ⟨h1, h2, h3⟩ := ih (j.countEarly m)
    obtain ⟨g1, g2, g3⟩ := Job.markDone_keys
      { j with depearly := j.depearly.filter (· ≠ m), depsEarly := j.depsEarly - 1 } m
    exact ⟨h1.trans g1, h2.trans g2, h3.trans g3⟩

theorem Records.markDone (h : ParentBase s P) {m : DepMember} (hm : m ∈ s.deps P) :
    Records P s (s.hmod P (·.markDone m)) := by
  refine .hmod h (h.counts.job.markDone hm) (fun m' hm' => ?_) (Job.markDone_keys · m)
  rw [Job.markDone_depdone]
  exact List.mem_insert_of_mem hm'

theorem Records.countEarly (h : ParentBase s P) : Records P s (countEarlyDeps s P).1 := by
  unfold countEarlyDeps
  simp only
  split
  · exact .refl h
  · refine .hmod h (h.counts.job.foldl_countEarly _ fun m hm => ?_)
      (fun m hm => Job.mem_depdone_foldl_countEarly _ hm) (Job.foldl_countEarly_keys _)
    simpa using (List.mem_filter.mp hm).2

theorem depdone_countEarlyDeps (h : s.jobs P ≠ none) (hcounted : (countEarlyDeps s P).2 = false) :
    ((countEarlyDeps s P).1.job P).depdone = (s.job P).depdone := by
  unfold countEarlyDeps at hcounted ⊢
  simp only at hcounted ⊢
  split
  · rfl
  · rename_i hpos
    rw [if_neg hpos] at hcounted
    simp only [List.any_eq_false, decide_eq_true_eq, not_not] at hcounted
    simp only [job_hmod_self h]
    exact Job.depdone_foldl_countEarly_of_done hcounted

theorem Apart.parkEarly (s : Queue) (K : JobId) (m : DepMember) : Apart P s (parkEarly s K m) := by
  unfold GlideMq.parkEarly
  split
  · exact .refl s
  · refine .of_stream ⟨?_, rfl, fun _ h => h, id, le_rfl, fun _ h _ => h⟩ rfl
    simp only [saddDepsEarly_jobs, hmod_jobs, Function.update_apply]
    split
    · rename_i hK; subst hK
      rw [Option.map_map]; rfl
    · rfl

theorem completeParentDependency_phase {w : Prop} {b : Nat} (h : Phase w b s P) (m : DepMember) :
    Phase w b (completeParentDependency s P m).1 P := by
  unfold completeParentDependency
  rw [if_neg h.inv.here]
  split
  · exact h.apart (.parkEarly s P m)
  rename_i hm
  rw [not_not] at hm
  have hearly := Records.countEarly h.inv.toParentBase
  have hdone := depdone_countEarlyDeps h.inv.here
  simp only
  generalize countEarlyDeps s P = r at *
  obtain ⟨t, counted⟩ := r
  simp only at hearly hdone ⊢
  have hbase := hearly.base h.inv.toParentBase
  have hrecords := hearly.trans (Records.markDone hbase (by rwa [hearly.deps]))
  split
  · exact h.release hrecords
  · rename_i hcounted
    simp only [not_or, Bool.not_eq_true, not_not] at hcounted
    refine h.records_nothing hrecords ?_
    rw [job_hmod_self hearly.here, Job.markDone_depdone, List.insert_of_mem hcounted.2,
      hdone hcounted.1]

/-! ## Other parents -/

theorem Apart.releaseParentIfReady {K : JobId} (hne : P ≠ K) (s : Queue) :
    Apart P s (releaseParentIfReady s K).1 := by
  unfold GlideMq.releaseParentIfReady
  simp only
  split
  · exact (Apart.hset hne _).trans (.xaddJob hne)
  · exact .refl s

theorem Apart.countEarlyDeps {K : JobId} (hne : P ≠ K) (s : Queue) :
    Apart P s (countEarlyDeps s K).1 := by
  unfold GlideMq.countEarlyDeps
  simp only
  split
  · exact .refl s
  · exact .hmod hne _

theorem Apart.completeParentDependency {K : JobId} (hne : P ≠ K) (s : Queue) (m : DepMember) :
    Apart P s (completeParentDependency s K m).1 := by
  unfold GlideMq.completeParentDependency
  split
  · exact .refl s
  split
  · exact .parkEarly s K m
  have hmark : Apart P s ((GlideMq.countEarlyDeps s K).1.hmod K (·.markDone m)) :=
    (Apart.countEarlyDeps hne s).trans (.hmod hne _)
  simp only
  split
  · exact hmark.trans (.releaseParentIfReady hne _)
  · exact hmark

theorem Phase.complete {w : Prop} {b : Nat} (h : Phase w b s P) (K : JobId) (m : DepMember) :
    Phase w b (completeParentDependency s K m).1 P := by
  by_cases hK : P = K
  · subst hK
    exact completeParentDependency_phase h m
  · exact h.apart (.completeParentDependency hK s m)

theorem Apart.notifyParent (q : Option QueueName) (p : Option JobId)
    (r : Queue × List ParentNotify) (J : JobId) : Apart P r.1 (notifyParent q p r J).1 := by
  unfold GlideMq.notifyParent enqueueCrossQueueParentNotify
  simp only
  split
  · split
    · exact .refl _
    · exact .of_stream (.of_keys rfl rfl (fun _ h => h) id rfl) rfl
  · exact .refl _

theorem Apart.enqueueTreeParentNotifies (s : Queue) (J : JobId) (q : Option QueueName)
    (p : Option JobId) (ids : List JobId) :
    Apart P s (enqueueTreeParentNotifies s J q p ids).1 := by
  have hfold (l : List JobId) (r : Queue × List ParentNotify) :
      Apart P r.1 (l.foldl (GlideMq.notifyParent q p) r).1 := by
    induction l generalizing r with
    | nil => exact .refl _
    | cons K l ih => exact (Apart.notifyParent q p r K).trans (ih _)
  exact hfold (J :: ids) (s, [])

theorem Phase.completeParents {w : Prop} {b : Nat} (h : Phase w b s P) (J : JobId)
    (q : Option QueueName) (p : Option JobId) (ns : List ParentNotify) :
    Phase w b (completeParents s J q p ns).1 P := by
  have hfold (l : List DepMember) (r : Queue × List ParentNotify) (hr : Phase w b r.1 P) :
      Phase w b (l.foldl (resolveDagParent J) r).1 P := by
    induction l generalizing r with
    | nil => exact hr
    | cons K l ih =>
      refine ih _ ?_
      unfold resolveDagParent
      split
      · exact hr.complete K.job _
      · exact hr.apart (.notifyParent _ _ r J)
  unfold GlideMq.completeParents
  refine hfold _ _ ?_
  simp only
  split
  · exact h
  · split
    · exact h.complete _ _
    · exact h

end

end GlideMq
