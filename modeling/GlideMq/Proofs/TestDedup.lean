import GlideMq.Model.TestAdd
import GlideMq.Proofs.DedupRejects
import GlideMq.Proofs.DedupUnique
import GlideMq.Proofs.Dispatch

/-!
# Deduplication without a server

`TestQueue.add` decides as `dedup` does where both hold the same jobs and entries. The group of an
ordering key is the server's alone, and so is the counter of its ids.
-/

namespace GlideMq

open Machine Queue

def TestState.onServer : TestState → JobState
  | .waiting => .waiting
  | .prioritized => .prioritized
  | .active => .active
  | .completed => .completed
  | .failed => .failed
  | .delayed => .delayed
  | .suspended => .suspended
  | .waitingChildren => .waitingChildren

/-- The same jobs in the same states, and the same entries. -/
structure TestQueue.Agrees (q : TestQueue) (s : Queue) : Prop where
  keyed : q.Keyed
  jobs : ∀ id, (s.jobs id).map Job.state = (q.get id).map fun ref => some (q.record ref).state.onServer
  entries : q.dedupEntries = s.dedup

def TestAddResult.newId : TestAddResult → Option JobId
  | .added id => some id
  | _ => none

def AddResult.newId : AddResult → Option JobId
  | .added J => some J
  | _ => none

/-- Both add, and a custom id is the id of both, or neither adds, for the same reason. -/
def SameDecision (customId : Option JobId) : TestAddResult → AddResult → Prop
  | .added id, .added J => ∀ c ∈ customId, id = c ∧ J = c
  | .duplicate, .duplicate => True
  | .skipped, .skipped => True
  | .error, .error => True
  | _, _ => False

/-- The job that a valid call takes out of the queue. -/
def replacedJob (s : Queue) (a : DedupArgs) : Option JobId :=
  if maxPriority < a.priority then none
  else
    match dedupDecision s a with
    | .replace J => some J
    | _ => none

/-- The jobs after are those before without the old one, and the new one. -/
def Swaps (before after : JobId → Prop) (old new : Option JobId) : Prop :=
  ∀ id, after id ↔ before id ∧ some id ≠ old ∨ some id = new

namespace TestQueue

variable {q : TestQueue} {s : Queue} {a : DedupArgs} {id K : JobId} {ref : Ref}

/-! ## The map of jobs -/

theorem get_deleteJob (q : TestQueue) (id K : JobId) :
    (q.deleteJob id).get K = if K = id then none else q.get K :=
  lookup_filter_ne q.jobs id K

theorem get_removeJob (q : TestQueue) (id K : JobId) :
    (q.removeJob id).get K = if K = id then none else q.get K := by
  unfold removeJob
  cases hget : q.get id with
  | none =>
    by_cases hK : K = id
    · rw [if_pos hK, hK]
      exact hget
    · rw [if_neg hK]
  | some ref => exact get_deleteJob (q.dequeueRecord ref) id K

@[simp] theorem removeJob_dedupEntries (q : TestQueue) (id : JobId) :
    (q.removeJob id).dedupEntries = q.dedupEntries := by
  unfold removeJob
  cases q.get id <;> rfl

@[simp] theorem removeJob_idCounter (q : TestQueue) (id : JobId) :
    (q.removeJob id).idCounter = q.idCounter := by
  unfold removeJob
  cases q.get id <;> rfl

theorem isSome_get_setJob (q : TestQueue) (id K : JobId) (ref : Ref) :
    ((q.setJob id ref).get K).isSome ↔ (q.get K).isSome ∨ K = id := by
  unfold get
  rw [isSome_lookup, isSome_lookup]
  by_cases hid : (q.get id).isSome
  · have hmem : id ∈ q.jobs.map (·.1) := isSome_lookup.mp hid
    have hkeys : (q.jobs.map fun p => if p.1 = id then (id, ref) else p).map (·.1) = q.jobs.map (·.1) := by
      rw [List.map_map]
      apply List.map_congr_left
      intro p _
      simp only [Function.comp_apply]
      split
      · rename_i hp
        exact hp.symm
      · rfl
    simp only [setJob, if_pos hid, hkeys]
    constructor
    · exact Or.inl
    · rintro (h | rfl)
      · exact h
      · exact hmem
  · simp [setJob, hid]

theorem isSome_get_insertRecord (q : TestQueue) (id K : JobId) (a : TestAddArgs) :
    ((q.insertRecord id a).get K).isSome ↔ (q.get K).isSome ∨ K = id := by
  unfold insertRecord
  simp only
  split
  · exact isSome_get_setJob _ id K _
  split
  · exact isSome_get_setJob _ id K _
  · exact isSome_get_setJob _ id K _

@[simp] theorem insertRecord_dedupEntries (q : TestQueue) (id : JobId) (a : TestAddArgs) :
    (q.insertRecord id a).dedupEntries = q.dedupEntries := by
  have hset (q : TestQueue) (id : JobId) (ref : Ref) :
      (q.setJob id ref).dedupEntries = q.dedupEntries := rfl
  unfold insertRecord
  simp only
  split
  · rfl
  split
  · rfl
  · rfl

/-! ## The decision -/

theorem Keyed.id_of_get (h : q.Keyed) (hget : q.get id = some ref) : (q.record ref).id = id := by
  obtain ⟨l₁, l₂, hjobs, -⟩ := List.lookup_eq_some_iff.mp hget
  exact h.ids (id, ref) (by rw [hjobs]; simp)

theorem Agrees.get_eq_none (h : q.Agrees s) (id : JobId) : q.get id = none ↔ s.jobs id = none := by
  have := congrArg Option.isSome (h.jobs id)
  simp only [Option.isSome_map] at this
  rw [← Option.not_isSome_iff_eq_none, ← Option.not_isSome_iff_eq_none, this]

theorem Agrees.stateOf (h : q.Agrees s) (id : JobId) :
    s.stateOf id = (q.get id).map fun ref => (q.record ref).state.onServer := by
  have hjob := h.jobs id
  unfold Queue.stateOf
  cases hs : s.jobs id <;> cases hq : q.get id <;> simp_all

theorem isDeduplicated_eq (h : q.Agrees s) (a : DedupArgs) :
    q.isDeduplicated a.deduplication a.timestamp =
      match dedupDecision s a with
      | .skip => (q, true)
      | .add => (q, false)
      | .replace J => (q.removeJob J, false) := by
  unfold isDeduplicated dedupDecision DedupArgs.deduplication
  rw [h.entries]
  cases hentry : s.dedup a.dedupId with
  | none => rfl
  | some entry =>
    obtain ⟨J, storedTs⟩ := entry
    simp only [h.stateOf J]
    cases hmode : a.mode with
    | throttle =>
      by_cases hwindow : 0 < a.ttlMs ∧ a.timestamp - storedTs < a.ttlMs
      · simp [hwindow]
      · simp [hwindow]
    | simple =>
      cases hget : q.get J with
      | none => rfl
      | some ref => cases hstate : (q.record ref).state <;> simp [hstate, ended, TestState.onServer]
    | debounce =>
      cases hget : q.get J with
      | none => rfl
      | some ref =>
        have hid : (q.record ref).id = J := h.keyed.id_of_get hget
        cases hstate : (q.record ref).state <;> simp [hstate, hid, ended, TestState.onServer]

/-! ## Ids -/

theorem nextFreeId_eq (tries : Nat) (q : TestQueue) :
    ∃ counter, (nextFreeId tries q).1 = { q with idCounter := counter } := by
  induction tries generalizing q with
  | zero => exact ⟨q.idCounter, rfl⟩
  | succ tries ih =>
    unfold nextFreeId
    simp only
    split
    · exact ih { q with idCounter := q.idCounter + 1 }
    · exact ⟨q.idCounter + 1, rfl⟩

theorem nextFreeId_isSome (tries : Nat) (q : TestQueue)
    (h : ∃ i < tries, q.get (q.idCounter + 1 + i).repr = none) : ∃ id, (nextFreeId tries q).2 = some id := by
  induction tries generalizing q with
  | zero =>
    obtain ⟨i, hi, -⟩ := h
    cases hi
  | succ tries ih =>
    obtain ⟨i, hi, hfree⟩ := h
    unfold nextFreeId
    simp only
    split
    · rename_i htaken
      apply ih
      cases i with
      | zero =>
        have hsome : (q.get (q.idCounter + 1).repr).isSome := htaken
        rw [Nat.add_zero] at hfree
        rw [hfree] at hsome
        cases hsome
      | succ i =>
        refine ⟨i, by omega, ?_⟩
        have hnext : q.idCounter + 1 + 1 + i = q.idCounter + 1 + (i + 1) := by omega
        change q.get (q.idCounter + 1 + 1 + i).repr = none
        rw [hnext]
        exact hfree
    · exact ⟨_, rfl⟩

theorem nextFreeId_eq_none (tries : Nat) (q : TestQueue)
    (h : ∀ i < tries, (q.get (q.idCounter + 1 + i).repr).isSome) : (nextFreeId tries q).2 = none := by
  induction tries generalizing q with
  | zero => rfl
  | succ tries ih =>
    have hfirst : (q.get (q.idCounter + 1).repr).isSome := h 0 (by omega)
    have htaken : (({ q with idCounter := q.idCounter + 1 } : TestQueue).get (q.idCounter + 1).repr).isSome :=
      hfirst
    unfold nextFreeId
    simp only
    rw [if_pos htaken]
    apply ih
    intro i hi
    have hnext : q.idCounter + 1 + 1 + i = q.idCounter + 1 + (i + 1) := by omega
    change (q.get (q.idCounter + 1 + 1 + i).repr).isSome
    rw [hnext]
    exact h (i + 1) (by omega)

/-- Both sides can number one more job. -/
structure Numbers (q : TestQueue) (s : Queue) : Prop where
  free : ∃ i < 1000, q.get (q.idCounter + 1 + i).repr = none
  counts : (Lua.incr s.idKey).isSome

/-! ## The end of both adds -/

theorem accept_get (q : TestQueue) (d : Deduplication) (id K : JobId) (a : TestAddArgs) :
    ((q.accept (some d) id a).1.get K).isSome ↔ (q.get K).isSome ∨ some K = some id := by
  rw [Option.some.injEq]
  exact isSome_get_insertRecord (q.setDedupEntry d.id id a.now) id K a

theorem accept_dedupEntries (q : TestQueue) (d : Deduplication) (id : JobId) (a : TestAddArgs) :
    (q.accept (some d) id a).1.dedupEntries = Function.update q.dedupEntries d.id (some (id, a.now)) :=
  insertRecord_dedupEntries (q.setDedupEntry d.id id a.now) id a

theorem addRecord_get (q : TestQueue) (d : Deduplication) (a : TestAddArgs) (K : JobId) :
    ((q.addRecord (some d) a).1.get K).isSome ↔
      (q.get K).isSome ∨ some K = (q.addRecord (some d) a).2.newId := by
  unfold addRecord
  cases a.jobId with
  | some id =>
    simp only
    split
    · simp [TestAddResult.newId]
    · exact accept_get q d id K a
  | none =>
    obtain ⟨counter, hq⟩ := nextFreeId_eq 1000 q
    unfold generateJobId
    rcases hnext : nextFreeId 1000 q with ⟨q', id⟩
    rw [hnext] at hq
    subst hq
    cases id with
    | some id => exact accept_get { q with idCounter := counter } d id K a
    | none => simp [TestAddResult.newId, get]

/-- The entries after an add, from those before. -/
def entriesAfter (entries : String → Option (JobId × Int)) (d : String) (now : Int) :
    Option JobId → String → Option (JobId × Int)
  | none => entries
  | some id => Function.update entries d (some (id, now))

theorem addRecord_entries (q : TestQueue) (d : Deduplication) (a : TestAddArgs) :
    (q.addRecord (some d) a).1.dedupEntries =
      entriesAfter q.dedupEntries d.id a.now (q.addRecord (some d) a).2.newId := by
  unfold addRecord
  cases a.jobId with
  | some id =>
    simp only
    split
    · rfl
    · exact accept_dedupEntries q d id a
  | none =>
    obtain ⟨counter, hq⟩ := nextFreeId_eq 1000 q
    unfold generateJobId
    rcases hnext : nextFreeId 1000 q with ⟨q', id⟩
    rw [hnext] at hq
    subst hq
    cases id with
    | some id => exact accept_dedupEntries { q with idCounter := counter } d id a
    | none => rfl

theorem addRecord_decision (d : Deduplication) (a : DedupArgs) (replaced : Option (JobId × ChildParents))
    (hjobs : ∀ id, q.get id = none ↔ s.jobs id = none)
    (hnumbers : a.customJobId = none → q.Numbers s) :
    SameDecision a.customJobId (q.addRecord (some d) a.testArgs).2 (dedupAdd s a replaced).2 := by
  rw [dedupAdd_reply]
  unfold addRecord allocateId
  have hid : a.testArgs.jobId = a.customJobId := rfl
  rw [hid]
  cases hcustom : a.customJobId with
  | some id =>
    cases hget : q.get id with
    | none =>
      have hfree : s.jobs id = none := (hjobs id).mp hget
      simp [hget, hfree, accept, SameDecision]
    | some ref =>
      have htaken : s.jobs id ≠ none := fun h => by
        rw [(hjobs id).mpr h] at hget
        cases hget
      simp [hget, htaken, SameDecision]
  | none =>
    obtain ⟨hfree, hcounts⟩ := hnumbers hcustom
    obtain ⟨id, hnext⟩ := nextFreeId_isSome 1000 q hfree
    obtain ⟨n, hn⟩ := Option.isSome_iff_exists.mp hcounts
    rcases hr : nextFreeId 1000 q with ⟨q', id'⟩
    rw [hr] at hnext
    subst hnext
    simp [generateJobId, hr, incrId, hn, accept, SameDecision]

end TestQueue

theorem dedupAdd_jobs_none (s : Queue) (a : DedupArgs) (replaced : Option (JobId × ChildParents))
    (K : JobId) :
    (dedupAdd s a replaced).1.jobs K = none ↔
      s.jobs K = none ∧ (dedupAdd s a replaced).2.newId ≠ some K := by
  rw [dedupAdd_reply]
  have halloc := (allocateId_allocates s a.customJobId).jobs
  unfold dedupAdd
  rcases hr : allocateId s a.customJobId with ⟨t, r⟩
  rw [hr] at halloc
  rw [← halloc]
  cases r with
  | added J =>
    have hK : (some J ≠ some K) ↔ K ≠ J := by simp [eq_comm]
    cases replaced with
    | none =>
      by_cases hKJ : K = J
      · simp [AddResult.newId, createJob_jobs, hKJ]
      · simp [AddResult.newId, createJob_jobs, hKJ, Ne.symm hKJ]
    | some old => simp [AddResult.newId, createReplacement_jobs_none, hK, and_comm]
  | duplicate =>
    cases replaced with
    | none => simp [AddResult.newId]
    | some old =>
      simp only [AddResult.newId]
      rw [parentFrame_jobs_none (parentFrame_resolveRemovedChildParents _ _ _)]
      simp
  | _ => simp [AddResult.newId]

theorem dedup_entries (s : Queue) (a : DedupArgs) :
    (dedup s a).1.dedup = TestQueue.entriesAfter s.dedup a.dedupId a.timestamp (dedup s a).2.newId := by
  funext d
  have hkeeps (hadds : ¬ AddsUnder s (some (.dedup a)) d) : (dedup s a).1.dedup d = s.dedup d :=
    (dedup_qsteps s a).keeps_entry hadds
  cases hr : (dedup s a).2 with
  | added J =>
    by_cases hd : d = a.dedupId
    · subst hd
      rw [dedup_entry hr]
      simp [TestQueue.entriesAfter, AddResult.newId]
    · rw [hkeeps]
      · simp [TestQueue.entriesAfter, AddResult.newId, hd]
      · rintro ⟨b, J, hb, hdb, -⟩
        cases hb
        exact hd hdb.symm
  | _ =>
    apply hkeeps
    rintro ⟨b, J, hb, -, hJ⟩
    cases hb
    rw [hr] at hJ
    cases hJ

/-! ## The simulation -/

/-- What `TestQueue.add` and the server's call have in common. -/
structure Simulates (q : TestQueue) (s : Queue) (a : DedupArgs) (test : TestQueue × TestAddResult)
    (server : Queue × AddResult) : Prop where
  decision : SameDecision a.customJobId test.2 server.2
  /-- Both remove the one job, and no other. -/
  testJobs : Swaps (fun id => (q.get id).isSome) (fun id => (test.1.get id).isSome) (replacedJob s a)
    test.2.newId
  jobs : Swaps (fun id => (s.jobs id).isSome) (fun id => (server.1.jobs id).isSome) (replacedJob s a)
    server.2.newId
  /-- The entries are the same, but for the ids that each side gave. -/
  testEntries : test.1.dedupEntries = TestQueue.entriesAfter q.dedupEntries a.dedupId a.timestamp test.2.newId
  entries : server.1.dedup = TestQueue.entriesAfter q.dedupEntries a.dedupId a.timestamp server.2.newId

theorem swaps_self (before : JobId → Prop) : Swaps before before none none := by
  intro id
  simp

theorem swaps_of_none {before after : JobId → Option Job} {old new : Option JobId}
    (h : ∀ K, after K = none ↔ (some K = old ∨ before K = none) ∧ new ≠ some K) :
    Swaps (fun id => (before id).isSome) (fun id => (after id).isSome) old new := by
  intro id
  have hid := not_congr (h id)
  simp only [Option.isSome_iff_ne_none, ne_eq, hid, not_and_or, not_or, not_not]
  rw [and_comm, eq_comm (a := new)]

variable {q : TestQueue} {s : Queue} {a : DedupArgs}

theorem dedup_swaps (s : Queue) (a : DedupArgs)
    (hcost : ¬ costExceeds a.orderingKey.isSome a.group.tbCapacity a.jobCost) :
    Swaps (fun id => (s.jobs id).isSome) (fun id => ((dedup s a).1.jobs id).isSome) (replacedJob s a)
      (dedup s a).2.newId := by
  unfold dedup replacedJob
  split
  · exact swaps_self _
  cases dedupDecision s a with
  | skip => exact swaps_self _
  | add =>
    apply swaps_of_none
    intro K
    simp [dedupAdd_jobs_none]
  | replace J =>
    apply swaps_of_none
    intro K
    simp [dedupAdd_jobs_none, removeReplaced_jobs_none]

/-- The call, by the decision that the server's call takes. -/
theorem add_eq (h : q.Agrees s) (hon : q.dedup = true) :
    q.add a.testArgs =
      if maxPriority < a.priority then (q, .error)
      else
        match dedupDecision s a with
        | .skip => (q, .skipped)
        | .add => q.addRecord (some a.deduplication) a.testArgs
        | .replace J => (q.removeJob J).addRecord (some a.deduplication) a.testArgs := by
  unfold TestQueue.add
  have hdedup := TestQueue.isDeduplicated_eq h a
  have hoption : (if q.dedup then a.testArgs.deduplication else none) = some a.deduplication := by
    rw [if_pos hon]
    rfl
  have hnow : a.testArgs.now = a.timestamp := rfl
  have hpriority : a.testArgs.priority = a.priority := rfl
  simp only [hoption, hnow, hpriority, hdedup]
  cases dedupDecision s a <;> rfl

/-- In the same jobs and entries, an add whose cost fits is decided the same. -/
theorem add_simulates_dedup (h : q.Agrees s) (hon : q.dedup = true)
    (hcost : ¬ costExceeds a.orderingKey.isSome a.group.tbCapacity a.jobCost)
    (hnumbers : a.customJobId = none → q.Numbers s) :
    Simulates q s a (q.add a.testArgs) (dedup s a) := by
  have hjobs := dedup_swaps s a hcost
  have hentries := dedup_entries s a
  rw [← h.entries] at hentries
  suffices hrest : SameDecision a.customJobId (q.add a.testArgs).2 (dedup s a).2 ∧
      Swaps (fun id => (q.get id).isSome) (fun id => ((q.add a.testArgs).1.get id).isSome)
        (replacedJob s a) (q.add a.testArgs).2.newId ∧
      (q.add a.testArgs).1.dedupEntries =
        TestQueue.entriesAfter q.dedupEntries a.dedupId a.timestamp (q.add a.testArgs).2.newId by
    obtain ⟨hdecision, htest, htestEntries⟩ := hrest
    exact ⟨hdecision, htest, hjobs, htestEntries, hentries⟩
  rw [add_eq h hon]
  unfold dedup replacedJob
  split
  · exact ⟨trivial, swaps_self _, rfl⟩
  cases dedupDecision s a with
  | skip => exact ⟨trivial, swaps_self _, rfl⟩
  | add =>
    refine ⟨TestQueue.addRecord_decision _ a none h.get_eq_none hnumbers, fun id => ?_,
      TestQueue.addRecord_entries q _ a.testArgs⟩
    simpa using TestQueue.addRecord_get q a.deduplication a.testArgs id
  | replace J =>
    have hremoved (id : JobId) : (q.removeJob J).get id = none ↔
        (removeReplaced s J a.timestamp a.serverNow).1.jobs id = none := by
      rw [TestQueue.get_removeJob, removeReplaced_jobs_none, ← h.get_eq_none]
      by_cases hid : id = J
      · simp [hid]
      · simp [hid]
    have hstill (hcustom : a.customJobId = none) :
        (q.removeJob J).Numbers (removeReplaced s J a.timestamp a.serverNow).1 := by
      obtain ⟨⟨i, hi, hfree⟩, hcounts⟩ := hnumbers hcustom
      refine ⟨⟨i, hi, ?_⟩, ?_⟩
      · rw [TestQueue.get_removeJob, TestQueue.removeJob_idCounter, hfree]
        simp
      · rw [removeReplaced_idKey]
        exact hcounts
    refine ⟨TestQueue.addRecord_decision _ a _ hremoved hstill, fun id => ?_, ?_⟩
    · have hget := TestQueue.addRecord_get (q.removeJob J) a.deduplication a.testArgs id
      rw [TestQueue.get_removeJob] at hget
      refine hget.trans ?_
      by_cases hid : id = J
      · simp [hid]
      · simp [hid]
    · have hent := TestQueue.addRecord_entries (q.removeJob J) a.deduplication a.testArgs
      rw [TestQueue.removeJob_dedupEntries] at hent
      exact hent

theorem add_of_taken (h : q.Agrees s) (hon : q.dedup = true) (hpriority : ¬ maxPriority < a.priority)
    (hdecision : dedupDecision s a = .add) (hcustom : a.customJobId = none)
    (htaken : ∀ i < 1000, (q.get (q.idCounter + 1 + i).repr).isSome) :
    (q.add a.testArgs).2 = .error := by
  have hid : a.testArgs.jobId = none := hcustom
  have hnone : q.generateJobId.2 = none := TestQueue.nextFreeId_eq_none 1000 q htaken
  rw [add_eq h hon, if_neg hpriority, hdecision]
  simp only [TestQueue.addRecord, hid]
  rcases hr : q.generateJobId with ⟨q', r⟩
  rw [hr] at hnone
  obtain rfl : r = none := hnone
  rfl

/-! ## A queue on both sides -/

/-- A server that holds the jobs of the queue. -/
def TestQueue.onServer (q : TestQueue) (idKey : Option String) : Queue where
  name := "q"
  idKey := idKey
  jobs id := (q.get id).map fun ref => { state := some (q.record ref).state.onServer }
  dedup := q.dedupEntries

theorem agrees_onServer (h : q.Keyed) (idKey : Option String) : q.Agrees (q.onServer idKey) where
  keyed := h
  jobs _ := Option.map_map ..
  entries := rfl

/-- The queue of the jobs `1` to `n`, all with an id of their caller's. -/
def numberedQueue (n : Nat) (state : TestState) : TestQueue where
  record ref := { id := (ref + 1).repr, state }
  nextRef := n
  jobs := (List.range n).map fun ref => ((ref + 1).repr, ref)
  dedupEntries d := if d = "d" then some ("1", 1) else none

theorem numberedQueue_keyed (n : Nat) (state : TestState) : (numberedQueue n state).Keyed where
  unique := by
    have hkeys : (numberedQueue n state).jobs.map (·.1) = (List.range n).map fun ref => (ref + 1).repr :=
      List.map_map ..
    rw [hkeys]
    apply List.nodup_range.map
    intro m k hmk
    have := Lua.repr_injective hmk
    omega
  ids := by
    intro p hp
    obtain ⟨ref, -, rfl⟩ := List.mem_map.mp hp
    rfl

theorem numberedQueue_taken {n i : Nat} (state : TestState) (hi : i < n) :
    ((numberedQueue n state).get (0 + 1 + i).repr).isSome := by
  apply isSome_lookup.mpr
  apply List.mem_map.mpr
  refine ⟨((i + 1).repr, i), List.mem_map.mpr ⟨i, List.mem_range.mpr hi, rfl⟩, ?_⟩
  rw [Nat.zero_add, Nat.add_comm]

abbrev delayedOne : TestQueue := numberedQueue 1 .delayed

def debounced : DedupArgs where
  dedupId := "d"
  mode := .debounce
  timestamp := 2
  serverNow := 2

theorem debounced_simulates :
    (delayedOne.add debounced.testArgs).2 = .added "1" ∧
      (dedup (delayedOne.onServer (some "1")) debounced).2 = .added "2" ∧
      Simulates delayedOne (delayedOne.onServer (some "1")) debounced (delayedOne.add debounced.testArgs)
        (dedup (delayedOne.onServer (some "1")) debounced) := by
  refine ⟨by decide +kernel, by decide +kernel, ?_⟩
  apply add_simulates_dedup (agrees_onServer (numberedQueue_keyed 1 _) _) rfl (by decide)
  intro _
  exact ⟨⟨1, by decide, by decide +kernel⟩, by decide +kernel⟩

/-- The same add, in a group whose bucket it never fits. -/
def debouncedOversize : DedupArgs :=
  { debounced with orderingKey := some "k", group := { tbCapacity := 500 } }

abbrev waitingUnheeded : TestQueue := { numberedQueue 1 .waiting with dedup := false }

def completedThousand : TestQueue := numberedQueue 1000 .completed

/-- The ids differ, the server alone looks at the cost, one side ignores the option where it is
turned off, and one alone runs out of tries. -/
theorem add_differs_from_dedup :
    (delayedOne.Agrees (delayedOne.onServer (some "1")) ∧
      (delayedOne.add debounced.testArgs).1.dedupEntries "d" = some ("1", 2) ∧
      (dedup (delayedOne.onServer (some "1")) debounced).1.dedup "d" = some ("2", 2)) ∧
    ((delayedOne.add debouncedOversize.testArgs).2 = .added "1" ∧
      (dedup (delayedOne.onServer (some "1")) debouncedOversize).2 = .costExceedsCapacity) ∧
    (waitingUnheeded.Agrees (waitingUnheeded.onServer (some "1")) ∧
      (waitingUnheeded.add debounced.testArgs).2 = .added "2" ∧
      (dedup (waitingUnheeded.onServer (some "1")) debounced).2 = .skipped) ∧
    completedThousand.Agrees (completedThousand.onServer (some "1000")) ∧
      (completedThousand.add debounced.testArgs).2 = .error ∧
      (dedup (completedThousand.onServer (some "1000")) debounced).2 = .added "1001" := by
  have hunheeded : waitingUnheeded.Keyed :=
    ⟨(numberedQueue_keyed 1 .waiting).unique, (numberedQueue_keyed 1 .waiting).ids⟩
  have hthousand (idKey : Option String) : completedThousand.Agrees (completedThousand.onServer idKey) :=
    agrees_onServer (numberedQueue_keyed 1000 _) idKey
  have hdecision : dedupDecision (completedThousand.onServer (some "1000")) debounced = .add := by
    decide +kernel
  refine ⟨⟨agrees_onServer (numberedQueue_keyed 1 _) _, ?_, ?_⟩, ⟨?_, ?_⟩,
    ⟨agrees_onServer hunheeded _, ?_, ?_⟩, hthousand _, ?_, ?_⟩
  · decide +kernel
  · decide +kernel
  · decide +kernel
  · decide +kernel
  · decide +kernel
  · decide +kernel
  · exact add_of_taken (hthousand _) rfl (by decide) hdecision rfl fun i hi => numberedQueue_taken .completed hi
  · have hreply : (dedup (completedThousand.onServer (some "1000")) debounced).2 =
        (allocateId (completedThousand.onServer (some "1000")) none).2 := by
      unfold dedup
      rw [if_neg (by decide), if_neg (by decide), hdecision]
      exact dedupAdd_reply _ _ _
    rw [hreply]
    decide +kernel

end GlideMq
