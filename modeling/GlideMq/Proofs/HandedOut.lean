import GlideMq.Proofs.GroupPause

/-!
# What a call hands out

A worker gets a job from `moveToActive` or from the reply of a chain call. Whichever way it goes, the
queue is not paused, the job was not revoked and is not past its time, and its hash says since when it
runs and where it came from. Nothing else makes a job active.
-/

namespace GlideMq

open Queue Redis

/-- The hash of a job that a call hands out at `now`. -/
structure Job.HandedOut (j : Job) (now : Int) (fromList : Bool) : Prop where
  state : j.state = some .active
  revoked : j.revoked = false
  unexpired : isExpired j now = false
  processedOn : j.processedOn = some now
  lastActive : j.lastActive = some now
  listSourced : j.listSourced = some fromList

/-- A reply that names a job hands it out. -/
def ChainNext.HandsOut (now : Int) (next : ChainNext) : Prop :=
  ∀ J e fields, next = .hash J e fields → fields.HandedOut now e.isNone

section

variable {now : Int} {s t : Queue} {J : JobId} {gk : GroupKey}

theorem handsOut_none : ChainNext.none.HandsOut now := fun _ _ _ h => by cases h

theorem handsOut_revoked {e : Nat} : (ChainNext.revoked J e).HandsOut now := fun _ _ _ h => by cases h

theorem handsOut_hash {e : Option Nat} {fields : Job} (h : fields.HandedOut now e.isNone) :
    (ChainNext.hash J e fields).HandsOut now := by
  intro J' e' fields' heq
  cases heq
  exact h

theorem handedOut_activate (hrevoked : (s.job J).revoked = false) (hexpired : isExpired (s.job J) now = false)
    (fromList : Bool) : ((activate s J now fromList).job J).HandedOut now fromList := by
  rw [job_activate_self]
  exact ⟨rfl, hrevoked, hexpired, rfl, rfl, rfl⟩

theorem handedOut_of_jobs (hs : s.job J = t.job J) {u : Queue} {fromList : Bool}
    (hu : u.jobs = (activate s J now fromList).jobs) (hrevoked : (t.job J).revoked = false)
    (hexpired : isExpired (t.job J) now = false) : (u.job J).HandedOut now fromList := by
  -- A start past the gates of a group, whose books leave the job alone.
  rw [job_of_jobs hu]
  apply handedOut_activate
  · rw [hs]
    exact hrevoked
  · rw [hs]
    exact hexpired

/-! ## `moveToActive` -/

theorem nothing_handedOut {P : Prop} {o : Option Job} (h : o = none) : ∀ fields ∈ o, P := by
  rw [h]
  intro fields hfields
  cases hfields

theorem claimInGroup_handsOut {a : MoveArgs} (hrevoked : (s.job a.jobId).revoked = false)
    (hexpired : isExpired (s.job a.jobId) a.timestamp = false) :
    ∀ fields ∈ (claimInGroup s a gk).2.fields,
      ((claimInGroup s a gk).1.job a.jobId).HandedOut a.timestamp a.entryId.isNone := by
  have hjob := job_skipIf s gk (s.job a.jobId).orderingSeq a.jobId
  unfold claimInGroup
  simp only
  generalize (if 0 < (s.job a.jobId).orderingSeq then skipToNext s gk (s.groups gk).nextSeq else (s, 0)) = r at *
  split
  · exact nothing_handedOut rfl
  split
  · exact nothing_handedOut rfl
  split
  · exact nothing_handedOut rfl
  split
  · split <;> exact nothing_handedOut rfl
  · rintro fields ⟨⟩
    refine handedOut_of_jobs (s := (refill r.1 gk a.serverNow).1) hjob ?_ hrevoked hexpired
    split <;> split <;> rfl

theorem moveToActiveClaim_handsOut (s : Queue) (a : MoveArgs) :
    ∀ fields ∈ (moveToActiveClaim s a).2.fields,
      s.paused = false ∧ ((moveToActiveClaim s a).1.job a.jobId).HandedOut a.timestamp a.entryId.isNone := by
  unfold moveToActiveClaim
  simp only
  split
  · exact nothing_handedOut rfl
  rename_i job hj
  have hjob : s.job a.jobId = job := by simp [Queue.job, hj]
  split
  · exact nothing_handedOut rfl
  split
  · exact nothing_handedOut rfl
  rename_i hrevoked
  split
  · exact nothing_handedOut rfl
  rename_i hpaused
  split
  · exact nothing_handedOut rfl
  rename_i hexpired
  split
  · exact nothing_handedOut rfl
  have hrevoked' : (s.job a.jobId).revoked = false := by simpa [hjob] using hrevoked
  have hexpired' : isExpired (s.job a.jobId) a.timestamp = false := by simpa [hjob] using hexpired
  split
  · intro fields hfields
    exact ⟨by simpa using hpaused, claimInGroup_handsOut hrevoked' hexpired' fields hfields⟩
  · rintro fields ⟨⟩
    exact ⟨by simpa using hpaused, handedOut_activate hrevoked' hexpired' _⟩

theorem moveToActive_handsOut (s : Queue) (a : MoveArgs) :
    ∀ fields ∈ (moveToActive s a).2.fields,
      s.paused = false ∧ ((moveToActive s a).1.job a.jobId).HandedOut a.timestamp a.entryId.isNone := by
  -- A list claim that ends with the call has handed nothing out.
  have hclaim := moveToActiveClaim_handsOut s a
  unfold moveToActive
  simp only
  cases hresult : (moveToActiveClaim s a).2 with
  | active fields =>
    rw [hresult] at hclaim
    split <;> exact hclaim
  | _ =>
    repeat' split
    all_goals exact nothing_handedOut rfl

/-! ## Chain calls -/

theorem none_handsOut {next : Option ChainNext} (h : next = none) : ∀ n ∈ next, n.HandsOut now := by
  rw [h]
  intro n hn
  cases hn

theorem some_handsOut {next : ChainNext} (h : next.HandsOut now) : ∀ n ∈ some next, n.HandsOut now := by
  intro n hn
  cases hn
  exact h

theorem fetchPriorityInGroup_handsOut {a : FetchArgs} (hrevoked : (s.job J).revoked = false)
    (hexpired : isExpired (s.job J) a.timestamp = false) :
    ∀ n ∈ (fetchPriorityInGroup s a J gk).2, n.HandsOut a.timestamp := by
  have hjob := job_of_jobs (skipToNext_jobs s gk (s.groups gk).nextSeq) J
  unfold fetchPriorityInGroup
  simp only
  generalize skipToNext s gk (s.groups gk).nextSeq = r at *
  split
  · exact none_handsOut rfl
  split
  · exact none_handsOut rfl
  generalize (if (tokenDelay (r.1.groups gk) (refill r.1 gk a.serverNow).2
    ((s.job J).cost.getD 1000)).isSome = true then none else _) = rl
  split
  · exact some_handsOut handsOut_none
  · apply some_handsOut
    apply handsOut_hash
    refine handedOut_of_jobs (s := (refill r.1 gk a.serverNow).1) hjob ?_ hrevoked hexpired
    split <;> split <;> rfl

theorem activateFromList_handsOut (hrevoked : (s.job J).revoked = false) (hexpired : isExpired (s.job J) now = false) :
    ∀ n ∈ (activateFromList s J now).2, n.HandsOut now :=
  some_handsOut (handsOut_hash (handedOut_activate hrevoked hexpired true))

theorem fetchPriority_handsOut (s : Queue) (a : FetchArgs) (J : JobId) :
    ∀ n ∈ (fetchPriority s a J).2, n.HandsOut a.timestamp := by
  unfold fetchPriority
  simp only
  split
  · exact none_handsOut rfl
  rename_i hwaits
  simp only [not_or, Bool.not_eq_true] at hwaits
  obtain ⟨-, -, hrevoked⟩ := hwaits
  split
  · exact none_handsOut rfl
  rename_i hexpired
  rw [Bool.not_eq_true] at hexpired
  split
  · exact fetchPriorityInGroup_handsOut hrevoked hexpired
  · exact activateFromList_handsOut hrevoked hexpired

theorem fetchLifo_handsOut (s : Queue) (a : FetchArgs) (J : JobId) :
    ∀ n ∈ (fetchLifo s a J).2, n.HandsOut a.timestamp := by
  unfold fetchLifo
  simp only
  split
  · exact none_handsOut rfl
  rename_i hwaits
  simp only [not_or, Bool.not_eq_true] at hwaits
  obtain ⟨-, -, hrevoked⟩ := hwaits
  split
  · exact none_handsOut rfl
  rename_i hexpired
  rw [Bool.not_eq_true] at hexpired
  exact activateFromList_handsOut hrevoked hexpired

theorem listPhase_handsOut (k : ListKey) {fetch : Queue → JobId → Fetched}
    (hfetch : ∀ s J, ∀ n ∈ (fetch s J).2, n.HandsOut now) (attempts : Nat) (s : Queue) :
    ∀ n ∈ (listPhase k fetch attempts s).2.1, n.HandsOut now := by
  induction attempts generalizing s with
  | zero => exact none_handsOut rfl
  | succ attempts ih =>
    unfold listPhase
    split
    · exact none_handsOut rfl
    · rename_i J _
      have hpopped := hfetch (s.drop k) J
      split
      · rename_i next hfetched
        rw [hfetched] at hpopped
        exact hpopped
      · exact ih _

/-- A job that the stream phase picks was neither revoked nor past its time. -/
def StreamPick.MayStart (now : Int) (s : Queue) : StreamPick → Prop
  | .reply next => next.HandsOut now
  | .picked J _ => (s.job J).revoked = false ∧ isExpired (s.job J) now = false

theorem streamPhase_mayStart (a : FetchArgs) (listsEmpty : Bool) (attempts : Nat) (s : Queue) :
    (streamPhase a listsEmpty attempts s).2.MayStart a.timestamp (streamPhase a listsEmpty attempts s).1 := by
  induction attempts generalizing s with
  | zero => exact handsOut_none
  | succ attempts ih =>
    unfold streamPhase
    simp only
    split
    · exact handsOut_none
    · rename_i e _
      split
      · exact handsOut_none
      split
      · exact handsOut_revoked
      rename_i hrevoked
      split
      · exact ih _
      split
      · exact ih _
      · rename_i hexpired
        exact ⟨by simpa using hrevoked, by simpa using hexpired⟩

theorem activateFromStream_handsOut {e : Nat} (hrevoked : (s.job J).revoked = false)
    (hexpired : isExpired (s.job J) now = false) : (activateFromStream s J e now).2.HandsOut now :=
  handsOut_hash (handedOut_activate hrevoked hexpired false)

theorem fetchStreamInGroup_handsOut {a : FetchArgs} {e : Nat} (hrevoked : (s.job J).revoked = false)
    (hexpired : isExpired (s.job J) a.timestamp = false) :
    (fetchStreamInGroup s a J e gk).2.HandsOut a.timestamp := by
  have hjob := job_skipIf s gk (s.job J).orderingSeq J
  unfold fetchStreamInGroup
  simp only
  generalize (if 0 < (s.job J).orderingSeq then skipToNext s gk (s.groups gk).nextSeq else (s, 0)) = r at *
  split
  · exact handsOut_none
  split
  · exact handsOut_none
  split
  · exact handsOut_none
  split
  · exact handsOut_none
  · apply handsOut_hash
    refine handedOut_of_jobs (s := (refill r.1 gk a.serverNow).1) hjob ?_ hrevoked hexpired
    split <;> split <;> rfl

theorem fetchStream_handsOut (s : Queue) (a : FetchArgs) (listsEmpty : Bool) :
    (fetchStream s a listsEmpty).2.HandsOut a.timestamp := by
  have hphase := streamPhase_mayStart a listsEmpty 3 s
  unfold fetchStream
  split
  · rename_i hpick
    rw [hpick] at hphase
    exact hphase
  · rename_i hpick
    rw [hpick] at hphase
    obtain ⟨hrevoked, hexpired⟩ := hphase
    split
    · exact fetchStreamInGroup_handsOut hrevoked hexpired
    · exact activateFromStream_handsOut hrevoked hexpired

theorem fetchNextForChain_handsOut (s : Queue) (a : FetchArgs) : (fetchNextForChain s a).2.HandsOut a.timestamp := by
  unfold fetchNextForChain
  split
  · exact handsOut_none
  have hpriority := listPhase_handsOut .priority (fun s J => fetchPriority_handsOut s a J) 3 s
  split
  · rename_i hphase
    rw [hphase] at hpriority
    exact hpriority _ rfl
  · rename_i u priorityEmpty _
    have hlifo := listPhase_handsOut .lifo (fun s J => fetchLifo_handsOut s a J) 3 u
    split
    · rename_i hphase
      rw [hphase] at hlifo
      exact hlifo _ rfl
    · exact fetchStream_handsOut _ a _

theorem ChainNext.HandsOut.of_activation {next : ChainNext} {e : Option Nat} {fields : Job} (h : next.HandsOut now)
    (ha : next.activation = some (J, e, fields)) : fields.HandedOut now e.isNone := by
  cases next with
  | hash J' e' fields' =>
    cases ha
    exact h _ _ _ rfl
  | _ => cases ha

theorem completeAndFetchNext_handsOut (s : Queue) (a : CompleteNextArgs) :
    ∀ r ∈ (completeAndFetchNext s a).2, r.next.HandsOut a.timestamp := by
  unfold completeAndFetchNext
  simp only
  split
  · intro r hr
    cases hr
  · rintro r ⟨⟩
    generalize (if (s.job a.jobId).state = none then _ else _) = u
    change (if u.1.paused then (u.1, ChainNext.none) else fetchNextForChain u.1 a.fetch).2.HandsOut a.timestamp
    split
    · exact handsOut_none
    · exact fetchNextForChain_handsOut u.1 a.fetch

theorem failAndFetchNext_handsOut (s : Queue) (a : FailArgs) (consumer : String) :
    (failAndFetchNext s a consumer).2.2.next.HandsOut a.timestamp := by
  unfold failAndFetchNext
  simp only
  split
  · exact handsOut_none
  · exact fetchNextForChain_handsOut _ (a.fetch consumer)

/-! ## Calls -/

theorem activation_handedOut {c : Call} {e : Option Nat} {fields : Job} (h : c.activation s = some (J, e, fields)) :
    s.paused = false ∧ ∃ now, c.startsAt = some now ∧ ((c.run s).job J).HandedOut now e.isNone := by
  have hreplied := activation_eq h
  have hunpaused (hchains : c.chains) : s.paused = false := by
    cases hpaused : s.paused with
    | false => rfl
    | true =>
      rw [activation_of_paused hchains hpaused] at h
      cases h
  cases c with
  | moveToActive a =>
    simp only [Call.activation] at h
    obtain ⟨fields', hfields, heq⟩ := Option.map_eq_some_iff.mp h
    cases heq
    obtain ⟨hpaused, hout⟩ := moveToActive_handsOut s a _ hfields
    exact ⟨hpaused, a.timestamp, rfl, hout⟩
  | completeAndFetchNext a =>
    have hpaused := hunpaused rfl
    simp only [Call.activation] at h
    obtain ⟨reply, hreply, hnext⟩ := Option.bind_eq_some_iff.mp h
    have hout := (completeAndFetchNext_handsOut s a reply hreply).of_activation hnext
    rw [hreplied] at hout
    exact ⟨hpaused, a.timestamp, rfl, hout⟩
  | failAndFetchNext a consumer =>
    have hpaused := hunpaused rfl
    have hout := (failAndFetchNext_handsOut s a consumer).of_activation h
    rw [hreplied] at hout
    exact ⟨hpaused, a.timestamp, rfl, hout⟩
  | _ => cases h

end

/-- A job that is added and read. -/
def addAndRead : List SysCall :=
  [.on "q" (.addJob { timestamp := 0, serverNow := 0 }), .on "q" (.readGroup "w" "a")]

end GlideMq
