import Mathlib.Tactic.Common
import GlideMq.Machine.Runs
import GlideMq.Model.Broadcast

/-!
# What trimming keeps

However publishing, the subscriptions and trimming interleave: a message that some subscription has
read and not settled, that waits for a retry or that is still in the stream has its data. So the
counter of held claims is exact, and the newest entry of a message is the one that its hash names.
-/

namespace GlideMq

open Redis

variable {b b' : Broadcast} {log todo todo' : List (Entry BroadcastEntry)} {jobId : JobId} {g : Group}

/-- Nothing in the stream is of a message that no subscription has retried. -/
def Broadcast.Gone (b : Broadcast) (jobId : JobId) : Prop :=
  ∀ m, b.jobs jobId = some m → m.bcastEntry = none → ∀ e ∈ b.stream.entries, e.val.jobId ≠ jobId

/-- The messages against the stream and the claims. `log` has all entries that ever were in the
stream, `todo` the trimmed ones whose pending claims are not yet recorded. -/
structure Broadcast.Sound (b : Broadcast) (log todo : List (Entry BroadcastEntry)) : Prop where
  logged : ∀ e ∈ b.stream.entries, e ∈ log
  log_le : ∀ e ∈ log, e.id ≤ b.stream.lastId
  log_inj : ∀ e ∈ log, ∀ e' ∈ log, e.id = e'.id → e = e'
  pending : ∀ g ∈ b.groups, ∀ e ∈ log, b.stream.isPending g e.id →
    e ∈ b.stream.entries ∨ e ∈ todo ∨ ⟨e.id, e.val.jobId⟩ ∈ b.held
  entry_job : ∀ e ∈ b.stream.entries, b.jobs e.val.jobId ≠ none
  held_job : ∀ c ∈ b.held, b.jobs c.jobId ≠ none
  counted : ∀ jobId m, b.jobs jobId = some m → m.bcastHeld = b.held.members.countP (·.jobId = jobId)
  newest : ∀ jobId m id, b.jobs jobId = some m → m.bcastEntry = some id → ∀ e ∈ b.stream.entries,
    e.val.jobId = jobId → e.id ≤ id ∧ ∃ e' ∈ b.stream.entries, e'.id = id
  single : ∀ jobId m, b.jobs jobId = some m → m.bcastEntry = none → ∀ e ∈ b.stream.entries,
    ∀ e' ∈ b.stream.entries, e.val.jobId = jobId → e'.val.jobId = jobId → e = e'
  held_gone : ∀ c ∈ b.held, b.Gone c.jobId
  held_out : ∀ c ∈ b.held, ∃ e ∈ log, c = ⟨e.id, e.val.jobId⟩ ∧ e ∉ b.stream.entries ∧ e ∉ todo
  scheduled_job : ∀ jobId g due, b.scheduled jobId (some g) = some due → b.jobs jobId ≠ none ∧ g ∈ b.groups
  todo_job : ∀ e ∈ todo, b.jobs e.val.jobId ≠ none ∧ b.Gone e.val.jobId ∧ e ∈ log ∧ e ∉ b.stream.entries
  todo_nodup : todo.Nodup

/-! ## Calls that keep the entries -/

theorem pending_of_any {id : Nat} (hg : g ∈ b.groups) (h : b.stream.isPending g id) :
    entryPendingInAnyGroup b id = true := by
  unfold entryPendingInAnyGroup
  rw [List.any_eq_true]
  exact ⟨g, hg, h⟩

theorem job_ne_none_update {m : Message} {J : JobId} (h : b.jobs J ≠ none) :
    Function.update b.jobs jobId (some m) J ≠ none := by
  by_cases hJ : J = jobId
  · rw [hJ, Function.update_self]
    exact Option.some_ne_none m
  · rwa [Function.update_of_ne hJ]

/-- The messages are the same, but for their states and counters. -/
def Broadcast.SameEntries (b b' : Broadcast) : Prop :=
  b'.stream.entries = b.stream.entries ∧
    ∀ jobId, (b'.jobs jobId).map (·.bcastEntry) = (b.jobs jobId).map (·.bcastEntry)

theorem Broadcast.SameEntries.job (h : b.SameEntries b') {m' : Message} (hm : b'.jobs jobId = some m') :
    ∃ m, b.jobs jobId = some m ∧ m.bcastEntry = m'.bcastEntry := by
  have hmap := h.2 jobId
  rw [hm] at hmap
  exact Option.map_eq_some_iff.mp hmap.symm

theorem Broadcast.SameEntries.job_ne_none (h : b.SameEntries b') (hjob : b.jobs jobId ≠ none) :
    b'.jobs jobId ≠ none := by
  intro hnone
  have hmap := h.2 jobId
  rw [hnone] at hmap
  exact hjob (Option.map_eq_none_iff.mp hmap.symm)

theorem Broadcast.SameEntries.gone (h : b.SameEntries b') (hgone : b.Gone jobId) : b'.Gone jobId := by
  intro m' hm' hnone
  obtain ⟨m, hm, heq⟩ := h.job hm'
  rw [h.1]
  exact hgone m hm (heq.trans hnone)

theorem sameEntries_setJob {m m' : Message} (hm : b.jobs jobId = some m) (heq : m'.bcastEntry = m.bcastEntry)
    (J : JobId) : ((b.setJob jobId (some m')).jobs J).map (·.bcastEntry) = (b.jobs J).map (·.bcastEntry) := by
  unfold Broadcast.setJob
  dsimp only
  by_cases hJ : J = jobId
  · subst hJ
    simp [hm, heq]
  · simp [hJ]

/-- What a call that keeps the entries has to show. -/
theorem Broadcast.Sound.update (h : b.Sound log todo) (hsame : b.SameEntries b')
    (hlast : b'.stream.lastId = b.stream.lastId) (htodo : todo'.Sublist todo)
    (hcounted : ∀ jobId m, b'.jobs jobId = some m → m.bcastHeld = b'.held.members.countP (·.jobId = jobId))
    (hheld : ∀ c ∈ b'.held, c ∈ b.held ∨ ∃ e ∈ todo, e ∉ todo' ∧ c = ⟨e.id, e.val.jobId⟩)
    (hpending : ∀ g ∈ b'.groups, ∀ e ∈ log, b'.stream.isPending g e.id →
      e ∈ b'.stream.entries ∨ e ∈ todo' ∨ ⟨e.id, e.val.jobId⟩ ∈ b'.held)
    (hscheduled : ∀ jobId g due, b'.scheduled jobId (some g) = some due →
      b'.jobs jobId ≠ none ∧ g ∈ b'.groups) : b'.Sound log todo' := by
  have hentries := hsame.1
  constructor
  · rw [hentries]
    exact h.logged
  · rw [hlast]
    exact h.log_le
  · exact h.log_inj
  · exact hpending
  · intro e he
    rw [hentries] at he
    exact hsame.job_ne_none (h.entry_job e he)
  · intro c hc
    rcases hheld c hc with hold | ⟨e, he, -, rfl⟩
    · exact hsame.job_ne_none (h.held_job c hold)
    · exact hsame.job_ne_none (h.todo_job e he).1
  · exact hcounted
  · intro J m' id hm' hid
    obtain ⟨m, hm, heq⟩ := hsame.job hm'
    rw [hentries]
    exact h.newest J m id hm (heq.trans hid)
  · intro J m' hm' hnone
    obtain ⟨m, hm, heq⟩ := hsame.job hm'
    rw [hentries]
    exact h.single J m hm (heq.trans hnone)
  · intro c hc
    rcases hheld c hc with hold | ⟨e, he, -, rfl⟩
    · exact hsame.gone (h.held_gone c hold)
    · exact hsame.gone (h.todo_job e he).2.1
  · intro c hc
    rw [hentries]
    rcases hheld c hc with hold | ⟨e, he, hdone, rfl⟩
    · obtain ⟨e, hlog, heq, hout, hnot⟩ := h.held_out c hold
      exact ⟨e, hlog, heq, hout, fun hmem => hnot (htodo.subset hmem)⟩
    · obtain ⟨-, -, hlog, hout⟩ := h.todo_job e he
      exact ⟨e, hlog, rfl, hout, hdone⟩
  · exact hscheduled
  · intro e he
    obtain ⟨hjob, hgone, hlog, hout⟩ := h.todo_job e (htodo.subset he)
    rw [hentries]
    exact ⟨hsame.job_ne_none hjob, hsame.gone hgone, hlog, hout⟩
  · exact h.todo_nodup.sublist htodo

/-! ## Trimming, step by step -/

theorem Broadcast.Sound.cut (h : b.Sound log []) {n : Nat} {stream : Stream BroadcastEntry}
    (hentries : stream.entries = b.stream.entries.drop n) (hlast : stream.lastId = b.stream.lastId)
    (hgroups : stream.groups = b.stream.groups) :
    Broadcast.Sound { b with stream } log (b.stream.entries.take n) := by
  have hdrop {e : Entry BroadcastEntry} (he : e ∈ stream.entries) : e ∈ b.stream.entries := by
    rw [hentries] at he
    exact List.mem_of_mem_drop he
  have hout {e : Entry BroadcastEntry} (he : e ∈ b.stream.entries.take n) : e ∉ stream.entries := by
    rw [hentries]
    intro hlater
    exact Nat.lt_irrefl _ (Stream.lt_of_take_drop he hlater)
  constructor
  · exact fun e he => h.logged e (hdrop he)
  · rw [show (({ b with stream } : Broadcast)).stream.lastId = b.stream.lastId from hlast]
    exact h.log_le
  · exact h.log_inj
  · intro g hg e he hpending
    have hbefore : b.stream.isPending g e.id := by
      unfold Stream.isPending at *
      rwa [← hgroups]
    rcases h.pending g hg e he hbefore with hin | htodo | hheld
    · rw [← List.take_append_drop n b.stream.entries] at hin
      rcases List.mem_append.mp hin with hcut | hkept
      · exact .inr (.inl hcut)
      · refine .inl ?_
        dsimp only
        rwa [hentries]
    · cases htodo
    · exact .inr (.inr hheld)
  · exact fun e he => h.entry_job e (hdrop he)
  · exact h.held_job
  · exact h.counted
  · intro J m id hm hid e he hJ
    obtain ⟨hle, e', he', rfl⟩ := h.newest J m id hm hid e (hdrop he) hJ
    refine ⟨hle, e', ?_, rfl⟩
    rw [← List.take_append_drop n b.stream.entries] at he'
    rcases List.mem_append.mp he' with hcut | hkept
    · -- the newest entry is not cut off before an older one
      dsimp only at he
      rw [hentries] at he
      have hlt := Stream.lt_of_take_drop hcut he
      omega
    · dsimp only
      rwa [hentries]
  · exact fun J m hm hnone e he e' he' => h.single J m hm hnone e (hdrop he) e' (hdrop he')
  · exact fun c hc m hm hnone e he => h.held_gone c hc m hm hnone e (hdrop he)
  · intro c hc
    obtain ⟨e, hlog, heq, hnot, -⟩ := h.held_out c hc
    exact ⟨e, hlog, heq, fun he => hnot (hdrop he), fun he => hnot (List.mem_of_mem_take he)⟩
  · exact h.scheduled_job
  · intro e he
    have hin := List.mem_of_mem_take he
    refine ⟨h.entry_job e hin, ?_, h.logged e hin, hout he⟩
    intro m hm hnone e' he' hJ
    have heq := h.single _ m hm hnone e hin e' (hdrop he') rfl hJ
    exact hout he (heq ▸ he')
  · exact b.stream.nodup_entries.sublist (List.take_sublist n _)

theorem counted_setJob {m : Message} {k : Int} {held : SortedSet HeldClaim} {c : HeldClaim}
    (h : b.Sound log todo) (hcount : (held.members.countP (·.jobId = c.jobId) : Int) = k)
    (hothers : ∀ J, J ≠ c.jobId → held.members.countP (·.jobId = J) = b.held.members.countP (·.jobId = J)) :
    ∀ J m', ((b.setJob c.jobId (some { m with bcastHeld := k })).setHeld held).jobs J = some m' →
      m'.bcastHeld = held.members.countP (·.jobId = J) := by
  intro J m' hm'
  unfold Broadcast.setHeld Broadcast.setJob at hm'
  dsimp only at hm'
  by_cases hJ : J = c.jobId
  · subst hJ
    rw [Function.update_self] at hm'
    cases hm'
    exact hcount.symm
  · rw [Function.update_of_ne hJ] at hm'
    rw [hothers J hJ]
    exact h.counted J m' hm'

theorem not_held_of_todo {e : Entry BroadcastEntry} (h : b.Sound log todo) (he : e ∈ todo) :
    (⟨e.id, e.val.jobId⟩ : HeldClaim) ∉ b.held := by
  intro hheld
  obtain ⟨e', hlog', heq, -, hnot⟩ := h.held_out _ hheld
  obtain ⟨-, -, hlog, -⟩ := h.todo_job e he
  have hid : e.id = e'.id := congrArg HeldClaim.entryId heq
  rw [h.log_inj e hlog e' hlog' hid] at he
  exact hnot he

theorem Broadcast.Sound.trimEntry {e : Entry BroadcastEntry} (h : b.Sound log (e :: todo)) (timestamp : Int)
    (cs : List JobId) (hcs : ∀ J ∈ cs, b.Gone J) :
    (trimEntry timestamp (b, cs) e).1.Sound log todo ∧
      ∀ J ∈ (GlideMq.trimEntry timestamp (b, cs) e).2, (GlideMq.trimEntry timestamp (b, cs) e).1.Gone J := by
  obtain ⟨hjob, hgone, hlog, hout⟩ := h.todo_job e List.mem_cons_self
  obtain ⟨m, hm⟩ := Option.ne_none_iff_exists'.mp hjob
  have hnot := not_held_of_todo h List.mem_cons_self
  have hhead : e ∉ todo := (List.nodup_cons.mp h.todo_nodup).1
  unfold GlideMq.trimEntry
  simp only [hm]
  split
  · have hsame : b.SameEntries ((b.setJob e.val.jobId (some { m with bcastHeld := m.bcastHeld + 1 })).setHeld
        (b.held.add ⟨e.id, e.val.jobId⟩ timestamp)) := ⟨rfl, sameEntries_setJob hm rfl⟩
    refine ⟨?_, fun J hJ => hsame.gone (hcs J hJ)⟩
    apply h.update hsame rfl (List.sublist_cons_self e todo)
    · apply @counted_setJob _ _ _ _ _ _ ⟨e.id, e.val.jobId⟩ h
      · rw [SortedSet.countP_members_add hnot, h.counted _ m hm]
        simp
      · intro J hJ
        rw [SortedSet.countP_members_add hnot, if_neg (by simpa using hJ.symm)]
        rfl
    · intro c hc
      rcases SortedSet.mem_add.mp hc with rfl | hold
      · exact .inr ⟨e, List.mem_cons_self, hhead, rfl⟩
      · exact .inl hold
    · intro g hg e' he' hpending
      rcases h.pending g hg e' he' hpending with hin | htodo | hheld
      · exact .inl hin
      · rcases List.mem_cons.mp htodo with rfl | htodo
        · exact .inr (.inr (SortedSet.mem_add.mpr (.inl rfl)))
        · exact .inr (.inl htodo)
      · exact .inr (.inr (SortedSet.mem_add.mpr (.inr hheld)))
    · intro J g due hdue
      obtain ⟨hexists, hg⟩ := h.scheduled_job J g due hdue
      exact ⟨hsame.job_ne_none hexists, hg⟩
  · rename_i hnone
    have hsame : b.SameEntries b := ⟨rfl, fun _ => rfl⟩
    refine ⟨?_, fun J hJ => ?_⟩
    · apply h.update hsame rfl (List.sublist_cons_self e todo) h.counted (fun c hc => .inl hc)
      · intro g hg e' he' hpending
        rcases h.pending g hg e' he' hpending with hin | htodo | hheld
        · exact .inl hin
        · rcases List.mem_cons.mp htodo with rfl | htodo
          · exact absurd (pending_of_any hg hpending) hnone
          · exact .inr (.inl htodo)
        · exact .inr (.inr hheld)
      · exact h.scheduled_job
    · rcases List.mem_append.mp hJ with hold | hnew
      · exact hcs J hold
      · obtain rfl := List.mem_singleton.mp hnew
        exact hgone

theorem Broadcast.Sound.recheckHeld {c : HeldClaim} (h : b.Sound log []) (hc : c ∈ b.held) (timestamp : Int)
    (cs : List JobId) (hcs : ∀ J ∈ cs, b.Gone J) :
    (GlideMq.recheckHeld timestamp (b, cs) c).1.Sound log [] ∧
      ∀ J ∈ (GlideMq.recheckHeld timestamp (b, cs) c).2, (GlideMq.recheckHeld timestamp (b, cs) c).1.Gone J := by
  unfold GlideMq.recheckHeld
  dsimp only
  split
  · have hsame : b.SameEntries (b.setHeld (b.held.add c timestamp)) := ⟨rfl, fun _ => rfl⟩
    refine ⟨?_, fun J hJ => hsame.gone (hcs J hJ)⟩
    apply h.update hsame rfl (List.Sublist.refl [])
    · intro J m hm
      rw [h.counted J m hm]
      exact congrArg Nat.cast (SortedSet.countP_members_move hc timestamp _).symm
    · intro c' hc'
      rcases SortedSet.mem_add.mp hc' with rfl | hold
      · exact .inl hc
      · exact .inl hold
    · intro g hg e he hpending
      rcases h.pending g hg e he hpending with hin | htodo | hheld
      · exact .inl hin
      · cases htodo
      · exact .inr (.inr (SortedSet.mem_add.mpr (.inr hheld)))
    · exact h.scheduled_job
  · rename_i hnone
    obtain ⟨m, hm⟩ := Option.ne_none_iff_exists'.mp (h.held_job c hc)
    simp only [hm]
    have hcount := SortedSet.countP_members_rem hc (fun d => decide (d.jobId = c.jobId))
    have hcounted := h.counted _ m hm
    have hsame : b.SameEntries ((b.setJob c.jobId (some { m with bcastHeld := max (m.bcastHeld - 1) 0 })).setHeld
        (b.held.rem c)) := ⟨rfl, sameEntries_setJob hm rfl⟩
    refine ⟨?_, fun J hJ => ?_⟩
    · apply h.update hsame rfl (List.Sublist.refl [])
      · apply counted_setJob h
        · simp only [decide_true, if_true] at hcount
          omega
        · intro J hJ
          have hother := SortedSet.countP_members_rem hc (fun d => decide (d.jobId = J))
          rwa [if_neg (by simpa using hJ.symm)] at hother
      · exact fun c' hc' => .inl (SortedSet.mem_rem.mp hc').2
      · intro g hg e he hpending
        rcases h.pending g hg e he hpending with hin | htodo | hheld
        · exact .inl hin
        · cases htodo
        · refine .inr (.inr (SortedSet.mem_rem.mpr ⟨?_, hheld⟩))
          rintro rfl
          exact hnone (pending_of_any hg hpending)
      · intro J g due hdue
        obtain ⟨hexists, hg⟩ := h.scheduled_job J g due hdue
        exact ⟨hsame.job_ne_none hexists, hg⟩
    · rcases List.mem_append.mp hJ with hold | hnew
      · exact hsame.gone (hcs J hold)
      · obtain rfl := List.mem_singleton.mp hnew
        exact hsame.gone (h.held_gone c hc)

theorem Broadcast.Sound.remove (h : b.Sound log []) (hsame : b'.stream = b.stream)
    (hgroups : b'.groups = b.groups) (hheld : b'.held = b.held) (hscheduled : b'.scheduled = b.scheduled)
    (hjobs : b'.jobs = Function.update b.jobs jobId none) (hentries : ∀ e ∈ b.stream.entries, e.val.jobId ≠ jobId)
    (hclaims : ∀ c ∈ b.held, c.jobId ≠ jobId) (hdue : ∀ g ∈ b.groups, b.scheduled jobId (some g) = none) :
    b'.Sound log [] ∧ ∀ J, b.Gone J → b'.Gone J := by
  -- Where a message is deleted, nothing needs it.
  have hkept {J : JobId} (hJ : J ≠ jobId) : b'.jobs J = b.jobs J := by
    rw [hjobs, Function.update_of_ne hJ]
  have hold {J : JobId} {m : Message} (hm : b'.jobs J = some m) : b.jobs J = some m := by
    by_cases hJ : J = jobId
    · rw [hjobs, hJ, Function.update_self] at hm
      cases hm
    · rwa [hkept hJ] at hm
  have hgone {J : JobId} (hJ : b.Gone J) : b'.Gone J := by
    intro m hm hnone
    rw [hsame]
    exact hJ m (hold hm) hnone
  refine ⟨?_, fun J hJ => hgone hJ⟩
  constructor
  · rw [hsame]
    exact h.logged
  · rw [hsame]
    exact h.log_le
  · exact h.log_inj
  · rw [hsame, hgroups, hheld]
    exact h.pending
  · intro e he
    rw [hsame] at he
    rw [hkept (hentries e he)]
    exact h.entry_job e he
  · intro c hc
    rw [hheld] at hc
    rw [hkept (hclaims c hc)]
    exact h.held_job c hc
  · intro J m hm
    rw [hheld]
    exact h.counted J m (hold hm)
  · intro J m id hm
    rw [hsame]
    exact h.newest J m id (hold hm)
  · intro J m hm
    rw [hsame]
    exact h.single J m (hold hm)
  · intro c hc
    rw [hheld] at hc
    exact hgone (h.held_gone c hc)
  · rw [hsame, hheld]
    exact h.held_out
  · intro J g due hsome
    rw [hscheduled] at hsome
    rw [hgroups]
    obtain ⟨hexists, hg⟩ := h.scheduled_job J g due hsome
    refine ⟨?_, hg⟩
    rw [hkept]
    · exact hexists
    · rintro rfl
      rw [hdue g hg] at hsome
      cases hsome
  · intro e he
    cases he
  · exact List.nodup_nil

theorem legacyRetryIndex_some {id : Nat} (h : legacyRetryIndex b jobId = some id) :
    ∃ e ∈ b.stream.entries, e.val.jobId = jobId := by
  obtain ⟨e, hfind, -⟩ := Option.map_eq_some_iff.mp h
  have hjob := List.find?_some hfind
  refine ⟨e, List.mem_of_mem_take (List.mem_of_find?_eq_some hfind), ?_⟩
  simp only [Bool.and_eq_true, decide_eq_true_eq] at hjob
  exact hjob.2

theorem Broadcast.Sound.deleteTrimmed (h : b.Sound log []) (hgone : b.Gone jobId) :
    (deleteTrimmedBroadcastJob b jobId).Sound log [] ∧
      ∀ J, b.Gone J → (deleteTrimmedBroadcastJob b jobId).Gone J := by
  unfold deleteTrimmedBroadcastJob
  cases hm : b.jobs jobId with
  | none => exact ⟨h, fun _ hJ => hJ⟩
  | some m =>
    dsimp only
    split
    · exact ⟨h, fun _ hJ => hJ⟩
    split
    · exact ⟨h, fun _ hJ => hJ⟩
    split
    · exact ⟨h, fun _ hJ => hJ⟩
    rename_i hheld hentry
    have hentries : ∀ e ∈ b.stream.entries, e.val.jobId ≠ jobId := by
      cases hnewest : m.bcastEntry with
      | none => exact hgone m hm hnewest
      | some id =>
        intro e he hJ
        obtain ⟨-, e', he', hid⟩ := h.newest jobId m id hm hnewest e he hJ
        apply hentry
        rw [hnewest, Option.any_some, List.any_eq_true]
        exact ⟨e', he', by simpa using hid⟩
    split
    · -- an entry that an old library promoted would still be in the stream
      rename_i legacyRetry hlegacy
      split at hlegacy
      · unfold findLegacyRetryEntry at hlegacy
        split at hlegacy
        · obtain ⟨e, he, hJ⟩ := legacyRetryIndex_some hlegacy
          exact absurd hJ (hentries e he)
        · cases hlegacy
      · cases hlegacy
    split
    · exact ⟨h, fun _ hJ => hJ⟩
    rename_i hscheduled
    have hclaims : ∀ c ∈ b.held, c.jobId ≠ jobId := by
      intro c hc hJ
      have hcounted := h.counted jobId m hm
      have hpos : 0 < b.held.members.countP (·.jobId = jobId) :=
        List.countP_pos_iff.mpr ⟨c, hc, by simpa using hJ⟩
      omega
    have hdue : ∀ g ∈ b.groups, b.scheduled jobId (some g) = none := by
      intro g hg
      rw [← Option.not_isSome_iff_eq_none]
      intro hsome
      apply hscheduled
      unfold isScheduled
      rw [Bool.or_eq_true, List.any_eq_true]
      exact .inr ⟨g, hg, hsome⟩
    exact h.remove rfl rfl rfl rfl rfl hentries hclaims hdue

/-! ## A whole trim -/

theorem entries_trimStream (s : Stream BroadcastEntry) (maxLen : Nat) :
    (trimStream s maxLen).entries = s.entries.drop (min (s.entries.length - maxLen) 1000) := by
  unfold trimStream
  dsimp only
  split
  · rename_i hnone
    rw [hnone]
    rfl
  · split
    · rename_i next hnext
      exact Stream.entries_xtrimMinId hnext
    · rename_i hlast
      have hall := List.getElem?_eq_none_iff.mp hlast
      unfold Stream.xtrimMaxLen
      dsimp only
      rw [List.drop_of_length_le hall, List.drop_of_length_le (by omega)]

theorem lastId_trimStream (s : Stream BroadcastEntry) (maxLen : Nat) : (trimStream s maxLen).lastId = s.lastId := by
  unfold trimStream
  dsimp only
  split
  · rfl
  · split <;> rfl

theorem groups_trimStream (s : Stream BroadcastEntry) (maxLen : Nat) : (trimStream s maxLen).groups = s.groups := by
  unfold trimStream
  dsimp only
  split
  · rfl
  · split <;> rfl

theorem Broadcast.Sound.trimEntries {x : Broadcast × List JobId} (h : x.1.Sound log todo) (timestamp : Int)
    (hcs : ∀ J ∈ x.2, x.1.Gone J) :
    (todo.foldl (GlideMq.trimEntry timestamp) x).1.Sound log [] ∧
      ∀ J ∈ (todo.foldl (GlideMq.trimEntry timestamp) x).2, (todo.foldl (GlideMq.trimEntry timestamp) x).1.Gone J := by
  induction todo generalizing x with
  | nil => exact ⟨h, hcs⟩
  | cons e todo ih =>
    obtain ⟨hstep, hgone⟩ := h.trimEntry timestamp x.2 hcs
    exact ih hstep hgone

theorem mem_held_trimEntry {c : HeldClaim} (timestamp : Int) (x : Broadcast × List JobId)
    (e : Entry BroadcastEntry) (hc : c ∈ x.1.held) : c ∈ (trimEntry timestamp x e).1.held := by
  unfold trimEntry
  split
  · exact hc
  · split
    · exact SortedSet.mem_add.mpr (.inr hc)
    · exact hc

theorem mem_held_trimEntries {c : HeldClaim} (timestamp : Int) (entries : List (Entry BroadcastEntry))
    (x : Broadcast × List JobId) (hc : c ∈ x.1.held) : c ∈ (entries.foldl (trimEntry timestamp) x).1.held := by
  induction entries generalizing x with
  | nil => exact hc
  | cons e entries ih => exact ih _ (mem_held_trimEntry timestamp x e hc)

theorem mem_held_recheckHeld {c d : HeldClaim} (timestamp : Int) (x : Broadcast × List JobId) (hne : c ≠ d)
    (hc : c ∈ x.1.held) : c ∈ (recheckHeld timestamp x d).1.held := by
  unfold recheckHeld
  split
  · exact SortedSet.mem_add.mpr (.inr hc)
  · split
    · exact SortedSet.mem_rem.mpr ⟨hne, hc⟩
    · exact SortedSet.mem_rem.mpr ⟨hne, hc⟩

theorem Broadcast.Sound.recheckAll {x : Broadcast × List JobId} {held : List HeldClaim} (h : x.1.Sound log [])
    (timestamp : Int) (hcs : ∀ J ∈ x.2, x.1.Gone J) (hnodup : held.Nodup) (hheld : ∀ c ∈ held, c ∈ x.1.held) :
    (held.foldl (GlideMq.recheckHeld timestamp) x).1.Sound log [] ∧
      ∀ J ∈ (held.foldl (GlideMq.recheckHeld timestamp) x).2,
        (held.foldl (GlideMq.recheckHeld timestamp) x).1.Gone J := by
  induction held generalizing x with
  | nil => exact ⟨h, hcs⟩
  | cons c held ih =>
    obtain ⟨hstep, hgone⟩ := h.recheckHeld (hheld c List.mem_cons_self) timestamp x.2 hcs
    obtain ⟨hhead, hrest⟩ := List.nodup_cons.mp hnodup
    apply ih hstep hgone hrest
    intro d hd
    apply mem_held_recheckHeld timestamp x
    · rintro rfl
      exact hhead hd
    · exact hheld d (List.mem_cons_of_mem c hd)

theorem Broadcast.Sound.deleteAll (h : b.Sound log []) {cs : List JobId} (hcs : ∀ J ∈ cs, b.Gone J) :
    (cs.foldl deleteTrimmedBroadcastJob b).Sound log [] := by
  induction cs generalizing b with
  | nil => exact h
  | cons J cs ih =>
    obtain ⟨hstep, hgone⟩ := h.deleteTrimmed (hcs J List.mem_cons_self)
    exact ih hstep fun K hK => hgone K (hcs K (List.mem_cons_of_mem J hK))

theorem Broadcast.Sound.trim (h : b.Sound log []) (maxLen : Nat) (timestamp : Int) :
    (trimBroadcast b maxLen timestamp).1.Sound log [] := by
  unfold trimBroadcast
  dsimp only
  split
  · exact h
  · have hcut := h.cut (entries_trimStream b.stream maxLen) (lastId_trimStream b.stream maxLen)
      (groups_trimStream b.stream maxLen)
    have hfirst := @Broadcast.Sound.trimEntries _ _ ({ b with stream := trimStream b.stream maxLen }, []) hcut
      timestamp (by simp)
    have hsecond := hfirst.1.recheckAll timestamp hfirst.2 (b.held.nodup_members.sublist (List.take_sublist 100 _))
      fun c hc => mem_held_trimEntries timestamp _ _ (SortedSet.mem_of_mem_take hc)
    exact hsecond.1.deleteAll hsecond.2

/-! ## New entries -/

/-- A message is published, or retried. -/
structure Broadcast.Appends (b b' : Broadcast) (v : BroadcastEntry) (m : Message) : Prop where
  stream : b'.stream = b.stream.xadd v
  groups : b'.groups = b.groups
  held : b'.held = b.held
  jobs : b'.jobs = Function.update b.jobs v.jobId (some m)
  scheduled : ∀ J g due, b'.scheduled J (some g) = some due → b.scheduled J (some g) = some due
  counted : m.bcastHeld = b.held.members.countP (·.jobId = v.jobId)
  newest : m.bcastEntry = some (b.stream.lastId + 1) ∨ m.bcastEntry = none ∧
    (∀ e ∈ b.stream.entries, e.val.jobId ≠ v.jobId) ∧ ∀ c ∈ b.held, c.jobId ≠ v.jobId

namespace Broadcast.Appends

variable {v : BroadcastEntry} {m m' : Message} {J : JobId} {e e' : Entry BroadcastEntry}

theorem job_self (ha : b.Appends b' v m) (hm' : b'.jobs v.jobId = some m') : m' = m := by
  rw [ha.jobs, Function.update_self] at hm'
  exact (Option.some.inj hm').symm

theorem job_other (ha : b.Appends b' v m) (hJ : J ≠ v.jobId) : b'.jobs J = b.jobs J := by
  rw [ha.jobs, Function.update_of_ne hJ]

theorem job_ne_none (ha : b.Appends b' v m) (hJ : b.jobs J ≠ none) : b'.jobs J ≠ none := by
  rw [ha.jobs]
  exact job_ne_none_update hJ

theorem mem_entries (ha : b.Appends b' v m) :
    e ∈ b'.stream.entries ↔ e ∈ b.stream.entries ∨ e = ⟨b.stream.lastId + 1, v⟩ := by
  rw [ha.stream]
  exact Stream.mem_entries_xadd

theorem lastId (ha : b.Appends b' v m) : b'.stream.lastId = b.stream.lastId + 1 := by
  rw [ha.stream]
  rfl

theorem old (ha : b.Appends b' v m) (he : e ∈ b'.stream.entries) (hJ : e.val.jobId ≠ v.jobId) :
    e ∈ b.stream.entries := by
  rcases ha.mem_entries.mp he with hin | rfl
  · exact hin
  · exact absurd rfl hJ

theorem only (ha : b.Appends b' v m) (hfresh : ∀ e ∈ b.stream.entries, e.val.jobId ≠ v.jobId)
    (he : e ∈ b'.stream.entries) (hJ : e.val.jobId = v.jobId) : e = ⟨b.stream.lastId + 1, v⟩ := by
  rcases ha.mem_entries.mp he with hin | rfl
  · exact absurd hJ (hfresh e hin)
  · rfl

theorem log_le (ha : b.Appends b' v m) (h : b.Sound log []) :
    ∀ e ∈ ⟨b.stream.lastId + 1, v⟩ :: log, e.id ≤ b'.stream.lastId := by
  intro e he
  rw [ha.lastId]
  rcases List.mem_cons.mp he with rfl | hin
  · exact Nat.le_refl _
  · exact Nat.le_succ_of_le (h.log_le e hin)

theorem id_ne (h : b.Sound log []) (he : e ∈ log) : e.id ≠ b.stream.lastId + 1 := by
  have hle := h.log_le e he
  omega

theorem log_inj (h : b.Sound log []) :
    ∀ e ∈ ⟨b.stream.lastId + 1, v⟩ :: log, ∀ e' ∈ ⟨b.stream.lastId + 1, v⟩ :: log, e.id = e'.id → e = e' := by
  intro e he e' he' hid
  rcases List.mem_cons.mp he with rfl | hin
  · rcases List.mem_cons.mp he' with rfl | hin'
    · rfl
    · exact absurd hid.symm (id_ne h hin')
  · rcases List.mem_cons.mp he' with rfl | hin'
    · exact absurd hid (id_ne h hin)
    · exact h.log_inj e hin e' hin' hid

theorem pending (ha : b.Appends b' v m) (h : b.Sound log []) :
    ∀ g ∈ b'.groups, ∀ e ∈ ⟨b.stream.lastId + 1, v⟩ :: log, b'.stream.isPending g e.id →
      e ∈ b'.stream.entries ∨ e ∈ [] ∨ ⟨e.id, e.val.jobId⟩ ∈ b'.held := by
  intro g hg e he hpending
  rw [ha.groups] at hg
  rcases List.mem_cons.mp he with rfl | hin
  · exact .inl (ha.mem_entries.mpr (.inr rfl))
  · rw [ha.stream] at hpending
    rcases h.pending g hg e hin hpending with hstays | htodo | hclaim
    · exact .inl (ha.mem_entries.mpr (.inl hstays))
    · cases htodo
    · rw [ha.held]
      exact .inr (.inr hclaim)

theorem entry_job (ha : b.Appends b' v m) (h : b.Sound log []) :
    ∀ e ∈ b'.stream.entries, b'.jobs e.val.jobId ≠ none := by
  intro e he
  rcases ha.mem_entries.mp he with hin | rfl
  · exact ha.job_ne_none (h.entry_job e hin)
  · rw [ha.jobs, Function.update_self]
    exact Option.some_ne_none m

theorem counts (ha : b.Appends b' v m) (h : b.Sound log []) (hm' : b'.jobs J = some m') :
    m'.bcastHeld = b'.held.members.countP (·.jobId = J) := by
  rw [ha.held]
  by_cases hJ : J = v.jobId
  · subst hJ
    rw [ha.job_self hm']
    exact ha.counted
  · rw [ha.job_other hJ] at hm'
    exact h.counted J m' hm'

theorem newest_id (ha : b.Appends b' v m) (h : b.Sound log []) {id : Nat} (hm' : b'.jobs J = some m')
    (hid : m'.bcastEntry = some id) (he : e ∈ b'.stream.entries) (heJ : e.val.jobId = J) :
    e.id ≤ id ∧ ∃ e' ∈ b'.stream.entries, e'.id = id := by
  by_cases hJ : J = v.jobId
  · subst hJ
    rw [ha.job_self hm'] at hid
    rcases ha.newest with hnewest | ⟨hnone, -⟩
    · rw [hnewest] at hid
      cases hid
      refine ⟨?_, _, ha.mem_entries.mpr (.inr rfl), rfl⟩
      rw [← ha.lastId]
      exact b'.stream.le_lastId e he
    · rw [hnone] at hid
      cases hid
  · rw [ha.job_other hJ] at hm'
    obtain ⟨hle, e', he', hid'⟩ := h.newest J m' id hm' hid e (ha.old he (heJ ▸ hJ)) heJ
    exact ⟨hle, e', ha.mem_entries.mpr (.inl he'), hid'⟩

theorem fresh (ha : b.Appends b' v m) (hm' : b'.jobs v.jobId = some m') (hnone : m'.bcastEntry = none) :
    (∀ e ∈ b.stream.entries, e.val.jobId ≠ v.jobId) ∧ ∀ c ∈ b.held, c.jobId ≠ v.jobId := by
  -- A message without a number has not been retried.
  rw [ha.job_self hm'] at hnone
  rcases ha.newest with hnewest | ⟨-, hfresh⟩
  · rw [hnewest] at hnone
    cases hnone
  · exact hfresh

theorem single (ha : b.Appends b' v m) (h : b.Sound log []) (hm' : b'.jobs J = some m')
    (hnone : m'.bcastEntry = none) (he : e ∈ b'.stream.entries) (he' : e' ∈ b'.stream.entries)
    (heJ : e.val.jobId = J) (heJ' : e'.val.jobId = J) : e = e' := by
  by_cases hJ : J = v.jobId
  · subst hJ
    have hfresh := (ha.fresh hm' hnone).1
    rw [ha.only hfresh he heJ, ha.only hfresh he' heJ']
  · rw [ha.job_other hJ] at hm'
    exact h.single J m' hm' hnone e (ha.old he (heJ ▸ hJ)) e' (ha.old he' (heJ' ▸ hJ)) heJ heJ'

theorem held_gone (ha : b.Appends b' v m) (h : b.Sound log []) : ∀ c ∈ b'.held, b'.Gone c.jobId := by
  intro c hc m' hm' hnone e he heJ
  rw [ha.held] at hc
  by_cases hJ : c.jobId = v.jobId
  · rw [hJ] at hm'
    exact (ha.fresh hm' hnone).2 c hc hJ
  · rw [ha.job_other hJ] at hm'
    exact h.held_gone c hc m' hm' hnone e (ha.old he (heJ ▸ hJ)) heJ

theorem held_out (ha : b.Appends b' v m) (h : b.Sound log []) :
    ∀ c ∈ b'.held, ∃ e ∈ ⟨b.stream.lastId + 1, v⟩ :: log,
      c = ⟨e.id, e.val.jobId⟩ ∧ e ∉ b'.stream.entries ∧ e ∉ [] := by
  intro c hc
  rw [ha.held] at hc
  obtain ⟨e, hlog, heq, hnot, -⟩ := h.held_out c hc
  refine ⟨e, List.mem_cons_of_mem _ hlog, heq, ?_, List.not_mem_nil⟩
  intro he
  rcases ha.mem_entries.mp he with hin | rfl
  · exact hnot hin
  · exact id_ne h hlog rfl

end Broadcast.Appends

theorem Broadcast.Sound.append {v : BroadcastEntry} {m : Message} (h : b.Sound log []) (ha : b.Appends b' v m) :
    b'.Sound (⟨b.stream.lastId + 1, v⟩ :: log) [] where
  logged e he := by
    rcases ha.mem_entries.mp he with hin | rfl
    · exact List.mem_cons_of_mem _ (h.logged e hin)
    · exact List.mem_cons_self
  log_le := ha.log_le h
  log_inj := Appends.log_inj h
  pending := ha.pending h
  entry_job := ha.entry_job h
  held_job c hc := by
    rw [ha.held] at hc
    exact ha.job_ne_none (h.held_job c hc)
  counted _ _ hm' := ha.counts h hm'
  newest _ _ _ hm' hid _ he heJ := ha.newest_id h hm' hid he heJ
  single _ _ hm' hnone _ he _ he' heJ heJ' := ha.single h hm' hnone he he' heJ heJ'
  held_gone := ha.held_gone h
  held_out := ha.held_out h
  scheduled_job J g due hdue := by
    obtain ⟨hjob, hg⟩ := h.scheduled_job J g due (ha.scheduled J g due hdue)
    rw [ha.groups]
    exact ⟨ha.job_ne_none hjob, hg⟩
  todo_job _ he := absurd he List.not_mem_nil
  todo_nodup := List.nodup_nil

/-! ## Runs -/

inductive BroadcastCall where
  | publish (jobId : JobId)
  | subscribe (g : Group) (startId : Nat)
  | readNext (g : Group) (consumer : String)
  | skipEntry (g : Group) (entryId : Nat)
  | activate (jobId : JobId)
  | settle (g : Group) (jobId : JobId) (entryId : Nat) (timestamp : Int) (outcome : SettleOutcome)
  | promoteRetry (jobId : JobId) (g : Group) (now : Int)
  | trim (maxLen : Nat) (timestamp : Int)
  deriving DecidableEq

def BroadcastCall.run (b : Broadcast) : BroadcastCall → Broadcast
  | .publish jobId => GlideMq.publish b jobId
  | .subscribe g startId => GlideMq.subscribe b g startId
  | .readNext g consumer => GlideMq.readNext b g consumer
  | .skipEntry g entryId => GlideMq.skipEntry b g entryId
  | .activate jobId => activateMessage b jobId
  | .settle g jobId entryId timestamp outcome => settleClaim b g jobId entryId timestamp outcome
  | .promoteRetry jobId g now => GlideMq.promoteRetry b jobId g now
  | .trim maxLen timestamp => (trimBroadcast b maxLen timestamp).1

/-- A queue and all entries that ever were in its stream. -/
structure BroadcastSys where
  queue : Broadcast := {}
  log : List (Entry BroadcastEntry) := []

def broadcastStep (s : BroadcastSys) (c : BroadcastCall) : BroadcastSys where
  queue := c.run s.queue
  log := ((c.run s.queue).stream.entries.filter fun e => s.queue.stream.lastId < e.id) ++ s.log

theorem newEntries_xadd (s : Stream BroadcastEntry) (v : BroadcastEntry) :
    ((s.xadd v).entries.filter fun e => s.lastId < e.id) = [⟨s.lastId + 1, v⟩] := by
  have hold : (s.entries.filter fun e => s.lastId < e.id) = [] := by
    apply List.filter_eq_nil_iff.mpr
    intro e he
    simpa using s.le_lastId e he
  unfold Stream.xadd
  rw [List.filter_append, hold]
  simp

theorem newEntries_nil {s t : Stream BroadcastEntry} (h : ∀ e ∈ t.entries, e ∈ s.entries) :
    (t.entries.filter fun e => s.lastId < e.id) = [] := by
  apply List.filter_eq_nil_iff.mpr
  intro e he
  simpa using s.le_lastId e (h e he)

theorem isPending_xack {s : Stream BroadcastEntry} {g' : Group} {entryId id : Nat}
    (h : (s.xack g entryId).isPending g' id) : s.isPending g' id := by
  unfold Stream.isPending Stream.xack Stream.setGroup at *
  dsimp only at h
  split at h
  · rename_i hg
    subst hg
    rw [List.any_eq_true] at h ⊢
    obtain ⟨p, hp, hid⟩ := h
    exact ⟨p, (List.mem_filter.mp hp).1, hid⟩
  · exact h

theorem isPending_deliver {s : Stream BroadcastEntry} {g' : Group} {consumer : String}
    {e : Entry BroadcastEntry} {id : Nat} (h : (s.deliver g consumer e).isPending g' id) :
    s.isPending g' id ∨ id = e.id := by
  unfold Stream.isPending Stream.deliver Stream.setGroup at *
  dsimp only at h
  split at h
  · rename_i hg
    subst hg
    rw [List.any_append, Bool.or_eq_true] at h
    rcases h with hbefore | hnew
    · exact .inl hbefore
    · simp only [List.any_cons, List.any_nil, Bool.or_false, decide_eq_true_eq] at hnew
      exact .inr hnew.symm
  · exact .inl h

/-- The messages are the same, but for their states. -/
def Broadcast.SameMessages (b b' : Broadcast) : Prop :=
  ∀ jobId, (b'.jobs jobId).map (fun m => (m.bcastEntry, m.bcastHeld)) =
    (b.jobs jobId).map fun m => (m.bcastEntry, m.bcastHeld)

theorem sameMessages_setState {m : Message} (hm : b.jobs jobId = some m) (state : JobState)
    (hjobs : b'.jobs = Function.update b.jobs jobId (some { m with state := some state })) :
    b.SameMessages b' := by
  intro J
  rw [hjobs]
  by_cases hJ : J = jobId
  · subst hJ
    simp [hm]
  · simp [hJ]

/-- A call that neither adds nor trims an entry. -/
theorem Broadcast.Sound.keeps (h : b.Sound log []) (hentries : b'.stream.entries = b.stream.entries)
    (hlast : b'.stream.lastId = b.stream.lastId) (hheld : b'.held = b.held) (hmessages : b.SameMessages b')
    (hpending : ∀ g ∈ b'.groups, ∀ e ∈ log, b'.stream.isPending g e.id →
      g ∈ b.groups ∧ b.stream.isPending g e.id ∨ e ∈ b.stream.entries)
    (hscheduled : ∀ J g due, b'.scheduled J (some g) = some due → b'.jobs J ≠ none ∧ g ∈ b'.groups) :
    b'.Sound log [] := by
  have hsame : b.SameEntries b' := by
    refine ⟨hentries, fun J => ?_⟩
    have hfst := congrArg (Option.map Prod.fst) (hmessages J)
    rwa [Option.map_map, Option.map_map] at hfst
  apply h.update hsame hlast (List.Sublist.refl [])
  · intro J m' hm'
    have hmap := hmessages J
    rw [hm', Option.map_some] at hmap
    obtain ⟨m, hm, heq⟩ := Option.map_eq_some_iff.mp hmap.symm
    rw [hheld, ← h.counted J m hm]
    exact (congrArg Prod.snd heq).symm
  · intro c hc
    rw [hheld] at hc
    exact .inl hc
  · intro g hg e he hpend
    rw [hentries, hheld]
    rcases hpending g hg e he hpend with ⟨hgroup, hbefore⟩ | hin
    · exact h.pending g hgroup e he hbefore
    · exact .inl hin
  · exact hscheduled

theorem Broadcast.Sound.publish (h : b.Sound log []) (jobId : JobId) :
    (GlideMq.publish b jobId).Sound
      (((GlideMq.publish b jobId).stream.entries.filter fun e => b.stream.lastId < e.id) ++ log) [] := by
  unfold GlideMq.publish
  cases hm : b.jobs jobId with
  | some m =>
    dsimp only
    rw [newEntries_nil fun e he => he]
    exact h
  | none =>
    dsimp only
    rw [newEntries_xadd]
    have hclaims : ∀ c ∈ b.held, c.jobId ≠ jobId := by
      rintro c hc rfl
      exact h.held_job c hc hm
    have hzero : b.held.members.countP (·.jobId = jobId) = 0 := by
      rw [List.countP_eq_zero]
      intro c hc
      simpa using hclaims c hc
    refine @Broadcast.Sound.append b _ log { jobId } { state := some .waiting } h
      ⟨rfl, rfl, rfl, rfl, fun _ _ _ hdue => hdue, ?_, ?_⟩
    · dsimp only
      rw [hzero]
      rfl
    · refine .inr ⟨rfl, ?_, hclaims⟩
      rintro e he hJ
      apply h.entry_job e he
      rw [hJ]
      exact hm

theorem Broadcast.Sound.promoteRetry (h : b.Sound log []) (jobId : JobId) (g : Group) (now : Int) :
    (GlideMq.promoteRetry b jobId g now).Sound
      (((GlideMq.promoteRetry b jobId g now).stream.entries.filter fun e => b.stream.lastId < e.id) ++ log)
      [] := by
  unfold GlideMq.promoteRetry
  cases hdue : b.scheduled jobId (some g) with
  | none =>
    dsimp only
    rw [newEntries_nil fun e he => he]
    exact h
  | some due =>
    dsimp only
    split
    · obtain ⟨hjob, -⟩ := h.scheduled_job jobId g due hdue
      obtain ⟨m, hm⟩ := Option.ne_none_iff_exists'.mp hjob
      dsimp only
      rw [newEntries_xadd, hm]
      refine @Broadcast.Sound.append b _ log { jobId, retryGroup := some g }
        { m with state := some .waiting, bcastEntry := some (b.stream.lastId + 1) } h
        ⟨rfl, rfl, rfl, rfl, ?_, ?_, ?_⟩
      · intro J g' x hx
        dsimp only at hx
        by_cases hJ : J = jobId
        · subst hJ
          by_cases hg : g' = g
          · subst hg
            simp at hx
          · simpa [hg] using hx
        · simpa [hJ] using hx
      · exact h.counted jobId m hm
      · exact .inl rfl
    · rw [newEntries_nil fun e he => he]
      exact h

theorem Broadcast.Sound.subscribe (h : b.Sound log []) (g : Group) (startId : Nat) :
    (GlideMq.subscribe b g startId).Sound log [] := by
  unfold GlideMq.subscribe
  split
  · exact h
  · rename_i hnew
    refine h.keeps rfl rfl rfl (fun _ => rfl) ?_ ?_
    · intro g' hg' e he hpending
      unfold Stream.isPending Stream.setGroup at hpending
      dsimp only at hpending
      split at hpending
      · cases hpending
      · rename_i hne
        rcases List.mem_append.mp hg' with hold | hlast
        · exact .inl ⟨hold, hpending⟩
        · exact absurd (List.mem_singleton.mp hlast) hne
    · intro J g' due hdue
      obtain ⟨hjob, hg'⟩ := h.scheduled_job J g' due hdue
      exact ⟨hjob, List.mem_append_left _ hg'⟩

theorem Broadcast.Sound.readNext (h : b.Sound log []) (g : Group) (consumer : String) :
    (GlideMq.readNext b g consumer).Sound log [] := by
  unfold GlideMq.readNext
  split
  · cases hnext : b.stream.next? g with
    | none => exact h
    | some e =>
      dsimp only
      have hin := Stream.mem_of_next? hnext
      refine h.keeps rfl rfl rfl (fun _ => rfl) ?_ ?_
      · intro g' hg' e' he' hpending
        rcases isPending_deliver hpending with hbefore | hid
        · exact .inl ⟨hg', hbefore⟩
        · refine .inr ?_
          rwa [h.log_inj e' he' e (h.logged e hin) hid]
      · exact h.scheduled_job
  · exact h

theorem Broadcast.Sound.skipEntry (h : b.Sound log []) (g : Group) (entryId : Nat) :
    (GlideMq.skipEntry b g entryId).Sound log [] := by
  refine h.keeps rfl rfl rfl (fun _ => rfl) ?_ ?_
  · exact fun g' hg' e _ hpending => .inl ⟨hg', isPending_xack hpending⟩
  · exact h.scheduled_job

theorem Broadcast.Sound.activate (h : b.Sound log []) (jobId : JobId) :
    (activateMessage b jobId).Sound log [] := by
  unfold activateMessage
  cases hm : b.jobs jobId with
  | none => exact h
  | some m =>
    have hsame : b.SameMessages (b.setState jobId m .active) := sameMessages_setState hm .active rfl
    refine h.keeps rfl rfl rfl hsame ?_ ?_
    · exact fun g hg e _ hpending => .inl ⟨hg, hpending⟩
    · intro J g due hdue
      obtain ⟨hjob, hg⟩ := h.scheduled_job J g due hdue
      exact ⟨job_ne_none_update hjob, hg⟩

theorem Broadcast.Sound.settle (h : b.Sound log []) (g : Group) (jobId : JobId) (entryId : Nat)
    (timestamp : Int) (outcome : SettleOutcome) : (settleClaim b g jobId entryId timestamp outcome).Sound log [] := by
  unfold settleClaim
  split
  · rename_i hg
    cases hm : b.jobs jobId with
    | none => exact h.skipEntry g entryId
    | some m =>
      have hpending : ∀ g' ∈ b.groups, ∀ e ∈ log, (b.stream.xack g entryId).isPending g' e.id →
          g' ∈ b.groups ∧ b.stream.isPending g' e.id ∨ e ∈ b.stream.entries :=
        fun g' hg' e _ hpend => .inl ⟨hg', isPending_xack hpend⟩
      have hscheduled (m' : Message) (J : JobId) (g' : Group) (due : Int)
          (hdue : b.scheduled J (some g') = some due) :
          Function.update b.jobs jobId (some m') J ≠ none ∧ g' ∈ b.groups :=
        ⟨job_ne_none_update (h.scheduled_job J g' due hdue).1, (h.scheduled_job J g' due hdue).2⟩
      cases outcome with
      | completed => exact h.keeps rfl rfl rfl (sameMessages_setState hm .completed rfl) hpending (hscheduled _)
      | failed => exact h.keeps rfl rfl rfl (sameMessages_setState hm .failed rfl) hpending (hscheduled _)
      | retrying retryAt =>
        refine h.keeps rfl rfl rfl (sameMessages_setState hm .delayed rfl) hpending ?_
        intro J g' due hdue
        dsimp only at hdue
        by_cases hJ : J = jobId
        · subst hJ
          rw [Function.update_self] at hdue
          by_cases heq : g' = g
          · subst heq
            have hjob : b.jobs J ≠ none := by
              rw [hm]
              exact Option.some_ne_none m
            exact ⟨job_ne_none_update hjob, hg⟩
          · rw [Function.update_of_ne (by simpa using heq)] at hdue
            exact hscheduled _ J g' due hdue
        · rw [Function.update_of_ne hJ] at hdue
          exact hscheduled _ J g' due hdue
  · exact h

theorem stream_trimEntry (timestamp : Int) (x : Broadcast × List JobId) (e : Entry BroadcastEntry) :
    (trimEntry timestamp x e).1.stream = x.1.stream := by
  unfold trimEntry
  split
  · rfl
  · split <;> rfl

theorem stream_recheckHeld (timestamp : Int) (x : Broadcast × List JobId) (c : HeldClaim) :
    (recheckHeld timestamp x c).1.stream = x.1.stream := by
  unfold recheckHeld
  split
  · rfl
  · split <;> rfl

theorem stream_deleteTrimmed (b : Broadcast) (jobId : JobId) :
    (deleteTrimmedBroadcastJob b jobId).stream = b.stream := by
  unfold deleteTrimmedBroadcastJob
  split
  · rfl
  · split
    · rfl
    split
    · rfl
    split
    · rfl
    split
    · rfl
    split <;> rfl

theorem foldl_keeps {α β γ : Type*} {f : α → β → α} {p : α → γ} (h : ∀ a x, p (f a x) = p a) (l : List β)
    (a : α) : p (l.foldl f a) = p a := by
  induction l generalizing a with
  | nil => rfl
  | cons x l ih => exact (ih (f a x)).trans (h a x)

/-- A trim cuts off the oldest entries, and says how many. -/
theorem entries_trimBroadcast (b : Broadcast) (maxLen : Nat) (timestamp : Int) :
    (trimBroadcast b maxLen timestamp).1.stream.entries =
        b.stream.entries.drop (min (b.stream.entries.length - maxLen) 1000) ∧
      (trimBroadcast b maxLen timestamp).2.1 = min (b.stream.entries.length - maxLen) 1000 := by
  unfold trimBroadcast
  dsimp only
  split
  · rename_i hnothing
    rw [hnothing.1]
    exact ⟨rfl, rfl⟩
  · refine ⟨?_, ?_⟩
    · rw [foldl_keeps stream_deleteTrimmed]
      have hrecheck := @foldl_keeps _ _ _ _ (fun x : Broadcast × List JobId => x.1.stream)
        (stream_recheckHeld timestamp)
      have htrim := @foldl_keeps _ _ _ _ (fun x : Broadcast × List JobId => x.1.stream) (stream_trimEntry timestamp)
      rw [hrecheck, htrim]
      exact entries_trimStream b.stream maxLen
    · dsimp only
      rw [List.length_take]
      omega

theorem Broadcast.Sound.step_of_entries {s : BroadcastSys} {c : BroadcastCall}
    (h : (c.run s.queue).Sound s.log []) (hentries : ∀ e ∈ (c.run s.queue).stream.entries, e ∈ s.queue.stream.entries) :
    (broadcastStep s c).queue.Sound (broadcastStep s c).log [] := by
  unfold broadcastStep
  dsimp only
  rw [newEntries_nil hentries]
  exact h

theorem Broadcast.Sound.step {s : BroadcastSys} (h : s.queue.Sound s.log []) (c : BroadcastCall) :
    (broadcastStep s c).queue.Sound (broadcastStep s c).log [] := by
  cases c with
  | publish jobId => exact h.publish jobId
  | promoteRetry jobId g now => exact h.promoteRetry jobId g now
  | subscribe g startId =>
    refine Broadcast.Sound.step_of_entries (h.subscribe g startId) ?_
    unfold BroadcastCall.run GlideMq.subscribe
    dsimp only
    split <;> exact fun e he => he
  | readNext g consumer =>
    refine Broadcast.Sound.step_of_entries (h.readNext g consumer) ?_
    unfold BroadcastCall.run GlideMq.readNext
    dsimp only
    split
    · split <;> exact fun e he => he
    · exact fun e he => he
  | skipEntry g entryId => exact Broadcast.Sound.step_of_entries (h.skipEntry g entryId) fun e he => he
  | activate jobId =>
    refine Broadcast.Sound.step_of_entries (h.activate jobId) ?_
    unfold BroadcastCall.run activateMessage
    dsimp only
    split <;> exact fun e he => he
  | settle g jobId entryId timestamp outcome =>
    refine Broadcast.Sound.step_of_entries (h.settle g jobId entryId timestamp outcome) ?_
    unfold BroadcastCall.run settleClaim
    dsimp only
    split
    · split
      · exact fun e he => he
      · cases outcome <;> exact fun e he => he
    · exact fun e he => he
  | trim maxLen timestamp =>
    refine Broadcast.Sound.step_of_entries (h.trim maxLen timestamp) ?_
    intro e he
    unfold BroadcastCall.run at he
    dsimp only at he
    rw [(entries_trimBroadcast s.queue maxLen timestamp).1] at he
    exact List.mem_of_mem_drop he

theorem sound_start : ({} : BroadcastSys).queue.Sound [] [] := by
  constructor <;> simp [Stream.isPending]

/-- However publishing, the subscriptions and trimming interleave: a message that a subscription has read
and not settled has its data, also if its entry is trimmed, and so has one that is in the stream or waits
for a retry. The counter of held claims is exact. A trim cuts off the oldest entries only, 1000 at most. -/
theorem trimming_keeps_needed_messages (calls : List BroadcastCall) :
    let s := Machine.run broadcastStep {} calls
    (∀ g ∈ s.queue.groups, ∀ e ∈ s.log, s.queue.stream.isPending g e.id → s.queue.jobs e.val.jobId ≠ none) ∧
      (∀ e ∈ s.queue.stream.entries, s.queue.jobs e.val.jobId ≠ none) ∧
      (∀ jobId g due, s.queue.scheduled jobId (some g) = some due → s.queue.jobs jobId ≠ none) ∧
      (∀ jobId m, s.queue.jobs jobId = some m →
        m.bcastHeld = s.queue.held.members.countP (·.jobId = jobId)) ∧
      ∀ maxLen timestamp, (trimBroadcast s.queue maxLen timestamp).1.stream.entries =
          s.queue.stream.entries.drop (min (s.queue.stream.entries.length - maxLen) 1000) ∧
        (trimBroadcast s.queue maxLen timestamp).2.1 = min (s.queue.stream.entries.length - maxLen) 1000 := by
  intro s
  have h : s.queue.Sound s.log [] :=
    @Machine.invariant_all _ _ broadcastStep (fun s => s.queue.Sound s.log []) (fun s c hs => hs.step c) {} calls
      sound_start
  refine ⟨?_, h.entry_job, fun J g due hdue => (h.scheduled_job J g due hdue).1, h.counted,
    entries_trimBroadcast s.queue⟩
  intro g hg e he hpending
  rcases h.pending g hg e he hpending with hin | htodo | hheld
  · exact h.entry_job e hin
  · cases htodo
  · exact h.held_job _ hheld

end GlideMq
