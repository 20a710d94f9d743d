import GlideMq.Proofs.CallRuns

/-!
# Rescheduled jobs

What a change of the priority or the delay of a waiting job, or its promotion, has to leave: the job in
the one container that its state demands, with the score that was asked for. The calls go by the state
of the job and by the container it is found in, so they do that just when it is nowhere else.
-/

namespace GlideMq

open Queue Redis

variable {s s' : Queue} {J : JobId} {group : Group}

/-! ## Containers -/

inductive Container where
  | stream
  | priority
  | lifo
  | scheduled
  | group (gk : GroupKey)
  | returning (gk : GroupKey)
  | suspended
  | completed
  | failed
  deriving DecidableEq

/-- How often the job is in a container. -/
def Queue.copies (s : Queue) (J : JobId) : Container → Nat
  | .stream => (s.stream.entries.filter (·.val.jobId = J)).length
  | .priority => s.priorityList.count J
  | .lifo => s.lifoList.count J
  | .scheduled => s.scheduled.members.count J
  | .group gk => (s.groupq gk).members.count J
  | .returning gk => (s.returning gk).members.count J
  | .suspended => s.suspended.members.count J
  | .completed => s.completed.members.count J
  | .failed => s.failed.members.count J

/-- The job is in the container, once, and in no other. -/
def OnlyIn (s : Queue) (J : JobId) (c : Container) : Prop :=
  ∀ d, s.copies J d = if d = c then 1 else 0

/-- The job is in no other container, but for an old score. -/
def NotBeside (s : Queue) (J : JobId) (c : Container) : Prop :=
  ∀ d, d ≠ c → d ≠ .scheduled → s.copies J d = 0

/-- Where a job waits. -/
def Job.waitsIn (j : Job) : Container :=
  if j.lifo then .lifo else if 0 < j.priority then .priority else .stream

/-- The container that the state demands, if it is one in which a job can be rescheduled. -/
def Queue.demands (s : Queue) (J : JobId) : Option Container :=
  match s.stateOf J with
  | some .waiting => some (s.job J).waitsIn
  | some .delayed | some .prioritized => some .scheduled
  | _ => none

/-- The time that a delayed job is due. -/
def Queue.dueOf (s : Queue) (J : JobId) : Option Int :=
  if s.stateOf J = some .delayed then (s.scheduled.score J).map (· % priorityShift) else none

/-- The job is where it belongs, with a score that says its priority. -/
structure Placed (s : Queue) (J : JobId) : Prop where
  placed : ∃ c, s.demands J = some c ∧ OnlyIn s J c
  band : ∀ x, s.scheduled.score J = some x → x / priorityShift = (s.job J).priority
  at_once : s.stateOf J = some .prioritized → ∀ x, s.scheduled.score J = some x → x % priorityShift = 0

/-! ## Calls -/

inductive Change where
  | priority (n : Nat)
  | delay (d now : Int)
  | promote

def Change.run (s : Queue) (J : JobId) (group : Group) : Change → Queue × ChangeResult
  | .priority n => changePriority s J n group
  | .delay d now => changeDelay s J d now group
  | .promote => promoteJob s J

/-- What was asked for, and that the rest is as it was. -/
def Change.Made (s s' : Queue) (J : JobId) : Change → Prop
  | .priority n => (s'.job J).priority = n ∧ (s'.job J).delay = (s.job J).delay ∧
      s'.dueOf J = s.dueOf J
  | .delay d now => (s'.job J).delay = d ∧ (s'.job J).priority = (s.job J).priority ∧
      s'.dueOf J = if d = 0 then none else some (now + d)
  | .promote => s'.stateOf J = some .waiting ∧ (s'.job J).delay = 0 ∧
      (s'.job J).priority = (s.job J).priority

/-- Nothing has changed, or the job is settled with what was asked for. -/
def Change.Exact (s : Queue) (J : JobId) (group : Group) (c : Change) : Prop :=
  if (c.run s J group).2 = .ok then
    Placed (c.run s J group).1 J ∧ c.Made s (c.run s J group).1 J
  else (c.run s J group).1 = s

/-! ## What moves a job -/

theorem copies_hset (s : Queue) (J K : JobId) (f : Job → Job) (c : Container) :
    (s.hset J f).copies K c = s.copies K c := by
  cases c <;> rfl

@[simp] theorem copies_setState (s : Queue) (J K : JobId) (st : JobState) (c : Container) :
    (s.setState J st).copies K c = s.copies K c := copies_hset ..

@[simp] theorem copies_setPriority (s : Queue) (J K : JobId) (n : Nat) (c : Container) :
    (s.setPriority J n).copies K c = s.copies K c := copies_hset ..

@[simp] theorem copies_setDelay (s : Queue) (J K : JobId) (d : Int) (c : Container) :
    (s.setDelay J d).copies K c = s.copies K c := copies_hset ..

@[simp] theorem copies_lremPriority (s : Queue) (J : JobId) (c : Container) :
    (s.lremPriority J).copies J c = if c = .priority then 0 else s.copies J c := by
  cases c <;> simp [copies, lremPriority, List.count_eq_zero]

@[simp] theorem copies_lremLifo (s : Queue) (J : JobId) (c : Container) :
    (s.lremLifo J).copies J c = if c = .lifo then 0 else s.copies J c := by
  cases c <;> simp [copies, lremLifo, List.count_eq_zero]

@[simp] theorem copies_xaddJob (s : Queue) (J : JobId) (c : Container) :
    (s.xaddJob J).copies J c = s.copies J c + if c = .stream then 1 else 0 := by
  cases c <;> simp [copies, xaddJob, Stream.xadd]

@[simp] theorem copies_rpushLifo (s : Queue) (J : JobId) (c : Container) :
    (s.rpushLifo J).copies J c = s.copies J c + if c = .lifo then 1 else 0 := by
  cases c <;> simp [copies, rpushLifo]

@[simp] theorem copies_lpushPriority (s : Queue) (J : JobId) (c : Container) :
    (s.lpushPriority J).copies J c = s.copies J c + if c = .priority then 1 else 0 := by
  cases c <;> simp [copies, lpushPriority]

@[simp] theorem copies_zaddScheduled (s : Queue) (J : JobId) (x : Int) (c : Container) :
    (s.zaddScheduled J x).copies J c = if c = .scheduled then 1 else s.copies J c := by
  cases c with
  | scheduled =>
    simp only [copies, zaddScheduled_scheduled, if_true]
    exact List.count_eq_one_of_mem (s.scheduled.add J x).nodup (SortedSet.mem_add.mpr (Or.inl rfl))
  | _ => rfl

@[simp] theorem copies_zremScheduled (s : Queue) (J : JobId) (c : Container) :
    (s.zremScheduled J).copies J c = if c = .scheduled then 0 else s.copies J c := by
  cases c with
  | scheduled =>
    simp only [copies, zremScheduled_scheduled, if_true]
    exact List.count_eq_zero.mpr fun h => (SortedSet.mem_rem.mp h).1 rfl
  | _ => rfl

theorem firstEntry_some {e : Entry JobEntry} (he : firstEntry s J = some e) :
    e ∈ s.stream.entries ∧ e.val.jobId = J := by
  refine ⟨List.mem_of_find?_eq_some he, ?_⟩
  simpa using List.find?_some he

theorem copies_ackDel {e : Entry JobEntry} (he : firstEntry s J = some e) (c : Container) :
    (ackDel s group (some e.id)).copies J c =
      if c = .stream then s.copies J .stream - 1 else s.copies J c := by
  obtain ⟨hmem, hjob⟩ := firstEntry_some he
  cases c with
  | stream =>
    have hnodup : (s.stream.entries.filter (·.val.jobId = J)).Nodup :=
      (s.stream.increasing.imp fun hlt heq => by simp [heq] at hlt).filter _
    have hin : e ∈ s.stream.entries.filter (·.val.jobId = J) :=
      List.mem_filter.mpr ⟨hmem, by simpa using hjob⟩
    have herase : (s.stream.entries.filter (·.val.jobId = J)).filter (fun x => x.id ≠ e.id) =
        (s.stream.entries.filter (·.val.jobId = J)).erase e := by
      rw [hnodup.erase_eq_filter]
      refine List.filter_congr fun x hx => ?_
      rw [Bool.eq_iff_iff]
      simp only [ne_eq, decide_not, Bool.not_eq_true', decide_eq_false_iff_not, bne_iff_ne]
      exact not_congr ⟨Stream.eq_of_id_eq (List.mem_filter.mp hx).1 hmem, congrArg Entry.id⟩
    simp only [copies, ackDel, xdel_stream, xack_stream, if_true, Stream.xdel, Stream.entries_xack]
    rw [List.filter_comm, herase, List.length_erase_of_mem hin]
  | _ => rfl

/-! ## Where it ends up -/

/-- The job is in no other container. -/
def AloneIn (s : Queue) (J : JobId) (c : Container) : Prop := ∀ d ≠ c, s.copies J d = 0

theorem onlyIn_of_moved {src dst c : Container} (hne : dst ≠ src)
    (h : ∀ d, s'.copies J d = (if d = src then 0 else s.copies J d) + if d = dst then 1 else 0) :
    OnlyIn s' J c ↔ c = dst ∧ AloneIn s J src := by
  unfold OnlyIn AloneIn
  constructor
  · intro honly
    have hdst : dst = c := by
      have := honly dst
      rw [h, if_pos rfl] at this
      by_contra hother
      rw [if_neg hother] at this
      omega
    refine ⟨hdst.symm, ?_⟩
    intro d hd
    have := honly d
    rw [h, if_neg hd, hdst] at this
    omega
  · rintro ⟨rfl, halone⟩ d
    rw [h]
    by_cases hd : d = src
    · rw [if_pos hd]
      omega
    · rw [if_neg hd, halone d hd]
      omega

theorem onlyIn_of_scored {src : Container} {left : Nat}
    (h : ∀ d, s'.copies J d =
      if d = .scheduled then 1 else if d = src then left else s.copies J d) :
    OnlyIn s' J .scheduled ↔ NotBeside s J src ∧ (src ≠ .scheduled → left = 0) := by
  unfold OnlyIn NotBeside
  constructor
  · intro honly
    refine ⟨?_, ?_⟩
    · intro d hd hscheduled
      have := honly d
      rwa [h, if_neg hscheduled, if_neg hd, if_neg hscheduled] at this
    · intro hscheduled
      have := honly src
      rwa [h, if_neg hscheduled, if_pos rfl, if_neg hscheduled] at this
  · rintro ⟨hbeside, hleft⟩ d
    rw [h]
    by_cases hscheduled : d = .scheduled
    · rw [if_pos hscheduled, if_pos hscheduled]
    · rw [if_neg hscheduled, if_neg hscheduled]
      by_cases hd : d = src
      · rw [if_pos hd]
        exact hleft (hd ▸ hscheduled)
      · rw [if_neg hd]
        exact hbeside d hd hscheduled

theorem onlyIn_of_rescored (h : ∀ d, s'.copies J d = if d = .scheduled then 1 else s.copies J d) :
    OnlyIn s' J .scheduled ↔ AloneIn s J .scheduled := by
  have hscored (d : Container) : s'.copies J d =
      if d = .scheduled then 1 else if d = .scheduled then 0 else s.copies J d := by
    rw [h]
    split_ifs <;> rfl
  rw [onlyIn_of_scored hscored]
  exact ⟨fun h d hd => h.1 d hd hd, fun h => ⟨fun d hd _ => h d hd, fun hne => absurd rfl hne⟩⟩

theorem Job.waitsIn_ne_scheduled (j : Job) : j.waitsIn ≠ .scheduled := by
  unfold waitsIn
  split_ifs <;> simp

theorem score_of_copies (h : s.copies J .scheduled = 0) : s.scheduled.score J = none :=
  SortedSet.score_eq_none.mpr (List.count_eq_zero.mp h)

theorem placed_waiting (hst : s.stateOf J = some .waiting) :
    Placed s J ↔ OnlyIn s J (s.job J).waitsIn := by
  have hdemands : s.demands J = some (s.job J).waitsIn := by
    unfold Queue.demands
    rw [hst]
  constructor
  · rintro ⟨⟨c, hc, honly⟩, -, -⟩
    rw [hdemands, Option.some.injEq] at hc
    rwa [hc]
  · intro honly
    have hnone := score_of_copies ((honly .scheduled).trans (if_neg (s.job J).waitsIn_ne_scheduled.symm))
    refine ⟨⟨_, hdemands, honly⟩, ?_, ?_⟩
    · simp [hnone]
    · simp [hnone]

theorem placed_delayed {x : Int} (hst : s.stateOf J = some .delayed)
    (hx : s.scheduled.score J = some x) :
    Placed s J ↔ OnlyIn s J .scheduled ∧ x / priorityShift = (s.job J).priority := by
  have hdemands : s.demands J = some .scheduled := by
    unfold Queue.demands
    rw [hst]
  constructor
  · rintro ⟨⟨c, hc, honly⟩, hband, -⟩
    rw [hdemands, Option.some.injEq] at hc
    exact ⟨hc ▸ honly, hband x hx⟩
  · rintro ⟨honly, hband⟩
    refine ⟨⟨_, hdemands, honly⟩, ?_, ?_⟩
    · intro y hy
      rw [hx, Option.some.injEq] at hy
      exact hy ▸ hband
    · simp [hst]

theorem placed_prioritized {x : Int} (hst : s.stateOf J = some .prioritized)
    (hx : s.scheduled.score J = some x) :
    Placed s J ↔ OnlyIn s J .scheduled ∧ x / priorityShift = (s.job J).priority ∧
      x % priorityShift = 0 := by
  have hdemands : s.demands J = some .scheduled := by
    unfold Queue.demands
    rw [hst]
  constructor
  · rintro ⟨⟨c, hc, honly⟩, hband, hzero⟩
    rw [hdemands, Option.some.injEq] at hc
    exact ⟨hc ▸ honly, hband x hx, hzero hst x hx⟩
  · rintro ⟨honly, hband, hzero⟩
    refine ⟨⟨_, hdemands, honly⟩, ?_, ?_⟩
    · intro y hy
      rw [hx, Option.some.injEq] at hy
      exact hy ▸ hband
    · intro _ y hy
      rw [hx, Option.some.injEq] at hy
      exact hy ▸ hzero

/-! ## Taking a job out -/

/-- The list, or else the stream, that a waiting job is found in. -/
def Queue.waitsAt (s : Queue) (J : JobId) : Option Container :=
  if J ∈ s.priorityList then some .priority
  else if J ∈ s.lifoList then some .lifo
  else (firstEntry s J).map fun _ => .stream

/-- The job waits in the one container, with one entry if it is the stream. -/
def DetachesWhole (s : Queue) (J : JobId) : Prop :=
  ∀ c, s.waitsAt J = some c → NotBeside s J c ∧ (c = .stream → s.copies J .stream = 1)

theorem detachWaitingJob_none : detachWaitingJob s group J = none ↔ s.waitsAt J = none := by
  unfold detachWaitingJob Queue.waitsAt
  split_ifs
  · simp
  · simp
  · simp only [Option.map_eq_none_iff]

theorem detachWaitingJob_some {u : Queue} (h : detachWaitingJob s group J = some u) :
    ∃ src left, s.waitsAt J = some src ∧ src ≠ .scheduled ∧ u.jobs = s.jobs ∧
      (∀ d, u.copies J d = if d = src then left else s.copies J d) ∧
      (left = 0 ↔ (src = .stream → s.copies J .stream = 1)) := by
  unfold detachWaitingJob at h
  unfold Queue.waitsAt
  split at h
  · rename_i hin
    cases h
    exact ⟨.priority, 0, if_pos hin, by simp, rfl, copies_lremPriority s J, by simp⟩
  rename_i hpriority
  split at h
  · rename_i hin
    cases h
    exact ⟨.lifo, 0, by rw [if_neg hpriority, if_pos hin], by simp, rfl, copies_lremLifo s J, by simp⟩
  rename_i hlifo
  obtain ⟨e, he, rfl⟩ := Option.map_eq_some_iff.mp h
  refine ⟨.stream, s.copies J .stream - 1, by rw [if_neg hpriority, if_neg hlifo, he]; rfl, by simp,
    rfl, copies_ackDel he, ?_⟩
  obtain ⟨hmem, hjob⟩ := firstEntry_some he
  have hpos : 0 < s.copies J .stream :=
    List.length_pos_of_mem (List.mem_filter.mpr ⟨hmem, by simpa using hjob⟩)
  simp only [true_implies]
  omega

theorem onlyIn_of_detached {u t : Queue} (h : detachWaitingJob s group J = some u)
    (hcopies : ∀ d, t.copies J d = if d = .scheduled then 1 else u.copies J d) :
    OnlyIn t J .scheduled ↔ DetachesWhole s J := by
  -- A waiting job that is taken out and scheduled is nowhere else, if it waited in one place.
  obtain ⟨src, left, hat, hne, -, hleft, hzero⟩ := detachWaitingJob_some h
  have honly : OnlyIn t J .scheduled ↔ NotBeside s J src ∧ (src ≠ .scheduled → left = 0) :=
    onlyIn_of_scored fun d => by rw [hcopies, hleft]
  rw [honly]
  unfold DetachesWhole
  constructor
  · rintro ⟨hbeside, himp⟩ c hc
    rw [hat, Option.some.injEq] at hc
    exact hc ▸ ⟨hbeside, hzero.mp (himp hne)⟩
  · intro hwhole
    exact ⟨(hwhole src hat).1, fun _ => hzero.mpr (hwhole src hat).2⟩

/-! ## When a change is exact -/

/-- A due time that leaves the priority in the score alone. -/
def InBand (due : Int) : Prop := 0 ≤ due ∧ due < priorityShift

theorem band_iff (p q due : Int) :
    ((p * priorityShift + due) / priorityShift = q ∧ (p * priorityShift + due) % priorityShift = due) ↔
      p = q ∧ InBand due := by
  unfold InBand priorityShift
  omega

theorem band_zero (p : Int) :
    (p * priorityShift) / priorityShift = p ∧ (p * priorityShift) % priorityShift = 0 := by
  unfold priorityShift
  omega

/-- The score of the job, if it is delayed or has a priority, says its priority. -/
def Queue.ScoreSays (s : Queue) (J : JobId) (x : Int) : Prop :=
  x / priorityShift = (s.job J).priority

/-- When a change of the priority is exact. A LIFO job that has its priority taken away goes to the LIFO
list only if it waited in the priority list. -/
def PriorityFits (s : Queue) (J : JobId) (n : Nat) : Prop :=
  n ≤ maxPriority → s.jobs J ≠ none →
    match s.stateOf J with
    | some .waiting =>
      if n = 0 then
        if J ∈ s.priorityList then AloneIn s J .priority
        else (s.job J).priority ≠ 0 → OnlyIn s J (if (s.job J).lifo then .lifo else .stream)
      else DetachesWhole s J
    | some .prioritized => AloneIn s J .scheduled ∧ (n = 0 → (s.job J).lifo = false)
    | some .delayed => J ∈ s.scheduled → AloneIn s J .scheduled
    | _ => True

/-- When a change of the delay is exact. -/
def DelayFits (s : Queue) (J : JobId) (d now : Int) : Prop :=
  0 ≤ d → s.jobs J ≠ none →
    match s.stateOf J with
    | some .delayed => ∀ x, s.scheduled.score J = some x → AloneIn s J .scheduled ∧
        if d = 0 then
          if 0 < x / priorityShift then s.ScoreSays J x
          else (s.job J).lifo = false ∧ (s.job J).priority = 0
        else s.ScoreSays J x ∧ InBand (now + d)
    | some .waiting => d ≠ 0 → s.waitsAt J ≠ none → DetachesWhole s J ∧ InBand (now + d)
    | some .prioritized => d ≠ 0 → ∀ x, s.scheduled.score J = some x →
        AloneIn s J .scheduled ∧ s.ScoreSays J x ∧ InBand (now + d)
    | _ => True

def Change.Fits (s : Queue) (J : JobId) : Change → Prop
  | .priority n => PriorityFits s J n
  | .delay d now => DelayFits s J d now
  | .promote => s.stateOf J = some .delayed → AloneIn s J .scheduled

theorem exact_of_unchanged {c : Change} {r : ChangeResult} (hrun : c.run s J group = (s, r))
    (hr : r ≠ .ok) : c.Exact s J group := by
  unfold Change.Exact
  rw [hrun, if_neg hr]

theorem exact_of_ok {c : Change} (hrun : c.run s J group = (s', .ok)) :
    c.Exact s J group ↔ Placed s' J ∧ c.Made s s' J := by
  unfold Change.Exact
  rw [hrun, if_pos rfl]

theorem job_hset_self (s : Queue) (J : JobId) (f : Job → Job) : (s.hset J f).job J = f (s.job J) := by
  unfold Queue.job
  rw [hset_jobs, Function.update_self]
  rfl

theorem score_zaddScheduled (s : Queue) (J : JobId) (x : Int) :
    (s.zaddScheduled J x).scheduled.score J = some x := by
  rw [zaddScheduled_scheduled, SortedSet.score_add, if_pos rfl]

theorem dueOf_none (h : s.stateOf J ≠ some .delayed) : s.dueOf J = none := if_neg h

theorem dueOf_some {x : Int} (hst : s.stateOf J = some .delayed) (hx : s.scheduled.score J = some x) :
    s.dueOf J = some (x % priorityShift) := by
  unfold Queue.dueOf
  rw [if_pos hst, hx]
  rfl

theorem waitsIn_zero {j : Job} (h : j.priority = 0) :
    j.waitsIn = if j.lifo then .lifo else .stream := by
  simp [Job.waitsIn, h]

section

variable {n : Nat} (hn : n ≤ maxPriority) (hjob : s.jobs J ≠ none)
include hn hjob

theorem exact_from_list (hst : s.stateOf J = some .waiting) (hzero : n = 0) (hin : J ∈ s.priorityList) :
    (Change.priority n).Exact s J group ↔ AloneIn s J .priority := by
  -- A job of the priority list that loses its priority waits where a job without one waits.
  subst hzero
  have hrun : (Change.priority 0).run s J group =
      ((if (s.job J).lifo then (s.lremPriority J).rpushLifo J else (s.lremPriority J).xaddJob J).setPriority J 0,
        .ok) := by
    change changePriority s J 0 group = _
    simp only [changePriority, if_neg (not_lt.mpr hn), if_neg hjob, hst, if_pos hin, if_true]
    rfl
  have hjobs : (if (s.job J).lifo then (s.lremPriority J).rpushLifo J else (s.lremPriority J).xaddJob J).job J =
      s.job J := by
    split <;> rfl
  rw [exact_of_ok hrun]
  generalize hput : (if (s.job J).lifo then (s.lremPriority J).rpushLifo J
    else (s.lremPriority J).xaddJob J) = t at *
  have hset : (t.setPriority J 0).job J = { s.job J with priority := 0 } := by
    rw [setPriority, job_hset_self, hjobs]
  have hst' : (t.setPriority J 0).stateOf J = some .waiting := by
    rw [stateOf_eq, hset, ← hst, stateOf_eq]
  have hmoved (d : Container) : (t.setPriority J 0).copies J d =
      (if d = .priority then 0 else s.copies J d) +
        if d = (if (s.job J).lifo then Container.lifo else .stream) then 1 else 0 := by
    rw [← hput]
    split <;> simp
  rw [placed_waiting hst', hset, waitsIn_zero rfl, onlyIn_of_moved (by split <;> simp) hmoved]
  simp only [true_and]
  refine and_iff_left ?_
  unfold Change.Made
  rw [hset, dueOf_none (by rw [hst']; nofun), dueOf_none (by rw [hst]; nofun)]
  exact ⟨rfl, rfl, rfl⟩

theorem exact_in_place (hst : s.stateOf J = some .waiting) (hzero : n = 0) (hnot : J ∉ s.priorityList) :
    (Change.priority n).Exact s J group ↔
      ((s.job J).priority ≠ 0 → OnlyIn s J (if (s.job J).lifo then .lifo else .stream)) := by
  subst hzero
  by_cases hpriority : (s.job J).priority = 0
  · refine iff_of_true (exact_of_unchanged (r := .noOp) ?_ nofun) fun h => absurd hpriority h
    change changePriority s J 0 group = _
    simp only [changePriority, if_neg (not_lt.mpr hn), if_neg hjob, hst, if_neg hnot, if_true,
      if_pos hpriority]
  · have hrun : (Change.priority 0).run s J group = (s.setPriority J 0, .ok) := by
      change changePriority s J 0 group = _
      simp only [changePriority, if_neg (not_lt.mpr hn), if_neg hjob, hst, if_neg hnot, if_true,
        if_neg hpriority]
    have hset : (s.setPriority J 0).job J = { s.job J with priority := 0 } := job_hset_self ..
    have hst' : (s.setPriority J 0).stateOf J = some .waiting := by
      rw [stateOf_eq, hset, ← hst, stateOf_eq]
    rw [exact_of_ok hrun, placed_waiting hst', hset, waitsIn_zero rfl, forall_prop_of_true hpriority]
    have honly : OnlyIn (s.setPriority J 0) J (if (s.job J).lifo then .lifo else .stream) ↔
        OnlyIn s J (if (s.job J).lifo then .lifo else .stream) := by
      unfold OnlyIn
      simp only [copies_setPriority]
    rw [honly]
    refine and_iff_left ?_
    unfold Change.Made
    rw [hset, dueOf_none (by rw [hst']; nofun), dueOf_none (by rw [hst]; nofun)]
    exact ⟨rfl, rfl, rfl⟩

theorem exact_to_priority (hst : s.stateOf J = some .waiting) (hpos : n ≠ 0) :
    (Change.priority n).Exact s J group ↔ DetachesWhole s J := by
  cases hdetach : detachWaitingJob s group J with
  | none =>
    refine iff_of_true (exact_of_unchanged (r := .notInStream) ?_ (by simp)) fun c hc => ?_
    · change changePriority s J n group = _
      simp only [changePriority, if_neg (not_lt.mpr hn), if_neg hjob, hst, if_neg hpos, hdetach]
    · rw [detachWaitingJob_none.mp hdetach] at hc
      cases hc
  | some u =>
    have hrun : (Change.priority n).run s J group =
        (((u.zaddScheduled J (n * priorityShift)).setState J .prioritized).setPriority J n, .ok) := by
      change changePriority s J n group = _
      simp only [changePriority, if_neg (not_lt.mpr hn), if_neg hjob, hst, if_neg hpos, hdetach]
    obtain ⟨-, -, -, -, hjobs, -, -⟩ := detachWaitingJob_some hdetach
    have hu : u.job J = s.job J := by
      unfold Queue.job
      rw [hjobs]
    have hset : (((u.zaddScheduled J (n * priorityShift)).setState J .prioritized).setPriority J n).job J =
        { s.job J with state := some .prioritized, priority := n } := by
      rw [setPriority, job_hset_self, Queue.setState, job_hset_self, ← hu]
      rfl
    have hst' := congrArg Job.state hset
    rw [← stateOf_eq] at hst'
    have hx : (((u.zaddScheduled J (n * priorityShift)).setState J .prioritized).setPriority J n).scheduled.score
        J = some (n * priorityShift) := score_zaddScheduled ..
    rw [exact_of_ok hrun, placed_prioritized hst' hx, hset,
      onlyIn_of_detached hdetach (fun d => by simp), and_iff_left (band_zero n)]
    refine and_iff_left ?_
    unfold Change.Made
    rw [hset, dueOf_none (by rw [hst']; simp), dueOf_none (by rw [hst]; simp)]
    exact ⟨rfl, rfl, rfl⟩

theorem exact_prioritized (hst : s.stateOf J = some .prioritized) :
    (Change.priority n).Exact s J group ↔
      AloneIn s J .scheduled ∧ (n = 0 → (s.job J).lifo = false) := by
  by_cases hzero : n = 0
  · subst hzero
    have hrun : (Change.priority 0).run s J group =
        ((((s.zremScheduled J).xaddJob J).setState J .waiting).setPriority J 0, .ok) := by
      change changePriority s J 0 group = _
      simp only [changePriority, if_neg (not_lt.mpr hn), if_neg hjob, hst, if_true]
    have hset : ((((s.zremScheduled J).xaddJob J).setState J .waiting).setPriority J 0).job J =
        { s.job J with state := some .waiting, priority := 0 } := by
      rw [setPriority, job_hset_self, Queue.setState, job_hset_self]
      rfl
    have hst' := congrArg Job.state hset
    rw [← stateOf_eq] at hst'
    have hmoved (d : Container) :
        ((((s.zremScheduled J).xaddJob J).setState J .waiting).setPriority J 0).copies J d =
          (if d = .scheduled then 0 else s.copies J d) + if d = .stream then 1 else 0 := by
      simp
    have hmade : (Change.priority 0).Made s
        ((((s.zremScheduled J).xaddJob J).setState J .waiting).setPriority J 0) J := by
      unfold Change.Made
      rw [hset, dueOf_none (by rw [hst']; simp), dueOf_none (by rw [hst]; simp)]
      exact ⟨rfl, rfl, rfl⟩
    rw [exact_of_ok hrun, placed_waiting hst', waitsIn_zero (by rw [hset]), hset,
      onlyIn_of_moved (show Container.stream ≠ .scheduled by simp) hmoved, and_iff_left hmade, and_comm]
    refine and_congr_right fun _ => ?_
    simp only [true_imp_iff]
    cases (s.job J).lifo <;> simp
  · have hrun : (Change.priority n).run s J group =
        ((s.zaddScheduled J (n * priorityShift)).setPriority J n, .ok) := by
      change changePriority s J n group = _
      simp only [changePriority, if_neg (not_lt.mpr hn), if_neg hjob, hst, if_neg hzero]
    have hset : ((s.zaddScheduled J (n * priorityShift)).setPriority J n).job J =
        { s.job J with priority := n } := job_hset_self ..
    have hst' : ((s.zaddScheduled J (n * priorityShift)).setPriority J n).stateOf J =
        some .prioritized := by
      rw [stateOf_eq, hset, ← hst, stateOf_eq]
    have hx : ((s.zaddScheduled J (n * priorityShift)).setPriority J n).scheduled.score J =
        some (n * priorityShift) := score_zaddScheduled ..
    rw [exact_of_ok hrun, placed_prioritized hst' hx, hset, onlyIn_of_rescored (s := s) (by simp),
      and_iff_left (band_zero n)]
    refine and_congr_right fun _ => iff_of_true ?_ fun h => absurd h hzero
    unfold Change.Made
    rw [hset, dueOf_none (by rw [hst']; simp), dueOf_none (by rw [hst]; simp)]
    exact ⟨rfl, rfl, rfl⟩

theorem exact_delayed (hst : s.stateOf J = some .delayed) :
    (Change.priority n).Exact s J group ↔ (J ∈ s.scheduled → AloneIn s J .scheduled) := by
  cases hx : s.scheduled.score J with
  | none =>
    refine iff_of_true (exact_of_unchanged (r := .notInScheduled) ?_ nofun) fun h =>
      absurd h (SortedSet.score_eq_none.mp hx)
    change changePriority s J n group = _
    simp only [changePriority, if_neg (not_lt.mpr hn), if_neg hjob, hst, hx]
  | some x =>
    have hin : J ∈ s.scheduled := by
      by_contra hnot
      rw [SortedSet.score_eq_none.mpr hnot] at hx
      cases hx
    have hrun : (Change.priority n).run s J group =
        (((s.zremScheduled J).zaddScheduled J (n * priorityShift + x % priorityShift)).setPriority J n,
          .ok) := by
      change changePriority s J n group = _
      simp only [changePriority, if_neg (not_lt.mpr hn), if_neg hjob, hst, hx]
    generalize hscore : n * priorityShift + x % priorityShift = score at hrun
    have hset : (((s.zremScheduled J).zaddScheduled J score).setPriority J n).job J =
        { s.job J with priority := n } := job_hset_self ..
    have hst' : (((s.zremScheduled J).zaddScheduled J score).setPriority J n).stateOf J =
        some .delayed := by
      rw [stateOf_eq, hset, ← hst, stateOf_eq]
    have hx' : (((s.zremScheduled J).zaddScheduled J score).setPriority J n).scheduled.score J =
        some score := score_zaddScheduled ..
    have hband : score / priorityShift = n ∧ score % priorityShift = x % priorityShift := by
      rw [← hscore]
      refine (band_iff n n _).mpr ⟨rfl, Int.emod_nonneg _ ?_, Int.emod_lt_of_pos _ ?_⟩ <;> decide
    rw [exact_of_ok hrun, placed_delayed hst' hx', hset, and_iff_left hband.1,
      forall_prop_of_true hin, onlyIn_of_rescored (s := s) fun d => by
        by_cases hd : d = .scheduled <;> simp [hd]]
    refine and_iff_left ?_
    unfold Change.Made
    rw [hset, dueOf_some hst' hx', dueOf_some hst hx, hband.2]
    exact ⟨rfl, rfl, rfl⟩

end

theorem changePriority_exact_iff (s : Queue) (J : JobId) (n : Nat) (group : Group) :
    (Change.priority n).Exact s J group ↔ PriorityFits s J n := by
  by_cases hn : maxPriority < n
  · refine iff_of_true (exact_of_unchanged (r := .invalidArg) ?_ (by simp)) fun hle => absurd hle (not_le.mpr hn)
    change changePriority s J n group = _
    simp only [changePriority, if_pos hn]
  by_cases hjob : s.jobs J = none
  · refine iff_of_true (exact_of_unchanged (r := .notFound) ?_ (by simp)) fun _ h => absurd hjob h
    change changePriority s J n group = _
    simp only [changePriority, if_neg hn, if_pos hjob]
  unfold PriorityFits
  rw [forall_prop_of_true (not_lt.mp hn), forall_prop_of_true hjob]
  split
  · rename_i hst
    split
    · rename_i hzero
      split
      · rename_i hin
        exact exact_from_list (not_lt.mp hn) hjob hst hzero hin
      · rename_i hnot
        exact exact_in_place (not_lt.mp hn) hjob hst hzero hnot
    · rename_i hpos
      exact exact_to_priority (not_lt.mp hn) hjob hst hpos
  · rename_i hst
    exact exact_prioritized (not_lt.mp hn) hjob hst
  · rename_i hst
    exact exact_delayed (not_lt.mp hn) hjob hst
  · rename_i hwaiting hprioritized hdelayed
    refine iff_of_true (exact_of_unchanged (r := .invalidState) ?_ (by simp)) trivial
    change changePriority s J n group = _
    simp only [changePriority, if_neg hn, if_neg hjob]

theorem waitsIn_stream {j : Job} : j.waitsIn = .stream ↔ j.lifo = false ∧ j.priority = 0 := by
  unfold Job.waitsIn
  cases j.lifo <;> simp

theorem mem_of_score {x : Int} (hx : s.scheduled.score J = some x) : J ∈ s.scheduled := by
  by_contra hnot
  rw [SortedSet.score_eq_none.mpr hnot] at hx
  cases hx

theorem zaddScheduledXX_of_score {x : Int} (hx : s.scheduled.score J = some x) (y : Int) :
    s.zaddScheduledXX J y = s.zaddScheduled J y := if_pos (mem_of_score hx)

section

variable {d now : Int} (hd : 0 ≤ d) (hjob : s.jobs J ≠ none)
include hd hjob

theorem exact_at_once {x : Int} (hst : s.stateOf J = some .delayed)
    (hx : s.scheduled.score J = some x) (hzero : d = 0) :
    (Change.delay d now).Exact s J group ↔ AloneIn s J .scheduled ∧
      if 0 < x / priorityShift then s.ScoreSays J x
      else (s.job J).lifo = false ∧ (s.job J).priority = 0 := by
  subst hzero
  by_cases hband : 0 < x / priorityShift
  · have hrun : (Change.delay 0 now).run s J group =
        (((s.zaddScheduled J (x / priorityShift * priorityShift)).setState J .prioritized).setDelay J 0,
          .ok) := by
      change changeDelay s J 0 now group = _
      simp only [changeDelay, if_neg (not_lt.mpr hd), if_neg hjob, hst, hx, if_true, if_pos hband,
        zaddScheduledXX_of_score hx]
    generalize hscore : x / priorityShift * priorityShift = score at hrun
    have hset : (((s.zaddScheduled J score).setState J .prioritized).setDelay J 0).job J =
        { s.job J with state := some .prioritized, delay := 0 } := by
      rw [setDelay, job_hset_self, Queue.setState, job_hset_self]
      rfl
    have hst' := congrArg Job.state hset
    rw [← stateOf_eq] at hst'
    have hx' : (((s.zaddScheduled J score).setState J .prioritized).setDelay J 0).scheduled.score J =
        some score := score_zaddScheduled ..
    have hsplit := band_zero (x / priorityShift)
    rw [hscore] at hsplit
    rw [exact_of_ok hrun, placed_prioritized hst' hx', hset, onlyIn_of_rescored (s := s) (by simp),
      hsplit.1, and_iff_left hsplit.2, if_pos hband]
    refine and_iff_left ?_
    unfold Change.Made
    rw [hset, dueOf_none (by rw [hst']; simp)]
    exact ⟨rfl, rfl, rfl⟩
  · have hrun : (Change.delay 0 now).run s J group =
        ((((s.zremScheduled J).xaddJob J).setState J .waiting).setDelay J 0, .ok) := by
      change changeDelay s J 0 now group = _
      simp only [changeDelay, if_neg (not_lt.mpr hd), if_neg hjob, hst, hx, if_true, if_neg hband]
    have hset : ((((s.zremScheduled J).xaddJob J).setState J .waiting).setDelay J 0).job J =
        { s.job J with state := some .waiting, delay := 0 } := by
      rw [setDelay, job_hset_self, Queue.setState, job_hset_self]
      rfl
    have hst' := congrArg Job.state hset
    rw [← stateOf_eq] at hst'
    have hmoved (c : Container) :
        ((((s.zremScheduled J).xaddJob J).setState J .waiting).setDelay J 0).copies J c =
          (if c = .scheduled then 0 else s.copies J c) + if c = .stream then 1 else 0 := by
      simp
    have hmade : (Change.delay 0 now).Made s
        ((((s.zremScheduled J).xaddJob J).setState J .waiting).setDelay J 0) J := by
      unfold Change.Made
      rw [hset, dueOf_none (by rw [hst']; simp)]
      exact ⟨rfl, rfl, rfl⟩
    rw [exact_of_ok hrun, placed_waiting hst',
      onlyIn_of_moved (show Container.stream ≠ .scheduled by simp) hmoved, and_iff_left hmade,
      and_comm, if_neg hband, waitsIn_stream, hset]

omit hd hjob in
theorem exact_of_delayed {t : Queue} {p : Int} (hrun : (Change.delay d now).run s J group = (t, .ok))
    (hpos : d ≠ 0) (hst : t.stateOf J = some .delayed) (hdelay : (t.job J).delay = d)
    (hpriority : (t.job J).priority = (s.job J).priority)
    (hscore : t.scheduled.score J = some (p * priorityShift + (now + d))) :
    (Change.delay d now).Exact s J group ↔
      OnlyIn t J .scheduled ∧ p = (s.job J).priority ∧ InBand (now + d) := by
  have hmade : (Change.delay d now).Made s t J ↔
      (p * priorityShift + (now + d)) % priorityShift = now + d := by
    change (t.job J).delay = d ∧ (t.job J).priority = (s.job J).priority ∧
      t.dueOf J = (if d = 0 then none else some (now + d)) ↔ _
    rw [dueOf_some hst hscore, if_neg hpos, Option.some.injEq]
    exact ⟨fun h => h.2.2, fun h => ⟨hdelay, hpriority, h⟩⟩
  rw [exact_of_ok hrun, placed_delayed hst hscore, hmade, hpriority, and_assoc, band_iff]

theorem exact_delayed_again {x : Int} (hst : s.stateOf J = some .delayed)
    (hx : s.scheduled.score J = some x) (hpos : d ≠ 0) :
    (Change.delay d now).Exact s J group ↔
      AloneIn s J .scheduled ∧ s.ScoreSays J x ∧ InBand (now + d) := by
  have hrun : (Change.delay d now).run s J group =
      ((s.zaddScheduled J (x / priorityShift * priorityShift + (now + d))).setDelay J d, .ok) := by
    change changeDelay s J d now group = _
    simp only [changeDelay, if_neg (not_lt.mpr hd), if_neg hjob, hst, hx, if_neg hpos,
      zaddScheduledXX_of_score hx]
  have hset (y : Int) : ((s.zaddScheduled J y).setDelay J d).job J = { s.job J with delay := d } :=
    job_hset_self ..
  rw [exact_of_delayed hrun hpos (by rw [stateOf_eq, hset, ← hst, stateOf_eq]) (by rw [hset])
    (by rw [hset]) (score_zaddScheduled ..), onlyIn_of_rescored (s := s) (by simp)]
  exact Iff.rfl

theorem exact_prioritized_again {x : Int} (hst : s.stateOf J = some .prioritized)
    (hx : s.scheduled.score J = some x) (hpos : d ≠ 0) :
    (Change.delay d now).Exact s J group ↔
      AloneIn s J .scheduled ∧ s.ScoreSays J x ∧ InBand (now + d) := by
  have hrun : (Change.delay d now).run s J group =
      (((s.zaddScheduled J (x / priorityShift * priorityShift + (now + d))).setState J .delayed).setDelay J d,
        .ok) := by
    change changeDelay s J d now group = _
    simp only [changeDelay, if_neg (not_lt.mpr hd), if_neg hjob, hst, hx, if_neg hpos,
      zaddScheduledXX_of_score hx]
  have hset (y : Int) : (((s.zaddScheduled J y).setState J .delayed).setDelay J d).job J =
      { s.job J with state := some .delayed, delay := d } := by
    rw [setDelay, job_hset_self, Queue.setState, job_hset_self]
    rfl
  rw [exact_of_delayed hrun hpos (by rw [stateOf_eq, hset]) (by rw [hset])
    (by rw [hset]) (score_zaddScheduled ..), onlyIn_of_rescored (s := s) (by simp)]
  exact Iff.rfl

theorem exact_to_delayed (hst : s.stateOf J = some .waiting) (hpos : d ≠ 0) :
    (Change.delay d now).Exact s J group ↔
      (s.waitsAt J ≠ none → DetachesWhole s J ∧ InBand (now + d)) := by
  cases hdetach : detachWaitingJob s group J with
  | none =>
    have hnone := detachWaitingJob_none.mp hdetach
    refine iff_of_true (exact_of_unchanged (r := .notInStream) ?_ nofun) fun h => absurd hnone h
    change changeDelay s J d now group = _
    simp only [changeDelay, if_neg (not_lt.mpr hd), if_neg hjob, hst, if_neg hpos, hdetach]
  | some u =>
    have hrun : (Change.delay d now).run s J group =
        (((u.zaddScheduled J ((s.job J).priority * priorityShift + (now + d))).setState J .delayed).setDelay J d,
          .ok) := by
      change changeDelay s J d now group = _
      simp only [changeDelay, if_neg (not_lt.mpr hd), if_neg hjob, hst, if_neg hpos, hdetach]
    obtain ⟨src, -, hat, -, hjobs, -, -⟩ := detachWaitingJob_some hdetach
    have hu : u.job J = s.job J := by
      unfold Queue.job
      rw [hjobs]
    have hset (y : Int) : (((u.zaddScheduled J y).setState J .delayed).setDelay J d).job J =
        { s.job J with state := some .delayed, delay := d } := by
      rw [setDelay, job_hset_self, Queue.setState, job_hset_self, ← hu]
      rfl
    rw [exact_of_delayed hrun hpos (by rw [stateOf_eq, hset]) (by rw [hset])
      (by rw [hset]) (score_zaddScheduled ..), onlyIn_of_detached hdetach (by simp),
      forall_prop_of_true (by rw [hat]; exact Option.some_ne_none _)]
    simp only [true_and]

end

theorem changeDelay_exact_iff (s : Queue) (J : JobId) (d now : Int) (group : Group) :
    (Change.delay d now).Exact s J group ↔ DelayFits s J d now := by
  by_cases hd : d < 0
  · refine iff_of_true (exact_of_unchanged (r := .invalidArg) ?_ (by simp)) fun hle => absurd hle (not_le.mpr hd)
    change changeDelay s J d now group = _
    simp only [changeDelay, if_pos hd]
  by_cases hjob : s.jobs J = none
  · refine iff_of_true (exact_of_unchanged (r := .notFound) ?_ (by simp)) fun _ h => absurd hjob h
    change changeDelay s J d now group = _
    simp only [changeDelay, if_neg hd, if_pos hjob]
  have hmissing (hx : s.scheduled.score J = none)
      (hst : s.stateOf J = some .delayed ∨ s.stateOf J = some .prioritized ∧ d ≠ 0) :
      (Change.delay d now).Exact s J group := by
    refine exact_of_unchanged (r := .notInScheduled) ?_ (by simp)
    change changeDelay s J d now group = _
    rcases hst with hst | ⟨hst, hpos⟩
    · simp only [changeDelay, if_neg hd, if_neg hjob, hst, hx]
    · simp only [changeDelay, if_neg hd, if_neg hjob, hst, hx, if_neg hpos]
  have hnoOp (hst : s.stateOf J = some .waiting ∨ s.stateOf J = some .prioritized) (hzero : d = 0) :
      (Change.delay d now).Exact s J group := by
    refine exact_of_unchanged (r := .noOp) ?_ (by simp)
    change changeDelay s J d now group = _
    rcases hst with hst | hst <;> simp only [changeDelay, if_neg hd, if_neg hjob, hst, if_pos hzero]
  unfold DelayFits
  rw [forall_prop_of_true (not_lt.mp hd), forall_prop_of_true hjob]
  split
  · rename_i hst
    cases hx : s.scheduled.score J with
    | none => exact iff_of_true (hmissing hx (Or.inl hst)) (by simp)
    | some x =>
      simp only [Option.some.injEq, forall_eq']
      by_cases hzero : d = 0
      · rw [exact_at_once (not_lt.mp hd) hjob hst hx hzero, if_pos hzero]
      · rw [exact_delayed_again (not_lt.mp hd) hjob hst hx hzero, if_neg hzero]
  · rename_i hst
    by_cases hzero : d = 0
    · exact iff_of_true (hnoOp (Or.inl hst) hzero) fun h => absurd hzero h
    · rw [exact_to_delayed (not_lt.mp hd) hjob hst hzero, forall_prop_of_true hzero]
  · rename_i hst
    by_cases hzero : d = 0
    · exact iff_of_true (hnoOp (Or.inr hst) hzero) fun h => absurd hzero h
    rw [forall_prop_of_true hzero]
    cases hx : s.scheduled.score J with
    | none => exact iff_of_true (hmissing hx (Or.inr ⟨hst, hzero⟩)) (by simp)
    | some x =>
      simp only [Option.some.injEq, forall_eq']
      exact exact_prioritized_again (not_lt.mp hd) hjob hst hx hzero
  · rename_i hdelayed hwaiting hprioritized
    refine iff_of_true (exact_of_unchanged (r := .invalidState) ?_ (by simp)) trivial
    change changeDelay s J d now group = _
    simp only [changeDelay, if_neg hd, if_neg hjob]

theorem promoteJob_exact_iff (s : Queue) (J : JobId) (group : Group) :
    Change.promote.Exact s J group ↔ (s.stateOf J = some .delayed → AloneIn s J .scheduled) := by
  by_cases hjob : s.jobs J = none
  · refine iff_of_true (exact_of_unchanged (r := .notFound) ?_ (by simp)) fun hst => ?_
    · change promoteJob s J = _
      simp only [promoteJob, if_pos hjob]
    · rw [Queue.stateOf, hjob] at hst
      cases hst
  by_cases hst : s.stateOf J = some .delayed
  · have hrun : Change.promote.run s J group =
        (((if (s.job J).lifo then (s.zremScheduled J).rpushLifo J
          else if 0 < (s.job J).priority then (s.zremScheduled J).lpushPriority J
          else (s.zremScheduled J).xaddJob J).setState J .waiting).setDelay J 0, .ok) := by
      change promoteJob s J = _
      simp only [promoteJob, if_neg hjob, hst, ne_eq, not_true_eq_false, if_false]
      rfl
    have hjobs : (if (s.job J).lifo then (s.zremScheduled J).rpushLifo J
        else if 0 < (s.job J).priority then (s.zremScheduled J).lpushPriority J
        else (s.zremScheduled J).xaddJob J).job J = s.job J := by
      split_ifs <;> rfl
    have hput (c : Container) : (if (s.job J).lifo then (s.zremScheduled J).rpushLifo J
        else if 0 < (s.job J).priority then (s.zremScheduled J).lpushPriority J
        else (s.zremScheduled J).xaddJob J).copies J c =
          (if c = .scheduled then 0 else s.copies J c) + if c = (s.job J).waitsIn then 1 else 0 := by
      unfold Job.waitsIn
      split_ifs <;> simp_all
    generalize (if (s.job J).lifo then (s.zremScheduled J).rpushLifo J
      else if 0 < (s.job J).priority then (s.zremScheduled J).lpushPriority J
      else (s.zremScheduled J).xaddJob J) = t at *
    have hset : ((t.setState J .waiting).setDelay J 0).job J =
        { s.job J with state := some .waiting, delay := 0 } := by
      rw [setDelay, job_hset_self, Queue.setState, job_hset_self, hjobs]
    have hst' := congrArg Job.state hset
    rw [← stateOf_eq] at hst'
    have hwaits : (((t.setState J .waiting).setDelay J 0).job J).waitsIn = (s.job J).waitsIn := by
      rw [hset]
      rfl
    have hmade : Change.promote.Made s ((t.setState J .waiting).setDelay J 0) J := by
      unfold Change.Made
      rw [hset, hst']
      exact ⟨rfl, rfl, rfl⟩
    rw [exact_of_ok hrun, placed_waiting hst', hwaits, and_iff_left hmade,
      onlyIn_of_moved (s := s) (s.job J).waitsIn_ne_scheduled (by simpa using hput),
      forall_prop_of_true hst]
    simp only [true_and]
  · refine iff_of_true (exact_of_unchanged (r := .invalidState) ?_ (by simp)) fun h => absurd h hst
    change promoteJob s J = _
    simp only [promoteJob, if_neg hjob, if_pos hst]

theorem change_exact_iff (s : Queue) (J : JobId) (group : Group) (c : Change) :
    c.Exact s J group ↔ c.Fits s J := by
  cases c with
  | priority n => exact changePriority_exact_iff s J n group
  | delay d now => exact changeDelay_exact_iff s J d now group
  | promote => exact promoteJob_exact_iff s J group

/-! ## Runs -/

/-- The change that a call makes, if it is one. -/
def Call.change : Call → Option (JobId × Group × Change)
  | .changePriority J n group => some (J, group, .priority n)
  | .changeDelay J d now group => some (J, group, .delay d now)
  | .promoteJob J => some (J, "", .promote)
  | _ => none

theorem run_of_change {call : Call} {c : Change} (h : call.change = some (J, group, c)) :
    call.run s = (c.run s J group).1 := by
  unfold Call.change at h
  split at h <;> cases h <;> rfl

def ChangesExactly (S : Sys) : SysCall → Prop
  | .on q call => ∀ J group c, call.change = some (J, group, c) → c.Exact (S q) J group
  | _ => True

def ChangesFit (S : Sys) : SysCall → Prop
  | .on q call => ∀ J group c, call.change = some (J, group, c) → c.Fits (S q) J
  | _ => True

end GlideMq
