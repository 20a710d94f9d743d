import GlideMq.Proofs.Charges
import GlideMq.Proofs.SettleRuns

/-!
# What a chain call charges

The settlement of a chain call charges nothing. Its fetch starts at most one job.
-/

namespace GlideMq

open Queue Redis

section

variable {x now : Int} {s t u v : Queue} {J : JobId} {gk : GroupKey} {charge : Option GroupKey}

/-! ## Lists -/

/-- A job of a list starts, or nothing is charged. A job of the LIFO list is never charged. -/
inductive ListFetched (x now : Int) (k : ListKey) (s t : Queue) : Option ChainNext → Prop
  | started {u : Queue} {charge : Option GroupKey} {J : JobId} (hidle : Idle x s u)
      (hkey : charge = if k = .priority then (u.job J).groupKey else none)
      (h : Starts x now u t J charge) : ListFetched x now k s t (some (.hash J none (t.job J)))
  | idle (h : Idle x s t) {next : Option ChainNext} (hnext : ∀ n ∈ next, n = .none) :
      ListFetched x now k s t next

theorem ListFetched.stop {k : ListKey} (h : Idle x s t) : ListFetched x now k s t (some .none) :=
  .idle h (by simp)

theorem Starts.incrListActive (h : Starts x now u t J charge) :
    Starts x now u (incrListActive t [J]) J charge := h.quiet rfl fun _ => rfl

theorem Calm.recordFailedUnless (h : Calm x s t) (skip : Bool) (y d : Int) :
    Calm x s (recordFailedUnless skip t y d) := by
  unfold GlideMq.recordFailedUnless
  split
  · exact h
  · exact h.quiet rfl

theorem Calm.noteActivationFailure (h : Calm x s t) {r : String} :
    Calm x s (noteActivationFailure t J r) := h.quiet (books_noteActivationFailure _ _ _)

theorem Calm.failOversizePriority {a : FetchArgs} (h : Calm a.serverNow s t) (gk : GroupKey) :
    Calm a.serverNow s (failOversizePriority t a J gk) := by
  unfold GlideMq.failOversizePriority
  have hfail (y : Int) : Calm a.serverNow s (GlideMq.noteActivationFailure
      (GlideMq.advanceRepeatAfterComplete ((t.zaddFailed J y).setFailed J costReason y) J y) J
      costReason) :=
    h.zaddFailed.setFailed.advanceRepeatAfterComplete.noteActivationFailure
  simp only
  split
  · exact ((hfail _).recordFailedUnless _ _ _).markOrderingDone.closeOrderingHoleAndPromote
  · exact (hfail _).recordFailedUnless _ _ _

theorem fetchPriorityInGroup_fetched (a : FetchArgs) (hkey : (s.job J).groupKey = some gk) :
    ListFetched a.serverNow a.timestamp .priority s (fetchPriorityInGroup s a J gk).1
      (fetchPriorityInGroup s a J gk).2 := by
  unfold fetchPriorityInGroup
  simp only
  have hskip : Calm a.serverNow s (skipToNext s gk (s.groups gk).nextSeq).1 :=
    (Calm.refl s).quiet (books_skipToNext _ _ _)
  have hjob := job_of_jobs (skipToNext_jobs s gk (s.groups gk).nextSeq) J
  generalize skipToNext s gk (s.groups gk).nextSeq = r at *
  have hrefill : Calm a.serverNow s (refill r.1 gk a.serverNow).1 := hskip.refill gk
  split
  · exact .idle hskip.park.idle (by simp)
  split
  · exact .idle (hrefill.failOversizePriority gk).idle (by simp)
  generalize hrl : (if (tokenDelay (r.1.groups gk) (refill r.1 gk a.serverNow).2
    ((s.job J).cost.getD 1000)).isSome = true then none else _) = rl
  split
  · have hpark : Calm a.serverNow s (park (refill r.1 gk a.serverNow).1 gk J
        (groupqScore (refill r.1 gk a.serverNow).1 J)) := hrefill.park
    exact .stop (hpark.idle.other rfl rfl)
  · rename_i hgates
    simp only [not_or, Bool.not_eq_true, Option.isSome_eq_false_iff, Option.isNone_iff_eq_none]
      at hgates
    obtain ⟨htb, hnone⟩ := hgates
    have hwindow : windowDelay (r.1.groups gk) a.timestamp = none := by
      rw [← hnone, ← hrl, htb]
      rfl
    have hjob' : (refill r.1 gk a.serverNow).1.job J = s.job J := hjob
    have hstart (t : Queue) (hj : t.jobs = (activate (refill r.1 gk a.serverNow).1 J a.timestamp
        true).jobs) (hg : ∀ k, (t.groups k).quota = ((chargeGroup (refill r.1 gk a.serverNow).1 gk
        ((s.job J).cost.getD 1000) a.timestamp).groups k).quota) :
        Starts a.serverNow a.timestamp (refill r.1 gk a.serverNow).1 t J (some gk) := by
      refine starts_charged (by rw [hjob', hkey]) (refilled_refill _ _ _) ?_ hj (by rwa [hjob'])
      rw [refill_groups_self, hjob']
      exact admits_tbRefill htb hwindow
    refine @ListFetched.started _ _ _ _ _ _ (some gk) _ hrefill.idle (by simp [hjob', hkey]) (hstart _ ?_ fun k => ?_)
    · split <;> split <;> rfl
    · have hslot := quota_takeSlot (activate (chargeGroup (refill r.1 gk a.serverNow).1 gk
        ((s.job J).cost.getD 1000) a.timestamp) J a.timestamp true) gk k (s.job J).orderingSeq
      split <;> split
      all_goals first
        | rfl
        | exact hslot

theorem fetchPriority_fetched (s : Queue) (a : FetchArgs) (J : JobId) :
    ListFetched a.serverNow a.timestamp .priority s (fetchPriority s a J).1 (fetchPriority s a J).2 := by
  unfold fetchPriority
  simp only
  split
  · exact .idle (.refl s) (by simp)
  split
  · exact .idle (Calm.refl s).expireJob.idle (by simp)
  split
  · rename_i hkey
    exact fetchPriorityInGroup_fetched a hkey
  · rename_i hkey
    exact .started (.refl s) (by simp [hkey]) (starts_activate s J a.timestamp true).incrListActive

theorem fetchLifo_fetched (s : Queue) (a : FetchArgs) (J : JobId) :
    ListFetched a.serverNow a.timestamp .lifo s (fetchLifo s a J).1 (fetchLifo s a J).2 := by
  unfold fetchLifo
  simp only
  split
  · exact .idle (.refl s) (by simp)
  split
  · exact .idle (Calm.refl s).expireJob.idle (by simp)
  · exact .started (.refl s) (by simp) (starts_activate s J a.timestamp true).incrListActive

theorem ListFetched.after {k : ListKey} {next : Option ChainNext} (hidle : Idle x s t)
    (h : ListFetched x now k t u next) : ListFetched x now k s u next := by
  cases h with
  | started hidle' hkey h => exact .started (hidle.trans hidle') hkey h
  | idle h hnext => exact .idle (hidle.trans h) hnext

theorem listPhase_fetched {k : ListKey} {fetch : Queue → JobId → Fetched}
    (hfetch : ∀ u J, ListFetched x now k u (fetch u J).1 (fetch u J).2) (attempts : Nat)
    (h : Idle x s t) :
    ListFetched x now k s (listPhase k fetch attempts t).1 (listPhase k fetch attempts t).2.1 := by
  induction attempts generalizing t with
  | zero => exact .idle h (by simp [listPhase])
  | succ attempts ih =>
    rw [listPhase]
    split
    · exact .idle h (by simp)
    · rename_i J _
      have hdrop : Idle x s (t.drop k) := by
        cases k <;> exact h.other rfl rfl
      have hend := (hfetch (t.drop k) J).after hdrop
      split
      · rename_i heq
        rw [heq] at hend
        exact hend
      · rename_i heq
        rw [heq] at hend
        cases hend with
        | idle hidle _ => exact ih hidle

/-! ## Stream -/

theorem streamPhase_idle (a : FetchArgs) (listsEmpty : Bool) (attempts : Nat)
    (h : Idle a.serverNow s t) :
    Idle a.serverNow s (streamPhase a listsEmpty attempts t).1 ∧
      ∀ J e fields, (streamPhase a listsEmpty attempts t).2 ≠ .reply (.hash J e fields) := by
  induction attempts generalizing t with
  | zero => exact ⟨h, by simp [streamPhase]⟩
  | succ attempts ih =>
    rw [streamPhase]
    split
    · exact ⟨h.other rfl rfl, by simp⟩
    · rename_i e _
      have hdeliver : Idle a.serverNow s (t.deliver a.group a.consumer e) := h.other rfl rfl
      simp only
      split
      · exact ⟨hdeliver, by simp⟩
      split
      · exact ⟨hdeliver, by simp⟩
      split
      · exact ih hdeliver.ackDel
      split
      · exact ih (hdeliver.calm (Calm.refl _).expireJob).ackDel
      · exact ⟨hdeliver, by simp⟩

/-- What a fetch ends with: a job starts, or nothing is charged. Only a job of the LIFO list passes
no gate of its group. -/
inductive FetchEnd (x now : Int) (s t : Queue) : ChainNext → Prop
  | started {u : Queue} {charge : Option GroupKey} {J : JobId} {e : Option Nat} {fields : Job}
      (hidle : Idle x s u) (h : Starts x now u t J charge) (hfields : fields = t.job J)
      (hkey : charge = fields.groupKey ∧ (e = none → t.lifoList = s.lifoList) ∨
        charge = none ∧ e = none ∧ t.lifoList.length < s.lifoList.length ∧ J ∈ s.lifoList) :
      FetchEnd x now s t (.hash J e fields)
  | idle (h : Idle x s t) {next : ChainNext} (hnext : ∀ J e fields, next ≠ .hash J e fields) :
      FetchEnd x now s t next

/-- A job of the stream starts, or nothing is charged. -/
inductive StreamFetched (x now : Int) (s t : Queue) : ChainNext → Prop
  | started {u : Queue} {J : JobId} {e : Nat} (hidle : Idle x s u)
      (h : Starts x now u t J (u.job J).groupKey) : StreamFetched x now s t (.hash J (some e) (t.job J))
  | idle (h : Idle x s t) {next : ChainNext} (hnext : ∀ J e fields, next ≠ .hash J e fields) :
      StreamFetched x now s t next

theorem StreamFetched.none (h : Idle x s t) : StreamFetched x now s t .none := .idle h (by simp)

theorem fetchStreamInGroup_fetched {a : FetchArgs} {e : Nat} (hidle : Idle a.serverNow s t)
    (hkey : (t.job J).groupKey = some gk) :
    StreamFetched a.serverNow a.timestamp s (fetchStreamInGroup t a J e gk).1
      (fetchStreamInGroup t a J e gk).2 := by
  have hskip := calm_skipIf (x := a.serverNow) t gk (t.job J).orderingSeq
  have hjob := job_skipIf t gk (t.job J).orderingSeq J
  unfold fetchStreamInGroup
  simp only
  generalize (if 0 < (t.job J).orderingSeq then skipToNext t gk (t.groups gk).nextSeq
    else (t, 0)) = r at *
  have hrefill : Calm a.serverNow t (refill r.1 gk a.serverNow).1 := hskip.refill gk
  split
  · exact .none ((hidle.calm hskip).ackDel.calm (Calm.refl _).park)
  split
  · exact .none ((hidle.calm hskip).ackDel.calm (Calm.refl _).park)
  split
  · have hfail : Calm a.serverNow (ackDel (refill r.1 gk a.serverNow).1 a.group (some e))
        (failOversize (ackDel (refill r.1 gk a.serverNow).1 a.group (some e)) J gk a.timestamp) :=
      (Calm.refl _).failOversize
    exact .none ((hidle.calm hrefill).ackDel.calm
      (hfail.noteActivationFailure.recordFailedUnless _ _ _).closeOrderingHoleAndPromote)
  split
  · have hpark : Idle a.serverNow s (park (ackDel (refill r.1 gk a.serverNow).1 a.group (some e)) gk
        J (groupqScore (ackDel (refill r.1 gk a.serverNow).1 a.group (some e)) J)) :=
      (hidle.calm hrefill).ackDel.calm (Calm.refl _).park
    exact .none (hpark.other rfl rfl)
  · rename_i hgates
    simp only [not_or, Bool.not_eq_true, Option.isSome_eq_false_iff, Option.isNone_iff_eq_none]
      at hgates
    have hjob' : (refill r.1 gk a.serverNow).1.job J = t.job J := hjob
    have hkey' : ((refill r.1 gk a.serverNow).1.job J).groupKey = some gk := by rw [hjob', hkey]
    refine .started (hidle.calm hrefill) ?_
    rw [hkey']
    refine starts_charged hkey' (refilled_refill _ _ _) ?_ (b := false) ?_ fun k => ?_
    · rw [refill_groups_self, hjob']
      exact admits_tbRefill hgates.1 hgates.2
    · split <;> split <;> rfl
    · rw [hjob']
      have hslot := quota_takeSlot (chargeGroup (refill r.1 gk a.serverNow).1 gk
        ((t.job J).cost.getD 1000) a.timestamp) gk k (t.job J).orderingSeq
      split <;> split
      all_goals first
        | rfl
        | exact hslot

theorem fetchStream_fetched (s : Queue) (a : FetchArgs) (listsEmpty : Bool) :
    StreamFetched a.serverNow a.timestamp s (fetchStream s a listsEmpty).1
      (fetchStream s a listsEmpty).2 := by
  obtain ⟨hidle, hreply⟩ := streamPhase_idle (s := s) a listsEmpty 3 (.refl s)
  unfold fetchStream
  generalize streamPhase a listsEmpty 3 s = r at *
  obtain ⟨t, pick⟩ := r
  cases pick with
  | reply next => exact .idle hidle fun J e fields heq => hreply J e fields (congrArg StreamPick.reply heq)
  | picked J e =>
    simp only
    split
    · rename_i hkey
      exact fetchStreamInGroup_fetched hidle hkey
    · rename_i hkey
      refine .started hidle ?_
      rw [hkey]
      exact starts_activate t J a.timestamp false

/-! ## The fetch -/

theorem lifoList_of_list (h : t.list .lifo = s.list .lifo) : t.lifoList = s.lifoList := h

theorem listPhase_length {k : ListKey} {fetch : Queue → JobId → Fetched}
    (hfetch : ∀ s J, DroppedOrClaimed k J s (fetch s J).1) (attempts : Nat) (s : Queue) :
    ((listPhase k fetch attempts s).1.list k).length ≤ (s.list k).length ∧
      ((listPhase k fetch attempts s).2.1 ≠ none →
        ((listPhase k fetch attempts s).1.list k).length < (s.list k).length) := by
  induction attempts generalizing s with
  | zero => exact ⟨le_rfl, fun h => absurd rfl h⟩
  | succ attempts ih =>
    rw [listPhase]
    split
    · exact ⟨le_rfl, fun h => absurd rfl h⟩
    · rename_i J hlast
      have hdrop := (hfetch (s.drop k) J).list k
      rw [list_drop_self] at hdrop
      have hlt : (s.list k).dropLast.length < (s.list k).length := by
        rw [List.length_dropLast]
        have : s.list k ≠ [] := by
          intro hnil
          simp [hnil] at hlast
        have := List.length_pos_iff.mpr this
        omega
      split
      · rename_i heq
        rw [heq] at hdrop
        simp only at hdrop ⊢
        rw [hdrop]
        exact ⟨hlt.le, fun _ => hlt⟩
      · rename_i t heq
        rw [heq] at hdrop
        simp only at hdrop
        obtain ⟨hle, hshort⟩ := ih t
        rw [hdrop] at hle hshort
        exact ⟨hle.trans hlt.le, fun h => (hshort h).trans hlt⟩

theorem listPhase_mem {k : ListKey} {fetch : Queue → JobId → Fetched}
    (hfetch : ∀ s J, DroppedOrClaimed k J s (fetch s J).1)
    (hself : ∀ s J K e fields, (fetch s J).2 = some (.hash K e fields) → K = J) (attempts : Nat)
    (s : Queue) {J : JobId} {e : Option Nat} {fields : Job}
    (h : (listPhase k fetch attempts s).2.1 = some (.hash J e fields)) : J ∈ s.list k := by
  induction attempts generalizing s with
  | zero => cases h
  | succ attempts ih =>
    rw [listPhase] at h
    split at h
    · cases h
    · rename_i K hlast
      have hdrop := (hfetch (s.drop k) K).list k
      rw [list_drop_self] at hdrop
      split at h
      · rename_i t next heq
        obtain rfl := Option.some.inj h
        have hsame : J = K := hself (s.drop k) K J e fields (congrArg Prod.snd heq)
        rw [hsame]
        exact List.mem_of_getLast? hlast
      · rename_i t heq
        have hmem := ih t h
        rw [heq] at hdrop
        dsimp only at hdrop
        rw [hdrop] at hmem
        exact List.dropLast_subset _ hmem

theorem fetchLifo_self (s : Queue) (a : FetchArgs) (J K : JobId) (e : Option Nat) (fields : Job)
    (h : (fetchLifo s a J).2 = some (.hash K e fields)) : K = J := by
  unfold fetchLifo at h
  simp only at h
  split at h
  · cases h
  split at h
  · cases h
  · cases h
    rfl

theorem fetchNextForChain_end (s : Queue) (a : FetchArgs) :
    FetchEnd a.serverNow a.timestamp s (fetchNextForChain s a).1 (fetchNextForChain s a).2 := by
  have hpriority := listPhase_fetched (fun u J => fetchPriority_fetched u a J) 3 (.refl s)
  have hkeep := listPhase_list .priority .lifo (fun u J => fetchPriority_cases u a J) (by simp) 3 s
  unfold fetchNextForChain
  split
  · exact .idle (.refl s) (by simp)
  split
  · rename_i t next _ heq
    rw [heq] at hpriority hkeep
    dsimp only at hpriority hkeep ⊢
    cases hpriority with
    | started hidle hkey h =>
      refine .started hidle h rfl (.inl ⟨?_, fun _ => hkeep⟩)
      rw [hkey, h.group, if_pos rfl]
    | idle hidle hnext =>
      obtain rfl := hnext next rfl
      exact .idle hidle (by simp)
  rename_i t priorityEmpty heq
  rw [heq] at hpriority hkeep
  dsimp only at hpriority hkeep ⊢
  cases hpriority with
  | idle hidle _ =>
    have hlifo := listPhase_fetched (fun u J => fetchLifo_fetched u a J) 3 (.refl t)
    have hshort := (listPhase_length (fun u J => fetchLifo_cases u a J) 3 t).2
    have hmem (J : JobId) (e : Option Nat) (fields : Job) :
        (listPhase .lifo (fetchLifo · a) 3 t).2.1 = some (.hash J e fields) → J ∈ t.list .lifo :=
      listPhase_mem (fun u J => fetchLifo_cases u a J) (fun u J => fetchLifo_self u a J) 3 t
    split
    · rename_i u next _ heq'
      rw [heq'] at hlifo hshort hmem
      dsimp only at hlifo hshort hmem ⊢
      rw [hkeep] at hmem
      cases hlifo with
      | started hidle' hkey h =>
        have hlt : u.lifoList.length < t.lifoList.length := hshort (by simp)
        rw [lifoList_of_list hkeep] at hlt
        exact .started (hidle.trans hidle') h rfl
          (.inr ⟨by simpa using hkey, rfl, hlt, hmem _ _ _ rfl⟩)
      | idle hidle' hnext =>
        obtain rfl := hnext next rfl
        exact .idle (hidle.trans hidle') (by simp)
    · rename_i u lifoEmpty heq'
      rw [heq'] at hlifo
      dsimp only at hlifo ⊢
      cases hlifo with
      | idle hidle' _ =>
        have hstream := fetchStream_fetched u a (priorityEmpty && lifoEmpty)
        generalize fetchStream u a (priorityEmpty && lifoEmpty) = r at *
        obtain ⟨v, next⟩ := r
        dsimp only at hstream ⊢
        cases hstream with
        | started hidle'' h =>
          refine .started ((hidle.trans hidle').trans hidle'') h rfl (.inl ⟨h.group.symm, by simp⟩)
        | idle hidle'' hnext => exact .idle ((hidle.trans hidle').trans hidle'') hnext

end

end GlideMq
