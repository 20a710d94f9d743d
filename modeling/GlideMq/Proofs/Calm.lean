import GlideMq.Proofs.Quotas
import GlideMq.Proofs.Frame
import GlideMq.Proofs.Core

/-!
# What leaves the claims alone

A claim is counted in `list-active`, or by its pending entry. Most of what the functions do leaves
both alone, starts no job and charges no group.
-/

namespace GlideMq

open Queue Redis

/-! ## Calm -/

/-- What an active job was claimed from, when, and in which group. -/
def Job.claim (j : Job) : Bool × Option Int × Option GroupKey :=
  (isListSourced j, j.processedOn, j.groupKey)

/-- A job may get this hash: it does not start, and its cost is positive or its own. -/
structure JobCalm (j j' : Job) : Prop where
  active : j'.state = some .active → j.state = some .active ∧ j'.claim = j.claim
  cost : ∀ c, j'.cost = some c → j.cost = some c ∨ 0 < c

/-- And it stays in its group. -/
structure JobKept (j j' : Job) : Prop extends JobCalm j j' where
  group : ∀ gk, j'.groupKey = some gk → j.groupKey = some gk

/-- No claim is counted or given back, and no job starts. -/
structure Counted (s t : Queue) : Prop where
  listActive : t.listActive = s.listActive
  limit : t.globalConcurrency = s.globalConcurrency
  jobs : ∀ J, JobKept (s.job J) (t.job J)

/-- And the stream keeps its entries and its pending records, and the groups their quotas. -/
structure Calm (x : Int) (s t : Queue) : Prop extends Counted s t where
  groups : t.stream.groups = s.stream.groups
  entries : ∀ e ∈ s.stream.entries, e ∈ t.stream.entries
  quotas : ∀ gk, Refilled x (s.groups gk) (t.groups gk)

/-- The keys that calm is about. -/
def Queue.books (s : Queue) : (JobId → Option Job) × Stream JobEntry × Int × Int ×
    (GroupKey → GroupHash) :=
  (s.jobs, s.stream, s.listActive, s.globalConcurrency, fun gk => (s.groups gk).quota)

theorem JobCalm.trans {j j' j'' : Job} (h : JobCalm j j') (h' : JobCalm j' j'') : JobCalm j j'' where
  active hact := by
    obtain ⟨hst', hmark'⟩ := h'.active hact
    obtain ⟨hst, hmark⟩ := h.active hst'
    exact ⟨hst, hmark'.trans hmark⟩
  cost c hc := (h'.cost c hc).elim (h.cost c) .inr

theorem JobKept.refl (j : Job) : JobKept j j := ⟨⟨fun h => ⟨h, rfl⟩, fun _ h => .inl h⟩, fun _ h => h⟩

theorem JobKept.trans {j j' j'' : Job} (h : JobKept j j') (h' : JobKept j' j'') : JobKept j j'' :=
  ⟨h.toJobCalm.trans h'.toJobCalm, fun gk hgk => h.group gk (h'.group gk hgk)⟩

theorem JobKept.idle {j j' : Job} (hst : j'.state ≠ some .active) (hc : j'.cost = j.cost)
    (hgk : j'.groupKey = j.groupKey) : JobKept j j' :=
  ⟨⟨fun h => absurd h hst, fun _ h => .inl (hc ▸ h)⟩, fun _ h => hgk ▸ h⟩

theorem JobKept.touch {j j' : Job} (hst : j'.state = j.state) (hclaim : j'.claim = j.claim)
    (hc : j'.cost = j.cost) : JobKept j j' := by
  have hgk : j'.groupKey = j.groupKey := congrArg (fun c : Bool × Option Int × Option GroupKey => c.2.2) hclaim
  exact ⟨⟨fun h => ⟨hst ▸ h, hclaim⟩, fun _ h => .inl (hc ▸ h)⟩, fun _ h => hgk ▸ h⟩

theorem JobKept.gone (j : Job) : JobKept j {} := ⟨⟨nofun, nofun⟩, nofun⟩

section

variable {x : Int} {s t u : Queue} {J : JobId}

theorem Counted.refl (s : Queue) : Counted s s := ⟨rfl, rfl, fun _ => .refl _⟩

theorem Counted.trans (h : Counted s t) (h' : Counted t u) : Counted s u where
  listActive := h'.listActive.trans h.listActive
  limit := h'.limit.trans h.limit
  jobs J := (h.jobs J).trans (h'.jobs J)

theorem Calm.refl (s : Queue) : Calm x s s :=
  ⟨.refl s, rfl, fun _ he => he, fun _ => .refl _⟩

theorem Calm.trans (h : Calm x s t) (h' : Calm x t u) : Calm x s u :=
  ⟨h.toCounted.trans h'.toCounted, h'.groups.trans h.groups, fun e he =>
    h'.entries e (h.entries e he), fun gk => (h.quotas gk).trans (h'.quotas gk)⟩

theorem Counted.active (h : Counted s t) (ht : t.stateOf J = some .active) :
    s.stateOf J = some .active ∧ (t.job J).claim = (s.job J).claim := by
  rw [stateOf_eq] at ht ⊢
  exact (h.jobs J).active ht

theorem Counted.not_active (h : Counted s t) (hs : s.stateOf J ≠ some .active) :
    t.stateOf J ≠ some .active := fun ht => hs (h.active ht).1

/-! ### Writes -/

theorem Calm.quiet (h : Calm x s t) (hu : u.books = t.books) : Calm x s u := by
  simp only [Queue.books, Prod.mk.injEq] at hu
  obtain ⟨hjobs, hstream, hlist, hlimit, hquota⟩ := hu
  refine h.trans ⟨⟨hlist, hlimit, fun J => ?_⟩, by rw [hstream], fun e he => by rwa [hstream],
    fun gk => .inl (congrFun hquota gk)⟩
  unfold Queue.job
  rw [hjobs]
  exact .refl _

theorem books_hgroup (s : Queue) (gk : GroupKey) {f : GroupHash → GroupHash}
    (hf : ∀ g, (f g).quota = g.quota) : (s.hgroup gk f).books = s.books := by
  unfold Queue.books
  have hquota : (fun k => ((s.hgroup gk f).groups k).quota) = fun k => (s.groups k).quota := by
    funext k
    rw [hgroup_groups, Function.update_apply]
    split
    · rename_i hk
      rw [hk, hf]
    · rfl
  rw [hquota]
  rfl

theorem Calm.hgroup (h : Calm x s t) {gk : GroupKey} {f : GroupHash → GroupHash}
    (hf : ∀ g, (f g).quota = g.quota) : Calm x s (t.hgroup gk f) := h.quiet (books_hgroup t gk hf)

theorem Calm.refill (h : Calm x s t) (gk : GroupKey) : Calm x s (refill t gk x).1 := by
  refine h.trans ⟨⟨rfl, rfl, fun _ => .refl _⟩, rfl, fun _ he => he, fun k => ?_⟩
  unfold GlideMq.refill
  simp only [hgroup_groups, Function.update_apply]
  split
  · rename_i hk
    rw [hk]
    exact refilled_tbRefill _
  · exact .refl _

theorem Calm.update (h : Calm x s t) {j : Option Job} (hj : JobKept (t.job J) (j.getD {})) :
    Calm x s { t with jobs := Function.update t.jobs J j } := by
  refine h.trans ⟨⟨rfl, rfl, fun K => ?_⟩, rfl, fun e he => he, fun _ => .refl _⟩
  unfold Queue.job at *
  by_cases hK : K = J
  · subst hK
    simpa using hj
  · simp only [Function.update_of_ne hK]
    exact .refl _

theorem Calm.hset (h : Calm x s t) {f : Job → Job} (hf : ∀ j, JobKept j (f j)) :
    Calm x s (t.hset J f) := h.update (hf _)

theorem Calm.setState (h : Calm x s t) {st : JobState} (hst : st ≠ .active) :
    Calm x s (t.setState J st) := h.hset fun _ => .idle (fun heq => hst (Option.some.inj heq)) rfl rfl

theorem Calm.hmod (h : Calm x s t) {f : Job → Job} (hf : ∀ j, JobKept j (f j)) :
    Calm x s (t.hmod J f) := by
  refine h.update ?_
  unfold Queue.job
  cases ht : t.jobs J with
  | none => exact .refl _
  | some j => exact hf j

theorem Calm.unlinkJob (h : Calm x s t) : Calm x s (t.unlinkJob J) := h.update (.gone _)

theorem Calm.xadd (h : Calm x s t) (v : JobEntry) : Calm x s { t with stream := t.stream.xadd v } :=
  h.trans ⟨⟨rfl, rfl, fun _ => .refl _⟩, rfl, fun _ he => Stream.mem_entries_xadd.mpr (.inl he),
    fun _ => .refl _⟩

theorem Calm.zaddFailed (h : Calm x s t) {y : Int} : Calm x s (t.zaddFailed J y) := h.quiet rfl

theorem Calm.zremGroupq (h : Calm x s t) {gk : GroupKey} : Calm x s (t.zremGroupq gk J) :=
  h.quiet rfl

theorem Calm.zremReturning (h : Calm x s t) {gk : GroupKey} : Calm x s (t.zremReturning gk J) :=
  h.quiet rfl

theorem Calm.xaddJob (h : Calm x s t) : Calm x s (t.xaddJob J) := h.xadd _

theorem Calm.foldl {α : Type} {f : Queue → α → Queue} {l : List α}
    (hf : ∀ u, ∀ a ∈ l, Calm x u (f u a)) (h : Calm x s t) : Calm x s (l.foldl f t) := by
  induction l generalizing t with
  | nil => exact h
  | cons a l ih =>
    refine ih (fun u y hy => hf u y (List.mem_cons_of_mem a hy)) ?_
    exact h.trans (hf t a List.mem_cons_self)

end

/-! ### Writes to other keys -/

theorem books_markOrderingDone (s : Queue) (J : JobId) (k : Option GroupKey) (n : Option Nat) :
    (markOrderingDone s J k n).books = s.books := by
  unfold markOrderingDone
  simp only
  repeat' split
  all_goals rfl

theorem books_advanceRepeatAfterComplete (s : Queue) (J : JobId) (t : Int) :
    (advanceRepeatAfterComplete s J t).books = s.books := by
  unfold advanceRepeatAfterComplete
  repeat' split
  all_goals rfl

theorem books_noteActivationFailure (s : Queue) (J : JobId) (r : String) :
    (noteActivationFailure s J r).books = s.books := by
  unfold noteActivationFailure
  split <;> rfl

theorem books_advancePastSkips (s : Queue) (gk : GroupKey) (n : Nat) :
    (advancePastSkips s gk n).books = s.books :=
  books_hgroup s gk (f := fun g => { g with skip := (runSkips maxSkipAdvanceSteps g.skip n).1 })
    fun _ => rfl

theorem books_setNextSeq (s : Queue) (gk : GroupKey) (n : Nat) :
    (setNextSeq s gk n).books = s.books :=
  books_hgroup s gk (f := fun g => { g with nextSeq := n }) fun _ => rfl

theorem books_consumeOrderedTombstone (s : Queue) (gk : GroupKey) (n : Nat) (J : JobId) (x : Int) :
    (consumeOrderedTombstone s gk n J x).1.books = s.books := by
  unfold consumeOrderedTombstone
  split
  · rfl
  · refine (books_setNextSeq _ gk _).trans ((books_advancePastSkips _ gk _).trans ?_)
    exact books_markOrderingDone s J _ _

theorem books_skipToNext (s : Queue) (gk : GroupKey) (n : Nat) :
    (skipToNext s gk n).1.books = s.books := by
  unfold skipToNext
  simp only
  split
  · rfl
  split
  · exact (books_setNextSeq _ gk _).trans (books_advancePastSkips _ gk _)
  · exact books_advancePastSkips _ gk _

/-! ## Groups -/

section

variable {x : Int} {s t : Queue} {J : JobId} {gk : GroupKey} {now serverNow : Int}

theorem quota_decrActive (g : GroupHash) : g.decrActive.quota = g.quota := rfl

theorem Calm.clearRetainedSlot (h : Calm x s t) : Calm x s (clearRetainedSlot t J) :=
  h.hmod fun _ => .touch rfl rfl rfl

theorem Calm.closeOrderingHole (h : Calm x s t) : Calm x s (closeOrderingHole t J) := by
  unfold GlideMq.closeOrderingHole
  simp only
  cases ((t.jobs J).getD {}).groupKey with
  | none => exact h
  | some gk =>
    simp only
    split
    · exact h
    · have hskip : Calm x s (t.hgroup gk fun g =>
          { g with skip := g.skip.insert ((t.jobs J).getD {}).orderingSeq }) :=
        h.hgroup fun _ => rfl
      split
      · exact hskip.zremReturning.clearRetainedSlot.hgroup fun _ => rfl
      · exact hskip.zremReturning

theorem Calm.setFailed (h : Calm x s t) {reason : String} {y : Int} :
    Calm x s (t.setFailed J reason y) := h.hset fun _ => .idle nofun rfl rfl

theorem Calm.failOversize (h : Calm x s t) : Calm x s (failOversize t J gk now) := by
  unfold GlideMq.failOversize
  have hmark : Calm x s (GlideMq.markOrderingDone (t.zaddFailed J now) J (some gk)
      (some ((t.zaddFailed J now).job J).orderingSeq)) :=
    h.zaddFailed.quiet (books_markOrderingDone _ _ _ _)
  exact hmark.setFailed.quiet (books_advanceRepeatAfterComplete _ _ _)

theorem Calm.failHead (h : Calm x s t) : Calm x s (failHead t gk J now) := by
  unfold GlideMq.failHead
  have hfail : Calm x s (GlideMq.failOversize (t.zremGroupq gk J) J gk now) :=
    h.zremGroupq.failOversize
  have hnote : Calm x s (noteActivationFailure
      (GlideMq.failOversize (t.zremGroupq gk J) J gk now) J costReason) :=
    hfail.quiet (books_noteActivationFailure _ _ _)
  have hrecord (d : Int) : Calm x s (recordFailed (noteActivationFailure
      (GlideMq.failOversize (t.zremGroupq gk J) J gk now) J costReason) now d) := hnote.quiet rfl
  exact (hrecord _).closeOrderingHole

theorem Calm.peekHead (h : Calm x s t) (tokens : Int) (passes n : Nat) :
    Calm x s (peekHead gk now tokens passes t n).1 := by
  induction passes generalizing t n with
  | zero => exact h
  | succ passes ih =>
    rw [GlideMq.peekHead]
    split
    · exact h
    · rename_i K score _
      split
      · exact ih (h.zremGroupq.quiet (books_consumeOrderedTombstone _ _ _ _ _)) _
      · simp only
        split
        · exact ih h.failHead n
        · split
          · split
            · exact h
            · exact h.quiet rfl
          · exact h

theorem Calm.tokenGate (h : Calm serverNow s t) :
    Calm serverNow s (tokenGate t gk now serverNow).1 := by
  unfold GlideMq.tokenGate
  simp only
  split
  · exact (h.refill gk).peekHead _ 10 _
  · exact h

theorem Calm.promoteJobOfGroup (h : Calm x s t) : Calm x s (promoteJobOfGroup t J) :=
  h.xaddJob.setState nofun

theorem Calm.promoteLoop (h : Calm x s t) (iter left n : Nat) :
    Calm x s (promoteLoop gk iter left t n) := by
  induction iter generalizing left t n with
  | zero => rwa [GlideMq.promoteLoop]
  | succ iter ih =>
    cases left with
    | zero => rwa [GlideMq.promoteLoop]
    | succ left =>
      rw [GlideMq.promoteLoop]
      split
      · exact h
      · simp only
        split
        · exact ih h.zremGroupq (left + 1) n
        · split
          · exact h.quiet rfl
          · exact ih h.zremGroupq.promoteJobOfGroup left _

theorem Calm.promoteFromGroupq (h : Calm serverNow s t) (newActive : Int) :
    Calm serverNow s (promoteFromGroupq t gk newActive now serverNow) := by
  unfold GlideMq.promoteFromGroupq
  simp only
  split
  · exact h
  split
  · exact h
  split
  · exact h.quiet rfl
  have hgate : Calm serverNow s (GlideMq.tokenGate t gk now serverNow).1 := h.tokenGate
  split
  all_goals
    rename_i heq
    rw [heq] at hgate
  · exact hgate
  · exact hgate.quiet rfl
  · exact (hgate.quiet (books_skipToNext _ _ _)).promoteLoop _ _ _

theorem Calm.releaseSlot (h : Calm x s t) : Calm x s (releaseSlot t J gk) := by
  have hclear : Calm x s ((GlideMq.clearRetainedSlot t J).zremReturning gk J) :=
    h.clearRetainedSlot.quiet rfl
  exact hclear.hgroup fun g => quota_decrActive g

theorem Calm.releaseGroupSlotAndPromote (h : Calm serverNow s t) {hint : Option GroupKey} {keepSlot : Bool} :
    Calm serverNow s (releaseGroupSlotAndPromote t J now serverNow hint keepSlot) := by
  unfold GlideMq.releaseGroupSlotAndPromote
  simp only
  split
  · exact h
  · split
    · exact h.promoteFromGroupq _
    · exact h.releaseSlot.promoteFromGroupq _

theorem Calm.closeOrderingHoleAndPromote (h : Calm serverNow s t) :
    Calm serverNow s (closeOrderingHoleAndPromote t J now serverNow) := by
  unfold GlideMq.closeOrderingHoleAndPromote
  simp only
  split
  · exact h.closeOrderingHole
  · split
    · exact h.closeOrderingHole
    · exact h.closeOrderingHole.releaseGroupSlotAndPromote

theorem Calm.markOrderingDone (h : Calm x s t) {k : Option GroupKey} {n : Option Nat} :
    Calm x s (markOrderingDone t J k n) := h.quiet (books_markOrderingDone t J k n)

theorem Calm.advanceRepeatAfterComplete (h : Calm x s t) :
    Calm x s (advanceRepeatAfterComplete t J now) :=
  h.quiet (books_advanceRepeatAfterComplete t J now)

theorem Calm.expireJob (h : Calm serverNow s t) {st : Option JobState} {k g : Option GroupKey}
    {n : Option Nat} : Calm serverNow s (expireJob t J now serverNow st k n g) := by
  unfold GlideMq.expireJob
  split
  · exact h
  have hfail : Calm serverNow s ((t.zaddFailed J now).setFailed J "expired" now) := h.zaddFailed.setFailed
  have hmark : Calm serverNow s (GlideMq.markOrderingDone (GlideMq.advanceRepeatAfterComplete
      ((t.zaddFailed J now).setFailed J "expired" now) J now) J k n) :=
    hfail.advanceRepeatAfterComplete.markOrderingDone
  simp only
  split
  · exact (hmark.releaseGroupSlotAndPromote).quiet rfl
  · exact (hmark.closeOrderingHoleAndPromote).quiet rfl

theorem Calm.checkExpired (h : Calm serverNow s t) : Calm serverNow s (checkExpired t J now serverNow).1 := by
  unfold GlideMq.checkExpired
  split
  · exact h.expireJob
  · exact h

end

/-! ## Parents -/

section

variable {x : Int} {s t : Queue} {J : JobId} {m : DepMember}

theorem Calm.releaseParentIfReady (h : Calm x s t) : Calm x s (releaseParentIfReady t J).1 := by
  unfold GlideMq.releaseParentIfReady
  simp only
  split
  · have hset : Calm x s (t.setState J .waiting) := h.setState nofun
    exact hset.xaddJob
  · exact h

theorem JobKept.markDone (j : Job) (m : DepMember) : JobKept j (j.markDone m) := by
  unfold Job.markDone
  split <;> exact .touch rfl rfl rfl

theorem JobKept.countEarly (j : Job) (m : DepMember) : JobKept j (j.countEarly m) := by
  unfold Job.countEarly Job.markDone
  simp only
  split <;> exact .touch rfl rfl rfl

theorem JobKept.foldl_countEarly (ready : List DepMember) (j : Job) :
    JobKept j (ready.foldl Job.countEarly j) := by
  induction ready generalizing j with
  | nil => exact .refl j
  | cons m ready ih => exact (JobKept.countEarly j m).trans (ih _)

theorem Calm.countEarlyDeps (h : Calm x s t) : Calm x s (countEarlyDeps t J).1 := by
  unfold GlideMq.countEarlyDeps
  simp only
  split
  · exact h
  · exact h.hmod fun j => .foldl_countEarly _ j

theorem Calm.parkEarly (h : Calm x s t) : Calm x s (parkEarly t J m) := by
  unfold GlideMq.parkEarly
  split
  · exact h
  · have hmod := h.hmod (J := J) (f := fun j =>
      { j with depearly := m :: j.depearly, depsEarly := j.depsEarly + 1 }) fun _ => .touch rfl rfl rfl
    exact hmod.quiet rfl

theorem Calm.completeParentDependency (h : Calm x s t) :
    Calm x s (completeParentDependency t J m).1 := by
  unfold GlideMq.completeParentDependency
  simp only
  split
  · exact h
  split
  · exact h.parkEarly
  have hmark : Calm x s ((GlideMq.countEarlyDeps t J).1.hmod J (·.markDone m)) :=
    h.countEarlyDeps.hmod fun j => .markDone j m
  split
  · exact hmark.releaseParentIfReady
  · exact hmark

theorem Calm.enqueueCrossQueueParentNotify (h : Calm x s t) (q : Option QueueName)
    (p : Option JobId) : Calm x s (enqueueCrossQueueParentNotify t J q p).1 := by
  unfold GlideMq.enqueueCrossQueueParentNotify
  split
  · split
    · exact h
    · exact h.quiet rfl
  · exact h

theorem Calm.notifyParent (h : Calm x s t) (q : Option QueueName) (p : Option JobId)
    (ns : List ParentNotify) : Calm x s (notifyParent q p (t, ns) J).1 :=
  h.enqueueCrossQueueParentNotify q p

theorem Calm.enqueueTreeParentNotifies (h : Calm x s t) (q : Option QueueName) (p : Option JobId)
    (replacedIds : List JobId) : Calm x s (enqueueTreeParentNotifies t J q p replacedIds).1 := by
  unfold GlideMq.enqueueTreeParentNotifies
  generalize J :: replacedIds = ids
  suffices hall : ∀ r : Queue × List ParentNotify, Calm x s r.1 →
      Calm x s (ids.foldl (GlideMq.notifyParent q p) r).1 from hall (t, []) h
  induction ids with
  | nil => exact fun _ hr => hr
  | cons K ids ih => exact fun r hr => ih _ (hr.notifyParent q p r.2)

theorem Calm.resolveDagParents (edges : List DepMember) {r : Queue × List ParentNotify}
    (h : Calm x s r.1) : Calm x s (edges.foldl (resolveDagParent J) r).1 := by
  induction edges generalizing r with
  | nil => exact h
  | cons p edges ih =>
    refine ih ?_
    unfold resolveDagParent
    split
    · exact h.completeParentDependency
    · exact h.notifyParent _ _ _

theorem Calm.resolveRemovedChildParents (h : Calm x s t) (edges : ChildParents) :
    Calm x s (resolveRemovedChildParents t J edges).1 := by
  unfold GlideMq.resolveRemovedChildParents
  refine .resolveDagParents _ ?_
  split
  · exact h
  · split
    · exact h.completeParentDependency
    · exact h.enqueueTreeParentNotifies _ _ _

theorem Calm.completeParents (h : Calm x s t) (q : Option QueueName) (p : Option JobId)
    (ns : List ParentNotify) : Calm x s (completeParents t J q p ns).1 := by
  unfold GlideMq.completeParents
  refine .resolveDagParents _ ?_
  dsimp only
  split
  · exact h
  · split
    · exact h.completeParentDependency
    · exact h

end

end GlideMq
