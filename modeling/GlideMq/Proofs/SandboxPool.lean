import GlideMq.Model.SandboxPool
import Mathlib.Tactic.SplitIfs

/-!
# Who holds a sandbox worker

Every thread is in one slot: it is idle, held by one call of `run`, or on its way out. The calls
that hold none wait in the queue, in the order in which they came, or are settled.
-/

namespace GlideMq.Sandbox

/-- What a thread is doing. -/
inductive Slot where
  | absent
  | idle
  | acquired (r : Nat)
  | running (r : Nat)
  /-- Its call was settled and it is about to be released. -/
  | ended
  | leaving
  | gone

def Slot.IsLive : Slot → Prop
  | .absent | .gone => False
  | _ => True

def PoolWorker.IsFree (pw : PoolWorker) : Prop :=
  pw.currentReject = none ∧ pw.currentCleanup = none ∧ pw.listeners = [] ∧ pw.cleaned = false

def PoolWorker.Fits (pw : PoolWorker) : Slot → Prop
  | .absent => pw.listeners = []
  | .idle => pw.busy = false ∧ pw.terminationError = none ∧ pw.IsFree
  | .acquired _ => pw.busy = true ∧ pw.terminationError = none ∧ pw.IsFree
  | .running r =>
    pw.busy = true ∧ pw.currentReject = some r ∧ pw.currentCleanup = some r ∧ pw.listeners = [r] ∧
      pw.cleaned = false
  | .ended => pw.busy = true ∧ pw.currentCleanup = none ∧ pw.listeners = [] ∧ pw.cleaned = false
  | .leaving => pw.busy = true ∧ pw.terminationError.isSome ∧ pw.IsFree
  | .gone => pw.listeners = [] ∧ pw.cleaned = true

section

variable {V : Type} {p : Pool V} {slot : Nat → Slot} {hand : Option Nat} {r : Nat} {w : Nat}

namespace Pool

/-- Threads and calls agree. `hand` is a call that was taken out of the queue, or not put into it
yet. -/
structure Core (p : Pool V) (slot : Nat → Slot) (hand : Option Nat) : Prop where
  fits : ∀ w, (p.worker w).Fits (slot w)
  absent : ∀ w, slot w = .absent ↔ p.spawned ≤ w
  acquired : ∀ r w, (p.run r).phase = .acquired w ↔ slot w = .acquired r
  running : ∀ r w, (p.run r).phase = .running w ↔ slot w = .running r
  waiting : ∀ r, (r ∈ p.waiters ∨ hand = some r) ↔ r < p.runs ∧ (p.run r).phase = .waiting
  apart : ∀ r ∈ p.waiters, hand ≠ some r
  unborn : ∀ r, p.runs ≤ r → (p.run r).phase = .waiting ∧ (p.run r).job.abortSignal = none
  sorted : p.waiters.Pairwise (· < ·)
  microtasks_nodup : p.microtasks.Nodup
  postponed : ∀ r w, (p.run r).phase = .acquired w → r ∈ p.microtasks
  microtasks : ∀ r ∈ p.microtasks, ∃ w, (p.run r).phase = .acquired w
  settled : ∀ r, (p.run r).phase = .settled → (p.run r).outcomes.length = 1
  unsettled : ∀ r, (p.run r).phase ≠ .settled → (p.run r).outcomes = [] ∧ (p.run r).cleaned = false
  timer : ∀ r, (p.run r).graceTimer = true → ∃ w, (p.run r).phase = .running w
  workers_nodup : p.workers.Nodup
  capacity : p.workers.length ≤ p.maxWorkers
  member : ∀ w ∈ p.workers, (slot w).IsLive
  live : p.closed = false → ∀ w, (slot w).IsLive → w ∈ p.workers

/-! ## Giving a worker to a call -/

theorem Core.grant (h : p.Core slot (some r)) (hw : slot w = .idle) :
    (p.grant r w).Core (Function.update slot w (.acquired r)) none := by
  have hidle := h.fits w
  rw [hw] at hidle
  have hr := (h.waiting r).mp (Or.inr rfl)
  obtain ⟨fits, absent, acquired, running, waiting, apart, unborn, sorted, nodup, postponed, microtasks, settled,
    unsettled, timer, workers_nodup, capacity, member, live⟩ := h
  constructor <;> simp only [Pool.grant, modifyWorker, modifyRun, Function.update_apply]
  · intro w'
    split_ifs with hw'
    · subst hw'
      exact ⟨rfl, hidle.2⟩
    · exact fits w'
  · grind
  · grind
  · grind
  · grind
  · grind
  · grind
  · exact sorted
  · grind [List.nodup_append]
  · grind
  · intro r' hr'
    split_ifs with heq
    · exact ⟨w, rfl⟩
    · apply microtasks
      simpa [heq] using hr'
  · grind
  · grind
  · grind
  · exact workers_nodup
  · exact capacity
  · grind [Slot.IsLive]
  · grind [Slot.IsLive]

theorem Core.spawn (h : p.Core slot hand) (hlt : p.workers.length < p.maxWorkers) :
    p.spawn.Core (Function.update slot p.spawned .idle) hand := by
  have habsent := (h.absent p.spawned).mpr (Nat.le_refl _)
  obtain ⟨fits, absent, acquired, running, waiting, apart, unborn, sorted, nodup, postponed, microtasks, settled,
    unsettled, timer, workers_nodup, capacity, member, live⟩ := h
  constructor <;> simp only [Pool.spawn, Function.update_apply]
  · intro w'
    split_ifs
    · exact ⟨rfl, rfl, rfl, rfl, rfl, rfl⟩
    · exact fits w'
  · grind
  · grind
  · grind
  · grind
  · grind
  · grind
  · exact sorted
  · exact nodup
  · grind
  · grind
  · grind
  · grind
  · grind
  · grind [List.nodup_append, Slot.IsLive]
  · simpa using Nat.succ_le_of_lt hlt
  · grind [Slot.IsLive]
  · grind [Slot.IsLive]

theorem Core.enqueue (h : p.Core slot (some r)) (hlast : ∀ r' ∈ p.waiters, r' < r) :
    Core { p with waiters := p.waiters ++ [r] } slot none := by
  refine { h with waiting := ?_, apart := by simp, sorted := ?_ }
  · intro r'
    have hiff := h.waiting r'
    grind
  · exact List.pairwise_append.mpr ⟨h.sorted, by simp, by simpa using hlast⟩

theorem Core.take {rest : List Nat} (h : p.Core slot none) (hq : p.waiters = r :: rest) :
    Core { p with waiters := rest } slot (some r) := by
  have hsorted := h.sorted
  rw [hq, List.pairwise_cons] at hsorted
  refine { h with waiting := ?_, apart := ?_, sorted := hsorted.2 }
  · intro r'
    have hiff := h.waiting r'
    grind
  · rintro r' hr' heq
    exact absurd (Option.some.inj heq) (Nat.ne_of_lt (hsorted.1 r' hr'))

theorem Core.settle_hand (h : p.Core slot (some r)) (o : Outcome V) : (p.settle r o).Core slot none := by
  have hr := (h.waiting r).mp (Or.inr rfl)
  obtain ⟨fits, absent, acquired, running, waiting, apart, unborn, sorted, nodup, postponed, microtasks, settled,
    unsettled, timer, workers_nodup, capacity, member, live⟩ := h
  constructor <;> simp only [Pool.settle, modifyRun, Function.update_apply]
  · exact fits
  · exact absent
  · grind
  · grind
  · grind
  · grind
  · grind
  · exact sorted
  · exact nodup
  · grind
  · grind
  · grind
  · grind
  · grind
  · exact workers_nodup
  · exact capacity
  · exact member
  · exact live

theorem Core.begin (h : p.Core slot none) (job : Job V) :
    Core { p with runs := p.runs + 1, run := Function.update p.run p.runs { job } } slot (some p.runs) := by
  have hunborn := h.unborn p.runs (Nat.le_refl _)
  obtain ⟨fits, absent, acquired, running, waiting, apart, unborn, sorted, nodup, postponed, microtasks, settled,
    unsettled, timer, workers_nodup, capacity, member, live⟩ := h
  constructor <;> simp only [Function.update_apply]
  · exact fits
  · exact absent
  · grind
  · grind
  · grind
  · grind
  · grind
  · exact sorted
  · exact nodup
  · grind
  · grind
  · grind
  · grind
  · grind
  · exact workers_nodup
  · exact capacity
  · exact member
  · exact live

/-! ## The end of a call -/

theorem Core.finish (h : p.Core slot none) (hw : slot w = .running r) (o : Outcome V) :
    ((p.cleanup r w).settle r o).Core (Function.update slot w .ended) none := by
  -- The call of a thread is settled. What is left of the thread is its release.
  have hrun := h.fits w
  have hphase := (h.running r w).mpr hw
  rw [hw] at hrun
  have hcleaned := (h.unsettled r (by simp [hphase])).2
  obtain ⟨fits, absent, acquired, running, waiting, apart, unborn, sorted, nodup, postponed, microtasks, settled,
    unsettled, timer, workers_nodup, capacity, member, live⟩ := h
  rw [cleanup, if_neg (by simp [hcleaned])]
  constructor <;> simp only [Pool.settle, modifyRun, modifyWorker, Function.update_apply]
  · intro w'
    split_ifs with hw'
    · subst hw'
      obtain ⟨hbusy, hreject, hcleanup, hlisteners, hlive⟩ := hrun
      exact ⟨hbusy, rfl, by simp [hlisteners], hlive⟩
    · exact fits w'
  · grind
  · grind
  · grind
  · grind
  · grind
  · grind
  · exact sorted
  · exact nodup
  · grind
  · grind
  · grind
  · grind
  · grind
  · exact workers_nodup
  · exact capacity
  · grind [Slot.IsLive]
  · grind [Slot.IsLive]

theorem Core.finish_acquired {rest : List Nat} (h : p.Core slot none) (hw : slot w = .acquired r)
    (hq : p.microtasks = r :: rest) (o : Outcome V) :
    (settle { p with microtasks := rest } r o).Core (Function.update slot w .ended) none := by
  have hphase := (h.acquired r w).mpr hw
  have hfree := h.fits w
  rw [hw] at hfree
  obtain ⟨fits, absent, acquired, running, waiting, apart, unborn, sorted, nodup, postponed, microtasks, settled,
    unsettled, timer, workers_nodup, capacity, member, live⟩ := h
  rw [hq, List.nodup_cons] at nodup
  constructor <;> simp only [Pool.settle, modifyRun, Function.update_apply]
  · intro w'
    split_ifs with hw'
    · subst hw'
      obtain ⟨hbusy, hterm, hreject, hcleanup, hlisteners, hlive⟩ := hfree
      exact ⟨hbusy, hcleanup, hlisteners, hlive⟩
    · exact fits w'
  · grind
  · grind
  · grind
  · grind
  · grind
  · grind
  · exact sorted
  · exact nodup.2
  · grind
  · grind
  · grind
  · grind
  · grind
  · exact workers_nodup
  · exact capacity
  · grind [Slot.IsLive]
  · grind [Slot.IsLive]

theorem Core.set_worker {s : Slot} {f : PoolWorker → PoolWorker} (h : p.Core slot hand)
    (hw : slot w = .ended) (hs : s = .idle ∨ s = .leaving) (hfits : (f (p.worker w)).Fits s) :
    (p.modifyWorker w f).Core (Function.update slot w s) hand := by
  obtain ⟨fits, absent, acquired, running, waiting, apart, unborn, sorted, nodup, postponed, microtasks, settled,
    unsettled, timer, workers_nodup, capacity, member, live⟩ := h
  constructor <;> simp only [modifyWorker, Function.update_apply]
  · intro w'
    split_ifs with hw'
    · exact hfits
    · exact fits w'
  · grind
  · grind
  · grind
  · grind
  · grind
  · grind
  · exact sorted
  · exact nodup
  · grind
  · grind
  · grind
  · grind
  · grind
  · exact workers_nodup
  · exact capacity
  · grind [Slot.IsLive]
  · grind [Slot.IsLive]

theorem Core.modify_run {f : Run V → Run V} (h : p.Core slot hand) (hphase : (f (p.run r)).phase = (p.run r).phase)
    (houtcomes : (f (p.run r)).outcomes = (p.run r).outcomes) (hcleaned : (f (p.run r)).cleaned = (p.run r).cleaned)
    (htimer : (f (p.run r)).graceTimer = true → ∃ w, (p.run r).phase = .running w)
    (hsignal : (p.run r).job.abortSignal = none → (f (p.run r)).job.abortSignal = none) :
    (p.modifyRun r f).Core slot hand := by
  obtain ⟨fits, absent, acquired, running, waiting, apart, unborn, sorted, nodup, postponed, microtasks, settled,
    unsettled, timer, workers_nodup, capacity, member, live⟩ := h
  constructor <;> simp only [modifyRun, Function.update_apply]
  · exact fits
  · exact absent
  · grind
  · grind
  · grind
  · exact apart
  · grind
  · exact sorted
  · exact nodup
  · grind
  · grind
  · grind
  · grind
  · grind
  · exact workers_nodup
  · exact capacity
  · exact member
  · exact live

/-! ## Releasing a worker -/

/-- Nobody waits while a worker is idle or could be spawned, and nobody waits for a closed pool. -/
def Full (p : Pool V) : Prop :=
  p.waiters ≠ [] → p.closed = false ∧ p.maxWorkers ≤ p.workers.length ∧ ∀ w ∈ p.workers, (p.worker w).busy = true

/-- The state between two events. -/
def Ok (p : Pool V) : Prop := ∃ slot, p.Core slot none ∧ (∀ w, slot w ≠ .ended) ∧ p.Full

theorem modifyWorker_modifyWorker (f g : PoolWorker → PoolWorker) :
    (p.modifyWorker w f).modifyWorker w g = p.modifyWorker w (g ∘ f) := by
  simp [modifyWorker]

theorem release_modifyRun (f : Run V → Run V) (hr : r ∉ p.waiters) :
    (p.release w).modifyRun r f = (p.modifyRun r f).release w := by
  unfold release
  simp only [modifyRun, modifyWorker, grant, Function.update_self]
  split
  · rfl
  · cases hq : p.waiters with
    | nil => simp
    | cons r' rest =>
      have hne : r ≠ r' := by
        rintro rfl
        simp [hq] at hr
      simp [Function.update_comm hne, Function.update_of_ne hne, Function.update_of_ne (Ne.symm hne)]

theorem Core.release_ok (h : p.Core slot none) (hw : slot w = .ended) (hothers : ∀ w', w' ≠ w → slot w' ≠ .ended)
    (hfull : p.Full) : (p.release w).Ok := by
  have hended := h.fits w
  rw [hw] at hended
  obtain ⟨hbusy, hcleanup, hlisteners, hlive⟩ := hended
  unfold release
  simp only [modifyWorker_modifyWorker]
  split
  · rename_i hterm
    have hterm' : (p.worker w).terminationError.isSome := by simpa [modifyWorker] using hterm
    refine ⟨_, h.set_worker hw (Or.inr rfl) ⟨hbusy, hterm', rfl, hcleanup, hlisteners, hlive⟩, ?_, ?_⟩
    · intro w'
      by_cases hw' : w' = w
      · simp [hw']
      · simpa [hw'] using hothers w' hw'
    · intro hq
      refine ⟨(hfull hq).1, (hfull hq).2.1, fun w' hmem => ?_⟩
      have hbusy' := (hfull hq).2.2 w' hmem
      by_cases hw' : w' = w
      · simpa [modifyWorker, hw'] using hbusy
      · simpa [modifyWorker, hw'] using hbusy'
  · rename_i hterm
    have hterm' : (p.worker w).terminationError = none := by simpa [modifyWorker] using hterm
    have hidle := h.set_worker (f := fun pw : PoolWorker => { pw with currentReject := none, busy := false }) hw
      (Or.inl rfl) ⟨rfl, hterm', rfl, hcleanup, hlisteners, hlive⟩
    cases hq : p.waiters with
    | nil =>
      refine ⟨_, by simpa [modifyWorker, hq] using hidle, ?_, ?_⟩
      · intro w'
        by_cases hw' : w' = w
        · simp [hw']
        · simpa [hw'] using hothers w' hw'
      · intro hne
        simp [modifyWorker, hq] at hne
    | cons r rest =>
      have hgrant := (hidle.take (r := r) hq).grant (w := w) (by simp)
      refine ⟨_, by simpa [modifyWorker, hq] using hgrant, ?_, ?_⟩
      · intro w'
        by_cases hw' : w' = w
        · simp [hw']
        · simpa [hw'] using hothers w' hw'
      · intro _
        have hq' : p.waiters ≠ [] := by simp [hq]
        refine ⟨?_, ?_, ?_⟩
        · simpa [modifyWorker, hq, Pool.grant, modifyRun] using (hfull hq').1
        · simpa [modifyWorker, hq, Pool.grant, modifyRun] using (hfull hq').2.1
        · intro w' hmem
          by_cases hw' : w' = w
          · simp [modifyWorker, hq, Pool.grant, modifyRun, hw']
          · simp only [modifyWorker, hq, Pool.grant, modifyRun] at hmem ⊢
            simpa [hw'] using (hfull hq').2.2 w' hmem

/-! ## The end of a thread -/

theorem Core.retire {f : PoolWorker → PoolWorker} (h : p.Core slot hand)
    (hw : slot w = .idle ∨ slot w = .leaving ∨ slot w = .ended) (hfits : (f (p.worker w)).Fits .gone) :
    Core { p.modifyWorker w f with workers := p.workers.erase w } (Function.update slot w .gone) hand := by
  obtain ⟨fits, absent, acquired, running, waiting, apart, unborn, sorted, nodup, postponed, microtasks, settled,
    unsettled, timer, workers_nodup, capacity, member, live⟩ := h
  constructor <;> simp only [modifyWorker, Function.update_apply]
  · intro w'
    split_ifs with hw'
    · exact hfits
    · exact fits w'
  · grind
  · grind
  · grind
  · grind
  · grind
  · grind
  · exact sorted
  · exact nodup
  · grind
  · grind
  · grind
  · grind
  · grind
  · exact workers_nodup.erase w
  · exact (List.length_erase_le).trans capacity
  · intro w' hmem
    rw [workers_nodup.mem_erase_iff] at hmem
    rw [if_neg hmem.1]
    exact member w' hmem.2
  · intro hclosed w' hlive
    rw [workers_nodup.mem_erase_iff]
    split_ifs at hlive with hw'
    · exact hlive.elim
    · exact ⟨hw', live hclosed w' hlive⟩

/-- What is left when the end of a thread was seen, before a waiter gets a new one. -/
def retired (p : Pool V) (w : Nat) (error : JSError) : Pool V :=
  match (p.worker w).currentReject with
  | some r =>
    { ((p.cleanup r w).reject r ((p.worker w).terminationError.getD error)).modifyWorker w
        fun pw => { pw with cleaned := true, currentReject := none } with
      workers := p.workers.erase w }
  | none => { p.modifyWorker w fun pw => { pw with cleaned := true } with workers := p.workers.erase w }

theorem Core.removeAndCleanup_eq (h : p.Core slot none) (hw : w < p.spawned)
    (hheld : ∀ r, slot w ≠ .acquired r) (hended : slot w ≠ .ended) (error : JSError) :
    p.removeAndCleanup w error = p ∧ slot w = .gone ∨
      p.removeAndCleanup w error = (p.retired w error).wakeWaiter ∧ (slot w).IsLive ∧
        (p.retired w error).Core (Function.update slot w .gone) none := by
  have hfits := h.fits w
  cases hslot : slot w with
  | absent => exact absurd ((h.absent w).mp hslot) (Nat.not_le_of_lt hw)
  | acquired r => exact absurd hslot (hheld r)
  | ended => exact absurd hslot hended
  | gone =>
    left
    rw [hslot] at hfits
    exact ⟨by simp [removeAndCleanup, hfits.2], rfl⟩
  | idle =>
    right
    rw [hslot] at hfits
    obtain ⟨hbusy, hterm, hreject, hcleanup, hlisteners, hcleaned⟩ := hfits
    refine ⟨?_, trivial, ?_⟩
    · simp [removeAndCleanup, callCurrentCleanup, callCurrentReject, retired, modifyWorker, hcleaned, hcleanup, hreject]
    · simp only [retired, hreject]
      exact h.retire (Or.inl hslot) ⟨hlisteners, rfl⟩
  | leaving =>
    right
    rw [hslot] at hfits
    obtain ⟨hbusy, hterm, hreject, hcleanup, hlisteners, hcleaned⟩ := hfits
    refine ⟨?_, trivial, ?_⟩
    · simp [removeAndCleanup, callCurrentCleanup, callCurrentReject, retired, modifyWorker, hcleaned, hcleanup, hreject]
    · simp only [retired, hreject]
      exact h.retire (Or.inr (Or.inl hslot)) ⟨hlisteners, rfl⟩
  | running r =>
    right
    rw [hslot] at hfits
    obtain ⟨hbusy, hreject, hcleanup, hlisteners, hcleaned⟩ := hfits
    have hphase := (h.running r w).mpr hslot
    have hrun := (h.unsettled r (by simp [hphase])).2
    have hfinish := h.finish hslot (.rejected ((p.worker w).terminationError.getD error))
    refine ⟨?_, trivial, ?_⟩
    · simp [removeAndCleanup, callCurrentCleanup, callCurrentReject, retired, reject, settle, cleanup, modifyWorker,
        modifyRun, hcleaned, hcleanup, hreject, hrun]
    · have hretire := hfinish.retire (w := w) (f := fun pw : PoolWorker => { pw with cleaned := true, currentReject := none })
        (Or.inr (Or.inr (by simp))) ⟨by simp [cleanup, hrun, settle, modifyRun, modifyWorker, hlisteners], rfl⟩
      have hworkers : ((p.cleanup r w).settle r (.rejected ((p.worker w).terminationError.getD error))).workers =
          p.workers := by simp [cleanup, hrun, settle, modifyRun, modifyWorker]
      simp only [retired, hreject, reject]
      rw [hworkers] at hretire
      simpa using hretire

section

variable (p : Pool V) (w : Nat) (error : JSError)

@[simp] theorem cleanup_fields (r : Nat) (w : Nat) : (p.cleanup r w).waiters = p.waiters ∧
    (p.cleanup r w).closed = p.closed ∧ (p.cleanup r w).workers = p.workers ∧
    (p.cleanup r w).maxWorkers = p.maxWorkers ∧ (p.cleanup r w).microtasks = p.microtasks := by
  unfold cleanup
  split <;> exact ⟨rfl, rfl, rfl, rfl, rfl⟩

theorem cleanup_busy (r : Nat) (w w' : Nat) : ((p.cleanup r w).worker w').busy = (p.worker w').busy := by
  unfold cleanup
  split
  · rfl
  · by_cases hw : w' = w
    · simp [modifyWorker, modifyRun, hw]
    · simp [modifyWorker, modifyRun, hw]

@[simp] theorem retired_waiters : (p.retired w error).waiters = p.waiters := by
  unfold retired
  split
  · exact (cleanup_fields p _ w).1
  · rfl

@[simp] theorem retired_closed : (p.retired w error).closed = p.closed := by
  unfold retired
  split
  · exact (cleanup_fields p _ w).2.1
  · rfl

@[simp] theorem retired_workers : (p.retired w error).workers = p.workers.erase w := by
  unfold retired
  split <;> rfl

@[simp] theorem retired_maxWorkers : (p.retired w error).maxWorkers = p.maxWorkers := by
  unfold retired
  split
  · exact (cleanup_fields p _ w).2.2.2.1
  · rfl

theorem retired_busy (w' : Nat) : ((p.retired w error).worker w').busy = (p.worker w').busy := by
  unfold retired
  split
  · rename_i r _
    have hbusy := cleanup_busy p r w w'
    by_cases hw : w' = w
    · subst hw
      simpa [modifyWorker, reject, settle, modifyRun] using hbusy
    · simpa [modifyWorker, reject, settle, modifyRun, hw] using hbusy
  · by_cases hw : w' = w
    · simp [modifyWorker, hw]
    · simp [modifyWorker, hw]

end

theorem Full.closed (h : p.Full) (hclosed : p.closed = true) : p.waiters = [] := by
  by_contra hq
  exact absurd (h hq).1 (by simp [hclosed])

theorem removeAndCleanup_ok (h : p.Ok) (hq : p.microtasks = []) (hw : w < p.spawned) (error : JSError) :
    (p.removeAndCleanup w error).Ok := by
  obtain ⟨slot, hcore, hended, hfull⟩ := h
  have hheld : ∀ r, slot w ≠ .acquired r := by
    intro r hslot
    have hmem := hcore.postponed r w ((hcore.acquired r w).mpr hslot)
    simp [hq] at hmem
  rcases hcore.removeAndCleanup_eq hw hheld (hended w) error with ⟨heq, -⟩ | ⟨heq, hlive, hretired⟩
  · rw [heq]
    exact ⟨slot, hcore, hended, hfull⟩
  rw [heq]
  have hended' : ∀ w', Function.update slot w .gone w' ≠ .ended := by
    intro w'
    by_cases hw' : w' = w
    · simp [hw']
    · simpa [hw'] using hended w'
  have hnobody : p.waiters = [] → (p.retired w error).Ok := by
    intro hwaiters
    exact ⟨_, hretired, hended', fun hne => absurd hwaiters (by simpa using hne)⟩
  unfold wakeWaiter
  cases hclosed : p.closed with
  | true =>
    simp only [retired_closed, hclosed, if_true]
    exact hnobody (hfull.closed hclosed)
  | false =>
    simp only [retired_closed, hclosed, Bool.false_eq_true, if_false, retired_waiters]
    cases hwaiters : p.waiters with
    | nil => exact hnobody hwaiters
    | cons r rest =>
      obtain ⟨-, hmax, hbusy⟩ := hfull (by simp [hwaiters])
      have hmem : w ∈ p.workers := hcore.live hclosed w hlive
      have hlength : (p.workers.erase w).length + 1 = p.workers.length := List.length_erase_add_one hmem
      have hspawn := hretired.spawn (by simpa using by have := hcore.capacity; omega)
      have hhead : (p.retired w error).spawn.waiters = r :: rest := by simpa [spawn] using hwaiters
      have hgrant := (hspawn.take hhead).grant (w := (p.retired w error).spawned) (by simp)
      refine ⟨_, hgrant, ?_, ?_⟩
      · intro w'
        by_cases hw' : w' = (p.retired w error).spawned
        · simp [hw']
        · simpa [hw'] using hended' w'
      · intro _
        refine ⟨by simpa [Pool.grant, modifyRun, modifyWorker, spawn] using hclosed, ?_, ?_⟩
        · simp only [Pool.grant, modifyRun, modifyWorker, spawn, retired_workers, retired_maxWorkers,
            List.length_append, List.length_singleton]
          omega
        · intro w' hmem'
          simp only [Pool.grant, modifyRun, modifyWorker, spawn, retired_workers, List.mem_append,
            List.mem_singleton] at hmem' ⊢
          by_cases hw' : w' = (p.retired w error).spawned
          · simp [hw']
          · have hold := hbusy w' (List.mem_of_mem_erase (hmem'.resolve_right hw'))
            simpa [hw', retired_busy] using hold

/-! ## Calls, signals and timers -/

theorem Ok.start_run (h : p.Ok) (job : Job V) : (p.startRun job).Ok := by
  obtain ⟨slot, hcore, hended, hfull⟩ := h
  have hbegin := hcore.begin job
  have hlast : ∀ r ∈ p.waiters, r < p.runs := fun r hr => ((hcore.waiting r).mp (Or.inl hr)).1
  unfold startRun
  simp only
  split
  · exact ⟨slot, hbegin.settle_hand _, hended, hfull⟩
  split
  · exact ⟨slot, hbegin.settle_hand _, hended, hfull⟩
  rename_i hclosed _
  unfold acquire
  split
  · rename_i w hidle
    have hmem := List.mem_of_find?_eq_some hidle
    have hbusy : (p.worker w).busy = false := by simpa using List.find?_some hidle
    have hslot : slot w = .idle := by
      have hlive := hcore.member w hmem
      have hfits := hcore.fits w
      cases hs : slot w with
      | idle => rfl
      | absent | gone => simp [hs, Slot.IsLive] at hlive
      | acquired _ | running _ | ended | leaving => simp [hs, PoolWorker.Fits, hbusy] at hfits
    refine ⟨_, hbegin.grant hslot, ?_, ?_⟩
    · intro w'
      by_cases hw' : w' = w
      · simp [hw']
      · simpa [hw'] using hended w'
    · intro hq
      have hall := (hfull hq).2.2 w hmem
      simp [hbusy] at hall
  rename_i hnone
  split
  · rename_i hlt
    refine ⟨_, (hbegin.spawn hlt).grant (w := p.spawned) (by simp), ?_, ?_⟩
    · intro w'
      by_cases hw' : w' = p.spawned
      · simp [hw']
      · simpa [hw'] using hended w'
    · intro hq
      have hmax := (hfull hq).2.1
      exact absurd hlt (by simpa using hmax)
  · rename_i hlt
    refine ⟨slot, hbegin.enqueue hlast, hended, ?_⟩
    intro _
    refine ⟨by simpa using hclosed, by simpa using hlt, ?_⟩
    intro w hmem
    simpa using List.find?_eq_none.mp hnone w hmem

theorem Core.process {rest : List Nat} (h : p.Core slot none) (hw : slot w = .acquired r)
    (hq : p.microtasks = r :: rest) (haborted : (p.run r).job.aborted = false) :
    (Pool.process { p with microtasks := rest } r w).Core (Function.update slot w (.running r)) none := by
  have hphase := (h.acquired r w).mpr hw
  have hfree := h.fits w
  rw [hw] at hfree
  obtain ⟨fits, absent, acquired, running, waiting, apart, unborn, sorted, nodup, postponed, microtasks, settled,
    unsettled, timer, workers_nodup, capacity, member, live⟩ := h
  rw [hq, List.nodup_cons] at nodup
  have hsame : ∀ x y : Pool V, (if (p.run r).job.aborted then x else y) = y := by simp [haborted]
  unfold Pool.process
  simp only [modifyRun, modifyWorker, send, Function.update_self, hsame]
  constructor <;> simp only [Function.update_apply]
  · intro w'
    split_ifs with hw'
    · obtain ⟨hbusy, hterm, hreject, hcleanup, hlisteners, hlive⟩ := hfree
      exact ⟨hbusy, rfl, rfl, by simp [hlisteners], hlive⟩
    · exact fits w'
  · grind
  · grind
  · grind
  · grind
  · grind
  · grind
  · exact sorted
  · exact nodup.2
  · grind
  · grind
  · grind
  · grind
  · grind
  · exact workers_nodup
  · exact capacity
  · grind [Slot.IsLive]
  · grind [Slot.IsLive]

theorem Ok.resume (h : p.Ok) : p.resume.Ok := by
  obtain ⟨slot, hcore, hended, hfull⟩ := h
  unfold Pool.resume
  split
  · exact ⟨slot, hcore, hended, hfull⟩
  rename_i r rest hq
  obtain ⟨w, hphase⟩ := hcore.microtasks r (by simp [hq])
  have hslot := (hcore.acquired r w).mp hphase
  simp only [resumeRun, hphase]
  cases haborted : (p.run r).job.aborted with
  | true =>
    have hwaiters : r ∉ p.waiters := by
      intro hr
      have hwaiting := ((hcore.waiting r).mp (Or.inl hr)).2
      simp [hphase] at hwaiting
    have hrelease := (hcore.finish_acquired hslot hq (.rejected abortedError)).release_ok (w := w) (by simp)
      (fun w' hw' => by simpa [hw'] using hended w') hfull
    simp only [if_true]
    rw [reject, settle, release_modifyRun (p := { p with microtasks := rest }) _ hwaiters]
    exact hrelease
  | false =>
    simp only [Bool.false_eq_true, if_false]
    refine ⟨_, hcore.process hslot hq haborted, ?_, ?_⟩
    · intro w'
      by_cases hw' : w' = w
      · simp [hw']
      · simpa [hw'] using hended w'
    · have hsame : ∀ x y : Pool V, (if (p.run r).job.aborted then x else y) = y := by simp [haborted]
      intro hne
      unfold Pool.process at hne ⊢
      simp only [modifyRun, modifyWorker, send, Function.update_self, hsame] at hne ⊢
      refine ⟨(hfull hne).1, (hfull hne).2.1, fun w' hmem => ?_⟩
      have hbusy := (hfull hne).2.2 w' hmem
      by_cases hw' : w' = w
      · subst hw'
        simpa using hbusy
      · simpa [hw'] using hbusy

theorem Ok.modify_job {f : Job V → Job V} (h : p.Ok)
    (hsignal : (p.run r).job.abortSignal = none → (f (p.run r).job).abortSignal = none) : (p.modifyJob r f).Ok := by
  obtain ⟨slot, hcore, hended, hfull⟩ := h
  exact ⟨slot, hcore.modify_run rfl rfl rfl (hcore.timer r) hsignal, hended, hfull⟩

theorem Ok.send (h : p.Ok) (w : Nat) (m : MainToChild V) : (p.send w m).Ok := by
  obtain ⟨slot, hcore, hended, hfull⟩ := h
  exact ⟨slot, { hcore with }, hended, hfull⟩

theorem Ok.with_proxies (h : p.Ok) (proxies : List (Proxy V)) : Ok { p with proxies } := by
  obtain ⟨slot, hcore, hended, hfull⟩ := h
  exact ⟨slot, { hcore with }, hended, hfull⟩

theorem Core.leave (h : p.Core slot none) (hr : r ∈ p.waiters) :
    Core { p with waiters := p.waiters.erase r } slot (some r) := by
  have hnodup : p.waiters.Nodup := h.sorted.imp (fun hlt => Nat.ne_of_lt hlt)
  refine { h with waiting := ?_, apart := ?_, sorted := h.sorted.sublist List.erase_sublist }
  · intro r'
    have hiff := h.waiting r'
    simp only [hnodup.mem_erase_iff]
    grind
  · rintro r' hr' heq
    rw [hnodup.mem_erase_iff] at hr'
    exact hr'.1 (Option.some.inj heq).symm

theorem Ok.abort (h : p.Ok) (r : Nat) : (p.abort r).Ok := by
  unfold Pool.abort
  split
  · rename_i hsignal
    have hjob : (p.modifyJob r fun job => { job with abortSignal := some true }).Ok :=
      h.modify_job (by simp [hsignal])
    simp only
    split
    · rename_i hphase
      obtain ⟨slot, hcore, hended, hfull⟩ := hjob
      have hruns : r < p.runs := by
        by_contra hle
        have hnone := (hcore.unborn r (Nat.le_of_not_lt hle)).2
        simp [modifyJob, modifyRun] at hnone
      have hr := (hcore.waiting r).mpr ⟨hruns, hphase⟩
      simp only [reduceCtorEq, or_false] at hr
      refine ⟨slot, (hcore.leave hr).settle_hand _, hended, ?_⟩
      intro hne
      exact hfull (List.ne_nil_of_mem hr)
    · rename_i w hphase
      obtain ⟨slot, hcore, hended, hfull⟩ := hjob.send w (.abort (p.run r).invocationId)
      refine ⟨slot, ?_, hended, hfull⟩
      unfold abortHandler
      have hid : ((p.modifyJob r fun job => { job with abortSignal := some true }).run r).invocationId =
          (p.run r).invocationId := by simp [modifyJob, modifyRun]
      rw [hid]
      exact hcore.modify_run rfl rfl rfl (fun _ => ⟨w, hphase⟩) (fun hnone => hnone)
    · exact hjob
  · exact h

theorem Ok.grace_expired (h : p.Ok) (r : Nat) : (p.graceExpired r).Ok := by
  unfold graceExpired
  split
  · obtain ⟨slot, hcore, hended, hfull⟩ := h
    have htimer : (p.modifyRun r fun x => { x with graceTimer := false }).Core slot none :=
      hcore.modify_run rfl rfl rfl (by simp) (fun hnone => hnone)
    simp only
    split
    · rename_i w hphase
      split
      · exact ⟨slot, htimer, hended, hfull⟩
      · have hslot := (htimer.running r w).mp hphase
        refine ⟨slot, { htimer with fits := ?_ }, hended, ?_⟩
        · intro w'
          have hfits := htimer.fits w'
          by_cases hw' : w' = w
          · subst hw'
            rw [hslot] at hfits ⊢
            simpa [terminate, modifyWorker, PoolWorker.Fits] using hfits
          · simpa [terminate, modifyWorker, hw'] using hfits
        · intro hne
          refine ⟨(hfull hne).1, (hfull hne).2.1, fun w' hmem => ?_⟩
          have hbusy := (hfull hne).2.2 w' hmem
          by_cases hw' : w' = w
          · subst hw'
            simpa [terminate, modifyWorker, modifyRun] using hbusy
          · simpa [terminate, modifyWorker, modifyRun, hw'] using hbusy
    · exact ⟨slot, htimer, hended, hfull⟩
  · exact h

/-! ## Messages -/

theorem Core.listeners (h : p.Core slot none) (hended : ∀ w, slot w ≠ .ended) (w : Nat) :
    (p.worker w).listeners = [] ∨
      ∃ r, slot w = .running r ∧ (p.worker w).listeners = [r] := by
  have hfits := h.fits w
  cases hs : slot w with
  | running r =>
    rw [hs] at hfits
    exact Or.inr ⟨r, rfl, hfits.2.2.2.1⟩
  | ended => exact absurd hs (hended w)
  | absent =>
    rw [hs] at hfits
    exact Or.inl hfits
  | gone =>
    rw [hs] at hfits
    exact Or.inl hfits.1
  | idle | acquired _ | leaving =>
    rw [hs] at hfits
    exact Or.inl hfits.2.2.2.2.1

theorem Core.finish_release (h : p.Core slot none) (hended : ∀ w, slot w ≠ .ended) (hfull : p.Full)
    (hw : slot w = .running r) (f : Job V → Job V)
    (hsignal : ∀ job, job.abortSignal = none → (f job).abortSignal = none) (o : Outcome V) :
    ((((p.cleanup r w).release w).modifyJob r f).settle r o).Ok := by
  -- A call is settled by the answer of its thread, which is released.
  have hphase := (h.running r w).mpr hw
  have hwaiters : r ∉ (p.cleanup r w).waiters := by
    rw [(cleanup_fields p r w).1]
    intro hr
    have hwaiting := ((h.waiting r).mp (Or.inl hr)).2
    simp [hphase] at hwaiting
  have hswap : ((((p.cleanup r w).release w).modifyJob r f).settle r o) =
      ((((p.cleanup r w).settle r o).modifyJob r f).release w) := by
    rw [modifyJob, settle, release_modifyRun _ hwaiters, release_modifyRun _ (by simpa [modifyRun] using hwaiters)]
    simp [settle, modifyJob, modifyRun]
  rw [hswap]
  have hfinish := h.finish hw o
  refine (hfinish.modify_run rfl rfl rfl (hfinish.timer r) (hsignal _)).release_ok (w := w) (by simp)
    (fun w' hw' => by simpa [hw'] using hended w') ?_
  intro hne
  obtain ⟨hq, hclosed, hworkers, hmax, -⟩ := cleanup_fields p r w
  have hfull' := hfull (by simpa [settle, modifyRun, hq] using hne)
  refine ⟨by simpa [settle, modifyRun, hclosed] using hfull'.1,
    by simpa [settle, modifyRun, hworkers, hmax] using hfull'.2.1, fun w' hmem => ?_⟩
  have hbusy := hfull'.2.2 w' (by simpa [settle, modifyRun, hworkers] using hmem)
  simpa [settle, modifyRun, cleanup_busy] using hbusy

theorem Ok.handle_proxy_request (h : p.Ok) (w : Nat) (r : Nat) (id : String) (method : Method V) :
    (p.handleProxyRequest w r id method).Ok := by
  have hcall : ∀ call : JobCall V, (p.startCall w r id call).Ok := fun call =>
    (h.modify_job (fun hnone => hnone)).with_proxies _
  have hdelay : ∀ t next, ((p.requestMoveToDelayed r t next).send w (.proxyResponse id none)).Ok := fun t next =>
    (h.modify_job (fun hnone => hnone)).send _ _
  unfold handleProxyRequest
  simp only
  split
  · exact h.send _ _
  cases method with
  | log message => exact hcall _
  | updateProgress progress => exact hcall _
  | updateData data => exact hcall _
  | discard => exact (h.modify_job (fun hnone => hnone)).send _ _
  | moveToDelayed timestamp nextStep =>
    simp only
    split
    · exact h.send _ _
    split
    · exact h.send _ _
    split
    · exact hdelay _ _
    · exact hdelay _ _
    · exact h.send _ _
  | unknown name => exact h.send _ _

theorem Ok.message (h : p.Ok) (w : Nat) (m : ChildToMain V) : (p.message w m).Ok := by
  obtain ⟨slot, hcore, hended, hfull⟩ := id h
  unfold Pool.message
  rcases hcore.listeners hended w with hnone | ⟨r, hslot, hone⟩
  · rw [hnone]
    exact h
  rw [hone, List.foldl_cons, List.foldl_nil]
  have hfinish := hcore.finish_release hended hfull hslot
  have hsame : ∀ q : Pool V, q.modifyJob r (fun job => job) = q := by
    intro q
    simp [modifyJob, modifyRun]
  cases m with
  | completed id result =>
    simp only [onMessage]
    split
    · have hok := hfinish (fun job => job) (fun _ hnone => hnone) (.resolved result)
      rwa [hsame] at hok
    · exact h
  | failed id error stack errorName discarded delayedUntil =>
    simp only [onMessage]
    split
    · cases discarded with
      | true => exact hfinish (fun job => { job with discarded := true }) (fun _ hnone => hnone) _
      | false =>
        have hok := hfinish (fun job => job) (fun _ hnone => hnone)
          (.rejected (failedError error stack errorName delayedUntil))
        rwa [hsame] at hok
    · exact h
  | proxyRequest id method =>
    simp only [onMessage]
    split
    · exact h.handle_proxy_request w r id method
    · exact h

theorem Ok.end_call (h : p.Ok) (i : Nat) (error : Option String) : (p.endCall i error).Ok := by
  unfold endCall
  split
  · exact h
  · simp only
    split
    · exact ((h.with_proxies _).modify_job (fun hnone => hnone)).send _ _
    · exact (h.with_proxies _).send _ _

/-! ## The end of the pool -/

theorem foldl_reject (p : Pool V) (error : JSError) {l : List Nat} (hl : l.Nodup) :
    l.foldl (fun p r => p.reject r error) p =
      { p with run := fun r =>
          if r ∈ l then { p.run r with phase := .settled, outcomes := (p.run r).outcomes ++ [.rejected error] }
          else p.run r } := by
  induction l generalizing p with
  | nil => simp
  | cons r l ih =>
    rw [List.nodup_cons] at hl
    rw [List.foldl_cons, ih (p.reject r error) hl.2]
    simp only [reject, settle, modifyRun, Function.update_apply, List.mem_cons]
    congr 1
    funext r'
    by_cases hr' : r' = r
    · subst hr'
      simp [hl.1]
    · simp [hr']

theorem Ok.close (h : p.Ok) : p.close.Ok := by
  obtain ⟨slot, hcore, hended, hfull⟩ := id h
  unfold Pool.close
  split
  · exact h
  have hnodup : p.waiters.Nodup := hcore.sorted.imp (fun hlt => Nat.ne_of_lt hlt)
  refine ⟨slot, ?_, hended, fun hne => absurd rfl hne⟩
  simp only
  rw [foldl_reject { p with closed := true } closedError hnodup]
  obtain ⟨fits, absent, acquired, running, waiting, apart, unborn, sorted, nodup, postponed, microtasks, settled,
    unsettled, timer, workers_nodup, capacity, member, live⟩ := hcore
  constructor <;> simp only
  · exact fits
  · exact absent
  · grind
  · grind
  · grind
  · simp
  · grind
  · exact List.Pairwise.nil
  · exact nodup
  · grind
  · grind
  · grind
  · grind
  · grind
  · exact workers_nodup
  · exact capacity
  · exact member
  · grind

theorem Ok.terminated (h : p.Ok) : p.terminated.Ok := by
  obtain ⟨slot, hcore, hended, hfull⟩ := id h
  unfold Pool.terminated
  split
  · rename_i hclosed
    refine ⟨slot, { hcore with workers_nodup := List.nodup_nil, capacity := by simp, member := by simp, live := ?_ },
      hended, ?_⟩
    · simp [hclosed]
    · intro hne
      exact absurd (hfull.closed hclosed) hne
  · exact h

/-! ## Every event -/

theorem Ok.step (h : p.Ok) (e : Event V) : (p.step e).Ok := by
  unfold Pool.step
  split
  · exact h
  rename_i hmacro
  cases e with
  | run job => exact h.start_run job
  | resume => exact h.resume
  | abort r => exact h.abort r
  | endCall i error => exact h.end_call i error
  | otherInvocation =>
    obtain ⟨slot, hcore, hended, hfull⟩ := h
    exact ⟨slot, { hcore with }, hended, hfull⟩
  | close => exact h.close
  | terminated => exact h.terminated
  | graceExpired r => exact h.grace_expired r
  | message w m => exact h.message w m
  | exit w code =>
    simp only [handle]
    split
    · exact removeAndCleanup_ok h (by simpa [Event.isMacrotask] using hmacro) ‹_› _
    · exact h
  | error w error =>
    simp only [handle]
    split
    · exact removeAndCleanup_ok h (by simpa [Event.isMacrotask] using hmacro) ‹_› _
    · exact h

theorem new_ok (maxWorkers abortGraceMs nextInvocationId : Nat) (data : Data V) :
    (Pool.new maxWorkers abortGraceMs nextInvocationId data).Ok := by
  refine ⟨fun _ => .absent, ?_, by simp, fun hne => absurd rfl hne⟩
  constructor <;> simp [Pool.new, PoolWorker.Fits, Slot.IsLive]

end Pool

end

end GlideMq.Sandbox
