import GlideMq.Machine.Lookup
import GlideMq.Machine.Selection
import GlideMq.Model.TestQueue
import Mathlib.Data.List.Induction

/-!
# The order of dispatch

The listing sorts the waiting jobs once, the dispatcher picks one after another. Both give the same
order.
-/

open Machine

namespace GlideMq.TestQueue

variable {q : TestQueue} {record : Ref → TestJobRecord} {ref : Ref} {l : List Ref} {i p : Nat}

/-- A waiting job of the queue. -/
def IsWaiting (q : TestQueue) (ref : Ref) : Prop :=
  (q.record ref).state = .waiting ∧ q.get (q.record ref).id = some ref

/-- A job of the priority list. -/
def inPriority (record : Ref → TestJobRecord) (ref : Ref) : Bool :=
  !(record ref).lifo && 0 < (record ref).priority

/-- The order of the listing. -/
def ordered (record : Ref → TestJobRecord) (live : List Ref) : List Ref :=
  ((live.filter fun r => inPriority record r).insertionSort
      fun a b => (record a).priority ≤ (record b).priority) ++
    (live.filter fun r => (record r).lifo).reverse ++
    live.filter fun r => !(record r).lifo && (record r).priority = 0

/-! ## The search -/

/-- The last job of the LIFO list is at `i`. -/
def LastLifo (record : Ref → TestJobRecord) (l : List Ref) (i : Nat) : Prop :=
  ∃ front m back, l = front ++ m :: back ∧ front.length = i ∧ (record m).lifo ∧
    ∀ r ∈ back, ¬ (record r).lifo

/-- The first job of the least priority `p` is at `i`. -/
def FirstLeast (record : Ref → TestJobRecord) (l : List Ref) (i p : Nat) : Prop :=
  ∃ front m back, l = front ++ m :: back ∧ front.length = i ∧ inPriority record m ∧
    (record m).priority = p ∧ (∀ r ∈ front, inPriority record r → p < (record r).priority) ∧
    ∀ r ∈ back, inPriority record r → p ≤ (record r).priority

theorem LastLifo.snoc (h : LastLifo record l i) (href : ¬ (record ref).lifo) :
    LastLifo record (l ++ [ref]) i := by
  obtain ⟨front, m, back, rfl, hi, hm, hback⟩ := h
  refine ⟨front, m, back ++ [ref], by simp, hi, hm, ?_⟩
  intro r hr
  rcases List.mem_append.mp hr with hr | hr
  · exact hback r hr
  · obtain rfl := List.mem_singleton.mp hr
    exact href

theorem FirstLeast.snoc (h : FirstLeast record l i p)
    (href : inPriority record ref → p ≤ (record ref).priority) :
    FirstLeast record (l ++ [ref]) i p := by
  obtain ⟨front, m, back, rfl, hi, hm, hp, hfront, hback⟩ := h
  refine ⟨front, m, back ++ [ref], by simp, hi, hm, hp, hfront, ?_⟩
  intro r hr
  rcases List.mem_append.mp hr with hr | hr
  · exact hback r hr
  · obtain rfl := List.mem_singleton.mp hr
    exact href

def LifoFound (record : Ref → TestJobRecord) (l : List Ref) : Option Nat → Prop
  | none => ∀ r ∈ l, ¬ (record r).lifo
  | some i => LastLifo record l i

def PriorityFound (record : Ref → TestJobRecord) (l : List Ref) : Option Nat → Option Nat → Prop
  | none, none => ∀ r ∈ l, ¬ inPriority record r
  | some i, some p => FirstLeast record l i p
  | _, _ => False

/-- What the search holds after a part of the queue. -/
structure Best.Ok (record : Ref → TestJobRecord) (l : List Ref) (b : Best) : Prop where
  lifo : LifoFound record l b.lifo
  best : PriorityFound record l b.best b.bestPriority

theorem Best.Ok.look {b : Best} (h : b.Ok record l) :
    (b.look record (ref, l.length)).Ok record (l ++ [ref]) := by
  have hsnoc {P : Ref → Prop} (hl : ∀ r ∈ l, P r) (href : P ref) : ∀ r ∈ l ++ [ref], P r := by
    intro r hr
    rcases List.mem_append.mp hr with hr | hr
    · exact hl r hr
    · obtain rfl := List.mem_singleton.mp hr
      exact href
  obtain ⟨best, bestPriority, lifo⟩ := b
  obtain ⟨hlifo, hbest⟩ := h
  unfold Best.look
  by_cases hr : (record ref).lifo
  · have hnot : ¬ inPriority record ref := by simp [inPriority, hr]
    simp only [hr, if_true]
    constructor
    · exact ⟨l, ref, [], rfl, rfl, hr, by simp⟩
    · rcases best with _ | i <;> rcases bestPriority with _ | p
      · exact hsnoc hbest hnot
      · exact hbest
      · exact hbest
      · exact FirstLeast.snoc hbest fun h => absurd h hnot
  · have hkeep : LifoFound record (l ++ [ref]) lifo := by
      rcases lifo with _ | i
      · exact hsnoc hlifo hr
      · exact LastLifo.snoc hlifo hr
    simp only [if_neg hr]
    by_cases hless : 0 < (record ref).priority ∧ ∀ p ∈ bestPriority, (record ref).priority < p
    · have hin : inPriority record ref := by simp [inPriority, hr, hless.1]
      rw [if_pos hless]
      refine ⟨hkeep, l, ref, [], rfl, rfl, hin, rfl, ?_, by simp⟩
      intro r hmem hpri
      rcases best with _ | i <;> rcases bestPriority with _ | p
      · exact absurd hpri (hbest r hmem)
      · exact absurd hbest id
      · exact absurd hbest id
      · have hp := hless.2 p rfl
        obtain ⟨front, m, back, rfl, -, -, hm, hfront, hback⟩ := hbest
        rcases List.mem_append.mp hmem with h | h
        · exact hp.trans (hfront r h hpri)
        · rcases List.mem_cons.mp h with rfl | h
          · omega
          · exact lt_of_lt_of_le hp (hback r h hpri)
    · rw [if_neg hless]
      refine ⟨hkeep, ?_⟩
      rcases best with _ | i <;> rcases bestPriority with _ | p
      · refine hsnoc hbest fun hin => hless ⟨?_, by simp⟩
        simp only [inPriority, Bool.and_eq_true, decide_eq_true_eq] at hin
        exact hin.2
      · exact hbest
      · exact hbest
      · refine FirstLeast.snoc hbest fun hin => ?_
        simp only [inPriority, Bool.and_eq_true, decide_eq_true_eq] at hin
        by_contra hlt
        exact hless ⟨hin.2, by simpa using hlt⟩

theorem search_ok (record : Ref → TestJobRecord) (l : List Ref) :
    (l.zipIdx.foldl (Best.look record) {}).Ok record l := by
  induction l using List.reverseRecOn with
  | nil => exact ⟨by simp [LifoFound], by simp [PriorityFound]⟩
  | append_singleton l ref ih =>
    rw [List.zipIdx_append, List.foldl_append]
    simpa using ih.look

/-! ## One job -/

theorem ordered_pick (record : Ref → TestJobRecord) (hl : l ≠ []) :
    let b := l.zipIdx.foldl (Best.look record) {}
    ∃ front m back, l = front ++ m :: back ∧
      ((b.best <|> b.lifo) <|> some 0) = some front.length ∧
      ordered record l = m :: ordered record (front ++ back) := by
  have hok := search_ok record l
  generalize l.zipIdx.foldl (Best.look record) {} = b at hok ⊢
  obtain ⟨best, bestPriority, lifo⟩ := b
  obtain ⟨hlifo, hbest⟩ := hok
  rcases best with _ | i <;> rcases bestPriority with _ | p
  · have hnone (part : List Ref) (hpart : ∀ r ∈ part, r ∈ l) :
        part.filter (fun r => inPriority record r) = [] :=
      List.filter_eq_nil_iff.mpr fun r hr => hbest r (hpart r hr)
    rcases lifo with _ | i
    · obtain ⟨m, back, rfl⟩ := List.exists_cons_of_ne_nil hl
      refine ⟨[], m, back, rfl, rfl, ?_⟩
      have hfifo : ∀ r ∈ m :: back, (!(record r).lifo && (record r).priority = 0) = true := by
        intro r hr
        have h := hbest r hr
        have h' := hlifo r hr
        simp only [inPriority, Bool.and_eq_true, decide_eq_true_eq] at h
        simp only [Bool.not_eq_true] at h'
        simp only [h', Bool.not_false, true_and] at h ⊢
        simpa using h
      have hlast (part : List Ref) (hpart : ∀ r ∈ part, r ∈ m :: back) :
          part.filter (fun r => (record r).lifo) = [] :=
        List.filter_eq_nil_iff.mpr fun r hr => hlifo r (hpart r hr)
      unfold ordered
      rw [List.nil_append, hnone _ fun _ h => h, hlast _ fun _ h => h, hnone _ fun r h => List.mem_cons_of_mem _ h,
        hlast _ fun r h => List.mem_cons_of_mem _ h, List.filter_eq_self.mpr hfifo,
        List.filter_eq_self.mpr fun r hr => hfifo r (List.mem_cons_of_mem _ hr)]
      rfl
    · obtain ⟨front, m, back, rfl, rfl, hm, hback⟩ := hlifo
      refine ⟨front, m, back, rfl, rfl, ?_⟩
      have hrest : ∀ r ∈ front ++ back, r ∈ front ++ m :: back := by
        intro r hr
        rcases List.mem_append.mp hr with h | h
        · exact List.mem_append_left _ h
        · exact List.mem_append_right _ (List.mem_cons_of_mem _ h)
      have hlast : back.filter (fun r => (record r).lifo) = [] := List.filter_eq_nil_iff.mpr hback
      unfold ordered
      rw [hnone _ fun _ h => h, hnone _ hrest]
      simp [hm, hlast]
  · exact absurd hbest id
  · exact absurd hbest id
  · obtain ⟨front, m, back, rfl, rfl, hin, rfl, hfront, hback⟩ := hbest
    refine ⟨front, m, back, rfl, rfl, ?_⟩
    have hlifo : (record m).lifo = false := by
      simp only [inPriority, Bool.and_eq_true, Bool.not_eq_true'] at hin
      exact hin.1
    have hpos : (record m).priority ≠ 0 := by
      simp only [inPriority, Bool.and_eq_true, decide_eq_true_eq] at hin
      exact hin.2.ne'
    have hsort := insertionSort_select (fun r => (record r).priority)
      (front.filter fun r => inPriority record r) m (back.filter fun r => inPriority record r)
      (fun r hr => hfront r (List.mem_filter.mp hr).1 (List.mem_filter.mp hr).2)
      (fun r hr => hback r (List.mem_filter.mp hr).1 (List.mem_filter.mp hr).2)
    unfold ordered
    simp [hin, hlifo, hpos, hsort]

/-! ## The whole queue -/

theorem compact_waiting {seen : List JobId} :
    ∀ r ∈ q.compact seen l, q.IsWaiting r ∧ (q.record r).id ∉ seen ∧ r ∈ l := by
  induction l generalizing seen with
  | nil => simp [compact]
  | cons ref rest ih =>
    intro r hr
    unfold compact at hr
    split at hr
    · rename_i h
      rcases List.mem_cons.mp hr with rfl | hr
      · exact ⟨⟨h.1, by simpa [isCurrent] using h.2.1⟩, h.2.2, List.mem_cons_self ..⟩
      · obtain ⟨hwait, hnew, hmem⟩ := ih r hr
        exact ⟨hwait, fun h => hnew (List.mem_cons_of_mem _ h), List.mem_cons_of_mem _ hmem⟩
    · obtain ⟨hwait, hnew, hmem⟩ := ih r hr
      exact ⟨hwait, hnew, List.mem_cons_of_mem _ hmem⟩

theorem length_compact {seen : List JobId} : (q.compact seen l).length ≤ l.length := by
  induction l generalizing seen with
  | nil => simp [compact]
  | cons ref rest ih =>
    unfold compact
    split
    · exact Nat.succ_le_succ ih
    · exact ih.trans (Nat.le_succ _)

theorem mem_compact {seen : List JobId} (hr : ref ∈ l) (hwait : q.IsWaiting ref)
    (hnew : (q.record ref).id ∉ seen) : ref ∈ q.compact seen l := by
  induction l generalizing seen with
  | nil => simp at hr
  | cons first rest ih =>
    unfold compact
    split
    · rename_i h
      rcases List.mem_cons.mp hr with rfl | hr
      · exact List.mem_cons_self ..
      · by_cases hsame : (q.record ref).id = (q.record first).id
        · have hfirst : q.get (q.record first).id = some first := by simpa [isCurrent] using h.2.1
          rw [← hsame, hwait.2] at hfirst
          exact Option.some.inj hfirst ▸ List.mem_cons_self ..
        · exact List.mem_cons_of_mem _ (ih hr (by simp [hsame, hnew]))
    · rename_i h
      rcases List.mem_cons.mp hr with rfl | hr
      · exact absurd ⟨hwait.1, by simpa [isCurrent] using hwait.2, hnew⟩ h
      · exact ih hr hnew

theorem nodup_compact {seen : List JobId} : (q.compact seen l).Nodup := by
  induction l generalizing seen with
  | nil => exact List.nodup_nil
  | cons ref rest ih =>
    unfold compact
    split
    · refine List.nodup_cons.mpr ⟨fun hmem => ?_, ih⟩
      exact (compact_waiting ref hmem).2.1 (List.mem_cons_self ..)
    · exact ih

theorem compact_self {seen : List JobId} (hwait : ∀ r ∈ l, q.IsWaiting r) (hnodup : l.Nodup)
    (hnew : ∀ r ∈ l, (q.record r).id ∉ seen) : q.compact seen l = l := by
  induction l generalizing seen with
  | nil => rfl
  | cons ref rest ih =>
    rw [List.forall_mem_cons] at hwait hnew
    rw [List.nodup_cons] at hnodup
    unfold compact
    rw [if_pos ⟨hwait.1.1, by simpa [isCurrent] using hwait.1.2, hnew.1⟩, ih hwait.2 hnodup.2]
    intro r hr
    rw [List.mem_cons, not_or]
    refine ⟨fun hsame => ?_, hnew.2 r hr⟩
    have hget := (hwait.2 r hr).2
    rw [hsame, hwait.1.2] at hget
    exact hnodup.1 (Option.some.inj hget ▸ hr)

theorem promotePrioritized_self (h : ∀ r ∈ q.waitingQueue, q.IsWaiting r) : q.promotePrioritized = q := by
  unfold promotePrioritized
  generalize q.waitingQueue = l at h
  induction l with
  | nil => rfl
  | cons ref rest ih =>
    rw [List.forall_mem_cons] at h
    have hstate : (q.record ref).state ≠ .prioritized := by
      rw [h.1.1]
      decide
    rw [List.foldl_cons, if_pos (Or.inl hstate)]
    exact ih h.2

/-- One call takes the head of the listing. -/
theorem takeNextWaiting_spec (h : ∀ r ∈ q.waitingQueue, q.IsWaiting r) :
    match ordered q.record (q.compact [] q.waitingQueue) with
    | [] => q.takeNextWaiting = ({ q with waitingQueue := [] }, none)
    | m :: rest => ∃ left, q.takeNextWaiting = ({ q with waitingQueue := left }, some m) ∧
        (∀ r ∈ left, q.IsWaiting r) ∧ left.Nodup ∧ left.length < (q.compact [] q.waitingQueue).length ∧
        ordered q.record left = rest := by
  have hwait : ∀ r ∈ q.compact [] q.waitingQueue, q.IsWaiting r := fun r hr => (compact_waiting r hr).1
  have hnodup : (q.compact [] q.waitingQueue).Nodup := nodup_compact
  unfold takeNextWaiting nextWaitingIndex
  rw [promotePrioritized_self h]
  simp only
  generalize q.compact [] q.waitingQueue = l at hwait hnodup ⊢
  by_cases hl : l = []
  · subst hl
    simp [ordered]
  · have hpos : 0 < l.length := List.length_pos_iff.mpr hl
    obtain ⟨front, m, back, rfl, hpick, horder⟩ := ordered_pick q.record hl
    have hsub : (front ++ back).Sublist (front ++ m :: back) :=
      (List.Sublist.refl front).append (List.sublist_cons_self m back)
    rw [horder, if_pos hpos, hpick]
    refine ⟨front ++ back, ?_, fun r hr => hwait r (hsub.subset hr), hnodup.sublist hsub, ?_, rfl⟩
    · simp [List.eraseIdx_append_of_length_le]
    · simp

/-- Calls of `takeNextWaiting` until one gives nothing. -/
def takeAll : Nat → TestQueue → TestQueue × List Ref
  | 0, q => (q, [])
  | calls + 1, q =>
    match q.takeNextWaiting with
    | (q, none) => (q, [])
    | (q, some ref) => ((takeAll calls q).1, ref :: (takeAll calls q).2)

theorem takeAll_spec {calls : Nat} (h : ∀ r ∈ q.waitingQueue, q.IsWaiting r)
    (hcalls : (q.compact [] q.waitingQueue).length < calls) :
    (takeAll calls q).2 = ordered q.record (q.compact [] q.waitingQueue) ∧
      (takeAll calls q).1 = { q with waitingQueue := [] } := by
  induction calls generalizing q with
  | zero => omega
  | succ calls ih =>
    have hstep := takeNextWaiting_spec h
    unfold takeAll
    split at hstep
    · rename_i hnone
      rw [hstep, hnone]
      exact ⟨rfl, rfl⟩
    · rename_i m rest hsome
      obtain ⟨left, htake, hwait, hnodup, hless, hrest⟩ := hstep
      have hself : compact { q with waitingQueue := left } [] left = left :=
        compact_self hwait hnodup (by simp)
      have hlater := ih (q := { q with waitingQueue := left }) hwait (by rw [hself]; omega)
      rw [hself] at hlater
      rw [htake, hsome, ← hrest]
      exact ⟨congrArg _ hlater.1, hlater.2⟩

/-! ## The listing -/

/-- The keys of the map are the ids of the records, each once. -/
structure Keyed (q : TestQueue) : Prop where
  unique : (q.jobs.map (·.1)).Nodup
  ids : ∀ p ∈ q.jobs, (q.record p.2).id = p.1

/-- The jobs of the queue in the waiting state. -/
def IsWaitingJob (q : TestQueue) (ref : Ref) : Prop :=
  ref ∈ q.jobs.map (·.2) ∧ (q.record ref).state = .waiting

theorem Keyed.isWaiting (hkeyed : q.Keyed) (h : q.IsWaitingJob ref) : q.IsWaiting ref := by
  obtain ⟨hmem, hstate⟩ := h
  obtain ⟨p, hp, rfl⟩ := List.mem_map.mp hmem
  refine ⟨hstate, ?_⟩
  rw [hkeyed.ids p hp]
  exact lookup_of_mem hkeyed.unique hp

theorem listing_eq (hkeyed : q.Keyed) (h : ∀ r, r ∈ q.waitingQueue ↔ q.IsWaitingJob r) :
    q.waitingInDispatchOrder = ordered q.record (q.compact [] q.waitingQueue) := by
  have hrest : ((q.jobs.map (·.2)).filter fun ref => (q.record ref).state = .waiting ∧
      (q.record ref).id ∉ (q.compact [] q.waitingQueue).map fun r => (q.record r).id) = [] := by
    apply List.filter_eq_nil_iff.mpr
    intro ref hmem
    simp only [decide_eq_true_eq, not_and, not_not]
    intro hstate
    have hjob : q.IsWaitingJob ref := ⟨hmem, hstate⟩
    exact List.mem_map_of_mem (mem_compact ((h ref).mpr hjob) (hkeyed.isWaiting hjob) (by simp))
  unfold waitingInDispatchOrder
  simp only
  rw [hrest, List.append_nil]
  rfl

theorem ordered_perm (record : Ref → TestJobRecord) (l : List Ref) : (ordered record l).Perm l := by
  have hsort := List.perm_insertionSort (fun a b => (record a).priority ≤ (record b).priority)
    (l.filter fun r => inPriority record r)
  have hlifo := List.reverse_perm (l.filter fun r => (record r).lifo)
  refine ((hsort.append hlifo).append_right _).trans ?_
  clear hsort hlifo
  induction l with
  | nil => exact List.Perm.refl _
  | cons r rest ih =>
    by_cases hr : (record r).lifo
    · simp only [inPriority, List.filter_cons, hr, Bool.not_true, Bool.false_and, if_true,
        Bool.false_eq_true, if_false]
      refine (List.Perm.append_right _ List.perm_middle).trans ?_
      exact ih.cons r
    · by_cases hp : 0 < (record r).priority
      · have hne : (record r).priority ≠ 0 := by omega
        simp only [inPriority, List.filter_cons, hr, hp, hne, Bool.not_false, Bool.true_and, decide_true,
          decide_false, if_true, Bool.false_eq_true, if_false]
        exact ih.cons r
      · have hzero : (record r).priority = 0 := by omega
        simp only [inPriority, List.filter_cons, hr, hzero, lt_irrefl, Bool.not_false, Bool.true_and, decide_true,
          decide_false, if_true, Bool.false_eq_true, if_false]
        exact List.perm_middle.trans (ih.cons r)

/-- Where the waiting jobs are the entries of the waiting queue, calls of `takeNextWaiting` until
none is left give the listing, each waiting job once. -/
theorem takeAll_eq_listing {calls : Nat} (hkeyed : q.Keyed)
    (h : ∀ r, r ∈ q.waitingQueue ↔ q.IsWaitingJob r) (hcalls : q.waitingQueue.length < calls) :
    (takeAll calls q).2 = q.waitingInDispatchOrder ∧ (takeAll calls q).2.Nodup ∧
      (∀ r, r ∈ (takeAll calls q).2 ↔ q.IsWaitingJob r) ∧
      (takeAll calls q).1.waitingQueue = [] := by
  have hwait : ∀ r ∈ q.waitingQueue, q.IsWaiting r := fun r hr => hkeyed.isWaiting ((h r).mp hr)
  obtain ⟨htaken, hend⟩ := takeAll_spec hwait (lt_of_le_of_lt length_compact hcalls)
  have hperm := ordered_perm q.record (q.compact [] q.waitingQueue)
  rw [htaken, listing_eq hkeyed h, hend]
  refine ⟨rfl, hperm.nodup_iff.mpr nodup_compact, fun r => ?_, rfl⟩
  rw [hperm.mem_iff]
  constructor
  · intro hr
    exact (h r).mp (compact_waiting r hr).2.2
  · intro hr
    exact mem_compact ((h r).mpr hr) (hkeyed.isWaiting hr) (by simp)

/-- A plain job, a job with a priority and two jobs of the LIFO list. -/
def mixedQueue : TestQueue where
  record ref := { id := toString ref, state := .waiting, priority := if ref = 1 then 3 else 0, lifo := 2 ≤ ref }
  nextRef := 4
  jobs := [("0", 0), ("1", 1), ("2", 2), ("3", 3)]
  waitingQueue := [0, 1, 2, 3]

theorem mixedQueue_takeAll :
    (takeAll 5 mixedQueue).2 = [1, 3, 2, 0] ∧ mixedQueue.waitingInDispatchOrder = [1, 3, 2, 0] := by
  have hkeyed : mixedQueue.Keyed := ⟨by decide +kernel, by decide +kernel⟩
  have hmembers : mixedQueue.jobs.map (·.2) = mixedQueue.waitingQueue := rfl
  have hwaiting : ∀ r, r ∈ mixedQueue.waitingQueue ↔ mixedQueue.IsWaitingJob r := by
    intro r
    unfold IsWaitingJob
    rw [hmembers]
    exact ⟨fun h => ⟨h, rfl⟩, fun h => h.1⟩
  have hlist : mixedQueue.waitingInDispatchOrder = [1, 3, 2, 0] := by decide +kernel
  exact ⟨(takeAll_eq_listing hkeyed hwaiting (by decide)).1.trans hlist, hlist⟩

end GlideMq.TestQueue
