import GlideMq.Machine.Frontier
import GlideMq.Machine.Runs
import GlideMq.Model.DoneFields
import GlideMq.Proofs.GroupSteps

/-!
# What the done frontier holds

Any run of `markOrderingDone` keeps the frontier of the marked sequence numbers, whatever the order of
the calls. `tostring` writes numbers from 10^14 on in the exponent form, where they share their texts,
so the texts that Redis keeps are right below that only.
-/

open Machine

namespace GlideMq

/-- A call of `markOrderingDone`. -/
structure DoneCall where
  job : JobId
  hintOrderingKey : Option GroupKey := none
  hintOrderingSeq : Option Nat := none

namespace DoneCall

variable (jobs : JobId → Option Job) (c : DoneCall)

def key : Option GroupKey :=
  c.hintOrderingKey <|> ((jobs c.job).getD {}).orderingKey <|> ((jobs c.job).getD {}).groupKey

def seq : Nat := c.hintOrderingSeq.getD ((jobs c.job).getD {}).orderingSeq

/-- The call marks a number of the key. -/
def Marks (key : GroupKey) (m : Nat) : Prop := c.key jobs = some key ∧ c.seq jobs = m ∧ 0 < m

end DoneCall

/-- The numbers that a run marks for a key. -/
def marksOf (jobs : JobId → Option Job) (key : GroupKey) (calls : List DoneCall) : Set ℕ :=
  {m | ∃ c ∈ calls, c.Marks jobs key m}

/-! ## Sequences as numbers -/

variable {s : Queue} {key : GroupKey} {M : Set ℕ} {n : ℕ} {P : List ℕ}

theorem runDone_kept {fuel : Nat} (h : Splits M n P) (hfuel : P.length ≤ fuel) :
    Kept M (runDone fuel P n).2 (runDone fuel P n).1 := by
  induction fuel generalizing P n with
  | zero =>
    have hnil : P = [] := List.length_eq_zero_iff.mp (by omega)
    exact h.kept (by simp [hnil])
  | succ fuel ih =>
    unfold runDone
    split
    · rename_i hnext
      have hless : (P.filter (· ≠ n + 1)).length < P.length :=
        List.length_filter_lt_length_iff_exists.mpr ⟨n + 1, hnext, by simp⟩
      apply ih (h.advance hnext)
      omega
    · rename_i hnext
      exact h.kept hnext

/-- The set after a call. -/
def DoneCall.adds (jobs : JobId → Option Job) (key : GroupKey) (c : DoneCall) (M : Set ℕ) : Set ℕ :=
  {m | c.Marks jobs key m} ∪ M

theorem adds_of_marks {jobs : JobId → Option Job} {c : DoneCall} {m : Nat} (h : c.Marks jobs key m) :
    c.adds jobs key M = insert m M := by
  have hone : {k | c.Marks jobs key k} = {m} := by
    ext k
    constructor
    · exact fun hk => hk.2.1.symm.trans h.2.1
    · rintro rfl
      exact h
  rw [DoneCall.adds, hone, Set.insert_eq]

theorem adds_of_not_marks {jobs : JobId → Option Job} {c : DoneCall} (h : ∀ m, ¬ c.Marks jobs key m) :
    c.adds jobs key M = M := by
  have hnone : {k | c.Marks jobs key k} = ∅ := Set.eq_empty_of_forall_notMem h
  rw [DoneCall.adds, hnone, Set.empty_union]

theorem markOrderingDone_other {c : DoneCall} (h : ∀ m, ¬ c.Marks s.jobs key m) :
    let s' := markOrderingDone s c.job c.hintOrderingKey c.hintOrderingSeq
    s'.orderdone key = s.orderdone key ∧ s'.orderdonePending key = s.orderdonePending key := by
  unfold DoneCall.Marks DoneCall.key DoneCall.seq at h
  unfold markOrderingDone
  simp only
  split
  · exact ⟨rfl, rfl⟩
  · rename_i other hother
    split
    · exact ⟨rfl, rfl⟩
    · rename_i hpos
      have hne : key ≠ other := by
        rintro rfl
        exact h _ ⟨hother, rfl, not_le.mp hpos⟩
      split <;> simp [Function.update_of_ne hne]

/-- One call keeps the kept form of each key. -/
theorem markOrderingDone_kept (c : DoneCall) (h : Kept M (s.orderdone key) (s.orderdonePending key)) :
    let s' := markOrderingDone s c.job c.hintOrderingKey c.hintOrderingSeq
    Kept (c.adds s.jobs key M) (s'.orderdone key) (s'.orderdonePending key) := by
  show Kept _ ((markOrderingDone s c.job _ _).orderdone key)
    ((markOrderingDone s c.job _ _).orderdonePending key)
  by_cases hmarks : c.Marks s.jobs key (c.seq s.jobs)
  · rw [adds_of_marks hmarks]
    obtain ⟨hkey, -, hpos⟩ := hmarks
    unfold DoneCall.key at hkey
    unfold DoneCall.seq at hpos ⊢
    unfold markOrderingDone
    simp only [hkey]
    split
    · omega
    · split
      · rename_i hle
        simpa using h.insert_le hpos hle
      · rename_i hlt
        simpa using runDone_kept (h.insert_lt (not_le.mp hlt)) le_rfl
  · have hnone (m : Nat) : ¬ c.Marks s.jobs key m := by
      intro hm
      exact hmarks (hm.2.1.symm ▸ hm)
    obtain ⟨hdone, hpending⟩ := markOrderingDone_other hnone
    rwa [adds_of_not_marks hnone, hdone, hpending]

/-! ## Sequences as texts -/

theorem toStr_ne_repr {n : Nat} (h : 10 ^ 14 ≤ n) (m : Nat) : Lua.toStr n ≠ m.repr := by
  intro heq
  have hdigits : ∀ c ∈ m.repr.toList, c.isDigit := by
    rw [Nat.toList_repr]
    exact fun c hc => Nat.isDigit_of_mem_toDigits (by omega) (by omega) hc
  unfold Lua.toStr at heq
  rw [if_neg (by omega)] at heq
  simp only at heq
  split at heq
  · have hnil := congrArg String.toList heq
    rw [Nat.toList_repr] at hnil
    exact Nat.toDigits_ne_nil hnil.symm
  · rw [← heq] at hdigits
    exact absurd (hdigits 'e' (by simp)) (by decide)

theorem toStr_mem_iff (hsmall : ∀ m ∈ P, m < 10 ^ 14) (n : Nat) :
    Lua.toStr n ∈ P.map Nat.repr ↔ n ∈ P := by
  rw [List.mem_map]
  constructor
  · rintro ⟨m, hm, heq⟩
    rcases Nat.lt_or_ge n (10 ^ 14) with hlt | hge
    · rw [Lua.toStr_of_lt hlt] at heq
      exact Lua.repr_injective heq ▸ hm
    · exact absurd heq.symm (toStr_ne_repr hge m)
  · intro hn
    exact ⟨n, hn, (Lua.toStr_of_lt (hsmall n hn)).symm⟩

theorem filter_repr (P : List ℕ) (n : Nat) :
    (P.map Nat.repr).filter (· ≠ n.repr) = (P.filter (· ≠ n)).map Nat.repr := by
  rw [List.filter_map]
  congr 1
  apply List.filter_congr
  intro m _
  simp only [Function.comp_apply, decide_eq_decide]
  exact not_congr ⟨Lua.repr_injective, congrArg _⟩

theorem insert_repr (P : List ℕ) (n : Nat) :
    (P.map Nat.repr).insert n.repr = (P.insert n).map Nat.repr := by
  by_cases h : n ∈ P
  · rw [List.insert_of_mem h, List.insert_of_mem (List.mem_map_of_mem h)]
  · rw [List.insert_of_not_mem h, List.insert_of_not_mem, List.map_cons]
    rintro hmem
    obtain ⟨m, hm, heq⟩ := List.mem_map.mp hmem
    exact h (Lua.repr_injective heq ▸ hm)

theorem ofStr_repr {n : Nat} (h : n < 10 ^ 14) : Lua.ofStr n.repr = n := by
  have hno : 'e' ∉ n.repr.toList := by
    rw [Nat.toList_repr]
    intro hmem
    exact absurd (Nat.isDigit_of_mem_toDigits (by omega) (by omega) hmem) (by decide)
  unfold Lua.ofStr
  rw [Text.splitFirst_eq_none hno]
  simp only [Lua.toNumber, Lua.value_repr]
  exact Lua.toDouble_of_lt (by omega)

/-- The loop on texts is the loop on numbers. -/
theorem runDone_repr {fuel : Nat} (hsmall : ∀ m ∈ P, m < 10 ^ 14) (hn : n ≤ 10 ^ 14) :
    DoneHashes.runDone fuel (P.map Nat.repr) n =
      ((runDone fuel P n).1.map Nat.repr, (runDone fuel P n).2) := by
  induction fuel generalizing P n with
  | zero => rfl
  | succ fuel ih =>
    unfold DoneHashes.runDone runDone
    have hnext : Lua.toDouble (n + 1) = n + 1 := Lua.toDouble_of_lt (by omega)
    simp only [hnext, toStr_mem_iff hsmall]
    split
    · rename_i hmem
      have hlt := hsmall _ hmem
      rw [Lua.toStr_of_lt hlt, filter_repr]
      apply ih _ hlt.le
      intro m hm
      exact hsmall m (List.mem_of_mem_filter hm)
    · rfl

/-- The field of `meta` that names a frontier. -/
def doneField (n : Nat) : Option String := if n = 0 then none else some n.repr

/-- The texts of a key name the numbers of the queue. -/
structure Names (h : DoneHashes) (s : Queue) (key : GroupKey) : Prop where
  done : h.orderdone key = doneField (s.orderdone key)
  pending : h.pending key = (s.orderdonePending key).map Nat.repr

theorem ofStr_doneField (hn : n < 10 ^ 14) : ((doneField n).map Lua.ofStr).getD 0 = n := by
  unfold doneField
  split
  · rename_i hzero
    rw [hzero]
    rfl
  · simp [ofStr_repr hn]

theorem DoneHashes.markOrderingDone_other {jobs : JobId → Option Job} {h : DoneHashes} {c : DoneCall}
    (hnone : ∀ m, ¬ c.Marks jobs key m) :
    let h' := h.markOrderingDone jobs c.job c.hintOrderingKey c.hintOrderingSeq
    h'.orderdone key = h.orderdone key ∧ h'.pending key = h.pending key := by
  unfold DoneCall.Marks DoneCall.key DoneCall.seq at hnone
  unfold DoneHashes.markOrderingDone
  simp only
  split
  · exact ⟨rfl, rfl⟩
  · rename_i other hother
    split
    · exact ⟨rfl, rfl⟩
    · rename_i hpos
      have hne : key ≠ other := by
        rintro rfl
        refine hnone _ ⟨hother, rfl, Nat.pos_of_ne_zero fun hzero => ?_⟩
        rw [hzero] at hpos
        exact hpos le_rfl
      split_ifs <;> simp [Function.update_of_ne hne]

/-- A call on texts is the call on numbers. -/
theorem Names.step {h : DoneHashes} (c : DoneCall) (hnames : Names h s key)
    (hkept : Kept M (s.orderdone key) (s.orderdonePending key))
    (hsmall : ∀ m ∈ c.adds s.jobs key M, m < 10 ^ 14) :
    Names (h.markOrderingDone s.jobs c.job c.hintOrderingKey c.hintOrderingSeq)
      (markOrderingDone s c.job c.hintOrderingKey c.hintOrderingSeq) key := by
  obtain ⟨hn, hP⟩ := hkept.lt (by omega) fun m hm => hsmall m (Or.inr hm)
  have hdone : ((h.orderdone key).map Lua.ofStr).getD 0 = s.orderdone key := by
    rw [hnames.done, ofStr_doneField hn]
  by_cases hmarks : c.Marks s.jobs key (c.seq s.jobs)
  · obtain ⟨hkey, -, hpos⟩ := hmarks
    have hlt := hsmall _ (Or.inl ⟨hkey, rfl, hpos⟩)
    have hdouble : Lua.toDouble (c.seq s.jobs) = c.seq s.jobs := Lua.toDouble_of_lt (by omega)
    have hafterSmall : ∀ m ∈ insert (c.seq s.jobs) M, m < 10 ^ 14 := by
      rintro m (rfl | hm)
      · exact hlt
      · exact hsmall m (Or.inr hm)
    have hmarked : ∀ m ∈ (s.orderdonePending key).insert (c.seq s.jobs), m < 10 ^ 14 := by
      intro m hm
      rcases List.mem_insert_iff.mp hm with rfl | hm
      · exact hlt
      · exact hP m hm
    unfold DoneCall.key at hkey
    unfold DoneCall.seq at hpos hlt hdouble hmarked hafterSmall
    unfold DoneHashes.markOrderingDone markOrderingDone
    simp only [hkey, hdouble, hdone, if_neg (not_le.mpr hpos), hnames.pending]
    split
    · constructor
      · exact hnames.done
      · simp only [Lua.toStr_of_lt hlt, Function.update_self, filter_repr]
        simp
    · rename_i hafter
      simp only [Lua.toStr_of_lt hlt, insert_repr, List.length_map, runDone_repr hmarked hn.le]
      have hrun := runDone_kept (hkept.insert_lt (not_le.mp hafter)) le_rfl
      obtain ⟨hend, -⟩ := hrun.lt (by omega) hafterSmall
      have hle := hkept.mono hrun (Set.subset_insert _ _)
      generalize runDone _ _ _ = out at hrun hend hle ⊢
      constructor
      · split
        · simp [Lua.toStr_of_lt hend, doneField, show out.2 ≠ 0 by omega]
        · have heq : out.2 = s.orderdone key := by omega
          simp [heq, hnames.done]
      · simp
  · have hnone (m : Nat) : ¬ c.Marks s.jobs key m := by
      intro hm
      exact hmarks (hm.2.1.symm ▸ hm)
    obtain ⟨hdone', hpending⟩ := markOrderingDone_other hnone
    obtain ⟨hdone'', hpending'⟩ := DoneHashes.markOrderingDone_other hnone
    exact ⟨by rw [hdone', hdone'', hnames.done], by rw [hpending, hpending', hnames.pending]⟩

/-! ## Runs -/

def doneRun (s : Queue) (calls : List DoneCall) : Queue :=
  run (fun s c => markOrderingDone s c.job c.hintOrderingKey c.hintOrderingSeq) s calls

def DoneHashes.doneRun (jobs : JobId → Option Job) (calls : List DoneCall) : DoneHashes :=
  run (fun h c => h.markOrderingDone jobs c.job c.hintOrderingKey c.hintOrderingSeq) {} calls

variable {jobs : JobId → Option Job} {calls : List DoneCall}

theorem marksOf_cons (jobs : JobId → Option Job) (key : GroupKey) (c : DoneCall) (calls : List DoneCall) :
    marksOf jobs key (c :: calls) ∪ M = marksOf jobs key calls ∪ c.adds jobs key M := by
  ext m
  simp only [marksOf, DoneCall.adds, Set.mem_union, Set.mem_ofPred_eq, List.exists_mem_cons_iff]
  rw [or_assoc, or_left_comm]

theorem doneRun_kept {h : DoneHashes} (hnames : Names h s key)
    (hkept : Kept M (s.orderdone key) (s.orderdonePending key))
    (hsmall : ∀ m ∈ marksOf s.jobs key calls ∪ M, m < 10 ^ 14) :
    Kept (marksOf s.jobs key calls ∪ M) ((doneRun s calls).orderdone key)
        ((doneRun s calls).orderdonePending key) ∧
      Names (run (fun h c => h.markOrderingDone s.jobs c.job c.hintOrderingKey c.hintOrderingSeq) h calls)
        (doneRun s calls) key := by
  induction calls generalizing s h M with
  | nil =>
    have hnone : marksOf s.jobs key [] ∪ M = M := by simp [marksOf]
    rw [hnone]
    exact ⟨hkept, hnames⟩
  | cons c calls ih =>
    rw [marksOf_cons] at hsmall ⊢
    have hjobs := markOrderingDone_jobs s c.job c.hintOrderingKey c.hintOrderingSeq
    have hrest := ih (hnames.step c hkept fun m hm => hsmall m (Or.inr hm))
      (markOrderingDone_kept c hkept)
    rw [hjobs] at hrest
    exact hrest hsmall

/-- The texts of a key name the frontier of a set and the numbers after it. -/
def DoneHashes.Holds (h : DoneHashes) (key : GroupKey) (M : Set ℕ) : Prop :=
  ∃ n, Frontier M n ∧ h.orderdone key = doneField n ∧
    ∀ t, t ∈ h.pending key ↔ ∃ m ∈ M, n < m ∧ t = m.repr

/-- Two states keep the same for a key. -/
def DoneHashes.Same (h h' : DoneHashes) (key : GroupKey) : Prop :=
  h.orderdone key = h'.orderdone key ∧ ∀ t, t ∈ h.pending key ↔ t ∈ h'.pending key

theorem Names.holds {h : DoneHashes} (hnames : Names h s key)
    (hkept : Kept M (s.orderdone key) (s.orderdonePending key)) : h.Holds key M := by
  refine ⟨s.orderdone key, hkept.frontier, hnames.done, fun t => ?_⟩
  rw [hnames.pending, List.mem_map]
  simp only [hkept.above, and_assoc]
  exact exists_congr fun m => and_congr_right fun _ => and_congr_right fun _ => eq_comm

theorem DoneHashes.Holds.same {h h' : DoneHashes} (hholds : h.Holds key M) (hholds' : h'.Holds key M) :
    h.Same h' key := by
  obtain ⟨n, hn, hdone, hpending⟩ := hholds
  obtain ⟨n', hn', hdone', hpending'⟩ := hholds'
  obtain rfl := hn.unique hn'
  exact ⟨by rw [hdone, hdone'], fun t => by rw [hpending, hpending']⟩

theorem doneRun_holds (hsmall : ∀ m ∈ marksOf jobs key calls, m < 10 ^ 14) :
    (DoneHashes.doneRun jobs calls).Holds key (marksOf jobs key calls) := by
  let s : Queue := { name := "", jobs }
  have hkept : Kept ∅ (s.orderdone key) (s.orderdonePending key) := kept_empty
  have hnames : Names {} s key := ⟨rfl, rfl⟩
  rw [← Set.union_empty (marksOf jobs key calls)] at hsmall ⊢
  obtain ⟨hend, hend'⟩ := doneRun_kept hnames hkept hsmall
  exact hend'.holds hend

/-! ## Texts from 10^14 on -/

theorem runDone_prints {fuel : Nat} {fields : List String} (h : ∀ t ∈ fields, ∃ n, t = Lua.toStr n) :
    ∀ t ∈ (DoneHashes.runDone fuel fields n).1, ∃ n, t = Lua.toStr n := by
  induction fuel generalizing fields n with
  | zero => exact h
  | succ fuel ih =>
    unfold DoneHashes.runDone
    simp only
    split
    · exact ih fun t ht => h t (List.mem_of_mem_filter ht)
    · exact h

/-- What is kept is printed by `tostring`. -/
def DoneHashes.Prints (h : DoneHashes) : Prop :=
  ∀ key, (∀ t ∈ h.orderdone key, ∃ n, t = Lua.toStr n) ∧ ∀ t ∈ h.pending key, ∃ n, t = Lua.toStr n

theorem DoneHashes.Prints.step {h : DoneHashes} (hprints : h.Prints) (c : DoneCall) :
    (h.markOrderingDone jobs c.job c.hintOrderingKey c.hintOrderingSeq).Prints := by
  intro other
  unfold DoneHashes.markOrderingDone
  simp only
  split
  · exact hprints other
  · rename_i key hkey
    by_cases hother : other = key
    · subst hother
      obtain ⟨hdone, hpending⟩ := hprints other
      split_ifs
      · exact hprints other
      · refine ⟨hdone, fun t ht => ?_⟩
        simp only [Function.update_self] at ht
        exact hpending t (List.mem_of_mem_filter ht)
      all_goals
        have hmarked : ∀ t ∈ (h.pending other).insert
            (Lua.toStr (Lua.toDouble (c.hintOrderingSeq.getD ((jobs c.job).getD {}).orderingSeq))),
            ∃ n, t = Lua.toStr n := by
          intro t ht
          rcases List.mem_insert_iff.mp ht with rfl | ht
          · exact ⟨_, rfl⟩
          · exact hpending t ht
        simp only [Function.update_self]
      · refine ⟨?_, runDone_prints hmarked⟩
        rintro t ⟨⟩
        exact ⟨_, rfl⟩
      · exact ⟨hdone, runDone_prints hmarked⟩
    · split_ifs <;> simpa [Function.update_of_ne hother] using hprints other

theorem doneRun_prints (jobs : JobId → Option Job) (calls : List DoneCall) :
    (DoneHashes.doneRun jobs calls).Prints := by
  apply invariant_all
  · exact fun h c hprints => hprints.step c
  · exact fun key => ⟨by simp, by simp⟩

theorem toStr_ne_large {m : Nat} (h : 10 ^ 14 ≤ m) (n : Nat) : Lua.toStr n ≠ m.repr := by
  rcases Nat.lt_or_ge n (10 ^ 14) with hlt | hge
  · rw [Lua.toStr_of_lt hlt]
    intro heq
    have := Lua.repr_injective heq
    omega
  · exact toStr_ne_repr hge m

theorem small_of_holds (hholds : (DoneHashes.doneRun jobs calls).Holds key M) :
    ∀ m ∈ M, m < 10 ^ 14 := by
  intro m hm
  by_contra hlarge
  obtain ⟨n, hn, hdone, hpending⟩ := hholds
  obtain ⟨hdone', hpending'⟩ := doneRun_prints jobs calls key
  rcases Nat.lt_or_ge n m with hlt | hge
  · obtain ⟨k, hk⟩ := hpending' _ ((hpending _).mpr ⟨m, hm, hlt, rfl⟩)
    exact toStr_ne_large (not_lt.mp hlarge) k hk.symm
  · rw [hdone, doneField, if_neg (by omega)] at hdone'
    obtain ⟨k, hk⟩ := hdone' _ rfl
    exact toStr_ne_large (by omega) k hk.symm

/-! ## The frontier of every run -/

theorem marksOf_perm {calls' : List DoneCall} (h : calls'.Perm calls) :
    marksOf jobs key calls' = marksOf jobs key calls := by
  ext m
  exact exists_congr fun c => and_congr_left fun _ => h.mem_iff

/-- For a key and a run, in any order, the field of `meta` is the largest `n` with `1..n` all marked
and the pending hash has the marked numbers after it, exactly when `tostring` writes every marked
number in its digits. -/
theorem done_frontier_iff (jobs : JobId → Option Job) (calls : List DoneCall) (key : GroupKey) :
    ((DoneHashes.doneRun jobs calls).Holds key (marksOf jobs key calls) ∧
      ∀ calls', calls'.Perm calls →
        (DoneHashes.doneRun jobs calls').Same (DoneHashes.doneRun jobs calls) key) ↔
      ∀ m ∈ marksOf jobs key calls, m < 10 ^ 14 := by
  constructor
  · rintro ⟨hholds, -⟩
    exact small_of_holds hholds
  · intro hsmall
    refine ⟨doneRun_holds hsmall, fun calls' hperm => ?_⟩
    have hmarks : marksOf jobs key calls' = marksOf jobs key calls := marksOf_perm hperm
    have hholds' := doneRun_holds (hmarks ▸ hsmall)
    rw [hmarks] at hholds'
    exact hholds'.same (doneRun_holds hsmall)

/-- Two numbers that were marked are one field. -/
theorem done_frontier_shared_field :
    ¬ ∀ (jobs : JobId → Option Job) (calls : List DoneCall) (key : GroupKey),
      (DoneHashes.doneRun jobs calls).Holds key (marksOf jobs key calls) ∧
        ∀ calls', calls'.Perm calls →
          (DoneHashes.doneRun jobs calls').Same (DoneHashes.doneRun jobs calls) key := by
  intro hall
  let first : DoneCall := ⟨"1", some "k", some 100000000000001⟩
  let second : DoneCall := ⟨"2", some "k", some 100000000000002⟩
  obtain ⟨⟨n, hn, hdone, hpending⟩, -⟩ := hall (fun _ => none) [first, second] "k"
  have hfields : (DoneHashes.doneRun (fun _ => none) [first, second]).pending "k" = ["1e+14"] := by
    decide +kernel
  have hzero : n = 0 := by
    have hnone : (DoneHashes.doneRun (fun _ => none) [first, second]).orderdone "k" = none := by
      decide +kernel
    rw [hnone, doneField] at hdone
    by_contra hne
    rw [if_neg hne] at hdone
    cases hdone
  have hmem := (hpending "100000000000001").mpr
    ⟨100000000000001, ⟨first, by simp, rfl, rfl, by omega⟩, by omega, by decide +kernel⟩
  rw [hfields] at hmem
  exact absurd hmem (by decide)

end GlideMq
