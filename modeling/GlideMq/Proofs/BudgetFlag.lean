import GlideMq.Machine.Runs
import GlideMq.Model.Budget
import Mathlib.Tactic.Linarith

/-!
# The flag of a flow budget

The flag is raised by a charge and re-evaluated by an update. A charge judges the categories by the
limits its worker has read, which may be older than those that are stored.
-/

namespace GlideMq

/-- The usage that is charged is over a limit that is stored. -/
def BudgetHash.over (b : BudgetHash) : Bool := budgetLimitsExceeded b b.limits

/-- The flag says whether the budget is exceeded. -/
def BudgetHash.Truthful (b : BudgetHash) : Prop := b.exceeded = b.over

instance (b : BudgetHash) : Decidable b.Truthful := inferInstanceAs (Decidable (_ = _))

/-- The limits that the worker has read and those that are stored say the same of the usage after
the charge. Once the flag is raised, it does not matter what they say. -/
def BudgetHash.Judged (b : BudgetHash) (u : Usage) (l : CategoryLimits) : Prop :=
  b.over = true ∨ budgetLimitsExceeded (b.charge u) l = (b.charge u).over

instance (b : BudgetHash) (u : Usage) (l : CategoryLimits) : Decidable (b.Judged u l) :=
  inferInstanceAs (Decidable (_ ∨ _))

/-! ## Usage grows -/

theorem le_chargeTotal (val used : ℚ) : used ≤ chargeTotal val used := by
  unfold chargeTotal
  split
  · linarith
  · exact le_refl used

theorem le_chargeAmounts (amounts : Amounts) (used : String → ℚ) (cat : String) :
    used cat ≤ chargeAmounts amounts used cat := by
  induction amounts generalizing used with
  | nil => exact le_refl _
  | cons a amounts ih =>
    refine le_trans ?_ (ih _)
    dsimp only
    split
    · by_cases hcat : cat = a.1
      · subst hcat
        simp only [Function.update_self]
        linarith
      · rw [Function.update_of_ne hcat]
    · exact le_refl _

theorem overTotal_mono {limit : Option ℚ} {used used' : ℚ} (hle : used ≤ used')
    (h : overTotal limit used = true) : overTotal limit used' = true := by
  simp only [overTotal, Bool.and_eq_true, decide_eq_true_eq] at h ⊢
  exact ⟨h.1, lt_of_lt_of_le h.2 hle⟩

theorem overCategory_mono {limits : Amounts} {used used' : String → ℚ}
    (hle : ∀ cat, used cat ≤ used' cat) (h : overCategory limits used = true) :
    overCategory limits used' = true := by
  simp only [overCategory, List.any_eq_true, Bool.and_eq_true, decide_eq_true_eq] at h ⊢
  obtain ⟨a, ha, hpos, hlt⟩ := h
  exact ⟨a, ha, hpos, lt_of_lt_of_le hlt (hle a.1)⟩

theorem BudgetHash.over_charge {b : BudgetHash} (u : Usage) (h : b.over = true) :
    (b.charge u).over = true := by
  unfold BudgetHash.over budgetLimitsExceeded at h ⊢
  simp only [Bool.or_eq_true] at h ⊢
  rcases h with ((h | h) | h) | h
  · exact .inl (.inl (.inl (overTotal_mono (le_chargeTotal _ _) h)))
  · exact .inl (.inl (.inr (overTotal_mono (le_chargeTotal _ _) h)))
  · exact .inl (.inr (overCategory_mono (le_chargeAmounts _ _) h))
  · exact .inr (overCategory_mono (le_chargeAmounts _ _) h)

/-! ## One call -/

theorem updateFlowBudget_truthful {b b' : BudgetHash} {fields : List LimitField}
    (h : (updateFlowBudget (some b) fields).1 = some b') : b'.Truthful := by
  unfold updateFlowBudget at h
  simp only at h
  split at h
  · rename_i hover
    cases h
    exact hover.symm
  · rename_i hover
    cases h
    exact (Bool.eq_false_iff.mpr hover).symm

/-- A charge keeps the flag truthful exactly if it is judged as the stored limits would. -/
theorem recordUsage_truthful_iff {b b' : BudgetHash} {u : Usage} {l : CategoryLimits}
    (htrue : b.Truthful) (h : (recordUsageAndCheckBudget (some b) u l).1 = some b') :
    b'.Truthful ↔ b.Judged u l := by
  have hflag : (b.charge u).exceeded = b.over := htrue
  unfold recordUsageAndCheckBudget at h
  simp only at h
  unfold BudgetHash.Truthful BudgetHash.Judged
  split at h
  all_goals
    rename_i hjudge
    cases h
  · change true = (b.charge u).over ↔ _
    rw [hjudge]
    constructor
    · exact .inr
    · rintro (hover | heq)
      · exact (BudgetHash.over_charge u hover).symm
      · exact heq
  · rw [hflag, Bool.eq_false_iff.mpr hjudge]
    constructor
    · intro heq
      cases hover : b.over with
      | true => exact .inl rfl
      | false => exact .inr (hover ▸ heq)
    · rintro (hover | heq)
      · rw [hover, BudgetHash.over_charge u hover]
      · rw [← heq]
        by_contra hne
        have hover : b.over = true := by simpa using hne
        rw [BudgetHash.over_charge u hover] at heq
        cases heq

/-! ## Runs -/

/-- The flag of a budget that exists is truthful. -/
def BudgetSys.Truthful (x : BudgetSys) : Prop := ∀ b ∈ x.hash, b.Truthful

instance (x : BudgetSys) : Decidable x.Truthful :=
  inferInstanceAs (Decidable (∀ b ∈ x.hash, b.Truthful))

/-- A charge is judged as the stored limits would judge it. -/
def BudgetCall.judged (x : BudgetSys) : BudgetCall → Prop
  | .charge w u => ∀ b ∈ x.hash, ∀ l ∈ x.read w, b.Judged u l
  | _ => True

theorem BudgetSys.Truthful.step {x : BudgetSys} (h : x.Truthful) {call : BudgetCall}
    (hcall : call.judged x) : (budgetStep x call).Truthful := by
  intro b' hb'
  cases call with
  | read w => exact h b' hb'
  | check => exact h b' hb'
  | update fields =>
    simp only [budgetStep] at hb'
    cases hx : x.hash with
    | none => simp [hx, updateFlowBudget] at hb'
    | some b =>
      rw [hx] at hb'
      exact updateFlowBudget_truthful hb'
  | charge w u =>
    simp only [budgetStep] at hb'
    cases hl : x.read w with
    | none =>
      rw [hl] at hb'
      exact h b' hb'
    | some l =>
      rw [hl] at hb'
      cases hx : x.hash with
      | none => simp [hx, recordUsageAndCheckBudget] at hb'
      | some b =>
        rw [hx] at hb'
        exact (recordUsage_truthful_iff (h b hx) hb').mpr (hcall b hx l hl)

end GlideMq
