import Mathlib.Logic.Function.Basic

/-!
# Runs of a state machine

A machine is a step function on states and calls. A run is a list of calls. Some results hold only
along runs whose every call meets a condition in the state it is made in.
-/

namespace Machine

variable {σ ι : Type*}

/-- The state after a run. -/
def run (step : σ → ι → σ) (s : σ) (calls : List ι) : σ := calls.foldl step s

/-- Every call of the run meets the condition in its state. -/
def Meets (step : σ → ι → σ) (ok : σ → ι → Prop) : σ → List ι → Prop
  | _, [] => True
  | s, c :: calls => ok s c ∧ Meets step ok (step s c) calls

instance (step : σ → ι → σ) (ok : σ → ι → Prop) [∀ s c, Decidable (ok s c)] :
    ∀ s calls, Decidable (Meets step ok s calls)
  | _, [] => isTrue trivial
  | s, c :: calls =>
    have := instDecidableMeets step ok (step s c) calls
    inferInstanceAs (Decidable (ok s c ∧ Meets step ok (step s c) calls))

section

variable {step : σ → ι → σ} {ok : σ → ι → Prop}

@[simp] theorem run_nil (s : σ) : run step s [] = s := rfl

@[simp] theorem run_cons (s : σ) (c : ι) (calls : List ι) :
    run step s (c :: calls) = run step (step s c) calls := rfl

theorem run_append (s : σ) (as bs : List ι) :
    run step s (as ++ bs) = run step (run step s as) bs := List.foldl_append

theorem Meets.mono {ok' : σ → ι → Prop} (h : ∀ s c, ok s c → ok' s c) :
    ∀ {s : σ} {calls : List ι}, Meets step ok s calls → Meets step ok' s calls
  | _, [], _ => trivial
  | _, _ :: _, ⟨hc, hrest⟩ => ⟨h _ _ hc, hrest.mono h⟩

theorem Meets.of_forall {ok : ι → Prop} {s : σ} {calls : List ι} (h : ∀ c ∈ calls, ok c) :
    Meets step (fun _ => ok) s calls := by
  induction calls generalizing s with
  | nil => trivial
  | cons c calls ih => exact ⟨h c List.mem_cons_self, ih fun d hd => h d (List.mem_cons_of_mem c hd)⟩

theorem Meets.append : ∀ {s : σ} {as bs : List ι}, Meets step ok s (as ++ bs) →
    Meets step ok s as ∧ Meets step ok (run step s as) bs
  | _, [], _, h => ⟨trivial, h⟩
  | _, _ :: _, _, ⟨ha, h⟩ =>
    have ⟨has, hbs⟩ := h.append
    ⟨⟨ha, has⟩, hbs⟩

/-- An invariant that every good call keeps holds at the end of every good run. -/
theorem invariant {inv : σ → Prop} (hstep : ∀ s c, inv s → ok s c → inv (step s c)) {s : σ}
    {calls : List ι} (h : inv s) (hmeets : Meets step ok s calls) : inv (run step s calls) := by
  induction calls generalizing s with
  | nil => exact h
  | cons c calls ih => exact ih (hstep s c h hmeets.1) hmeets.2

/-- The invariant rule for runs without a condition. -/
theorem invariant_all {inv : σ → Prop} (hstep : ∀ s c, inv s → inv (step s c)) {s : σ}
    (calls : List ι) (h : inv s) : inv (run step s calls) := by
  induction calls generalizing s with
  | nil => exact h
  | cons c calls ih => exact ih (hstep s c h)

/-- A measure that every good call lowers bounds the length of a good run. -/
theorem length_le_of_lowers {inv : σ → Prop} {μ : σ → Nat} (hinv : ∀ s c, inv s → ok s c → inv (step s c))
    (hlowers : ∀ s c, inv s → ok s c → μ (step s c) < μ s) {s : σ} {calls : List ι} (h : inv s)
    (hmeets : Meets step ok s calls) : calls.length + μ (run step s calls) ≤ μ s := by
  induction calls generalizing s with
  | nil => simp
  | cons c calls ih =>
    have hrest := ih (hinv s c h hmeets.1) hmeets.2
    have hfirst := hlowers s c h hmeets.1
    simp only [List.length_cons, run_cons]
    omega

end

/-! ## Independent components -/

section

variable {κ : Type*} [DecidableEq κ] {τ : Type*}

theorem forall_update {P : κ → τ → Prop} {S : κ → τ} {k : κ} {x : τ} (h : ∀ j, P j (S j))
    (hx : P k x) : ∀ j, P j (Function.update S k x j) := by
  intro j
  by_cases hj : j = k
  · subst hj; simpa using hx
  · simpa [hj] using h j

end

end Machine
