import Mathlib.Data.Rat.Defs
import Mathlib.Algebra.Order.Ring.Rat
import Mathlib.Data.String.Basic
import Mathlib.Logic.Function.Basic

/-!
# Flow budgets

A flow may have a budget: limits on the tokens and the cost of its jobs, in total and for each
category. A worker reads the limits of the categories, and charges a job's usage in a later call
that is given them. Amounts are exact here.
-/

namespace GlideMq

/-- A JSON record of amounts. -/
abbrev Amounts := List (String × ℚ)

/-- The hash `budget:<id>`. -/
structure BudgetHash where
  maxTotalTokens : Option ℚ := none
  maxTotalCost : Option ℚ := none
  maxTokens : Option Amounts := none
  maxCosts : Option Amounts := none
  usedTokens : ℚ := 0
  usedCost : ℚ := 0
  /-- The `usedTokens:` fields. -/
  usedTokensOf : String → ℚ := fun _ => 0
  /-- The `usedCost:` fields. -/
  usedCostOf : String → ℚ := fun _ => 0
  exceeded : Bool := false

/-- The limits of the categories, as a worker read them. -/
structure CategoryLimits where
  maxTokens : Amounts := []
  maxCosts : Amounts := []

namespace BudgetHash

def limits (b : BudgetHash) : CategoryLimits := ⟨b.maxTokens.getD [], b.maxCosts.getD []⟩

end BudgetHash

def overTotal (limit : Option ℚ) (used : ℚ) : Bool :=
  decide (0 < limit.getD 0) && decide (limit.getD 0 < used)

def overCategory (limits : Amounts) (used : String → ℚ) : Bool :=
  limits.any fun (cat, limit) => decide (0 < limit) && decide (limit < used cat)

def budgetLimitsExceeded (b : BudgetHash) (l : CategoryLimits) : Bool :=
  overTotal b.maxTotalTokens b.usedTokens || overTotal b.maxTotalCost b.usedCost ||
    overCategory l.maxTokens b.usedTokensOf || overCategory l.maxCosts b.usedCostOf

/-- What one attempt of a job used. -/
structure Usage where
  tokens : Amounts := []
  costs : Amounts := []
  weightedTotal : ℚ := 0
  totalCost : ℚ := 0

/-- `HINCRBYFLOAT` for each positive amount of a record. -/
def chargeAmounts (amounts : Amounts) (used : String → ℚ) : String → ℚ :=
  amounts.foldl
    (fun used (cat, val) => if 0 < val then Function.update used cat (used cat + val) else used) used

def chargeTotal (val used : ℚ) : ℚ := if 0 < val then used + val else used

/-- The counters after a charge. -/
def BudgetHash.charge (b : BudgetHash) (u : Usage) : BudgetHash :=
  { b with
    usedTokens := chargeTotal u.weightedTotal b.usedTokens
    usedCost := chargeTotal u.totalCost b.usedCost
    usedTokensOf := chargeAmounts u.tokens b.usedTokensOf
    usedCostOf := chargeAmounts u.costs b.usedCostOf }

inductive BudgetStatus where
  | noBudget
  | exceeded
  | ok
  deriving DecidableEq

def checkBudget : Option BudgetHash → BudgetStatus
  | none => .noBudget
  | some b => if b.exceeded then .exceeded else .ok

/-- The limits of the categories are the caller's, those on the totals are read from the hash. -/
def recordUsageAndCheckBudget (b : Option BudgetHash) (u : Usage) (l : CategoryLimits) :
    Option BudgetHash × BudgetStatus :=
  match b with
  | none => (none, .noBudget)
  | some b =>
    let b := b.charge u
    if budgetLimitsExceeded b l then (some { b with exceeded := true }, .exceeded)
    else (some b, .ok)

/-- One field and its value. An empty value, `none` here, deletes the field. -/
inductive LimitField where
  | maxTotalTokens (v : Option ℚ)
  | maxTotalCost (v : Option ℚ)
  | maxTokens (v : Option Amounts)
  | maxCosts (v : Option Amounts)
  /-- A field that no check reads. -/
  | other

def BudgetHash.setLimit (b : BudgetHash) : LimitField → BudgetHash
  | .maxTotalTokens v => { b with maxTotalTokens := v }
  | .maxTotalCost v => { b with maxTotalCost := v }
  | .maxTokens v => { b with maxTokens := v }
  | .maxCosts v => { b with maxCosts := v }
  | .other => b

def updateFlowBudget (b : Option BudgetHash) (fields : List LimitField) :
    Option BudgetHash × BudgetStatus :=
  match b with
  | none => (none, .noBudget)
  | some b =>
    let b := fields.foldl BudgetHash.setLimit b
    if budgetLimitsExceeded b b.limits then (some { b with exceeded := true }, .exceeded)
    else (some { b with exceeded := false }, .ok)

/-! ## Workers -/

abbrev WorkerId := Nat

/-- A budget, and what the workers that are about to charge it have read. -/
structure BudgetSys where
  hash : Option BudgetHash
  read : WorkerId → Option CategoryLimits := fun _ => none

/-- A worker's charge takes two calls, and other calls may come between. -/
inductive BudgetCall where
  /-- `HMGET tokenWeights maxTokens maxCosts`. -/
  | read (w : WorkerId)
  | charge (w : WorkerId) (u : Usage)
  | update (fields : List LimitField)
  | check

def budgetStep (x : BudgetSys) : BudgetCall → BudgetSys
  | .read w =>
    { x with
      read := Function.update x.read w (some ((x.hash.map BudgetHash.limits).getD {})) }
  | .charge w u =>
    match x.read w with
    | none => x
    | some l =>
      { hash := (recordUsageAndCheckBudget x.hash u l).1, read := Function.update x.read w none }
  | .update fields => { x with hash := (updateFlowBudget x.hash fields).1 }
  | .check => x

end GlideMq
