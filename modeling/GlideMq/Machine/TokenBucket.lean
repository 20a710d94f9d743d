import Mathlib.Tactic.Linarith
import Mathlib.Algebra.Order.Ring.Int

/-!
# Token buckets

A bucket holds up to `cap` tokens and gains `rate` of them in `unit` ticks. What a refill leaves of a
token is kept for the next one. An account says what was taken from a bucket since some time, less
what was put back, and bounds it by what the bucket can have gained.
-/

namespace TokenBucket

structure Bucket where
  tokens : Int
  /-- The time of the last refill. -/
  last : Int
  /-- Parts of a token. -/
  frac : Int
  deriving DecidableEq

section

variable {cap rate unit since now x t net cost : Int} {b b' : Bucket}

/-- What holds of a bucket at any time. -/
structure Ok (cap unit now : Int) (b : Bucket) : Prop where
  nonneg : 0 ≤ b.tokens
  le_cap : b.tokens ≤ cap
  frac_nonneg : 0 ≤ b.frac
  frac_lt : b.frac < unit
  last_le : b.last ≤ now

/-- A refill adds no more than the rate allows for the time that it counts. -/
structure Refills (rate unit : Int) (b b' : Bucket) : Prop where
  last_le : b.last ≤ b'.last
  gain : unit * b'.tokens + b'.frac ≤ unit * b.tokens + b.frac + rate * (b'.last - b.last)

def Bucket.charge (b : Bucket) (cost : Int) : Bucket := { b with tokens := b.tokens - cost }

def Bucket.credit (cap : Int) (b : Bucket) (cost : Int) : Bucket :=
  { b with tokens := min cap (b.tokens + cost) }

/-- `net` was taken since the time `since`. A bucket that was not refilled since has given nothing. -/
structure Account (cap rate unit since now net : Int) (b : Bucket) : Prop extends Ok cap unit now b where
  spent : unit * (net + b.tokens) + b.frac ≤
    unit * cap + (unit - 1) + rate * (max b.last since - since)
  before : b.last < since → 0 < rate → net ≤ 0

theorem Ok.later (h : Ok cap unit now b) (hx : now ≤ x) : Ok cap unit x b :=
  ⟨h.nonneg, h.le_cap, h.frac_nonneg, h.frac_lt, h.last_le.trans hx⟩

theorem Ok.charge (h : Ok cap unit now b) (hcost : 0 ≤ cost) (hle : cost ≤ b.tokens) :
    Ok cap unit now (b.charge cost) where
  nonneg := sub_nonneg.mpr hle
  le_cap := (sub_le_self _ hcost).trans h.le_cap
  frac_nonneg := h.frac_nonneg
  frac_lt := h.frac_lt
  last_le := h.last_le

theorem Ok.credit (h : Ok cap unit now b) (hcost : 0 ≤ cost) : Ok cap unit now (b.credit cap cost) where
  nonneg := le_min (h.nonneg.trans h.le_cap) (add_nonneg h.nonneg hcost)
  le_cap := min_le_left _ _
  frac_nonneg := h.frac_nonneg
  frac_lt := h.frac_lt
  last_le := h.last_le

theorem unit_pos (h : Ok cap unit now b) : 0 < unit := h.frac_nonneg.trans_lt h.frac_lt

theorem Ok.account (h : Ok cap unit now b) (hrate : 0 ≤ rate) : Account cap rate unit since now 0 b where
  toOk := h
  spent := by
    have hgain : 0 ≤ rate * (max b.last since - since) :=
      mul_nonneg hrate (sub_nonneg.mpr (le_max_right _ _))
    have htokens : unit * b.tokens ≤ unit * cap := mul_le_mul_of_nonneg_left h.le_cap (unit_pos h).le
    have hfrac := h.frac_lt
    rw [zero_add]
    omega
  before _ _ := le_rfl

theorem Account.later (h : Account cap rate unit since now net b) (hx : now ≤ x) :
    Account cap rate unit since x net b := ⟨h.toOk.later hx, h.spent, h.before⟩

theorem Account.refill (h : Account cap rate unit since now net b) (hrate : 0 ≤ rate)
    (hr : Refills rate unit b b') (hok : Ok cap unit x b') : Account cap rate unit since x net b' where
  toOk := hok
  spent := by
    have hspent := h.spent
    have hgain := hr.gain
    have hlast := hr.last_le
    rcases le_or_gt since b.last with hle | hlt
    · rw [max_eq_left hle] at hspent
      rw [max_eq_left (hle.trans hlast)]
      linarith
    rcases hrate.eq_or_lt with rfl | hpos
    · linarith
    · -- the bucket has given nothing yet, so a full one is within the bound
      have hnet := h.before hlt hpos
      have hmore : 0 ≤ rate * (max b'.last since - since) :=
        mul_nonneg hrate (sub_nonneg.mpr (le_max_right _ _))
      have hunit := (unit_pos hok).le
      have hfull : unit * (net + b'.tokens) ≤ unit * cap :=
        mul_le_mul_of_nonneg_left (by linarith [hok.le_cap]) hunit
      have hfrac := hok.frac_lt
      omega
  before hlt hpos := h.before (hr.last_le.trans_lt hlt) hpos

theorem Account.charge (h : Account cap rate unit since now net b) (hcost : 0 ≤ cost)
    (hle : cost ≤ b.tokens) (hfresh : 0 < rate → b.last = now) (hsince : since ≤ now) :
    Account cap rate unit since now (net + cost) (b.charge cost) where
  toOk := h.toOk.charge hcost hle
  spent := by
    have hsame : net + cost + (b.tokens - cost) = net + b.tokens := by omega
    unfold Bucket.charge
    rw [hsame]
    exact h.spent
  before hlt hpos := absurd (hfresh hpos) (hlt.trans_le hsince).ne

theorem Account.credit (h : Account cap rate unit since now net b) (hcost : 0 ≤ cost) :
    Account cap rate unit since now (net - ((b.credit cap cost).tokens - b.tokens))
      (b.credit cap cost) where
  toOk := h.toOk.credit hcost
  spent := by
    have hsame : net - ((b.credit cap cost).tokens - b.tokens) + (b.credit cap cost).tokens =
        net + b.tokens := by omega
    rw [hsame]
    exact h.spent
  before hlt hpos := by
    have hnet := h.before hlt hpos
    have hmore : b.tokens ≤ (b.credit cap cost).tokens :=
      le_min h.le_cap (le_add_of_nonneg_right hcost)
    omega

/-- What was taken by the time `t`. -/
theorem Account.bound (h : Account cap rate unit since now net b) (hrate : 0 ≤ rate) (hnow : now ≤ t)
    (hsince : since ≤ t) : unit * net ≤ unit * cap + rate * (t - since) + unit := by
  have hspent := h.spent
  have htokens : 0 ≤ unit * b.tokens := mul_nonneg (unit_pos h.toOk).le h.nonneg
  have hmax : max b.last since ≤ t := max_le (h.last_le.trans hnow) hsince
  have hgain : rate * (max b.last since - since) ≤ rate * (t - since) :=
    mul_le_mul_of_nonneg_left (by omega) hrate
  have hfrac := h.frac_nonneg
  rw [mul_add] at hspent
  omega

end

end TokenBucket
