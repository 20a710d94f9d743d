import GlideMq.Model.Ordering
import Mathlib.Tactic.Linarith

/-!
# The law of the refill

A refill counts the time since the last one, adds whole tokens for it and keeps the rest. The time
it counts has a bound, as much as an empty bucket needs to fill up. A bucket in debt needs more.
-/

namespace GlideMq

/-- The most time that one refill counts. -/
def GroupHash.maxElapsed (g : GroupHash) : Int := ceilDiv (g.tbCapacity * 1000) g.tbRefillRate

/-- The time that a refill at `t` counts after one at `last`. -/
def GroupHash.counted (g : GroupHash) (last t : Int) : Int := min (max 0 (t - last)) g.maxElapsed

/-- Thousandths of a token that are there after some time. -/
def GroupHash.gain (g : GroupHash) (elapsed : Int) : Int :=
  elapsed * g.tbRefillRate + g.tbRefillRemainder

/-- A stored bucket. -/
structure GroupHash.Holds (g : GroupHash) (tokens last : Int) : Prop where
  tokens : g.tbTokens = some tokens
  last : g.tbLastRefill = some last
  capacity : 0 ≤ g.tbCapacity
  remainder : 0 ≤ g.tbRefillRemainder ∧ g.tbRefillRemainder < 1000

/-- What a later refill needs to know of a bucket. -/
def GroupHash.level (g : GroupHash) : Option Int × Int := (g.tbTokens, g.tbRefillRemainder)

section

variable {g : GroupHash} {tokens last t t₁ t₂ : Int}

theorem maxElapsed_pos (hcap : 0 < g.tbCapacity) (hrate : 0 < g.tbRefillRate) : 0 < g.maxElapsed := by
  unfold GroupHash.maxElapsed ceilDiv
  have hneg : -(g.tbCapacity * 1000) / g.tbRefillRate < 0 := Int.ediv_neg_of_neg_of_pos (by omega) hrate
  omega

theorem counted_nonneg (hcap : 0 < g.tbCapacity) (hrate : 0 < g.tbRefillRate) :
    0 ≤ g.counted last t := by
  have hmax := maxElapsed_pos hcap hrate
  unfold GroupHash.counted
  omega

theorem gain_nonneg (h : g.Holds tokens last) (hcap : 0 < g.tbCapacity) (hrate : 0 < g.tbRefillRate) :
    0 ≤ g.gain (g.counted last t) := by
  have hrem := h.remainder.1
  have hmul : 0 ≤ g.counted last t * g.tbRefillRate := mul_nonneg (counted_nonneg hcap hrate) hrate.le
  unfold GroupHash.gain
  omega

/-- A refill that moves at most the clock. -/
structure Idles (g u : GroupHash) (tokens : Int) : Prop where
  holds : ∃ last, u.Holds tokens last
  capacity : u.tbCapacity = g.tbCapacity
  rate : u.tbRefillRate = g.tbRefillRate
  remainder : u.tbRefillRemainder = g.tbRefillRemainder

theorem Idles.clock (h : g.Holds tokens last) (x : Int) : Idles g { g with tbLastRefill := some x } tokens :=
  ⟨⟨x, h.tokens, rfl, h.capacity, h.remainder⟩, rfl, rfl, rfl⟩

/-- A bucket without a capacity or a rate, or a full one. -/
def GroupHash.idle (g : GroupHash) (tokens : Int) : Prop :=
  g.tbCapacity = 0 ∨ g.tbCapacity ≤ tokens ∨ g.tbRefillRate ≤ 0

theorem tbRefill_idle (h : g.Holds tokens last) (hidle : g.idle tokens) :
    Idles g (tbRefill g t).1 tokens ∧ (tbRefill g t).2 ≤ g.tbCapacity ∧
      (tokens ≤ g.tbCapacity → tokens ≤ (tbRefill g t).2) := by
  have hcap := h.capacity
  have hsame : Idles g g tokens := ⟨⟨last, h⟩, rfl, rfl, rfl⟩
  have htokens : g.tbTokens.getD g.tbCapacity = tokens := by rw [h.tokens, Option.getD_some]
  unfold tbRefill
  rw [h.last, htokens]
  simp only [Option.getD_some]
  split
  · exact ⟨hsame, hcap, fun hle => by omega⟩
  rename_i hpos
  split
  · split
    · exact ⟨.clock h t, le_rfl, id⟩
    · exact ⟨hsame, le_rfl, id⟩
  rename_i hfull
  have hrate : g.tbRefillRate ≤ 0 := by
    rcases hidle with hzero | hle | hrate
    · omega
    · exact absurd hle hfull
    · exact hrate
  by_cases hahead : t < last
  · rw [if_pos hahead, if_pos (.inr hrate)]
    exact ⟨.clock h t, (not_le.mp hfull).le, fun _ => le_rfl⟩
  · rw [if_neg hahead, if_pos (.inr hrate)]
    exact ⟨hsame, (not_le.mp hfull).le, fun _ => le_rfl⟩

theorem Idles.level {u : GroupHash} (hu : Idles g u tokens) :
    u.level = (some tokens, g.tbRefillRemainder) := by
  obtain ⟨last, hholds⟩ := hu.holds
  unfold GroupHash.level
  rw [hholds.tokens, hu.remainder]

/-- A refill of a bucket with room. -/
structure AfterRefill (g u : GroupHash) (tokens last t : Int) : Prop where
  tokens : u.tbTokens = some (min g.tbCapacity (tokens + g.gain (g.counted last t) / 1000))
  remainder : u.tbRefillRemainder = g.gain (g.counted last t) % 1000
  last : u.tbLastRefill = some t
  capacity : u.tbCapacity = g.tbCapacity
  rate : u.tbRefillRate = g.tbRefillRate

theorem tbRefill_refill (h : g.Holds tokens last) (hcap : 0 < g.tbCapacity) (hroom : tokens < g.tbCapacity)
    (hrate : 0 < g.tbRefillRate) :
    AfterRefill g (tbRefill g t).1 tokens last t ∧
      (tbRefill g t).1.tbTokens = some (tbRefill g t).2 := by
  have hrem := h.remainder
  have hmax := maxElapsed_pos hcap hrate
  -- no time is counted: the stored time is now or later
  have hstill (hle : t ≤ last) : g.gain (g.counted last t) = g.tbRefillRemainder := by
    have hzero : g.counted last t = 0 := by
      unfold GroupHash.counted
      omega
    unfold GroupHash.gain
    rw [hzero, Int.zero_mul, Int.zero_add]
  have hkept (hle : t ≤ last) :
      min g.tbCapacity (tokens + g.gain (g.counted last t) / 1000) = tokens ∧
        g.gain (g.counted last t) % 1000 = g.tbRefillRemainder := by
    rw [hstill hle]
    omega
  have hfound : g.tbTokens.getD g.tbCapacity = tokens := by rw [h.tokens, Option.getD_some]
  unfold tbRefill
  rw [h.last, hfound, if_neg (by omega)]
  simp only [Option.getD_some]
  rw [if_neg (by omega)]
  by_cases hahead : t < last
  · obtain ⟨htokens, hfrac⟩ := hkept hahead.le
    rw [if_pos hahead, if_pos (.inl (by omega))]
    exact ⟨⟨by rw [htokens]; exact h.tokens, hfrac.symm, rfl, rfl, rfl⟩, h.tokens⟩
  rw [if_neg hahead]
  by_cases hnow : t = last
  · obtain ⟨htokens, hfrac⟩ := hkept hnow.le
    rw [if_pos (.inl (by omega))]
    exact ⟨⟨by rw [htokens]; exact h.tokens, hfrac.symm, by rw [hnow]; exact h.last, rfl, rfl⟩, h.tokens⟩
  · have hcount : min (t - min last t) (ceilDiv (g.tbCapacity * 1000) g.tbRefillRate) =
        g.counted last t := by
      unfold GroupHash.counted GroupHash.maxElapsed
      rw [min_eq_left (by omega : last ≤ t), max_eq_right (by omega)]
    rw [if_neg (by omega), hcount]
    exact ⟨⟨rfl, rfl, rfl, rfl, rfl⟩, rfl⟩

theorem AfterRefill.holds {u : GroupHash} (hu : AfterRefill g u tokens last t) (h : g.Holds tokens last) :
    u.Holds (min g.tbCapacity (tokens + g.gain (g.counted last t) / 1000)) t where
  tokens := hu.tokens
  last := hu.last
  capacity := hu.capacity ▸ h.capacity
  remainder := by
    rw [hu.remainder]
    omega

/-! ## The law -/

/-- What is said of a refill at `t₁` and another one at `t₂`. -/
structure RefillLaw (g : GroupHash) (tokens t₁ t₂ : Int) : Prop where
  le_capacity : (tbRefill g t₁).2 ≤ g.tbCapacity
  remainder : 0 ≤ (tbRefill g t₁).1.tbRefillRemainder ∧ (tbRefill g t₁).1.tbRefillRemainder < 1000
  /-- Neither the reply nor what is stored is less than before. -/
  never_lowers : tokens ≤ g.tbCapacity →
    tokens ≤ (tbRefill g t₁).2 ∧ ∀ n ∈ (tbRefill g t₁).1.tbTokens, tokens ≤ n
  /-- A bucket with room at `t₁` forgets that it was refilled there. -/
  once : (∀ n ∈ (tbRefill g t₁).1.tbTokens, n < g.tbCapacity) →
    (tbRefill (tbRefill g t₁).1 t₂).1.level = (tbRefill g t₂).1.level

/-- A gain that fills the bucket up. -/
def GroupHash.fills (g : GroupHash) (tokens elapsed : Int) : Prop :=
  1000 * (g.tbCapacity - tokens) ≤ g.gain elapsed

/-- The bucket is full at `t₁`, or two refills count the time that one counts, or what they count
more is worth whole tokens and the bucket is full with either. -/
def GroupHash.CountsOnce (g : GroupHash) (tokens last t₁ t₂ : Int) : Prop :=
  g.fills tokens (g.counted last t₁) ∨
    g.counted last t₁ + g.counted t₁ t₂ = g.counted last t₂ ∨
    g.fills tokens (g.counted last t₁ + g.counted t₁ t₂) ∧ g.fills tokens (g.counted last t₂) ∧
      ((g.counted last t₁ + g.counted t₁ t₂ - g.counted last t₂) * g.tbRefillRate) % 1000 = 0

theorem gain_lt_of_lt {a b : Int} (hrate : 0 < g.tbRefillRate) (hab : a < b) : g.gain a < g.gain b := by
  have := mul_lt_mul_of_pos_right hab hrate
  unfold GroupHash.gain
  omega

theorem tbRefill_twice (h : g.Holds tokens last) (hcap : 0 < g.tbCapacity) (hrate : 0 < g.tbRefillRate)
    (hroom : ¬ g.fills tokens (g.counted last t₁)) :
    (tbRefill (tbRefill g t₁).1 t₂).1.level =
      (some (min g.tbCapacity (tokens + g.gain (g.counted last t₁ + g.counted t₁ t₂) / 1000)),
        g.gain (g.counted last t₁ + g.counted t₁ t₂) % 1000) := by
  unfold GroupHash.fills at hroom
  have hgain := gain_nonneg (t := t₁) h hcap hrate
  obtain ⟨hu, -⟩ := tbRefill_refill (t := t₁) h hcap (by omega) hrate
  have hleft : tokens + g.gain (g.counted last t₁) / 1000 < g.tbCapacity := by omega
  have hholds := hu.holds h
  rw [min_eq_right hleft.le] at hholds
  have hcounted : (tbRefill g t₁).1.counted t₁ t₂ = g.counted t₁ t₂ := by
    unfold GroupHash.counted GroupHash.maxElapsed
    rw [hu.capacity, hu.rate]
  obtain ⟨hv, -⟩ := tbRefill_refill (t := t₂) hholds (by rwa [hu.capacity]) (by rwa [hu.capacity])
    (by rwa [hu.rate])
  have hsum : g.gain (g.counted last t₁ + g.counted t₁ t₂) =
      g.gain (g.counted last t₁) + g.counted t₁ t₂ * g.tbRefillRate := by
    unfold GroupHash.gain
    ring
  have hrest : (tbRefill g t₁).1.gain (g.counted t₁ t₂) =
      g.counted t₁ t₂ * g.tbRefillRate + g.gain (g.counted last t₁) % 1000 := by
    unfold GroupHash.gain
    rw [hu.rate, hu.remainder]
    rfl
  unfold GroupHash.level
  rw [hv.tokens, hv.remainder, hcounted, hrest, hu.capacity, hsum]
  generalize g.gain (g.counted last t₁) = a
  generalize g.counted t₁ t₂ * g.tbRefillRate = b
  have hdiv : a / 1000 + (b + a % 1000) / 1000 = (a + b) / 1000 := by omega
  have hmod : (b + a % 1000) % 1000 = (a + b) % 1000 := by omega
  rw [add_assoc, hdiv, hmod]

theorem tbRefill_once (h : g.Holds tokens last) (hcap : 0 < g.tbCapacity) (hrate : 0 < g.tbRefillRate)
    (hroom : tokens < g.tbCapacity) :
    (tbRefill g t).1.level =
      (some (min g.tbCapacity (tokens + g.gain (g.counted last t) / 1000)),
        g.gain (g.counted last t) % 1000) := by
  obtain ⟨hu, -⟩ := tbRefill_refill (t := t) h hcap hroom hrate
  unfold GroupHash.level
  rw [hu.tokens, hu.remainder]

theorem same_bucket_iff {c n a b : Int} :
    (some (min c (n + a / 1000)), a % 1000) = (some (min c (n + b / 1000)), b % 1000) ↔
      a = b ∨ (1000 * (c - n) ≤ a ∧ 1000 * (c - n) ≤ b ∧ (a - b) % 1000 = 0) := by
  simp only [Prod.mk.injEq, Option.some.injEq]
  omega

theorem counted_room (h : g.Holds tokens last) (hcap : 0 < g.tbCapacity) (hrate : 0 < g.tbRefillRate)
    (hroom : ¬ g.fills tokens (g.counted last t₁)) :
    (tbRefill (tbRefill g t₁).1 t₂).1.level = (tbRefill g t₂).1.level ↔
      g.counted last t₁ + g.counted t₁ t₂ = g.counted last t₂ ∨
      g.fills tokens (g.counted last t₁ + g.counted t₁ t₂) ∧ g.fills tokens (g.counted last t₂) ∧
        ((g.counted last t₁ + g.counted t₁ t₂ - g.counted last t₂) * g.tbRefillRate) % 1000 = 0 := by
  have hgain := gain_nonneg (t := t₁) h hcap hrate
  have hless : tokens < g.tbCapacity := by
    unfold GroupHash.fills at hroom
    omega
  rw [tbRefill_twice h hcap hrate hroom, tbRefill_once h hcap hrate hless, same_bucket_iff]
  generalize g.counted last t₁ + g.counted t₁ t₂ = a
  generalize g.counted last t₂ = b
  have hdiff : g.gain a - g.gain b = (a - b) * g.tbRefillRate := by
    unfold GroupHash.gain
    ring
  have hinj : g.gain a = g.gain b ↔ a = b := by
    refine ⟨fun hab => ?_, fun hab => by rw [hab]⟩
    rcases lt_trichotomy a b with hlt | heq | hgt
    · exact absurd hab (gain_lt_of_lt hrate hlt).ne
    · exact heq
    · exact absurd hab (gain_lt_of_lt hrate hgt).ne'
  unfold GroupHash.fills
  rw [hinj, hdiff]

theorem refillLaw_idle (h : g.Holds tokens last) (hidle : g.idle tokens) : RefillLaw g tokens t₁ t₂ := by
  obtain ⟨hfirst, hle, hkept⟩ := tbRefill_idle (t := t₁) h hidle
  obtain ⟨hsecond, -, -⟩ := tbRefill_idle (t := t₂) h hidle
  obtain ⟨last', hholds⟩ := hfirst.holds
  refine ⟨hle, hholds.remainder, fun hcap => ⟨hkept hcap, ?_⟩, fun _ => ?_⟩
  · rw [hholds.tokens]
    rintro n hn
    cases hn
    exact le_rfl
  · have hagain : (tbRefill g t₁).1.idle tokens := by
      unfold GroupHash.idle
      rw [hfirst.capacity, hfirst.rate]
      exact hidle
    obtain ⟨htwice, -, -⟩ := tbRefill_idle (t := t₂) hholds hagain
    rw [htwice.level, hsecond.level, hfirst.remainder]

/-- The law holds of a bucket with room exactly if no time is lost to the bound. -/
theorem refillLaw_room (h : g.Holds tokens last) (hcap : 0 < g.tbCapacity) (hrate : 0 < g.tbRefillRate)
    (hroom : tokens < g.tbCapacity) :
    RefillLaw g tokens t₁ t₂ ↔ g.CountsOnce tokens last t₁ t₂ := by
  have hgain := gain_nonneg (t := t₁) h hcap hrate
  obtain ⟨hu, hreply⟩ := tbRefill_refill (t := t₁) h hcap hroom hrate
  have htokens := hu.tokens
  rw [htokens, Option.some.injEq] at hreply
  have hstored : (∀ n ∈ (tbRefill g t₁).1.tbTokens, n < g.tbCapacity) ↔
      ¬ g.fills tokens (g.counted last t₁) := by
    rw [htokens]
    unfold GroupHash.fills
    simp only [Option.mem_def, Option.some.injEq, forall_eq']
    omega
  unfold GroupHash.CountsOnce
  constructor
  · rintro ⟨-, -, -, honce⟩
    by_cases hfill : g.fills tokens (g.counted last t₁)
    · exact .inl hfill
    · exact .inr ((counted_room h hcap hrate hfill).mp (honce (hstored.mpr hfill)))
  · intro hcond
    refine ⟨?_, ?_, fun _ => ⟨?_, ?_⟩, fun hfree => ?_⟩
    · rw [← hreply]
      exact min_le_left _ _
    · rw [hu.remainder]
      omega
    · rw [← hreply]
      omega
    · rw [htokens]
      rintro n hn
      cases hn
      omega
    · have hfill := hstored.mp hfree
      exact (counted_room h hcap hrate hfill).mpr (hcond.resolve_left hfill)

theorem countsOnce_of_short (hfirst : last ≤ t₁) (hsecond : t₁ ≤ t₂) (hshort : t₂ - last ≤ g.maxElapsed) :
    g.CountsOnce tokens last t₁ t₂ := by
  refine .inr (.inl ?_)
  unfold GroupHash.counted
  omega

end

/-- A bucket of one token, one token a second, that owes five. -/
def indebted : GroupHash where
  tbCapacity := 1000
  tbRefillRate := 1000
  tbTokens := some (-5000)
  tbLastRefill := some 0

theorem indebted_holds : indebted.Holds (-5000) 0 := ⟨rfl, rfl, by decide, by decide⟩

end GlideMq
