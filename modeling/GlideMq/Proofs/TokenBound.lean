import GlideMq.Machine.TokenBucket
import GlideMq.Proofs.GroupRuns

/-!
# The throughput of a token bucket

The bucket of a group whose settings never change is a token bucket: each refill gains at most its
rate, and each activation takes its cost. So what the group is charged in any interval, less what it
is given back, is bounded.
-/

namespace GlideMq

open Queue Redis TokenBucket

/-! ## The bucket of a group -/

def GroupHash.bucket (g : GroupHash) : Bucket :=
  ⟨g.tbTokens.getD 0, g.tbLastRefill.getD 0, g.tbRefillRemainder⟩

structure BucketSet (cap rate : Int) (g : GroupHash) : Prop where
  cap : g.tbCapacity = cap
  rate : g.tbRefillRate = rate
  tokens : g.tbTokens = some g.bucket.tokens
  last : g.tbLastRefill = some g.bucket.last

structure BucketUnset (g : GroupHash) : Prop where
  cap : g.tbCapacity = 0
  tokens : g.tbTokens = none
  last : g.tbLastRefill = none
  frac : g.tbRefillRemainder = 0

/-- The account of a group since the time `since`. -/
inductive Books (cap rate since now net : Int) (g : GroupHash) : Prop
  | unset (h : BucketUnset g) (hnet : net = 0) : Books cap rate since now net g
  | set (h : BucketSet cap rate g) (hacc : Account cap rate 1000 since now net g.bucket) :
      Books cap rate since now net g

/-- Settings that leave the bucket as it is once it is set. -/
def Config.Sets (cap rate : Int) : Config → Prop
  | .add c => c.tbCapacity = cap ∧ c.tbRefillRate = rate
  | .flow c => c.tbCapacity ≤ 0 ∨ c.tbCapacity = cap ∧ c.tbRefillRate = rate

/-- The tokens that a posting takes. -/
def Posting.amount (g : GroupHash) : Posting → Int
  | .charge cost => if 0 < g.tbCapacity then cost else 0
  | .credit cost =>
    if 0 < g.tbCapacity then
      g.tbTokens.getD 0 - min g.tbCapacity (g.tbTokens.getD 0 + cost)
    else 0

def amount (g : GroupHash) (posting : Option Posting) : Int := (posting.map (·.amount g)).getD 0

section

variable {cap rate since now x net cost : Int} {g g' g₁ : GroupHash}

theorem Books.of_fields (h : Books cap rate since now net g)
    (heq : g'.bucketFields = g.bucketFields) : Books cap rate since now net g' := by
  unfold GroupHash.bucketFields at heq
  simp only [Prod.mk.injEq] at heq
  obtain ⟨hcap, hrate, htokens, hlast, hfrac⟩ := heq
  have hbucket : g'.bucket = g.bucket := by
    unfold GroupHash.bucket
    rw [htokens, hlast, hfrac]
  cases h with
  | unset h hnet =>
    exact .unset ⟨hcap.trans h.cap, htokens.trans h.tokens, hlast.trans h.last, hfrac.trans h.frac⟩ hnet
  | set h hacc =>
    refine .set ⟨hcap.trans h.cap, hrate.trans h.rate, ?_, ?_⟩ (by rwa [hbucket])
    · rw [htokens, hbucket, h.tokens]
    · rw [hlast, hbucket, h.last]

theorem books_of_bucket {b : Bucket}
    (heq : g.bucketFields = (cap, rate, some b.tokens, some b.last, b.frac))
    (hacc : Account cap rate 1000 since now net b) : Books cap rate since now net g := by
  unfold GroupHash.bucketFields at heq
  simp only [Prod.mk.injEq] at heq
  obtain ⟨hcap, hrate, htokens, hlast, hfrac⟩ := heq
  have hbucket : g.bucket = b := by
    unfold GroupHash.bucket
    rw [htokens, hlast, hfrac]
    rfl
  rw [← hbucket] at htokens hlast hacc
  exact .set ⟨hcap, hrate, htokens, hlast⟩ hacc

theorem BucketSet.fields (h : BucketSet cap rate g) :
    g.bucketFields = (cap, rate, some g.bucket.tokens, some g.bucket.last, g.bucket.frac) := by
  unfold GroupHash.bucketFields
  rw [h.cap, h.rate, ← h.tokens, ← h.last]
  rfl

theorem Books.of_quota (h : Books cap rate since now net g) (heq : g'.quota = g.quota) :
    Books cap rate since now net g' := by
  have hfields : g'.quota.bucketFields = g.quota.bucketFields := by rw [heq]
  exact h.of_fields hfields

theorem Books.later (h : Books cap rate since now net g) (hx : now ≤ x) :
    Books cap rate since x net g := by
  cases h with
  | unset h hnet => exact .unset h hnet
  | set h hacc => exact .set h (hacc.later hx)

theorem Books.reopen (h : Books cap rate since now net g) (hrate : 0 ≤ rate) (since' : Int) :
    Books cap rate since' now 0 g := by
  cases h with
  | unset h hnet => exact .unset h rfl
  | set h hacc => exact .set h (hacc.toOk.account hrate)

/-! ## Refills -/

/-- What a refill does to a bucket that is set. -/
structure Refill (cap rate x : Int) (g : GroupHash) : Prop where
  set : BucketSet cap rate (tbRefill g x).1
  ok : Ok cap 1000 x (tbRefill g x).1.bucket
  refills : Refills rate 1000 g.bucket (tbRefill g x).1.bucket
  fresh : 0 < rate → (tbRefill g x).1.bucket.last = x

theorem tbRefill_full (hcap : 0 < g.tbCapacity) (hset : BucketSet cap rate g)
    (hfull : g.tbCapacity ≤ g.bucket.tokens) : (tbRefill g x).1 = { g with tbLastRefill := some x } := by
  have hlast := hset.last
  unfold tbRefill
  simp only [if_neg (not_le.mpr hcap), hset.tokens, Option.getD_some, if_pos hfull]
  split
  · rfl
  · rename_i heq
    rw [hlast, Option.getD_some, not_not] at heq
    rw [heq, ← hlast, ← hset.tokens]

theorem tbRefill_part (hcap : 0 < cap) (hset : BucketSet cap rate g)
    (hpart : g.bucket.tokens < cap) (hx : g.bucket.last ≤ x) :
    (tbRefill g x).1 =
      if x - g.bucket.last ≤ 0 ∨ rate ≤ 0 then g
      else
        let raw := min (x - g.bucket.last) (ceilDiv (cap * 1000) rate) * rate + g.bucket.frac
        { g with
          tbTokens := some (min cap (g.bucket.tokens + raw / 1000))
          tbLastRefill := some x
          tbRefillRemainder := raw % 1000 } := by
  unfold tbRefill
  simp only [hset.cap, if_neg (not_le.mpr hcap), hset.tokens, hset.last, Option.getD_some,
    if_neg (not_le.mpr hpart), if_neg (not_lt.mpr hx), min_eq_left hx, hset.rate]
  split <;> rfl

theorem refill_of_set (hcap : 0 < cap) (hrate : 0 ≤ rate) (hset : BucketSet cap rate g)
    (hok : Ok cap 1000 x g.bucket) : Refill cap rate x g := by
  have hlast := hok.last_le
  by_cases hfull : g.tbCapacity ≤ g.bucket.tokens
  · have heq := tbRefill_full (x := x) (by rw [hset.cap]; exact hcap) hset hfull
    have hbucket : (tbRefill g x).1.bucket = ⟨g.bucket.tokens, x, g.bucket.frac⟩ := by
      rw [heq]
      rfl
    refine ⟨?_, ?_, ?_, fun _ => by rw [hbucket]⟩
    · rw [heq]
      exact ⟨hset.cap, hset.rate, hset.tokens, rfl⟩
    · rw [hbucket]
      exact ⟨hok.nonneg, hok.le_cap, hok.frac_nonneg, hok.frac_lt, le_rfl⟩
    · rw [hbucket]
      refine ⟨hlast, ?_⟩
      have hgain : 0 ≤ rate * (x - g.bucket.last) := mul_nonneg hrate (by omega)
      dsimp only
      omega
  · rw [not_le, hset.cap] at hfull
    have heq := tbRefill_part hcap hset hfull hlast
    by_cases hnone : x - g.bucket.last ≤ 0 ∨ rate ≤ 0
    · -- no time has passed, or the bucket never gains
      rw [if_pos hnone] at heq
      refine ⟨by rw [heq]; exact hset, by rw [heq]; exact hok, ?_, fun hpos => ?_⟩
      · rw [heq]
        exact ⟨le_rfl, by rw [sub_self, mul_zero, add_zero]⟩
      · rw [heq]
        omega
    · rw [if_neg hnone] at heq
      rw [not_or, not_le, not_le] at hnone
      obtain ⟨hpassed, hpos⟩ := hnone
      generalize hraw : min (x - g.bucket.last) (ceilDiv (cap * 1000) rate) * rate + g.bucket.frac =
        raw at heq
      have hceil : 0 ≤ ceilDiv (cap * 1000) rate := by
        unfold ceilDiv
        have hneg : -(cap * 1000) / rate ≤ 0 := Int.ediv_nonpos_of_nonpos_of_neg (by omega) hpos
        omega
      have hmin : min (x - g.bucket.last) (ceilDiv (cap * 1000) rate) * rate ≤
          (x - g.bucket.last) * rate := mul_le_mul_of_nonneg_right (min_le_left _ _) hrate
      have hnonneg : 0 ≤ min (x - g.bucket.last) (ceilDiv (cap * 1000) rate) * rate :=
        mul_nonneg (le_min (by omega) hceil) hrate
      have hfrac := hok.frac_nonneg
      have htokens := hok.nonneg
      have hcomm := mul_comm rate (x - g.bucket.last)
      have hbucket : (tbRefill g x).1.bucket =
          ⟨min cap (g.bucket.tokens + raw / 1000), x, raw % 1000⟩ := by
        rw [heq]
        rfl
      refine ⟨?_, ?_, ?_, fun _ => by rw [hbucket]⟩
      · rw [heq]
        exact ⟨hset.cap, hset.rate, rfl, rfl⟩
      · rw [hbucket]
        exact ⟨le_min hcap.le (by omega), min_le_left _ _, Int.emod_nonneg _ (by decide),
          Int.emod_lt_of_pos _ (by decide), le_rfl⟩
      · rw [hbucket]
        refine ⟨hlast, ?_⟩
        dsimp only
        have hadded := min_le_right cap (g.bucket.tokens + raw / 1000)
        omega

theorem tbRefill_unset (h : g.tbCapacity = 0) : (tbRefill g x).1 = g := by
  unfold tbRefill
  rw [if_pos h.le]

theorem Books.refill (h : Books cap rate since x net g) (hcap : 0 < cap) (hrate : 0 ≤ rate) :
    Books cap rate since x net (tbRefill g x).1 := by
  cases h with
  | unset h hnet => exact .unset (by rwa [tbRefill_unset h.cap]) hnet
  | set h hacc =>
    have hrefill := refill_of_set hcap hrate h hacc.toOk
    exact .set hrefill.set (hacc.refill hrate hrefill.refills hrefill.ok)

theorem Books.refilled (h : Books cap rate since x net g) (hcap : 0 < cap) (hrate : 0 ≤ rate)
    (hr : Refilled x g g') : Books cap rate since x net g' := by
  rcases hr with heq | heq
  · exact h.of_quota heq
  · exact (h.refill hcap hrate).of_quota (by rw [heq, quota_tbRefill])

/-! ## Charges and credits -/

theorem Refilled.tbCapacity (h : Refilled x g g') : g'.tbCapacity = g.tbCapacity := by
  change g'.quota.tbCapacity = g.quota.tbCapacity
  rcases h with heq | heq
  · rw [heq]
  · rw [heq, tbCapacity_tbRefill]

theorem bucketFields_charge (g : GroupHash) (cost now : Int) :
    (g.charge cost now).bucketFields =
      (if 0 < g.tbCapacity then { g with tbTokens := some (g.tbTokens.getD 0 - cost) }
        else g).bucketFields := by
  unfold GroupHash.charge
  simp only
  repeat' split
  all_goals rfl

theorem bucketFields_credit (g : GroupHash) (cost : Int) :
    (g.credit cost).bucketFields =
      (if 0 < g.tbCapacity then
        { g with tbTokens := some (min g.tbCapacity (g.tbTokens.getD 0 + cost)) }
        else g).bucketFields := by
  unfold GroupHash.credit
  simp only
  repeat' split
  all_goals rfl

theorem Books.charge (h : Books cap rate since x net g) (hcap : 0 < cap) (hrate : 0 ≤ rate)
    (hfull : (tbRefill g x).1 = g) (hadmits : g.Admits cost now) (hcost : 0 ≤ cost) (hx : since ≤ x) :
    Books cap rate since x (net + (Posting.charge cost).amount g) (g.charge cost now) := by
  have hfields := bucketFields_charge g cost now
  simp only [Posting.amount]
  cases h with
  | unset h hnet =>
    have hno : ¬ 0 < g.tbCapacity := by simp [h.cap]
    rw [if_neg hno] at hfields ⊢
    exact Books.of_fields (.unset h (by rw [hnet, add_zero])) hfields
  | set h hacc =>
    have hpos : 0 < g.tbCapacity := by rwa [h.cap]
    rw [if_pos hpos] at hfields ⊢
    have hle := hadmits.tokens hpos
    rw [h.tokens, Option.getD_some] at hle
    have hfresh := (refill_of_set hcap hrate h hacc.toOk).fresh
    rw [hfull] at hfresh
    refine books_of_bucket (hfields.trans ?_) (hacc.charge hcost hle hfresh hx)
    unfold GroupHash.bucketFields
    rw [h.cap, h.rate, h.tokens, h.last]
    rfl

theorem Books.credit (h : Books cap rate since x net g) (hcap : 0 < cap) (hcost : 0 ≤ cost) :
    Books cap rate since x (net + (Posting.credit cost).amount g) (g.credit cost) := by
  have hfields := bucketFields_credit g cost
  simp only [Posting.amount]
  cases h with
  | unset h hnet =>
    have hno : ¬ 0 < g.tbCapacity := by simp [h.cap]
    rw [if_neg hno] at hfields ⊢
    exact Books.of_fields (.unset h (by rw [hnet, add_zero])) hfields
  | set h hacc =>
    have hpos : 0 < g.tbCapacity := by rwa [h.cap]
    rw [if_pos hpos] at hfields ⊢
    rw [h.cap, h.tokens, Option.getD_some] at hfields ⊢
    rw [← neg_sub (min _ _), ← sub_eq_add_neg]
    refine books_of_bucket (hfields.trans ?_) (hacc.credit hcost)
    unfold GroupHash.bucketFields
    rw [h.rate, h.last]
    rfl

theorem Books.post (h : Books cap rate since x net g) (hcap : 0 < cap) (hrate : 0 ≤ rate)
    (hx : since ≤ x) {posting : Option Posting} (hpost : QuotaStep x now g g' posting)
    (hcost : ∀ p ∈ posting, 0 ≤ p.cost) : Books cap rate since x (net + amount g posting) g' := by
  cases hpost with
  | quiet hr =>
    unfold amount
    simpa using h.refilled hcap hrate hr
  | @charge g₁ cost hr hfull hadmits hr' =>
    have hsame : (Posting.charge cost).amount g₁ = (Posting.charge cost).amount g := by
      unfold Posting.amount
      rw [hr.tbCapacity]
    have hcharge := (h.refilled hcap hrate hr).charge hcap hrate hfull hadmits (hcost _ rfl) hx
    rw [hsame] at hcharge
    exact hcharge.refilled hcap hrate hr'
  | credit heq => exact (h.credit hcap (hcost _ rfl)).of_quota heq

/-! ## Settings -/

theorem apply_bucketFields (f : Config) (g : GroupHash) (x : Int) :
    (f.apply x g).bucketFields =
      match f with
      | .add c => (addedGroup g c 0 x).bucketFields
      | .flow c => (flowGroup g c true x).bucketFields := by
  cases f with
  | add c =>
    have hfields : ((Config.add c).apply x g).quota.bucketFields = (addedGroup g c 0 x).quota.bucketFields := by
      rw [quota_addedGroup]
    exact hfields
  | flow c => rfl

theorem Books.config (h : Books cap rate since x net g) (hcap : 0 < cap) (hrate : 0 ≤ rate) {f : Config}
    (hf : f.Sets cap rate) : Books cap rate since x net (f.apply x g) := by
  have hfields := apply_bucketFields f g x
  have hfull : Ok cap 1000 x ⟨cap, x, 0⟩ :=
    ⟨hcap.le, le_rfl, le_rfl, by norm_num, le_rfl⟩
  cases f with
  | add c =>
    obtain ⟨hc, hr⟩ := hf
    simp only [addedGroup_bucketFields, hc, hr, if_pos hcap] at hfields
    cases h with
    | unset h hnet =>
      rw [if_pos h.cap] at hfields
      exact books_of_bucket hfields (by rw [hnet]; exact hfull.account hrate)
    | set h hacc =>
      rw [if_neg (by rw [h.cap]; exact hcap.ne'), h.tokens, h.last] at hfields
      exact books_of_bucket hfields hacc
  | flow c =>
    simp only [flowGroup_bucketFields] at hfields
    rcases hf with hnone | ⟨hc, hr⟩
    · rw [if_neg (not_lt.mpr hnone)] at hfields
      exact h.of_fields hfields
    rw [hc, hr, if_pos hcap] at hfields
    cases h with
    | unset h hnet =>
      rw [h.tokens, h.last, h.frac] at hfields
      exact books_of_bucket hfields (by rw [hnet]; exact hfull.account hrate)
    | set h hacc =>
      rw [h.tokens, h.last] at hfields
      exact books_of_bucket hfields hacc

theorem Books.configured (h : Books cap rate since x net g) (hcap : 0 < cap) (hrate : 0 ≤ rate)
    (hc : Configured x (Config.Sets cap rate) g g') : Books cap rate since x net g' := by
  induction hc with
  | quiet hr => exact h.refilled hcap hrate hr
  | config hf heq => exact (h.config hcap hrate hf).of_quota heq
  | trans _ _ ih ih' => exact ih' (ih h)

end

/-! ## Runs on a server's clock -/

/-- A call that the server runs at the time `x`, on a group whose settings stay as they are. -/
structure SteadyCall (q : QueueName) (gk : GroupKey) (sets : Config → Prop) (S : Sys) (call : Int × SysCall) :
    Prop where
  clock : ∀ y ∈ call.2.serverNow, y = call.1
  settings : call.2.Carries fun q' gk' f => q' = q ∧ gk' = gk → sets f
  first : call.2.FirstStart S q gk

/-- What a run charges the group between two times, less what it gives back. -/
def netCharged (q : QueueName) (gk : GroupKey) (t₁ t₂ : Int) : Sys → List (Int × SysCall) → Int
  | _, [] => 0
  | S, (x, c) :: run =>
    (if t₁ ≤ x ∧ x ≤ t₂ then amount ((S q).groups gk) (c.posting S q gk) else 0) +
      netCharged q gk t₁ t₂ (timedStep S (x, c)) run

def Costs (s : Queue) : Prop := ∀ J, ∀ cost ∈ (s.job J).cost, 0 < cost

section

variable {q : QueueName} {gk : GroupKey} {x : Int} {S : Sys} {s t u : Queue}

theorem Costs.kept (h : Costs s) (hkept : ∀ J, JobCalm (s.job J) (t.job J)) : Costs t := by
  intro J cost hc
  rcases (hkept J).cost cost hc with hold | hpos
  · exact h J cost hold
  · exact hpos

theorem Costs.idle (h : Costs s) (hidle : Idle x s t) : Costs t :=
  h.kept fun J => (hidle.jobs J).toJobCalm

theorem Costs.cost_nonneg (h : Costs s) (J : JobId) : 0 ≤ (s.job J).cost.getD 1000 := by
  cases hc : (s.job J).cost with
  | none => decide
  | some cost => exact (h J cost hc).le

theorem Costs.starts {now : Int} {J : JobId} {charge : Option GroupKey} (h : Costs u)
    (hstarts : Starts x now u t J charge) : Costs t := by
  intro K cost hc
  by_cases hK : K = J
  · subst hK
    rw [hstarts.cost] at hc
    exact h K cost hc
  · rw [hstarts.others K hK] at hc
    exact h K cost hc

theorem Costs.attempt {now : Int} {J : JobId} {fields : Option Job} (h : Costs s)
    (ha : Attempt x now s t J fields) : Costs t := by
  cases ha with
  | started hidle hkey hstarts => exact (h.idle hidle).starts hstarts
  | returned hkey hreturns hactive hself hothers hquotas =>
    intro K cost hc
    by_cases hK : K = J
    · rw [hK, hself.2] at hc
      exact h J cost hc
    · rw [hothers K hK] at hc
      exact h K cost hc
  | idle hidle => exact h.idle hidle

theorem Costs.fetchEnd {now : Int} {next : ChainNext} (h : Costs s) (he : FetchEnd x now s t next) :
    Costs t := by
  cases he with
  | started hidle hstarts hfields hkey => exact (h.idle hidle).starts hstarts
  | idle hidle hnext => exact h.idle hidle

theorem Costs.call (h : Costs s) (c : Call) : Costs (c.run s) := by
  by_cases hc : c.posts = false
  · exact h.idle (call_idle (x := c.serverNow.getD 0) s hc fun y hy => by rw [hy]; rfl)
  cases c with
  | addJob a =>
    have hadds : Adds _ (fun _ _ => True) s (addJob s a).1 := addJob_adds rfl (by simp) s
    exact h.kept hadds.jobs
  | dedup a =>
    have hadds : Adds _ (fun _ _ => True) s (dedup s a).1 := dedup_adds rfl (by simp) s
    exact h.kept hadds.jobs
  | moveToActive a => exact h.attempt (moveToActive_attempt s a)
  | completeAndFetchNext a =>
    rcases completeAndFetchNext_end s a with ⟨hnone, hs⟩ | ⟨reply, hreply, hend⟩
    · change Costs (completeAndFetchNext s a).1
      rwa [hs]
    · exact h.fetchEnd hend
  | failAndFetchNext a consumer => exact h.fetchEnd (failAndFetchNext_end s a consumer)
  | deferActive a => exact h.kept fun J => (deferActive_kept s a J).toJobCalm
  | _ => exact absurd rfl hc

theorem Costs.posting (h : Costs s) (c : Call) : ∀ p ∈ c.posting s gk, 0 ≤ p.cost := by
  intro p hp
  unfold Call.posting at hp
  split at hp
  · split at hp
    · cases hp
      exact h.cost_nonneg _
    · cases hp
  split at hp
  · rename_i J e fields hact
    split at hp
    · cases hp
      have hcost : fields.cost = ((c.run s).job J).cost := by rw [activation_eq hact]
      simp only [Posting.cost, hcost]
      exact (h.call _).cost_nonneg J
    · cases hp
  · cases hp

end

section

variable {q : QueueName} {gk : GroupKey} {S : Sys} {call : Int × SysCall}

theorem timedStep_costs (h : ∀ q, Costs (S q)) (call : Int × SysCall) : ∀ q, Costs (timedStep S call q) := by
  obtain ⟨x, c⟩ := call
  unfold timedStep
  cases c with
  | on q' c => exact Machine.forall_update (P := fun _ s => Costs s) h ((h q').call c)
  | addFlow a =>
    have hadds : SysAdds _ (fun _ _ _ => True) S (addFlow S a).1 := addFlow_adds rfl ⟨by simp, by simp⟩ S
    exact fun q => (h q).kept (hadds q).jobs
  | registerParent child parent =>
    have hadds : SysAdds 0 (fun _ _ _ => True) S (registerParent S child parent).1 :=
      registerParent_adds S child parent
    exact fun q => (h q).kept (hadds q).jobs

theorem posting_cost_nonneg (h : ∀ q, Costs (S q)) (c : SysCall) :
    ∀ p ∈ c.posting S q gk, 0 ≤ p.cost := by
  cases c with
  | on q' c =>
    unfold SysCall.posting
    simp only
    split
    · exact (h q).posting c
    · exact nofun
  | _ => exact nofun

variable {cap rate since now net : Int}

theorem Books.timedStep (h : Books cap rate since now net ((S q).groups gk)) (hcap : 0 < cap)
    (hrate : 0 ≤ rate) (hcosts : ∀ q, Costs (S q)) (hnow : now ≤ call.1) (hsince : since ≤ call.1)
    (hsteady : SteadyCall q gk (Config.Sets cap rate) S call) :
    Books cap rate since call.1 (net + amount ((S q).groups gk) (call.2.posting S q gk))
      ((timedStep S call q).groups gk) := by
  have h' := h.later hnow
  rcases sysStep_quota hsteady.clock hsteady.settings hsteady.first with hstep | ⟨hnone, hconf⟩
  · exact h'.post hcap hrate hsince hstep (posting_cost_nonneg hcosts _)
  · rw [hnone]
    unfold amount
    simpa [GlideMq.timedStep] using h'.configured hcap hrate hconf

theorem Books.bound {t : Int} (h : Books cap rate since now net ((S q).groups gk)) (hcap : 0 < cap)
    (hrate : 0 ≤ rate) (hnow : now ≤ t) (hsince : since ≤ t) :
    1000 * net ≤ 1000 * cap + rate * (t - since) + 1000 := by
  cases h with
  | unset h hnet =>
    have hgain : 0 ≤ rate * (t - since) := mul_nonneg hrate (sub_nonneg.mpr hsince)
    omega
  | set h hacc => exact hacc.bound hrate hnow hsince

end

/-! ## The bound -/

section

variable {q : QueueName} {gk : GroupKey} {cap rate t₁ t₂ : Int}

theorem netCharged_eq_zero {run : List (Int × SysCall)} (S : Sys) (h : ∀ call ∈ run, t₂ < call.1) :
    netCharged q gk t₁ t₂ S run = 0 := by
  induction run generalizing S with
  | nil => rfl
  | cons call run ih =>
    have hlate := h call List.mem_cons_self
    rw [netCharged, if_neg (fun hin => absurd hin.2 (not_le.mpr hlate)), zero_add]
    exact ih _ fun call' hcall' => h call' (List.mem_cons_of_mem call hcall')

theorem netCharged_bound (hcap : 0 < cap) (hrate : 0 ≤ rate) (hle : t₁ ≤ t₂) {run : List (Int × SysCall)}
    {S : Sys} {now net : Int} (h : Books cap rate t₁ now net ((S q).groups gk))
    (hcosts : ∀ q, Costs (S q)) (hnow : now ≤ t₂) (hzero : now < t₁ → net = 0)
    (hfrom : ∀ call ∈ run, now ≤ call.1) (hclock : run.Pairwise (·.1 ≤ ·.1))
    (hsteady : Machine.Meets timedStep (SteadyCall q gk (Config.Sets cap rate)) S run) :
    1000 * (net + netCharged q gk t₁ t₂ S run) ≤ 1000 * cap + rate * (t₂ - t₁) + 1000 := by
  induction run generalizing S now net with
  | nil =>
    rw [netCharged, add_zero]
    exact h.bound hcap hrate hnow hle
  | cons call run ih =>
    obtain ⟨hcall, hrest⟩ := hsteady
    obtain ⟨hlater, hclock'⟩ := List.pairwise_cons.mp hclock
    have hx := hfrom call List.mem_cons_self
    have hcosts' := timedStep_costs hcosts call
    rcases lt_or_ge t₂ call.1 with hafter | hbefore
    · have hlate : ∀ c ∈ call :: run, t₂ < c.1 := by
        intro c hc
        rcases List.mem_cons.mp hc with rfl | hc
        · exact hafter
        · exact hafter.trans_le (hlater c hc)
      rw [netCharged_eq_zero S hlate, add_zero]
      exact h.bound hcap hrate hnow hle
    rw [netCharged]
    rcases lt_or_ge call.1 t₁ with hearly | hin
    · -- before the interval the account is opened again after each call
      have hnet := hzero (hx.trans_lt hearly)
      have hstep := ((h.reopen hrate call.1).timedStep hcap hrate hcosts hx le_rfl hcall).reopen hrate t₁
      have hrun := ih hstep hcosts' hbefore (fun _ => rfl) hlater hclock' hrest
      rw [if_neg (fun hcon => absurd hcon.1 (not_le.mpr hearly)), hnet, zero_add]
      exact hrun
    · have hstep := h.timedStep hcap hrate hcosts hx hin hcall
      have hrun := ih hstep hcosts' hbefore (fun hcon => absurd hcon (not_lt.mpr hin)) hlater hclock' hrest
      rw [if_pos ⟨hin, hbefore⟩, ← add_assoc]
      exact hrun

end

/-- A job of a group with a bucket of two tokens that gains one in a second. -/
def throttledAdd (timestamp : Int) : SysCall :=
  .on "q" (.addJob
    { timestamp, serverNow := timestamp, orderingKey := some "k",
      group := { concurrency := 3, tbCapacity := 2000, tbRefillRate := 1000 } })

/-- One job is started by its worker, the next one by a chain call, which then gives it back. -/
def throttledRun : List (Int × SysCall) :=
  [(0, throttledAdd 0), (0, throttledAdd 0),
   (10, .on "q" (.readGroup "w" "a")),
   (10, .on "q" (.moveToActive
    { jobId := "1", entryId := some 1, group := "w", timestamp := 10, serverNow := 10 })),
   (20, .on "q" (.completeAndFetchNext
    { jobId := "1", entryId := some 1, timestamp := 20, serverNow := 20, group := "w", consumer := "a" })),
   (30, .on "q" (.deferActive
    { jobId := "2", entryId := some 2, group := "w", undoGroupClaim := true }))]

end GlideMq
