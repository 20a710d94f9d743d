import Mathlib.Tactic.Common
import GlideMq.Machine.Runs
import GlideMq.Model.Lock

/-!
# Leases

What a client knows of its lock from its own calls and their replies is a lease. Whatever the other
clients call, the server holds the lock for a token exactly as long as that token's lease lasts.
-/

namespace GlideMq

/-! ## What a client knows -/

/-- The last instant of a lease, after a call of its holder and the reply. -/
def LockCall.lease (c : LockCall) (r : LockReply) (lease : Option Int) : Option Int :=
  match c.function, r with
  | .tryLock ttl, .done => some (c.now + ttlOf ttl)
  | .tryLock _, _ => lease
  | .unlock, _ => none
  | .renewLock ttl, .done => if ttlOf ttl ≤ 0 then none else some (c.now + ttlOf ttl)
  | .renewLock _, _ => none

/-- The server's keys, and the lease of every token on every key. -/
structure LockSys where
  locks : Locks := fun _ => none
  leases : String → String → Option Int := fun _ _ => none

def lockStep (s : LockSys) (c : LockCall) : LockSys where
  locks := (c.run s.locks).1
  leases := Function.update s.leases c.lockKey
    (Function.update (s.leases c.lockKey) c.token (c.lease (c.run s.locks).2 (s.leases c.lockKey c.token)))

/-! ## Server and clients agree -/

/-- At `clock` a key holds a token until the end of its lease, but for what is over by then. -/
structure LockSys.Agrees (s : LockSys) (clock : Int) : Prop where
  stored : ∀ lockKey token x, s.leases lockKey token = some x →
    s.locks lockKey = some ⟨token, x⟩ ∨ x < clock
  leased : ∀ lockKey token x, s.locks lockKey = some ⟨token, x⟩ →
    s.leases lockKey token = some x ∨ x < clock

variable {s : LockSys} {clock now : Int} {lockKey token : String}

theorem LockSys.Agrees.mono (h : s.Agrees clock) (hle : clock ≤ now) : s.Agrees now := by
  constructor
  · intro k t x hx
    rcases h.stored k t x hx with hlock | hover
    · exact .inl hlock
    · exact .inr (by omega)
  · intro k t x hx
    rcases h.leased k t x hx with hlease | hover
    · exact .inl hlease
    · exact .inr (by omega)

theorem get_eq_some_iff (l : Locks) (lockKey token : String) (now : Int) :
    l.get lockKey now = some token ↔ ∃ x, l lockKey = some ⟨token, x⟩ ∧ now ≤ x := by
  unfold Locks.get
  cases hl : l lockKey with
  | none => simp
  | some lock =>
    obtain ⟨t, x⟩ := lock
    by_cases hx : now ≤ x
    · simp [Option.filter, hx]
    · simp [Option.filter, hx]

theorem get_eq_none_iff (l : Locks) (lockKey : String) (now : Int) :
    l.get lockKey now = none ↔ ∀ token x, l lockKey = some ⟨token, x⟩ → x < now := by
  unfold Locks.get
  cases hl : l lockKey with
  | none => simp
  | some lock =>
    obtain ⟨t, x⟩ := lock
    by_cases hx : now ≤ x
    · simp [Option.filter, hx]
    · simp [Option.filter, hx]
      omega

/-- The lease that the server's key says. -/
theorem LockSys.Agrees.get_iff (h : s.Agrees clock) (hle : clock ≤ now) (lockKey token : String) :
    s.locks.get lockKey now = some token ↔ ∃ x, s.leases lockKey token = some x ∧ now ≤ x := by
  rw [get_eq_some_iff]
  constructor
  · rintro ⟨x, hlock, hx⟩
    rcases h.leased lockKey token x hlock with hlease | hover
    · exact ⟨x, hlease, hx⟩
    · omega
  · rintro ⟨x, hlease, hx⟩
    rcases h.stored lockKey token x hlease with hlock | hover
    · exact ⟨x, hlock, hx⟩
    · omega

theorem lockStep_leases (s : LockSys) (c : LockCall) (k t : String) :
    (lockStep s c).leases k t = if k = c.lockKey ∧ t = c.token then
      c.lease (c.run s.locks).2 (s.leases c.lockKey c.token) else s.leases k t := by
  simp only [lockStep, Function.update_apply]
  by_cases hk : k = c.lockKey
  · subst hk
    by_cases ht : t = c.token
    · simp [ht]
    · simp [ht]
  · simp [hk]

theorem LockSys.Agrees.replace (h : s.Agrees clock) {c : LockCall} {x : Option Int}
    (hlocks : (lockStep s c).locks = Function.update s.locks c.lockKey (x.map (⟨c.token, ·⟩)))
    (hlease : c.lease (c.run s.locks).2 (s.leases c.lockKey c.token) = x)
    (hothers : ∀ token y, token ≠ c.token → s.locks c.lockKey = some ⟨token, y⟩ → y < clock) :
    (lockStep s c).Agrees clock := by
  -- The holder's key and lease are replaced together.
  constructor
  · intro k t y hy
    rw [lockStep_leases, hlease] at hy
    rw [hlocks, Function.update_apply]
    split at hy
    · rename_i hown
      refine .inl ?_
      rw [if_pos hown.1, hy, hown.2]
      rfl
    · rename_i hown
      rcases h.stored k t y hy with hlock | hover
      · by_cases hk : k = c.lockKey
        · subst hk
          exact .inr (hothers t y (fun ht => hown ⟨rfl, ht⟩) hlock)
        · rw [if_neg hk]
          exact .inl hlock
      · exact .inr hover
  · intro k t y hy
    rw [lockStep_leases, hlease]
    rw [hlocks, Function.update_apply] at hy
    by_cases hk : k = c.lockKey
    · rw [if_pos hk] at hy
      obtain ⟨x', rfl, heq⟩ := Option.map_eq_some_iff.mp hy
      cases heq
      rw [if_pos ⟨hk, rfl⟩]
      exact .inl rfl
    · rw [if_neg hk] at hy
      rw [if_neg fun hown => hk hown.1]
      exact h.leased k t y hy

theorem LockSys.Agrees.forget (h : s.Agrees clock) {c : LockCall} (hlocks : (lockStep s c).locks = s.locks)
    (hlease : c.lease (c.run s.locks).2 (s.leases c.lockKey c.token) = none)
    (hnot : ∀ y, s.locks c.lockKey = some ⟨c.token, y⟩ → y < clock) : (lockStep s c).Agrees clock := by
  -- The holder gives up a lease that the key does not say.
  constructor
  · intro k t y hy
    rw [lockStep_leases, hlease] at hy
    rw [hlocks]
    split at hy
    · cases hy
    · exact h.stored k t y hy
  · intro k t y hy
    rw [hlocks] at hy
    rw [lockStep_leases]
    split
    · rename_i hown
      obtain ⟨rfl, rfl⟩ := hown
      exact .inr (hnot y hy)
    · exact h.leased k t y hy

theorem LockSys.Agrees.same (h : s.Agrees clock) {c : LockCall} (hlocks : (lockStep s c).locks = s.locks)
    (hlease : c.lease (c.run s.locks).2 (s.leases c.lockKey c.token) = s.leases c.lockKey c.token) :
    (lockStep s c).Agrees clock := by
  have hleases (k t : String) : (lockStep s c).leases k t = s.leases k t := by
    rw [lockStep_leases]
    split
    · rename_i hown
      rw [hlease, hown.1, hown.2]
    · rfl
  constructor
  · intro k t y hy
    rw [hleases] at hy
    rw [hlocks]
    exact h.stored k t y hy
  · intro k t y hy
    rw [hlocks] at hy
    rw [hleases]
    exact h.leased k t y hy

theorem no_other_holder {l : Locks} (hget : l.get lockKey now = some token) (other : String) (y : Int)
    (hne : other ≠ token) (hl : l lockKey = some ⟨other, y⟩) : y < now := by
  obtain ⟨x, hx, -⟩ := (get_eq_some_iff l lockKey token now).mp hget
  rw [hl] at hx
  cases hx
  exact absurd rfl hne

theorem not_holder {l : Locks} (hget : l.get lockKey now ≠ some token) (y : Int)
    (hl : l lockKey = some ⟨token, y⟩) : y < now := by
  by_contra hle
  exact hget ((get_eq_some_iff l lockKey token now).mpr ⟨y, hl, by omega⟩)

theorem LockSys.Agrees.step (h : s.Agrees clock) {c : LockCall} (hle : clock ≤ c.now) :
    (lockStep s c).Agrees c.now := by
  have hnow := h.mono hle
  obtain ⟨callNow, k, t, function⟩ := c
  cases function with
  | tryLock ttl =>
    by_cases httl : ttlOf ttl ≤ 0
    · apply hnow.same <;> simp [lockStep, LockCall.run, LockCall.lease, tryLock, httl]
    by_cases hfree : s.locks.get k callNow = none
    · have hover := (get_eq_none_iff s.locks k callNow).mp hfree
      apply @LockSys.Agrees.replace _ _ hnow _ (some (callNow + ttlOf ttl))
      · simp [lockStep, LockCall.run, tryLock, httl, hfree]
      · simp [LockCall.run, LockCall.lease, tryLock, httl, hfree]
      · exact fun other y _ hl => hover other y hl
    · apply hnow.same <;> simp [lockStep, LockCall.run, LockCall.lease, tryLock, httl, hfree]
  | unlock =>
    by_cases hmine : s.locks.get k callNow = some t
    · apply @LockSys.Agrees.replace _ _ hnow _ none
      · simp [lockStep, LockCall.run, unlock, hmine]
      · simp [LockCall.lease]
      · exact no_other_holder hmine
    · apply hnow.forget
      · simp [lockStep, LockCall.run, unlock, hmine]
      · simp [LockCall.lease]
      · exact not_holder hmine
  | renewLock ttl =>
    by_cases hmine : s.locks.get k callNow = some t
    · apply @LockSys.Agrees.replace _ _ hnow _ (if ttlOf ttl ≤ 0 then none else some (callNow + ttlOf ttl))
      · simp only [lockStep, LockCall.run, renewLock, hmine, if_true]
        split <;> rfl
      · simp [LockCall.run, LockCall.lease, renewLock, hmine]
      · exact no_other_holder hmine
    · apply hnow.forget
      · simp [lockStep, LockCall.run, renewLock, hmine]
      · simp [LockCall.run, LockCall.lease, renewLock, hmine]
      · exact not_holder hmine

/-! ## Runs -/

theorem LockSys.Agrees.run (h : s.Agrees clock) (calls : List LockCall) (hafter : ∀ c ∈ calls, clock ≤ c.now)
    (hclock : calls.Pairwise (·.now ≤ ·.now)) (hnow : ∀ c ∈ calls, c.now ≤ now) (hle : clock ≤ now) :
    (Machine.run lockStep s calls).Agrees now := by
  induction calls generalizing s clock with
  | nil => exact h.mono hle
  | cons c calls ih =>
    obtain ⟨hfirst, hrest⟩ := List.pairwise_cons.mp hclock
    have hstep := h.step (hafter c List.mem_cons_self)
    exact ih hstep hfirst hrest (fun d hd => hnow d (List.mem_cons_of_mem c hd)) (hnow c List.mem_cons_self)

theorem agrees_start (clock : Int) : ({} : LockSys).Agrees clock := by
  constructor <;> (intro _ _ _ hx; cases hx)

/-- Whatever calls any clients make, at any later time the server holds the lock for a token exactly if
the lease of that token, known to its holder alone, has not run out. So two holders never have the same
lock, and a lock is refused exactly while some lease on it lasts. -/
theorem lock_follows_leases (calls : List LockCall) (now : Int) (lockKey : String) :
    let s := Machine.run lockStep {} calls
    calls.Pairwise (·.now ≤ ·.now) → (∀ c ∈ calls, c.now ≤ now) →
      (∀ token, s.locks.get lockKey now = some token ↔ ∃ x, s.leases lockKey token = some x ∧ now ≤ x) ∧
      (∀ t₁ t₂ x₁ x₂, s.leases lockKey t₁ = some x₁ → now ≤ x₁ → s.leases lockKey t₂ = some x₂ → now ≤ x₂ →
        t₁ = t₂) ∧
      ∀ token ttl, 0 < ttlOf ttl →
        ((tryLock s.locks now lockKey token ttl).2 = .refused ↔
          ∃ holder x, s.leases lockKey holder = some x ∧ now ≤ x) := by
  intro s hclock hnow
  have hagrees : s.Agrees now := by
    cases calls with
    | nil => exact agrees_start now
    | cons c calls =>
      have hfirst := (List.pairwise_cons.mp hclock).1
      refine (agrees_start c.now).run (c :: calls) (fun d hd => ?_) hclock hnow (hnow c List.mem_cons_self)
      rcases List.mem_cons.mp hd with rfl | hrest
      · exact Int.le_refl _
      · exact hfirst d hrest
  have hget (token : String) := hagrees.get_iff (Int.le_refl now) lockKey token
  refine ⟨hget, fun t₁ t₂ x₁ x₂ h₁ hx₁ h₂ hx₂ => ?_, fun token ttl httl => ?_⟩
  · have hheld₁ := (hget t₁).mpr ⟨x₁, h₁, hx₁⟩
    have hheld₂ := (hget t₂).mpr ⟨x₂, h₂, hx₂⟩
    rw [hheld₁] at hheld₂
    exact Option.some.inj hheld₂
  · have hpositive : ¬ ttlOf ttl ≤ 0 := by omega
    unfold tryLock
    rw [if_neg hpositive]
    constructor
    · intro hrefused
      obtain ⟨holder, hholder⟩ : ∃ holder, s.locks.get lockKey now = some holder := by
        apply Option.ne_none_iff_exists'.mp
        intro hfree
        simp [hfree] at hrefused
      exact ⟨holder, (hget holder).mp hholder⟩
    · rintro ⟨holder, x, hlease, hx⟩
      have hheld := (hget holder).mpr ⟨x, hlease, hx⟩
      simp [hheld]

/-- A tick whose lock runs out while an upsert waits for it. -/
def lateTick : List LockCall :=
  [⟨0, "tick", "a", .tryLock (some 5000)⟩, ⟨10, "tick", "b", .tryLock (some 5000)⟩,
    ⟨5001, "tick", "b", .tryLock (some 5000)⟩, ⟨5002, "tick", "a", .unlock⟩]

/-- The late holder does not take the lock from the next one. -/
theorem late_unlock_is_refused : (Machine.run lockStep {} lateTick).locks.get "tick" 5003 = some "b" :=
  ((lock_follows_leases lateTick 5003 "tick" (by simp [lateTick]) (by simp [lateTick])).1 "b").mpr
    ⟨10001, by decide +kernel, by decide⟩

end GlideMq
