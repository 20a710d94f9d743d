import GlideMq.Proofs.WorkerSlots

/-!
# The claims of a worker

Every claim is with one slot, settled once, or lost for a cause.
-/

namespace GlideMq.BaseWorker.Worker

variable {w w' : Worker} {i j n : Nat} {a : Await}

/-! ## The books -/

/-- What the worker keeps about its slots and claims. -/
structure Slots (w : Worker) : Prop where
  count : w.activeCount = w.activePromises.length
  nodup : w.activePromises.Nodup
  inFlight : ∀ i, i ∈ w.activePromises ↔ (w.slot i).await.isSome
  numbered : ∀ i ∈ w.activePromises, i < w.dispatched
  logged : ∀ e ∈ w.log, e.claim < w.taken
  known : ∀ i, (w.slot i).await.isSome → (w.slot i).claim < w.taken
  apart : ∀ i j n, w.Holds i n → w.Holds j n → i = j
  unsettled : ∀ i n, w.Holds i n → w.settlements n = 0
  once : ∀ n, w.settlements n ≤ 1

/-- Every slot waits for something that goes with its claim. -/
def Fitting (w : Worker) : Prop :=
  ∀ i a, (w.slot i).await = some a → a.Fits (w.slot i).settled (w.isListClaim i)

/-- The part of the state that the books are about. -/
def books (w : Worker) : Int × List Nat × Nat × (Nat → Slot) × Nat × (Nat → Claim) × List Exchange :=
  (w.activeCount, w.activePromises, w.dispatched, w.slot, w.taken, w.claim, w.log)

theorem books_of_core (h : w'.core = w.core) : w'.books = w.books := by
  have := congrArg books h
  exact this

theorem Slots.of_books (h : w.Slots) (hb : w'.books = w.books) : w'.Slots := by
  simp only [books, Prod.mk.injEq] at hb
  obtain ⟨hcount, hactive, hdispatched, hslot, htaken, hclaim, hlog⟩ := hb
  have hholds : w'.Holds = w.Holds := by
    unfold Holds
    rw [hslot]
  have hsettlements : w'.settlements = w.settlements := by
    unfold settlements
    rw [hlog, hclaim]
  constructor
  · rw [hcount, hactive]
    exact h.count
  · rw [hactive]
    exact h.nodup
  · rw [hactive, hslot]
    exact h.inFlight
  · rw [hactive, hdispatched]
    exact h.numbered
  · rw [hlog, htaken]
    exact h.logged
  · rw [hslot, htaken]
    exact h.known
  · rw [hholds]
    exact h.apart
  · rw [hholds, hsettlements]
    exact h.unsettled
  · rw [hsettlements]
    exact h.once

theorem Fitting.of_books (h : w.Fitting) (hb : w'.books = w.books) : w'.Fitting := by
  simp only [books, Prod.mk.injEq] at hb
  obtain ⟨-, -, -, hslot, -, hclaim, -⟩ := hb
  unfold Fitting isListClaim claimOf
  rw [hslot, hclaim]
  exact h

/-! ## Single changes -/

theorem setSlot_holds (w : Worker) (i : Nat) (s : Slot) (j n : Nat) :
    (w.setSlot i s).Holds j n ↔
      if j = i then s.await.isSome ∧ s.settled = false ∧ s.claim = n else w.Holds j n := by
  unfold Holds setSlot
  simp only [Function.update_apply]
  split <;> rfl

theorem await_holds (w : Worker) (i : Nat) (a : Await) (hin : (w.slot i).await.isSome) :
    (w.await i a).Holds = w.Holds := by
  ext j n
  unfold await
  rw [setSlot_holds]
  split
  · rename_i hj
    simp [hj, Holds, hin]
  · rfl

theorem leave_holds (w : Worker) (i : Nat) (rejected : Bool) (j n : Nat) :
    (w.leave i rejected).Holds j n ↔ j ≠ i ∧ w.Holds j n := by
  have hset : (w.leave i rejected).Holds j n ↔
      (w.setSlot i { w.slot i with await := none, rejected }).Holds j n := Iff.rfl
  rw [hset, setSlot_holds]
  split <;> simp_all

theorem Slots.await (h : w.Slots) (hin : (w.slot i).await.isSome) (a : Await) : (w.await i a).Slots := by
  have hsettlements : (w.await i a).settlements = w.settlements := rfl
  constructor
  · exact h.count
  · exact h.nodup
  · intro j
    have hiff := h.inFlight j
    simp only [Worker.await, setSlot, Function.update_apply]
    grind
  · exact h.numbered
  · exact h.logged
  · intro j
    have hknown := h.known j
    simp only [Worker.await, setSlot, Function.update_apply]
    grind
  · rw [await_holds w i a hin]
    exact h.apart
  · rw [await_holds w i a hin, hsettlements]
    exact h.unsettled
  · exact h.once

theorem Slots.leave (h : w.Slots) (hin : (w.slot i).await.isSome) (rejected : Bool) : (w.leave i rejected).Slots := by
  have hmem : i ∈ w.activePromises := (h.inFlight i).mpr hin
  constructor
  · have hlength := List.length_erase_of_mem hmem
    have hpos := List.length_pos_of_mem hmem
    have hcount := h.count
    simp only [Worker.leave]
    omega
  · exact h.nodup.erase i
  · intro j
    have hiff := h.inFlight j
    simp only [Worker.leave, setSlot, Function.update_apply, h.nodup.mem_erase_iff]
    grind
  · intro j hj
    exact h.numbered j (List.mem_of_mem_erase hj)
  · exact h.logged
  · intro j
    have hknown := h.known j
    simp only [Worker.leave, setSlot, Function.update_apply]
    grind
  · intro j k m hj hk
    rw [leave_holds] at hj hk
    exact h.apart j k m hj.2 hk.2
  · intro j m hj
    rw [leave_holds] at hj
    exact h.unsettled j m hj.2
  · exact h.once

theorem record_settlements (w : Worker) (i : Nat) (call : Call) (r : Reply) (n : Nat) :
    (w.record i call r).settlements n =
      w.settlements n + if (w.slot i).claim = n ∧ settles (w.claim n) call r = true then 1 else 0 := by
  unfold settlements record setSlot
  simp only [List.countP_append, List.countP_cons, List.countP_nil, Nat.zero_add, Bool.and_eq_true, decide_eq_true_eq]

theorem record_holds (w : Worker) {i : Nat} (hopen : (w.slot i).settled = false) (call : Call) (r : Reply) (j n : Nat) :
    (w.record i call r).Holds j n ↔ w.Holds j n ∧ ¬ (j = i ∧ settles (w.claimOf i) call r = true) := by
  have hset : (w.record i call r).Holds j n ↔
      (w.setSlot i { w.slot i with settled := (w.slot i).settled || settles (w.claimOf i) call r }).Holds j n := Iff.rfl
  rw [hset, setSlot_holds]
  split
  · rename_i hj
    subst hj
    simp only [Holds, hopen, Bool.false_or, true_and]
    grind
  · rename_i hj
    simp [hj]

theorem Slots.record (h : w.Slots) (hin : (w.slot i).await.isSome) (hopen : (w.slot i).settled = false) (call : Call)
    (r : Reply) : (w.record i call r).Slots := by
  have hheld : w.Holds i (w.slot i).claim := ⟨hin, hopen, rfl⟩
  constructor
  · exact h.count
  · exact h.nodup
  · intro j
    have hiff := h.inFlight j
    simp only [Worker.record, setSlot, Function.update_apply]
    grind
  · exact h.numbered
  · intro e he
    rcases List.mem_append.mp he with he | he
    · exact h.logged e he
    · rw [List.mem_singleton.mp he]
      exact h.known i hin
  · intro j
    have hknown := h.known j
    simp only [Worker.record, setSlot, Function.update_apply]
    grind
  · intro j k m hj hk
    rw [record_holds w hopen] at hj hk
    exact h.apart j k m hj.1 hk.1
  · intro j m hj
    rw [record_holds w hopen] at hj
    obtain ⟨hj, hsettles⟩ := hj
    rw [record_settlements, h.unsettled j m hj, if_neg]
    rintro ⟨rfl, hsettled⟩
    exact hsettles ⟨h.apart _ _ _ hj hheld, hsettled⟩
  · intro m
    rw [record_settlements]
    split
    · rename_i hm
      have hzero := h.unsettled i _ hheld
      rw [hm.1] at hzero
      omega
    · exact h.once m

theorem take_settlements (h : w.Slots) (hlog : w'.log = w.log) {c : Claim}
    (hclaim : w'.claim = Function.update w.claim w.taken c) (n : Nat) : w'.settlements n = w.settlements n := by
  unfold settlements
  rw [hlog]
  apply List.countP_congr
  intro e he
  have hlt := h.logged e he
  by_cases hn : e.claim = n
  · rw [hclaim, Function.update_of_ne (by omega)]
  · simp [hn]

theorem settlements_new (h : w.Slots) (hn : w.taken ≤ n) : w.settlements n = 0 := by
  unfold settlements
  rw [List.countP_eq_zero]
  intro e he
  have hlt := h.logged e he
  simp only [Bool.and_eq_true, decide_eq_true_eq, not_and]
  omega

theorem Slots.follow (h : w.Slots) (hin : (w.slot i).await.isSome) {f : Fetched} {c : Claim} (hf : f.claim = some c)
    (guarded : Bool) : (w.follow i f guarded).Slots := by
  have hsettlements (n : Nat) : (w.follow i f guarded).settlements n = w.settlements n := by
    apply take_settlements (c := c) h
    · simp only [Worker.follow, hf]
      rfl
    · simp only [Worker.follow, hf]
  have hslot : (w.follow i f guarded).slot =
      Function.update w.slot i { claim := w.taken, settled := false, await := some (.following f guarded) } := by
    simp only [Worker.follow, hf]
    rfl
  have htaken : (w.follow i f guarded).taken = w.taken + 1 := by simp only [Worker.follow, hf]
  have hlog : (w.follow i f guarded).log = w.log := by simp only [Worker.follow, hf]; rfl
  have hactive : (w.follow i f guarded).activePromises = w.activePromises := by simp only [Worker.follow, hf]; rfl
  have hdispatched : (w.follow i f guarded).dispatched = w.dispatched := by simp only [Worker.follow, hf]; rfl
  have hcount : (w.follow i f guarded).activeCount = w.activeCount := by simp only [Worker.follow, hf]; rfl
  have hholds (j m : Nat) : (w.follow i f guarded).Holds j m ↔ if j = i then w.taken = m else w.Holds j m := by
    unfold Holds
    rw [hslot, Function.update_apply]
    split <;> simp
  have hbelow (j m : Nat) (hj : w.Holds j m) : m < w.taken := hj.2.2 ▸ h.known j hj.1
  constructor
  · rw [hcount, hactive]
    exact h.count
  · rw [hactive]
    exact h.nodup
  · intro j
    have hiff := h.inFlight j
    rw [hactive, hslot, Function.update_apply]
    grind
  · rw [hactive, hdispatched]
    exact h.numbered
  · rw [hlog, htaken]
    exact fun e he => Nat.lt_succ_of_lt (h.logged e he)
  · intro j
    have hknown := h.known j
    rw [hslot, htaken, Function.update_apply]
    grind
  · intro j k m hj hk
    have hapart := h.apart j k m
    have hbj := hbelow j m
    have hbk := hbelow k m
    rw [hholds] at hj hk
    grind
  · intro j m hj
    rw [hholds] at hj
    rw [hsettlements]
    split at hj
    · exact settlements_new h (Nat.le_of_eq hj)
    · exact h.unsettled j m hj
  · intro m
    rw [hsettlements]
    exact h.once m

theorem Slots.enter (h : w.Slots) (c : Claim) : (w.enter c).Slots := by
  have hsettlements (n : Nat) : (w.enter c).settlements n = w.settlements n := by
    apply take_settlements (c := c) h
    · rfl
    · rfl
  have hfree : w.dispatched ∉ w.activePromises := fun hmem => Nat.lt_irrefl _ (h.numbered _ hmem)
  have hholds (j m : Nat) : (w.enter c).Holds j m ↔ if j = w.dispatched then w.taken = m else w.Holds j m := by
    unfold Holds Worker.enter
    simp only [Function.update_apply]
    split <;> simp
  have hbelow (j m : Nat) (hj : w.Holds j m) : m < w.taken := hj.2.2 ▸ h.known j hj.1
  constructor
  · have hcount := h.count
    simp only [Worker.enter, List.length_append, List.length_singleton]
    omega
  · refine List.nodup_append.mpr ⟨h.nodup, by simp, fun j hj k hk hjk => ?_⟩
    rw [hjk, List.mem_singleton.mp hk] at hj
    exact hfree hj
  · intro j
    have hiff := h.inFlight j
    simp only [Worker.enter, Function.update_apply, List.mem_append, List.mem_singleton]
    grind
  · intro j hj
    simp only [Worker.enter, List.mem_append, List.mem_singleton] at hj ⊢
    have hnumbered := h.numbered j
    grind
  · exact fun e he => Nat.lt_succ_of_lt (h.logged e he)
  · intro j
    have hknown := h.known j
    simp only [Worker.enter, Function.update_apply]
    grind
  · intro j k m hj hk
    have hapart := h.apart j k m
    have hbj := hbelow j m
    have hbk := hbelow k m
    rw [hholds] at hj hk
    grind
  · intro j m hj
    rw [hholds] at hj
    rw [hsettlements]
    split at hj
    · exact settlements_new h (Nat.le_of_eq hj)
    · exact h.unsettled j m hj
  · intro m
    rw [hsettlements]
    exact h.once m

/-! ## Where a claim goes -/

/-- From one state to the next every claim that was open, and every new one, is with a slot, has been
settled or was lost. -/
structure Accounts (lost : Nat → Prop) (w w' : Worker) : Prop where
  claim : ∀ n < w.taken, w'.claim n = w.claim n
  log : ∃ new, w'.log = w.log ++ new
  taken : w.taken ≤ w'.taken
  kept : ∀ n < w'.taken, (∃ i, w.Holds i n) ∨ w.taken ≤ n →
    (∃ i, w'.Holds i n) ∨ w'.settlements n = 1 ∨ lost n

theorem Accounts.settlements_le {lost : Nat → Prop} (h : Accounts lost w w') (hn : n < w.taken) :
    w.settlements n ≤ w'.settlements n := by
  obtain ⟨new, hlog⟩ := h.log
  unfold settlements
  rw [hlog, List.countP_append, h.claim n hn]
  exact Nat.le_add_right _ _

theorem Accounts.trans {lost₁ lost₂ : Nat → Prop} {w₁ w₂ : Worker} (h₁ : Accounts lost₁ w w₁)
    (h₂ : Accounts lost₂ w₁ w₂) (hslots : w₂.Slots) : Accounts (fun n => lost₁ n ∨ lost₂ n) w w₂ := by
  constructor
  · intro n hn
    rw [h₂.claim n (Nat.lt_of_lt_of_le hn h₁.taken), h₁.claim n hn]
  · obtain ⟨new₁, hlog₁⟩ := h₁.log
    obtain ⟨new₂, hlog₂⟩ := h₂.log
    exact ⟨new₁ ++ new₂, by rw [hlog₂, hlog₁, List.append_assoc]⟩
  · exact Nat.le_trans h₁.taken h₂.taken
  · intro n hn hopen
    by_cases hnew : w₁.taken ≤ n
    · rcases h₂.kept n hn (.inr hnew) with hheld | hone | hlost
      · exact .inl hheld
      · exact .inr (.inl hone)
      · exact .inr (.inr (.inr hlost))
    · have hlt : n < w₁.taken := by omega
      rcases h₁.kept n hlt hopen with hheld | hone | hlost
      · rcases h₂.kept n hn (.inl hheld) with hheld | hone | hlost
        · exact .inl hheld
        · exact .inr (.inl hone)
        · exact .inr (.inr (.inr hlost))
      · have hle := h₂.settlements_le hlt
        have honce := hslots.once n
        exact .inr (.inl (by omega))
      · exact .inr (.inr (.inl hlost))

theorem Accounts.mono {lost lost' : Nat → Prop} (h : Accounts lost w w') (hlost : ∀ n, lost n → lost' n) :
    Accounts lost' w w' :=
  { h with
    kept := fun n hn hopen => (h.kept n hn hopen).imp_right fun hrest => hrest.imp_right (hlost n) }

theorem Accounts.of_books {lost : Nat → Prop} (hb : w'.books = w.books) : Accounts lost w w' := by
  simp only [books, Prod.mk.injEq] at hb
  obtain ⟨-, -, -, hslot, htaken, hclaim, hlog⟩ := hb
  constructor
  · intro n hn
    rw [hclaim]
  · exact ⟨[], by simp [hlog]⟩
  · omega
  · rintro n hn (⟨i, hi⟩ | hnew)
    · refine .inl ⟨i, ?_⟩
      unfold Holds
      rw [hslot]
      exact hi
    · omega

theorem Accounts.await {lost : Nat → Prop} (hin : (w.slot i).await.isSome) (a : Await) :
    Accounts lost w (w.await i a) := by
  constructor
  · exact fun n hn => rfl
  · exact ⟨[], (List.append_nil _).symm⟩
  · exact Nat.le_refl _
  · rintro n hn (hheld | hnew)
    · rw [await_holds w i a hin]
      exact .inl hheld
    · exact absurd hn (Nat.not_lt.mpr hnew)

theorem Accounts.leave {lost : Nat → Prop} (hlost : ∀ n, w.Holds i n → lost n) (rejected : Bool) :
    Accounts lost w (w.leave i rejected) := by
  constructor
  · exact fun n hn => rfl
  · exact ⟨[], (List.append_nil _).symm⟩
  · exact Nat.le_refl _
  · rintro n hn (⟨j, hj⟩ | hnew)
    · by_cases hji : j = i
      · exact .inr (.inr (hlost n (hji ▸ hj)))
      · exact .inl ⟨j, (leave_holds w i rejected j n).mpr ⟨hji, hj⟩⟩
    · exact absurd hn (Nat.not_lt.mpr hnew)

theorem Accounts.record {lost : Nat → Prop} (h : w.Slots) (hopen : (w.slot i).settled = false) (call : Call)
    (r : Reply) : Accounts lost w (w.record i call r) := by
  constructor
  · exact fun n hn => rfl
  · exact ⟨_, rfl⟩
  · exact Nat.le_refl _
  · rintro n hn (⟨j, hj⟩ | hnew)
    · by_cases hsettled : j = i ∧ settles (w.claimOf i) call r = true
      · obtain ⟨rfl, hsettles⟩ := hsettled
        have hclaim : (w.slot j).claim = n := hj.2.2
        have hzero := h.unsettled j n hj
        have hsettles' : settles (w.claim n) call r = true := by
          rw [← hclaim]
          exact hsettles
        refine .inr (.inl ?_)
        rw [record_settlements, hzero, if_pos ⟨hclaim, hsettles'⟩]
      · exact .inl ⟨j, (record_holds w hopen call r j n).mpr ⟨hj, hsettled⟩⟩
    · exact absurd hn (Nat.not_lt.mpr hnew)

theorem Accounts.follow {lost : Nat → Prop} (hsettled : (w.slot i).settled = true) {f : Fetched} {c : Claim}
    (hf : f.claim = some c) (guarded : Bool) : Accounts lost w (w.follow i f guarded) := by
  simp only [Worker.follow, hf]
  constructor
  · exact fun n hn => Function.update_of_ne (Nat.ne_of_lt hn) _ _
  · exact ⟨[], (List.append_nil _).symm⟩
  · exact Nat.le_succ _
  · rintro n hn (⟨j, hj⟩ | hnew)
    · have hji : j ≠ i := fun hji => by simp [hji ▸ hj.2.1] at hsettled
      refine .inl ⟨j, ?_⟩
      unfold Holds setSlot
      simp only [Function.update_of_ne hji]
      exact hj
    · have hn' : n = w.taken := by simp only at hn; omega
      refine .inl ⟨i, ?_⟩
      unfold Holds setSlot
      simp [hn']

theorem Accounts.enter {lost : Nat → Prop} (h : w.Slots) (c : Claim) : Accounts lost w (w.enter c) := by
  constructor
  · exact fun n hn => Function.update_of_ne (Nat.ne_of_lt hn) _ _
  · exact ⟨[], (List.append_nil _).symm⟩
  · exact Nat.le_succ _
  · rintro n hn (⟨j, hj⟩ | hnew)
    · have hmem : j ∈ w.activePromises := (h.inFlight j).mpr hj.1
      have hne : j ≠ w.dispatched := Nat.ne_of_lt (h.numbered j hmem)
      refine .inl ⟨j, ?_⟩
      unfold Holds Worker.enter
      simp only [Function.update_of_ne hne]
      exact hj
    · have hn' : n = w.taken := by simp only [Worker.enter] at hn; omega
      refine .inl ⟨w.dispatched, ?_⟩
      unfold Holds Worker.enter
      simp [hn']

/-! ## A step of a slot -/

/-- The other slots wait for something that goes with their claims. -/
def FittingBut (w : Worker) (i : Nat) : Prop :=
  ∀ j a, j ≠ i → (w.slot j).await = some a → a.Fits (w.slot j).settled (w.isListClaim j)

theorem Fitting.but (h : w.Fitting) (i : Nat) : w.FittingBut i := fun j a _ ha => h j a ha

theorem setSlot_claimOf (w : Worker) (i : Nat) {s : Slot} (hs : s.claim = (w.slot i).claim) (j : Nat) :
    (w.setSlot i s).claimOf j = w.claimOf j := by
  unfold claimOf setSlot
  simp only [Function.update_apply]
  split
  · rename_i hj
    rw [hs, hj]
  · rfl

theorem FittingBut.set (h : w.FittingBut i) {s : Slot} (hs : s.claim = (w.slot i).claim)
    (hfits : ∀ a, s.await = some a → a.Fits s.settled (w.isListClaim i)) : (w.setSlot i s).Fitting := by
  intro j a ha
  have hclaim := setSlot_claimOf w i hs j
  by_cases hj : j = i
  · subst hj
    have hslot : (w.setSlot j s).slot j = s := by simp [setSlot]
    rw [hslot] at ha ⊢
    have hlist : (w.setSlot j s).isListClaim j = w.isListClaim j := by
      unfold isListClaim
      rw [hclaim]
    rw [hlist]
    exact hfits a ha
  · have hslot : (w.setSlot i s).slot j = w.slot j := by simp [setSlot, hj]
    rw [hslot] at ha ⊢
    have hlist : (w.setSlot i s).isListClaim j = w.isListClaim j := by
      unfold isListClaim
      rw [hclaim]
    rw [hlist]
    exact h j a hj ha

theorem record_slot (w : Worker) (i : Nat) (call : Call) (r : Reply) :
    ((w.record i call r).slot i).settled = ((w.slot i).settled || settles (w.claimOf i) call r) := by
  simp [Worker.record, setSlot, claimOf]

theorem record_await (w : Worker) (i : Nat) (call : Call) (r : Reply) :
    ((w.record i call r).slot i).await = (w.slot i).await := by
  simp [Worker.record, setSlot]

theorem record_claimOf (w : Worker) (i : Nat) (call : Call) (r : Reply) (j : Nat) :
    (w.record i call r).claimOf j = w.claimOf j := by
  unfold claimOf Worker.record setSlot
  simp only [Function.update_apply]
  split
  · rename_i hj
    rw [hj]
  · rfl

theorem recorded_cases (hfits : a.Fits (w.slot i).settled (w.isListClaim i)) (r : Reply) :
    (∃ call, a.call = some call ∧ w.recorded i a r = w.record i call r ∧ (w.slot i).settled = false) ∨
      a.call = none ∧ w.recorded i a r = w := by
  unfold recorded
  cases hcall : a.call with
  | none => exact .inr ⟨rfl, rfl⟩
  | some call =>
    refine .inl ⟨call, rfl, rfl, hfits.settled_of_isOpen ?_⟩
    cases a <;> first | rfl | cases hcall

/-- What a slot event leads to, from the recorded state on. -/
theorem resume_follows (hfit : w.Fitting) (ha : (w.slot i).await = some a) {r : Reply} (haccepts : a.accepts r = true)
    (hrunning : w.running = true ∨ w.closing = true) (now : Int) :
    Follows (w.Abandons a r) r (w.recorded i a r) i (w.resume i now r) := by
  have hfits := hfit i a ha
  rw [resume_eq w i now r ha haccepts]
  rcases recorded_cases hfits r with ⟨call, hcall, hrec, hopen⟩ | ⟨hnone, hrec⟩
  · rw [hrec]
    refine next_follows (w.record i call r) i now haccepts ?_ ?_ hrunning
    · intro call' hcall'
      obtain rfl : call = call' := by simpa [hcall] using hcall'
      rw [record_slot, record_claimOf, hopen, Bool.false_or]
    · intro hnone
      simp [hcall] at hnone
  · rw [hrec]
    refine next_follows w i now haccepts ?_ ?_ hrunning
    · intro call hcall
      simp [hnone] at hcall
    · exact fun _ => hfits

theorem core_follow (w : Worker) (i : Nat) {f : Fetched} {c : Claim} (hf : f.claim = some c) (guarded : Bool) :
    (w.follow i f guarded).core = w.core.follow i f guarded := by
  simp only [Worker.follow, hf]
  rfl

theorem Follows.slots {lost : Prop} {reply : Reply} (hf : Follows lost reply w i w') (h : w.Slots)
    (hin : (w.slot i).await.isSome) : w'.Slots := by
  cases hf with
  | waits a ha hw => exact (h.await hin a).of_books (books_of_core hw)
  | leaves rejected hlost hw => exact (h.leave hin rejected).of_books (books_of_core hw)
  | takes f guarded c hf hsettled hreply hw =>
    exact (h.follow hin hf guarded).of_books (books_of_core (hw.trans (core_follow w i hf guarded).symm))
  | movedToFailed hopen hw =>
    have hrec := h.record hin hopen .moveToFailed .done
    have hin' : ((w.record i .moveToFailed .done).slot i).await.isSome := by
      rw [record_await]
      exact hin
    exact (hrec.await hin' .finalizing).of_books (books_of_core hw)

theorem Follows.fitting {lost : Prop} {reply : Reply} (hf : Follows lost reply w i w') (h : w.Slots)
    (hbut : w.FittingBut i) : w'.Fitting := by
  cases hf with
  | waits a ha hw =>
    have hset : (w.await i a).Fitting := hbut.set (s := { w.slot i with await := some a }) rfl fun b hb => by
      obtain rfl : a = b := by simpa using hb
      exact ha
    exact hset.of_books (books_of_core hw)
  | leaves rejected hlost hw =>
    have hset : (w.setSlot i { w.slot i with await := none, rejected }).Fitting :=
      hbut.set rfl fun b hb => by cases hb
    have hleave : (w.leave i rejected).Fitting := hset
    exact hleave.of_books (books_of_core hw)
  | takes f guarded c hf hsettled hreply hw =>
    have hfollow : (w.follow i f guarded).Fitting := by
      intro j a ha
      simp only [Worker.follow, hf, setSlot, isListClaim, claimOf, Function.update_apply] at ha ⊢
      by_cases hj : j = i
      · simp only [hj, if_true, Option.some.injEq] at ha ⊢
        rw [← ha]
        simp [Await.Fits, hf]
      · simp only [hj, if_false] at ha ⊢
        have hlt := h.known j (by simp [ha])
        rw [if_neg (Nat.ne_of_lt hlt)]
        exact hbut j a hj ha
    exact hfollow.of_books (books_of_core (hw.trans (core_follow w i hf guarded).symm))
  | movedToFailed hopen hw =>
    have hset : ((w.record i .moveToFailed .done).await i .finalizing).Fitting := by
      refine FittingBut.set ?_ rfl fun b hb => ?_
      · intro j a hj ha
        have hslot : (w.record i .moveToFailed .done).slot j = w.slot j := by simp [Worker.record, setSlot, hj]
        rw [hslot] at ha ⊢
        have hlist : (w.record i .moveToFailed .done).isListClaim j = w.isListClaim j := by
          unfold isListClaim
          rw [record_claimOf]
        rw [hlist]
        exact hbut j a hj ha
      · obtain rfl : Await.finalizing = b := by simpa using hb
        change ((w.record i .moveToFailed .done).slot i).settled = true
        rw [record_slot, settles_done, Bool.or_true]
    exact hset.of_books (books_of_core hw)

theorem Accounts.books_right {lost : Nat → Prop} {w₁ w₂ : Worker} (h : Accounts lost w w₁)
    (hb : w₂.books = w₁.books) (hslots : w₁.Slots) : Accounts lost w w₂ := by
  have hrest : Accounts (fun _ => False) w₁ w₂ := .of_books hb
  exact (h.trans hrest (hslots.of_books hb)).mono fun n hn => hn.resolve_right id

theorem Follows.accounts {lost : Prop} {reply : Reply} (hf : Follows lost reply w i w') (h : w.Slots)
    (hin : (w.slot i).await.isSome) : Accounts (fun n => w.Holds i n ∧ lost) w w' := by
  cases hf with
  | waits a ha hw => exact (Accounts.await hin a).books_right (books_of_core hw) (h.await hin a)
  | leaves rejected hlost hw =>
    refine (Accounts.leave (fun n hn => ⟨hn, ?_⟩) rejected).books_right (books_of_core hw) (h.leave hin rejected)
    rcases hlost with hsettled | hlost
    · simp [hn.2.1] at hsettled
    · exact hlost
  | takes f guarded c hf hsettled hreply hw =>
    exact (Accounts.follow hsettled hf guarded).books_right
      (books_of_core (hw.trans (core_follow w i hf guarded).symm)) (h.follow hin hf guarded)
  | movedToFailed hopen hw =>
    have hrec := h.record hin hopen .moveToFailed .done
    have hin' : ((w.record i .moveToFailed .done).slot i).await.isSome := by
      rw [record_await]
      exact hin
    have hawait := hrec.await hin' .finalizing
    have hrecord : Accounts (fun _ => False) w (w.record i .moveToFailed .done) := .record h hopen .moveToFailed .done
    have hwait : Accounts (fun _ => False) (w.record i .moveToFailed .done) _ := .await hin' .finalizing
    have htrans := hrecord.trans hwait hawait
    exact (htrans.mono fun _ hn => hn.elim False.elim False.elim).books_right (books_of_core hw) hawait

end GlideMq.BaseWorker.Worker
