import GlideMq.Proofs.Frame

/-!
# The rounds of `promote`

`promote` takes the due members of one priority after the other, and of no priority twice. What one
member's promotion keeps, a whole call keeps.
-/

namespace GlideMq

open Queue Redis

theorem scheduled_of_frame {s t : Queue} (h : t.frame = s.frame) : t.scheduled = s.scheduled := by
  have hself (q : Queue) : q.frame.scheduled = q.scheduled := rfl
  rw [← hself, h, hself]

theorem scheduled_promoteMember (p now serverNow : Int) (s : Queue) (m : String) :
    (promoteMember p now serverNow s m).scheduled = s.scheduled.rem m := by
  have hexpired := scheduled_of_frame
    (frame_checkExpired (s.zremScheduled m) (splitMember m).1 now serverNow)
  have hrem : (s.zremScheduled m).scheduled = s.scheduled.rem m := rfl
  rw [hrem] at hexpired
  unfold promoteMember
  simp only
  split
  · rename_i heq
    rw [heq] at hexpired
    exact hexpired
  · rename_i heq
    rw [heq] at hexpired
    have hstate (q : Queue) (J : JobId) : (q.setState J .waiting).scheduled = q.scheduled := rfl
    rw [hstate]
    repeat' split
    all_goals exact hexpired

theorem mem_items_rem {z : SortedSet String} {m : String} {q : String × Int} :
    q ∈ (z.rem m).items ↔ q ∈ z.items ∧ q.1 ≠ m := by
  unfold SortedSet.rem
  simp [List.mem_filter]

theorem mem_items_foldl_promoteMember {p now serverNow : Int} {q : String × Int} (ms : List String)
    (s : Queue) :
    q ∈ (ms.foldl (promoteMember p now serverNow) s).scheduled.items ↔
      q ∈ s.scheduled.items ∧ q.1 ∉ ms := by
  induction ms generalizing s with
  | nil => simp
  | cons m ms ih =>
    rw [List.foldl_cons, ih, scheduled_promoteMember, mem_items_rem, List.mem_cons, not_or, and_assoc]

/-- The member is due in the band of its priority. -/
def DueIn (s : Queue) (now p : Int) (m : String) : Prop :=
  ∃ x, (m, x) ∈ s.scheduled.items ∧ p * priorityShift ≤ x ∧ x ≤ p * priorityShift + now

theorem dueIn_of_mem_rangeByScore {s : Queue} {now p : Int} {n : Nat} {m : String}
    (h : m ∈ s.scheduled.rangeByScore (p * priorityShift) (p * priorityShift + now) n) :
    DueIn s now p m := by
  obtain ⟨q, hq, rfl⟩ := List.mem_map.mp h
  obtain ⟨hmem, hrange⟩ := List.mem_filter.mp (List.mem_of_mem_take hq)
  simp only [decide_eq_true_eq] at hrange
  exact ⟨q.2, hmem, hrange⟩

theorem priorityShift_pos : 0 < priorityShift := by decide

/-- The rule of `promote`: a property of the queue and of the last priority that was served. -/
theorem promoteRounds_rule {s₀ : Queue} {now serverNow : Int} {I : Queue → Int → Prop}
    (hstep : ∀ s p p' m, I s p → p ≤ p' → DueIn s₀ now p' m →
      I (promoteMember p' now serverNow s m) p') :
    ∀ (fuel : Nat) (s : Queue) (count : Nat) (p cursor : Int), I s p →
      (∀ q ∈ s.scheduled.items, q ∈ s₀.scheduled.items) → p * priorityShift ≤ cursor →
      ∃ p', I (promoteRounds now serverNow fuel s count cursor).1 p'
  | 0, s, _, p, _, hs, _, _ => ⟨p, hs⟩
  | fuel + 1, s, count, p, cursor, hs, hsub, hcursor => by
    rw [promoteRounds]
    split
    · exact ⟨p, hs⟩
    cases hfirst : s.scheduled.items.find? (fun p => cursor ≤ p.2) with
    | none => exact ⟨p, hs⟩
    | some first =>
    obtain ⟨m₀, x₀⟩ := first
    have hge : cursor ≤ x₀ := by simpa using List.find?_some hfirst
    have hpos := priorityShift_pos
    simp only
    have hp : p ≤ x₀ / priorityShift :=
      (Int.le_ediv_iff_mul_le hpos).mpr (hcursor.trans hge)
    have hfold (ms : List String) (t : Queue) (r : Int) (hr : r ≤ x₀ / priorityShift)
        (hms : ∀ m ∈ ms, DueIn s₀ now (x₀ / priorityShift) m) (ht : I t r) :
        ∃ r' ≤ x₀ / priorityShift,
          I (ms.foldl (promoteMember (x₀ / priorityShift) now serverNow) t) r' := by
      induction ms generalizing t r with
      | nil => exact ⟨r, hr, ht⟩
      | cons m ms ih =>
        exact ih _ _ le_rfl (fun m' hm' => hms m' (List.mem_cons_of_mem _ hm'))
          (hstep t r _ m ht hr (hms m List.mem_cons_self))
    obtain ⟨r, hr, hnext⟩ := hfold _ s p hp (fun m hm => by
      obtain ⟨x, hx, hrange⟩ := dueIn_of_mem_rangeByScore hm
      exact ⟨x, hsub _ hx, hrange⟩) hs
    refine promoteRounds_rule hstep fuel _ _ r _ hnext (fun q hq => ?_) ?_
    · exact hsub q ((mem_items_foldl_promoteMember _ s).mp hq).1
    · refine Int.mul_le_mul_of_nonneg_right ?_ (Int.le_of_lt hpos)
      omega

theorem promote_rule (s₀ : Queue) (now serverNow : Int) {I : Queue → Int → Prop}
    (hstep : ∀ s p p' m, I s p → p ≤ p' → DueIn s₀ now p' m →
      I (promoteMember p' now serverNow s m) p') (h : I s₀ 0) :
    ∃ p, I (promote s₀ now serverNow).1 p :=
  promoteRounds_rule hstep _ s₀ 0 0 0 h (fun _ hq => hq) (by simp)

/-! ## What is left -/

theorem sublist_foldl_promoteMember (p now serverNow : Int) (ms : List String) (s : Queue) :
    (ms.foldl (promoteMember p now serverNow) s).scheduled.items.Sublist s.scheduled.items := by
  induction ms generalizing s with
  | nil => exact List.Sublist.refl _
  | cons m ms ih =>
    rw [List.foldl_cons]
    refine (ih _).trans ?_
    rw [scheduled_promoteMember]
    exact List.filter_sublist

theorem first_from {z : SortedSet String} {lo : Int} {m₀ : String} {x₀ : Int}
    (h : z.items.find? (fun q => lo ≤ q.2) = some (m₀, x₀)) :
    lo ≤ x₀ ∧ (∀ q ∈ z.items, lo ≤ q.2 → x₀ ≤ q.2) ∧
      ∀ hi, x₀ < hi → z.items.countP (fun q => hi ≤ q.2) < z.items.countP (fun q => lo ≤ q.2) := by
  -- The first member from a score on has the least score from there, and there are fewer members from any
  -- higher score on.
  obtain ⟨hge, as, bs, hitems, has⟩ := List.find?_eq_some_iff_append.mp h
  simp only [decide_eq_true_eq] at hge
  have hbefore (q : String × Int) (hq : q ∈ as) : q.2 < lo := by simpa using has q hq
  have hsorted := z.sorted
  rw [hitems, List.pairwise_append, List.pairwise_cons] at hsorted
  refine ⟨hge, fun q hq hlo => ?_, fun hi hhi => ?_⟩
  · rw [hitems, List.mem_append, List.mem_cons] at hq
    rcases hq with hq | rfl | hq
    · have := hbefore q hq
      omega
    · exact le_rfl
    · rcases hsorted.2.1.1 q hq with hlt | ⟨heq, -⟩
      · exact Int.le_of_lt hlt
      · exact heq.le
  · rw [hitems, List.countP_append, List.countP_append, List.countP_cons, List.countP_cons]
    have hzero : as.countP (fun q => hi ≤ q.2) = 0 := by
      rw [List.countP_eq_zero]
      intro q hq
      have := hbefore q hq
      simp only [decide_eq_true_eq]
      omega
    have hrest : bs.countP (fun q => hi ≤ q.2) ≤ bs.countP (fun q => lo ≤ q.2) := by
      refine List.countP_mono_left fun q _ hq => ?_
      simp only [decide_eq_true_eq] at hq ⊢
      omega
    have hself : ¬ hi ≤ x₀ := by omega
    simp only [hzero, hge, hself, decide_true, decide_false, Bool.false_eq_true, if_false, if_true]
    omega

theorem le_promoteRounds_count (now serverNow : Int) :
    ∀ (fuel : Nat) (s : Queue) (count : Nat) (cursor : Int),
      count ≤ (promoteRounds now serverNow fuel s count cursor).2
  | 0, _, _, _ => le_rfl
  | fuel + 1, s, count, cursor => by
    rw [promoteRounds]
    split
    · exact le_rfl
    cases s.scheduled.items.find? (fun q => cursor ≤ q.2) with
    | none => exact le_rfl
    | some first =>
      simp only
      exact (Nat.le_add_right _ _).trans (le_promoteRounds_count now serverNow fuel _ _ _)

/-- Where fewer than the cap were taken, no member with a score from 0 on is due in its band. -/
theorem promoteRounds_leaves_none_due {now serverNow : Int} :
    ∀ (fuel : Nat) (s : Queue) (count : Nat) (k : Int),
      s.scheduled.items.countP (fun q => k * priorityShift ≤ q.2) < fuel →
      (∀ q ∈ s.scheduled.items, 0 ≤ q.2 → q.2 < k * priorityShift → now < q.2 % priorityShift) →
      (promoteRounds now serverNow fuel s count (k * priorityShift)).2 < maxPromotions →
      ∀ q ∈ (promoteRounds now serverNow fuel s count (k * priorityShift)).1.scheduled.items,
        0 ≤ q.2 → now < q.2 % priorityShift
  | 0, _, _, _, hfuel, _, _ => absurd hfuel (Nat.not_lt_zero _)
  | fuel + 1, s, count, k, hfuel, hdone, hcap => by
    rw [promoteRounds] at hcap ⊢
    have hpos := priorityShift_pos
    by_cases hfull : maxPromotions ≤ count
    · rw [if_pos hfull] at hcap
      exact absurd hcap (Nat.not_lt.mpr hfull)
    rw [if_neg hfull] at hcap ⊢
    cases hfirst : s.scheduled.items.find? (fun q => k * priorityShift ≤ q.2) with
    | none =>
      intro q hq hnonneg
      have := List.find?_eq_none.mp hfirst q hq
      simp only [decide_eq_true_eq, not_le] at this
      exact hdone q hq hnonneg this
    | some first =>
      obtain ⟨m₀, x₀⟩ := first
      obtain ⟨hge, hleast, hfewer⟩ := first_from hfirst
      rw [hfirst] at hcap
      simp only at hcap ⊢
      generalize hms : s.scheduled.rangeByScore (x₀ / priorityShift * priorityShift)
        (x₀ / priorityShift * priorityShift + now) (maxPromotions - count) = ms at hcap ⊢
      have hlow : x₀ / priorityShift * priorityShift ≤ x₀ := Int.ediv_mul_le x₀ (by omega)
      have hhigh : x₀ < (x₀ / priorityShift + 1) * priorityShift :=
        Int.lt_ediv_add_one_mul_self x₀ hpos
      -- fewer than the cap were taken, so the round took all that are due in its band
      have hall : ∀ q ∈ s.scheduled.items, x₀ / priorityShift * priorityShift ≤ q.2 →
          q.2 ≤ x₀ / priorityShift * priorityShift + now → q.1 ∈ ms := by
        intro q hq hmin hmax
        have hshort : (s.scheduled.items.filter fun q =>
            x₀ / priorityShift * priorityShift ≤ q.2 ∧
              q.2 ≤ x₀ / priorityShift * priorityShift + now).length ≤ maxPromotions - count := by
          by_contra hlong
          have hlen : ms.length = maxPromotions - count := by
            rw [← hms, SortedSet.rangeByScore, List.length_map, List.length_take]
            omega
          have hcount := le_promoteRounds_count now serverNow fuel
            (ms.foldl (promoteMember (x₀ / priorityShift) now serverNow) s) (count + ms.length)
            ((x₀ / priorityShift + 1) * priorityShift)
          omega
        rw [← hms, SortedSet.rangeByScore, List.take_of_length_le hshort]
        exact List.mem_map_of_mem (List.mem_filter.mpr ⟨hq, by simpa using ⟨hmin, hmax⟩⟩)
      refine promoteRounds_leaves_none_due fuel _ _ _ ?_ ?_ hcap
      · have hless := hfewer _ hhigh
        have hsub := (sublist_foldl_promoteMember (x₀ / priorityShift) now serverNow ms s).countP_le
          (p := fun q => (x₀ / priorityShift + 1) * priorityShift ≤ q.2)
        omega
      · intro q hq hnonneg hlt
        obtain ⟨hmem, hnot⟩ := (mem_items_foldl_promoteMember ms s).mp hq
        by_cases hold : q.2 < k * priorityShift
        · exact hdone q hmem hnonneg hold
        · have hmin : x₀ / priorityShift * priorityShift ≤ q.2 :=
            hlow.trans (hleast q hmem (by omega))
          have hmax : ¬ q.2 ≤ x₀ / priorityShift * priorityShift + now :=
            fun hle => hnot (hall q hmem hmin hle)
          have hband : q.2 / priorityShift = x₀ / priorityShift :=
            le_antisymm (Int.lt_add_one_iff.mp ((Int.ediv_lt_iff_lt_mul hpos).mpr hlt))
              ((Int.le_ediv_iff_mul_le hpos).mpr hmin)
          have hmod := Int.emod_def q.2 priorityShift
          rw [hband, Int.mul_comm] at hmod
          omega

theorem promote_leaves_none_due {s : Queue} {now serverNow : Int}
    (hcap : (promote s now serverNow).2 < maxPromotions) :
    ∀ q ∈ (promote s now serverNow).1.scheduled.items, 0 ≤ q.2 → now < q.2 % priorityShift := by
  have hzero : (0 : Int) = 0 * priorityShift := by simp
  unfold promote at hcap ⊢
  rw [hzero] at hcap ⊢
  refine promoteRounds_leaves_none_due _ s 0 0 ?_ (fun q _ hnonneg hneg => ?_) hcap
  · exact Nat.lt_succ_of_le (List.countP_le_length)
  · simp only [Int.zero_mul] at hneg
    omega

end GlideMq
