import GlideMq.Proofs.CronGrammar

/-!
# The words of a cron pattern

A text is split into exactly the words that it is written with.
-/

namespace GlideMq.CronGrammar

variable {t text before : Token} {ts : List Token} {c : Char}

/-- The pieces between blanks that are not empty. -/
def pieces (text : Token) : List Token := (text.splitOnP isSpace).filter (· ≠ [])

theorem pieces_append (hc : isSpace c) (a b : Token) : pieces (a ++ c :: b) = pieces a ++ pieces b := by
  unfold pieces
  rw [List.splitOnP_append_cons a b hc, List.filter_append]

theorem pieces_word (ht : IsWord t) : pieces t = [t] := by
  unfold pieces
  rw [List.splitOnP_eq_singleton ht.2]
  simp [ht.1]

theorem pieces_nil : pieces [] = [] := rfl

theorem pieces_cons_space (hc : isSpace c) (text : Token) : pieces (c :: text) = pieces text := by
  have := pieces_append hc [] text
  rwa [pieces_nil, List.nil_append, List.nil_append] at this

theorem pieces_blank_append (h : Blank before) (text : Token) : pieces (before ++ text) = pieces text := by
  induction before with
  | nil => rfl
  | cons c before ih =>
    have hbefore : Blank before := fun d hd => h d (List.mem_cons_of_mem c hd)
    rw [List.cons_append, pieces_cons_space (h c (List.mem_cons_self ..)), ih hbefore]

theorem pieces_blank (h : Blank text) : pieces text = [] := by
  have := pieces_blank_append h []
  rwa [List.append_nil, pieces_nil] at this

theorem pieces_of_spaced (h : Spaced ts text) : pieces text = ts := by
  induction h with
  | @last before t after hbefore ht hafter =>
    rw [List.append_assoc, pieces_blank_append hbefore]
    cases after with
    | nil => rw [List.append_nil, pieces_word ht]
    | cons c after =>
      have hblank : Blank after := fun d hd => hafter d (List.mem_cons_of_mem c hd)
      rw [pieces_append (hafter c (List.mem_cons_self ..)), pieces_word ht, pieces_blank hblank]
      rfl
  | more hbefore ht hc hrest ih =>
    rw [List.append_assoc, pieces_blank_append hbefore, pieces_append hc, pieces_word ht, ih]
    rfl

theorem Spaced.ne_nil (h : Spaced ts text) : ts ≠ [] := by
  cases h <;> simp

theorem Spaced.cons (hc : isSpace c) (h : Spaced ts text) : Spaced ts (c :: text) := by
  have hblank {before : Token} (hbefore : Blank before) : Blank (c :: before) := by
    intro d hd
    rcases List.mem_cons.mp hd with rfl | hd
    · exact hc
    · exact hbefore d hd
  cases h with
  | last hbefore ht hafter => exact .last (hblank hbefore) ht hafter
  | more hbefore ht hd hrest => exact .more (hblank hbefore) ht hd hrest

theorem blank_nil : Blank [] := fun _ h => absurd h (List.not_mem_nil)

theorem exists_cut (text : Token) : (∀ c ∈ text, isSpace c = false) ∨
    ∃ w c rest, text = w ++ c :: rest ∧ (∀ d ∈ w, isSpace d = false) ∧ isSpace c := by
  induction text with
  | nil => simp
  | cons c text ih =>
    rcases hc : isSpace c with _ | _
    · rcases ih with h | ⟨w, d, rest, rfl, hw, hd⟩
      · exact Or.inl (by simpa [hc] using h)
      · exact Or.inr ⟨c :: w, d, rest, rfl, by simpa [hc] using hw, hd⟩
    · exact Or.inr ⟨[], c, text, rfl, by simp, hc⟩

theorem blank_of_pieces (h : pieces text = []) : Blank text := by
  induction hlen : text.length using Nat.strong_induction_on generalizing text with
  | _ n ih =>
    rcases exists_cut text with hword | ⟨w, c, rest, rfl, hw, hc⟩
    · by_cases hne : text = []
      · rw [hne]
        exact blank_nil
      · rw [pieces_word ⟨hne, hword⟩] at h
        cases h
    · rw [pieces_append hc, List.append_eq_nil_iff] at h
      have hnil : w = [] := by
        by_contra hne
        rw [pieces_word ⟨hne, hw⟩] at h
        cases h.1
      have hrest : Blank rest := ih rest.length (by simp at hlen; omega) h.2 rfl
      rw [hnil]
      intro d hd
      rcases List.mem_cons.mp hd with rfl | hd
      · exact hc
      · exact hrest d hd

theorem spaced_of_pieces (hne : pieces text ≠ []) : Spaced (pieces text) text := by
  induction hlen : text.length using Nat.strong_induction_on generalizing text with
  | _ n ih =>
    rcases exists_cut text with hword | ⟨w, c, rest, rfl, hw, hc⟩
    · have hnil : text ≠ [] := by
        rintro rfl
        exact hne rfl
      have ht : IsWord text := ⟨hnil, hword⟩
      have := Spaced.last blank_nil ht blank_nil
      rw [pieces_word ht]
      simpa using this
    · have hrest (h : pieces rest ≠ []) : Spaced (pieces rest) rest := ih rest.length (by simp at hlen; omega) h rfl
      by_cases hnil : w = []
      · -- A blank first: the words are those of the rest.
        rw [hnil, List.nil_append, pieces_cons_space hc] at hne ⊢
        exact (hrest hne).cons hc
      · have ht : IsWord w := ⟨hnil, hw⟩
        rw [pieces_append hc, pieces_word ht]
        by_cases hlast : pieces rest = []
        · have hafter : Blank (c :: rest) := by
            intro d hd
            rcases List.mem_cons.mp hd with rfl | hd
            · exact hc
            · exact blank_of_pieces hlast d hd
          rw [hlast]
          exact Spaced.last blank_nil ht hafter
        · exact Spaced.more blank_nil ht hc (hrest hlast)

theorem words_of_spaced (h : Spaced ts text) : words text = ts := by
  have heq : (text.splitOnP isSpace).filter (· ≠ []) = ts := pieces_of_spaced h
  unfold words
  rw [heq]
  split
  · exact absurd rfl h.ne_nil
  · rfl

theorem spaced_of_words (h : words text = ts) (hlen : 1 < ts.length) : Spaced ts text := by
  have hwords : words text = pieces text := by
    unfold words
    split
    · rename_i hnil
      simp only [words, hnil] at h
      rw [← h] at hlen
      exact absurd hlen (by decide)
    · rfl
  rw [hwords] at h
  rw [← h]
  apply spaced_of_pieces
  rw [h]
  exact List.ne_nil_of_length_pos (by omega)

end GlideMq.CronGrammar
