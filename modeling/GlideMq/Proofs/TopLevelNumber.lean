import GlideMq.Model.TopLevelNumber
import Mathlib.Data.Bool.AllAny

/-!
# The scanner changes one number

Strings and deeper values are passed over. At the top level the key is found where its member
starts, and nowhere else.
-/

open Json

namespace GlideMq.TopLevelNumber

variable {field replacement s s' tail : List Char} {depth depth' depth'' : Int}

/-- The key as it is searched. -/
def target (field : List Char) : List Char := quote :: field ++ [quote]

/-- The loop passes over `s`. -/
def Skips (field replacement : List Char) (depth : Int) (s : List Char) (depth' : Int) : Prop :=
  ∀ tail, scan (target field) replacement depth false false (s ++ tail) =
    (scan (target field) replacement depth' false false tail).map (s ++ ·)

theorem Skips.nil : Skips field replacement depth [] depth := by
  intro tail
  simp

theorem Skips.append (h : Skips field replacement depth s depth')
    (h' : Skips field replacement depth' s' depth'') :
    Skips field replacement depth (s ++ s') depth'' := by
  intro tail
  rw [List.append_assoc, h, h', Option.map_map]
  simp [Function.comp_def]

theorem Skips.char {c : Char} (h : c ≠ quote ∧ c ≠ '{' ∧ c ≠ '[' ∧ c ≠ '}' ∧ c ≠ ']') :
    Skips field replacement depth [c] depth := by
  intro tail
  rw [List.singleton_append, scan]
  simp [h]

theorem Skips.opening {c : Char} (h : c = '{' ∨ c = '[') :
    Skips field replacement depth [c] (depth + 1) := by
  intro tail
  have hne : c ≠ quote := by rcases h with rfl | rfl <;> decide
  rw [List.singleton_append, scan]
  simp [h, hne]

theorem Skips.closing {c : Char} (h : c = '}' ∨ c = ']') :
    Skips field replacement depth [c] (depth - 1) := by
  intro tail
  have hne : c ≠ quote ∧ ¬ (c = '{' ∨ c = '[') := by rcases h with rfl | rfl <;> decide
  rw [List.singleton_append, scan]
  simp [h, hne]

theorem Skips.run (h : ∀ c ∈ s, c ≠ quote ∧ c ≠ '{' ∧ c ≠ '[' ∧ c ≠ '}' ∧ c ≠ ']') :
    Skips field replacement depth s depth := by
  induction s with
  | nil => exact Skips.nil
  | cons c s ih =>
    rw [List.forall_mem_cons] at h
    exact (Skips.char h.1).append (ih h.2)

theorem Skips.blanks (blanks : Blanks) : Skips field replacement depth blanks.val depth := by
  apply Skips.run
  intro c hc
  have hblank := blanks.property c hc
  simp only [isBlank, decide_eq_true_eq] at hblank
  rcases hblank with rfl | rfl | rfl | rfl <;> decide

theorem Skips.number (n : NumText) : Skips field replacement depth n.render depth := by
  apply Skips.run
  intro c hc
  have h := isNumberChar_render n c hc
  refine ⟨?_, ?_, ?_, ?_, ?_⟩ <;> (rintro rfl; exact absurd h (by decide))

theorem Skips.scan_eq_none (h : Skips field replacement depth s depth') :
    scan (target field) replacement depth false false s = none := by
  have hnil := h []
  rw [List.append_nil] at hnil
  rw [hnil]
  rfl

/-! ## Strings -/

theorem hexValue_some {a b c d : Char} {n : Nat} (h : hexQuad a b c d = some n) :
    ∀ x ∈ [a, b, c, d], x ≠ quote ∧ x ≠ backslash := by
  intro x hx
  constructor <;> rintro rfl <;> (simp only [List.mem_cons, List.not_mem_nil, or_false] at hx)
  all_goals
    rcases hx with rfl | rfl | rfl | rfl
    all_goals
      simp [hexQuad, show hexValue quote = none by decide, show hexValue backslash = none by decide] at h

theorem scan_piece (piece : Piece) :
    scan (target field) replacement depth true false (piece.render ++ tail) =
      (scan (target field) replacement depth true false tail).map (piece.render ++ ·) := by
  have hplain {c : Char} (hc : c ≠ quote ∧ c ≠ backslash) (rest : List Char) :
      scan (target field) replacement depth true false (c :: rest) =
        (scan (target field) replacement depth true false rest).map (c :: ·) := by
    rw [scan]
    simp [hc]
  have hescape (letter : Char) (rest : List Char) :
      scan (target field) replacement depth true false (backslash :: letter :: rest) =
        (scan (target field) replacement depth true false rest).map ([backslash, letter] ++ ·) := by
    rw [scan]
    simp only [if_true, Bool.false_eq_true, if_false]
    rw [scan]
    simp [Function.comp_def]
  cases piece with
  | plain c h =>
    simp only [isPlain, decide_eq_true_eq] at h
    exact hplain ⟨h.1, h.2.1⟩ tail
  | short letter c h => exact hescape letter tail
  | unicode h₁ h₂ h₃ h₄ n h =>
    have hne := hexValue_some h
    simp only [Piece.render, List.cons_append, List.nil_append]
    rw [hescape, hplain (hne h₁ (by simp)), hplain (hne h₂ (by simp)), hplain (hne h₃ (by simp)),
      hplain (hne h₄ (by simp))]
    simp [Function.comp_def]

theorem scan_inner (pieces : List Piece) :
    scan (target field) replacement depth true false (inner pieces ++ quote :: tail) =
      (scan (target field) replacement depth false false tail).map (inner pieces ++ quote :: ·) := by
  induction pieces with
  | nil =>
    have hne : quote ≠ backslash := by decide
    rw [Json.inner, List.flatMap_nil, List.nil_append, scan]
    simp [hne]
  | cons piece pieces ih =>
    have hcons : inner (piece :: pieces) = piece.render ++ inner pieces := List.flatMap_cons
    rw [hcons, List.append_assoc, scan_piece, ih, Option.map_map]
    simp [Function.comp_def]

theorem scan_quoted (pieces : List Piece)
    (h : depth = 1 → target field <+: quoted pieces ++ tail →
      replaceAfterKey replacement ((quoted pieces ++ tail).drop (target field).length) = none) :
    scan (target field) replacement depth false false (quoted pieces ++ tail) =
      (scan (target field) replacement depth false false tail).map (quoted pieces ++ ·) := by
  have hquoted : quoted pieces ++ tail = quote :: (inner pieces ++ quote :: tail) := by
    simp [quoted]
  rw [hquoted] at h ⊢
  rw [scan]
  have hnone : (if depth = 1 ∧ target field <+: quote :: (inner pieces ++ quote :: tail) then
      replaceAfterKey replacement
        ((quote :: (inner pieces ++ quote :: tail)).drop (target field).length) else none) = none := by
    split
    · rename_i hkey
      exact h hkey.1 hkey.2
    · rfl
  simp only [Bool.false_eq_true, if_false, if_true, hnone]
  rw [scan_inner, Option.map_map]
  simp [quoted, Function.comp_def]

theorem field_prefix_iff (hquote : quote ∉ field) (hbackslash : backslash ∉ field) (pieces : List Piece) :
    field ++ [quote] <+: inner pieces ++ quote :: tail ↔ inner pieces = field := by
  induction pieces generalizing field with
  | nil =>
    cases field with
    | nil => simp [Json.inner]
    | cons c field =>
      have hc : c ≠ quote := fun heq => hquote (heq ▸ List.mem_cons_self ..)
      simp [Json.inner, hc]
  | cons piece pieces ih =>
    have hcons : inner (piece :: pieces) = piece.render ++ inner pieces := List.flatMap_cons
    rw [hcons]
    cases field with
    | nil =>
      cases piece with
      | plain c h =>
        simp only [isPlain, decide_eq_true_eq] at h
        simp [Piece.render, h.1.symm]
      | short letter c h => simp [Piece.render, show quote ≠ backslash by decide]
      | unicode h₁ h₂ h₃ h₄ n h => simp [Piece.render, show quote ≠ backslash by decide]
    | cons c field =>
      rw [List.mem_cons, not_or] at hquote hbackslash
      cases piece with
      | plain d h =>
        have hrest := ih hquote.2 hbackslash.2
        simp only [Piece.render, List.cons_append, List.nil_append, List.cons_prefix_cons, List.cons.injEq]
        rw [hrest]
        exact and_congr_left fun _ => eq_comm
      | short letter d h => simp [Piece.render, hbackslash.1, Ne.symm hbackslash.1]
      | unicode h₁ h₂ h₃ h₄ n h => simp [Piece.render, hbackslash.1, Ne.symm hbackslash.1]

theorem target_prefix_iff (hquote : quote ∉ field) (hbackslash : backslash ∉ field)
    (pieces : List Piece) : target field <+: quoted pieces ++ tail ↔ inner pieces = field := by
  have hquoted : quoted pieces ++ tail = quote :: (inner pieces ++ quote :: tail) := by
    simp [quoted]
  rw [hquoted, target, List.cons_append, List.cons_prefix_cons, eq_self_iff_true, true_and]
  exact field_prefix_iff hquote hbackslash pieces

/-! ## Deeper values -/

theorem Skips.quoted (hdepth : depth ≠ 1) (pieces : List Piece) :
    Skips field replacement depth (quoted pieces) depth := by
  intro tail
  exact scan_quoted pieces fun h => absurd h hdepth

theorem Skips.key (hdepth : depth ≠ 1) (key : Key) : Skips field replacement depth key.render depth := by
  have hcolon : Skips field replacement depth [':'] depth := Skips.char (by decide)
  have h := (((Skips.blanks key.before).append (Skips.quoted hdepth key.name)).append
    (Skips.blanks key.beforeColon)).append (hcolon.append (Skips.blanks key.afterColon))
  simpa [Key.render] using h

theorem Skips.wrap {o c : Char} (ho : o = '{' ∨ o = '[') (hc : c = '}' ∨ c = ']')
    (h : Skips field replacement (depth + 1) s (depth + 1)) :
    Skips field replacement depth (o :: s ++ [c]) depth := by
  have hopen : Skips field replacement depth [o] (depth + 1) := Skips.opening ho
  have hclose : Skips field replacement (depth + 1) [c] (depth + 1 - 1) := Skips.closing hc
  simpa using hopen.append (h.append hclose)

mutual

theorem Skips.tree : (t : Tree) → {depth : Int} → 1 < depth → Skips field replacement depth t.render depth
  | .null, _, _ => Skips.run (List.all_iff_forall_prop.mp (by decide))
  | .bool true, _, _ => Skips.run (List.all_iff_forall_prop.mp (by decide))
  | .bool false, _, _ => Skips.run (List.all_iff_forall_prop.mp (by decide))
  | .number n, _, _ => Skips.number n
  | .string s, _, hdepth => Skips.quoted (by omega) s
  | .emptyArray blanks, _, _ => Skips.wrap (Or.inr rfl) (Or.inr rfl) (Skips.blanks blanks)
  | .array items, _, _ => Skips.wrap (Or.inr rfl) (Or.inr rfl) (Skips.items items (by omega))
  | .emptyObject blanks, _, _ => Skips.wrap (Or.inl rfl) (Or.inl rfl) (Skips.blanks blanks)
  | .object members, _, _ => Skips.wrap (Or.inl rfl) (Or.inl rfl) (Skips.members members (by omega))

theorem Skips.items : (items : Items) → {depth : Int} → 1 < depth →
    Skips field replacement depth items.render depth
  | .last before item after, depth, hdepth => by
    have h := (Skips.blanks before).append ((Skips.tree item hdepth).append (Skips.blanks after))
    simpa [Items.render] using h
  | .more before item after rest, depth, hdepth => by
    have hcomma : Skips field replacement depth [','] depth := Skips.char (by decide)
    have h := (Skips.blanks before).append ((Skips.tree item hdepth).append
      ((Skips.blanks after).append (hcomma.append (Skips.items rest hdepth))))
    simpa [Items.render] using h

theorem Skips.members : (members : Members) → {depth : Int} → 1 < depth →
    Skips field replacement depth members.render depth
  | .last key value after, depth, hdepth => by
    have h := (Skips.key (by omega) key).append ((Skips.tree value hdepth).append (Skips.blanks after))
    simpa [Members.render] using h
  | .more key value after rest, depth, hdepth => by
    have hcomma : Skips field replacement depth [','] depth := Skips.char (by decide)
    have h := (Skips.key (by omega) key).append ((Skips.tree value hdepth).append
      ((Skips.blanks after).append (hcomma.append (Skips.members rest hdepth))))
    simpa [Members.render] using h

end

/-! ## The top level -/

theorem isLuaSpace_of_isBlank {c : Char} (h : isBlank c) : isLuaSpace c := by
  simp only [isBlank, decide_eq_true_eq] at h
  rcases h with rfl | rfl | rfl | rfl <;> decide

theorem not_isLuaSpace_of_isFirst {c : Char} (h : isFirst c) : isLuaSpace c = false := by
  by_contra hspace
  simp only [Bool.not_eq_false, isLuaSpace, decide_eq_true_eq] at hspace
  rcases hspace with rfl | rfl | rfl | rfl | rfl | rfl <;> exact absurd h (by decide)

theorem dropWhile_blanks (blanks : Blanks) (h : Ends isLuaSpace tail) :
    (blanks.val ++ tail).dropWhile isLuaSpace = tail :=
  dropWhile_run (fun c hc => isLuaSpace_of_isBlank (blanks.property c hc)) h

theorem takeWhile_blanks (blanks : Blanks) (h : Ends isLuaSpace tail) :
    (blanks.val ++ tail).takeWhile isLuaSpace = blanks.val :=
  takeWhile_run (fun c hc => isLuaSpace_of_isBlank (blanks.property c hc)) h

theorem ends_tree (t : Tree) (tail : List Char) : Ends isLuaSpace (t.render ++ tail) := by
  obtain ⟨c, cs, hcons, hc⟩ := t.render_eq_cons
  rw [hcons]
  exact ends_cons (not_isLuaSpace_of_isFirst hc)

/-- A comma or a closing brace. -/
def IsClose (c : Char) : Prop := c = ',' ∨ c = '}'

theorem IsClose.not_isLuaSpace {c : Char} (h : IsClose c) : isLuaSpace c = false := by
  rcases h with rfl | rfl <;> decide

theorem drop_target {pieces : List Piece} (h : inner pieces = field) :
    (quoted pieces ++ tail).drop (target field).length = tail := by
  have hquoted : quoted pieces = target field := by rw [quoted, target, h]
  rw [hquoted, List.drop_left]

theorem scan_value (hquote : quote ∉ field) (hbackslash : backslash ∉ field) (value : Tree) (after : Blanks)
    {c : Char} (hc : IsClose c) (rest : List Char) :
    scan (target field) replacement 1 false false (value.render ++ (after.val ++ c :: rest)) =
      (scan (target field) replacement 1 false false (after.val ++ c :: rest)).map (value.render ++ ·) := by
  cases value with
  | null => exact Skips.run (List.all_iff_forall_prop.mp (by decide)) _
  | bool b => cases b <;> exact Skips.run (List.all_iff_forall_prop.mp (by decide)) _
  | number n => exact Skips.number n _
  | string s =>
    apply scan_quoted
    intro _ hkey
    rw [drop_target ((target_prefix_iff hquote hbackslash s).mp hkey), replaceAfterKey,
      dropWhile_blanks after (ends_cons hc.not_isLuaSpace)]
    rcases hc with rfl | rfl <;> rfl
  | emptyArray blanks => exact Skips.wrap (Or.inr rfl) (Or.inr rfl) (Skips.blanks blanks) _
  | array items => exact Skips.wrap (Or.inr rfl) (Or.inr rfl) (Skips.items items (by omega)) _
  | emptyObject blanks => exact Skips.wrap (Or.inl rfl) (Or.inl rfl) (Skips.blanks blanks) _
  | object members => exact Skips.wrap (Or.inl rfl) (Or.inl rfl) (Skips.members members (by omega)) _

theorem Skips.other_key (hquote : quote ∉ field) (hbackslash : backslash ∉ field) {key : Key}
    (hkey : inner key.name ≠ field) : Skips field replacement 1 key.render 1 := by
  have hname : Skips field replacement 1 (Json.quoted key.name) 1 := by
    intro tail
    apply scan_quoted
    intro _ h
    exact absurd ((target_prefix_iff hquote hbackslash key.name).mp h) hkey
  have hcolon : Skips field replacement 1 [':'] 1 := Skips.char (by decide)
  have h := (((Skips.blanks key.before).append hname).append
    (Skips.blanks key.beforeColon)).append (hcolon.append (Skips.blanks key.afterColon))
  simpa [Key.render] using h

/-- A number replaced. -/
def withNumber (new : NumText) : Tree → Option Tree
  | .number _ => some (.number new)
  | _ => none

theorem withNumber_eq_none {new : NumText} {value : Tree} (h : ∀ n, value ≠ .number n) :
    withNumber new value = none := by
  cases value with
  | number n => exact absurd rfl (h n)
  | _ => rfl

theorem not_isNumberChar_of_value {value : Tree} (h : ∀ n, value ≠ .number n) (tail : List Char) :
    (value.render ++ tail).takeWhile isNumberChar = [] := by
  cases value with
  | number n => exact absurd rfl (h n)
  | bool b => cases b <;> rfl
  | _ => rfl

theorem next_char (after : Blanks) {c : Char} (hc : IsClose c) (rest : List Char) :
    ∃ nextChar tail, after.val ++ c :: rest = nextChar :: tail ∧
      (nextChar = ',' ∨ nextChar = '}' ∨ isLuaSpace nextChar) := by
  obtain ⟨cs, hcs⟩ := after
  cases cs with
  | nil =>
    refine ⟨c, rest, rfl, ?_⟩
    rcases hc with rfl | rfl
    · exact Or.inl rfl
    · exact Or.inr (Or.inl rfl)
  | cons d cs => exact ⟨d, _, rfl, Or.inr (Or.inr (isLuaSpace_of_isBlank (hcs d (List.mem_cons_self ..))))⟩

theorem ends_number (after : Blanks) {c : Char} (hc : IsClose c) (rest : List Char) :
    Ends isNumberChar (after.val ++ c :: rest) := by
  apply ends_blanks fun _ => not_isNumberChar_of_isBlank
  rcases hc with rfl | rfl <;> decide

theorem replaceAfterKey_value (key : Key) (value : Tree) (after : Blanks) (new : NumText) {c : Char}
    (hc : IsClose c) (rest : List Char) :
    replaceAfterKey new.render (key.beforeColon.val ++ ':' :: (key.afterColon.val ++
        (value.render ++ (after.val ++ c :: rest)))) =
      some ((withNumber new value).map fun t => key.beforeColon.val ++ ':' :: (key.afterColon.val ++
        (t.render ++ (after.val ++ c :: rest)))) := by
  have hcolon : isLuaSpace ':' = false := by decide
  unfold replaceAfterKey
  rw [dropWhile_blanks _ (ends_cons hcolon)]
  simp only
  rw [dropWhile_blanks _ (ends_tree value _), takeWhile_blanks _ (ends_cons hcolon),
    takeWhile_blanks _ (ends_tree value _)]
  by_cases hnumber : ∃ n, value = .number n
  · obtain ⟨n, rfl⟩ := hnumber
    obtain ⟨nextChar, tail, hnext, hnextChar⟩ := next_char after hc rest
    obtain ⟨d, cs, hcons, -⟩ := render_eq_cons n
    have hends := ends_number after hc rest
    have hrun : ((Tree.number n).render ++ (after.val ++ c :: rest)).takeWhile isNumberChar ≠ [] := by
      rw [Tree.render, takeWhile_run (isNumberChar_render n) hends, hcons]
      simp
    rw [if_neg hrun]
    simp only [Tree.render, withNumber, Option.map_some]
    rw [dropWhile_run (isNumberChar_render n) hends, hnext]
    simp only
    rw [if_pos hnextChar]
    simp
  · have hnot : ∀ n, value ≠ .number n := fun n h => hnumber ⟨n, h⟩
    rw [if_pos (not_isNumberChar_of_value hnot _), withNumber_eq_none hnot]
    rfl

theorem scan_field (hquote : quote ∉ field) (hbackslash : backslash ∉ field) {key : Key}
    (hkey : inner key.name = field) (value : Tree) (after : Blanks) (new : NumText) {c : Char}
    (hc : IsClose c) (rest : List Char) :
    scan (target field) new.render 1 false false (key.render ++ (value.render ++ (after.val ++ c :: rest))) =
      (withNumber new value).map fun t => key.render ++ (t.render ++ (after.val ++ c :: rest)) := by
  have hrender (text : List Char) : key.render ++ text =
      key.before.val ++ quote :: (inner key.name ++ quote ::
        (key.beforeColon.val ++ ':' :: (key.afterColon.val ++ text))) := by
    simp [Key.render, quoted]
  have htext (text : List Char) : quote :: (inner key.name ++ quote :: text) = quoted key.name ++ text := by
    simp [quoted]
  have htarget : target field = quoted key.name := by rw [target, quoted, hkey]
  rw [hrender, Skips.blanks key.before, scan]
  simp only [Bool.false_eq_true, if_false, if_true, true_and]
  rw [htext, if_pos ((target_prefix_iff hquote hbackslash key.name).mpr hkey), drop_target hkey,
    replaceAfterKey_value key value after new hc rest]
  simp only [Option.map_map, htarget, hrender, ← htext]
  simp [Function.comp_def]

/-- The members with the number of the field replaced, or nil. There is no result without the field. -/
def replaceIn (field : List Char) (new : NumText) : Members → Option (Option Members)
  | .last key value after =>
    if inner key.name = field then some ((withNumber new value).map fun t => .last key t after) else none
  | .more key value after rest =>
    if inner key.name = field then some ((withNumber new value).map fun t => .more key t after rest)
    else (replaceIn field new rest).map fun result => result.map fun rest => .more key value after rest

theorem scan_members (hquote : quote ∉ field) (hbackslash : backslash ∉ field) (new : NumText) :
    (members : Members) → (tail : List Char) →
    scan (target field) new.render 1 false false (members.render ++ '}' :: tail) =
      match replaceIn field new members with
      | some result => result.map fun members => members.render ++ '}' :: tail
      | none => (scan (target field) new.render 0 false false tail).map (members.render ++ '}' :: ·)
  | .last key value after, tail => by
    have hclose : IsClose '}' := Or.inr rfl
    simp only [Members.render, List.append_assoc, replaceIn]
    by_cases hkey : inner key.name = field
    · rw [if_pos hkey, scan_field hquote hbackslash hkey value after new hclose tail]
      simp [Function.comp_def, Members.render]
    · have hbrace : Skips field new.render 1 ['}'] (1 - 1) := Skips.closing (Or.inl rfl)
      rw [if_neg hkey, Skips.other_key hquote hbackslash hkey,
        scan_value hquote hbackslash value after hclose, Skips.blanks after]
      have h := hbrace tail
      simp only [List.singleton_append] at h
      rw [h]
      simp [Function.comp_def]
  | .more key value after rest, tail => by
    have hclose : IsClose ',' := Or.inl rfl
    simp only [Members.render, List.append_assoc, List.cons_append, replaceIn]
    by_cases hkey : inner key.name = field
    · rw [if_pos hkey, scan_field hquote hbackslash hkey value after new hclose]
      simp [Function.comp_def, Members.render]
    · have hcomma : Skips field new.render 1 [','] 1 := Skips.char (by decide)
      rw [if_neg hkey, Skips.other_key hquote hbackslash hkey,
        scan_value hquote hbackslash value after hclose, Skips.blanks after]
      have h := hcomma (rest.render ++ '}' :: tail)
      simp only [List.singleton_append] at h
      rw [h, scan_members hquote hbackslash new rest tail]
      cases replaceIn field new rest <;> simp [Function.comp_def, Members.render]

/-! ## What the members denote -/

/-- A name that is written without escapes denotes what is written. -/
theorem units_of_inner (hbackslash : backslash ∉ field) {pieces : List Piece} (h : inner pieces = field) :
    units pieces = utf16Text field := by
  induction pieces generalizing field with
  | nil =>
    subst h
    rfl
  | cons piece pieces ih =>
    have hcons : inner (piece :: pieces) = piece.render ++ inner pieces := List.flatMap_cons
    rw [hcons] at h
    cases piece with
    | plain c hc =>
      subst h
      have hrest : backslash ∉ inner pieces := fun hmem => hbackslash (List.mem_append_right _ hmem)
      calc units (Piece.plain c hc :: pieces) = utf16 c ++ units pieces := List.flatMap_cons
        _ = utf16 c ++ utf16Text (inner pieces) := by rw [ih hrest rfl]
    | short letter c hc =>
      subst h
      exact absurd (List.mem_append_left _ (List.mem_cons_self ..)) hbackslash
    | unicode h₁ h₂ h₃ h₄ n hn =>
      subst h
      exact absurd (List.mem_append_left _ (List.mem_cons_self ..)) hbackslash

theorem replaceIn_number (new : NumText) {old : NumText} {key : List Piece} (hkey : inner key = field) :
    (members : Members) → {front back : List (List Piece × Tree)} →
    members.toList = front ++ (key, .number old) :: back → (∀ m ∈ front, inner m.1 ≠ field) →
    ∃ members', replaceIn field new members = some (some members') ∧
      members'.toList = front ++ (key, .number new) :: back
  | .last first value after, front, back, hlist, hfront => by
    rcases front with _ | ⟨m, front⟩
    · simp only [Members.toList, List.nil_append, List.cons.injEq, Prod.mk.injEq] at hlist
      obtain ⟨⟨rfl, rfl⟩, rfl⟩ := hlist
      exact ⟨.last first (.number new) after, by simp [replaceIn, hkey, withNumber], rfl⟩
    · simp [Members.toList] at hlist
  | .more first value after rest, front, back, hlist, hfront => by
    rcases front with _ | ⟨m, front⟩
    · simp only [Members.toList, List.nil_append, List.cons.injEq, Prod.mk.injEq] at hlist
      obtain ⟨⟨rfl, rfl⟩, rfl⟩ := hlist
      exact ⟨.more first (.number new) after rest, by simp [replaceIn, hkey, withNumber], rfl⟩
    · simp only [Members.toList, List.cons_append, List.cons.injEq] at hlist
      obtain ⟨rfl, hlist⟩ := hlist
      rw [List.forall_mem_cons] at hfront
      obtain ⟨rest', hrest, htoList⟩ := replaceIn_number new hkey rest hlist hfront.2
      refine ⟨.more first value after rest', ?_, ?_⟩
      · rw [replaceIn, if_neg hfront.1, hrest]
        rfl
      · rw [Members.toList, htoList]
        rfl

theorem replaceIn_other (new : NumText) : (members : Members) →
    (∀ m ∈ members.toList, inner m.1 = field → ∀ n, m.2 ≠ .number n) →
    replaceIn field new members = none ∨ replaceIn field new members = some none
  | .last key value after, h => by
    rw [replaceIn]
    split
    · rename_i hkey
      rw [withNumber_eq_none (h _ (List.mem_cons_self ..) hkey)]
      exact Or.inr rfl
    · exact Or.inl rfl
  | .more key value after rest, h => by
    rw [Members.toList, List.forall_mem_cons] at h
    rw [replaceIn]
    split
    · rename_i hkey
      rw [withNumber_eq_none (h.1 hkey)]
      exact Or.inr rfl
    · rcases replaceIn_other new rest h.2 with hrest | hrest
      · exact Or.inl (by rw [hrest]; rfl)
      · exact Or.inr (by rw [hrest]; rfl)

theorem replace_object (hquote : quote ∉ field) (hbackslash : backslash ∉ field) (new : NumText)
    (before after : Blanks) (members : Members) :
    replaceTopLevelJsonNumber (before.val ++ (Tree.object members).render ++ after.val) field new.render =
      (replaceIn field new members).bind fun result => result.map fun members =>
        before.val ++ (Tree.object members).render ++ after.val := by
  have hbrace : Skips field new.render 0 ['{'] (0 + 1) := Skips.opening (Or.inl rfl)
  have hafter : scan (target field) new.render 0 false false after.val = none :=
    (Skips.blanks after).scan_eq_none
  have hrender (members : Members) : before.val ++ (Tree.object members).render ++ after.val =
      before.val ++ (['{'] ++ (members.render ++ '}' :: after.val)) := by
    simp [Tree.render]
  unfold replaceTopLevelJsonNumber
  rw [← target]
  simp only [hrender]
  rw [Skips.blanks before, hbrace, zero_add, scan_members hquote hbackslash]
  cases replaceIn field new members with
  | none => simp [hafter]
  | some result => simp [Function.comp_def]

/-! ## The theorem -/

def IsObject : Tree → Prop
  | .object _ => True
  | .emptyObject _ => True
  | _ => False

/-- The field is a member of the tree once, written without escapes, and has a number. -/
structure NumberField (t : Tree) (field : List Char) (key : List Piece) (old : NumText)
    (front back : List (List Piece × Tree)) : Prop where
  members : t.members = front ++ (key, .number old) :: back
  plain : inner key = field
  once : ∀ m ∈ front ++ back, units m.1 ≠ utf16Text field

/-- What the members denote. -/
def memberValues {N : Type} (read : NumText → N) (members : List (List Piece × Tree)) :
    List (List UInt16 × Value N) := members.map fun m => (units m.1, m.2.value read)

/-- The result is a text in which the field has the new number and every other member is as it was.
Without a number under the field there is no result. -/
theorem replaceTopLevelJsonNumber_spec {N : Type} (read : NumText → N) (d : Document)
    (hobject : IsObject d.tree) (field : List Char) (hquote : quote ∉ field) (hbackslash : backslash ∉ field) (new : NumText) :
    (∀ key old front back, NumberField d.tree field key old front back →
      parse read d.render = some (.object (memberValues read front ++
        (utf16Text field, .number (read old)) :: memberValues read back)) ∧
      ∃ e : Document, replaceTopLevelJsonNumber d.render field new.render = some e.render ∧
        parse read e.render = some (.object (memberValues read front ++
          (utf16Text field, .number (read new)) :: memberValues read back))) ∧
      ((∀ m ∈ d.tree.members, units m.1 = utf16Text field → ∀ n, m.2 ≠ .number n) →
        replaceTopLevelJsonNumber d.render field new.render = none) := by
  obtain ⟨before, tree, after⟩ := d
  have hreplace := replace_object hquote hbackslash new before after
  cases tree with
  | object members =>
    constructor
    · intro key old front back h
      have hname := units_of_inner hbackslash h.plain
      have hvalue {members : Members} {n : NumText} (hlist : members.toList = front ++ (key, .number n) :: back) :
          parse read (Document.render ⟨before, .object members, after⟩) = some (.object (memberValues read front ++
            (utf16Text field, .number (read n)) :: memberValues read back)) := by
        rw [parse_render, Tree.value, Members.values_eq, hlist]
        simp [memberValues, hname, Tree.value]
      obtain ⟨members', hsome, hlist⟩ := replaceIn_number new h.plain members h.members fun m hm hname =>
        h.once m (List.mem_append_left _ hm) (units_of_inner hbackslash hname)
      refine ⟨hvalue h.members, ⟨before, .object members', after⟩, ?_, hvalue hlist⟩
      have h := hreplace members
      rw [hsome] at h
      exact h
    · intro h
      have hnone := replaceIn_other new members fun m hm hname =>
        h m hm (units_of_inner hbackslash hname)
      refine (hreplace members).trans ?_
      rcases hnone with hnone | hnone <;> rw [hnone] <;> rfl
  | emptyObject blanks =>
    constructor
    · intro key old front back h
      have hmembers := h.members
      simp [Tree.members] at hmembers
    · intro _
      have hempty : Skips field new.render 0 (Tree.emptyObject blanks).render 0 :=
        Skips.wrap (Or.inl rfl) (Or.inl rfl) (Skips.blanks blanks)
      exact (((Skips.blanks before).append hempty).append (Skips.blanks after)).scan_eq_none
  | _ => exact absurd hobject id

/-- A key without blanks and escapes. -/
def plainKey (name : List Char) (h : ∀ c ∈ name, isPlain c) : Key where
  before := noBlanks
  name := name.pmap Piece.plain h
  beforeColon := noBlanks
  afterColon := noBlanks

def nextRun : List Char := ['n', 'e', 'x', 't', 'R', 'u', 'n']

def nextRunKey : Key := plainKey nextRun (List.all_eq_true.mp (by decide))

/-- An entry whose template has a field of the same name, with the next run after it. -/
def nestedEntry (n : Nat) : Document where
  tree := .object (.more (plainKey ['t'] (List.all_eq_true.mp (by decide)))
    (.object (.last nextRunKey (.number { int := 1 }) noBlanks)) noBlanks (.last nextRunKey (.number { int := n }) noBlanks))

theorem nestedEntry_replaced :
    ∃ e : Document,
      replaceTopLevelJsonNumber (nestedEntry 0).render nextRun ['4', '2'] =
        some e.render ∧
      parse NumText.int e.render = some (.object [(utf16Text ['t'],
          .object [(utf16Text nextRun, .number 1)]),
        (utf16Text nextRun, .number 42)]) := by
  have hfield : NumberField (nestedEntry 0).tree nextRun nextRunKey.name
      { int := 0 } [(['t'].pmap Piece.plain (List.all_eq_true.mp (by decide)),
        .object (.last nextRunKey (.number { int := 1 }) noBlanks))] [] := by
    constructor
    · rfl
    · rfl
    · intro m hm
      obtain rfl := List.mem_singleton.mp hm
      decide
  have h := replaceTopLevelJsonNumber_spec NumText.int (nestedEntry 0) trivial nextRun (by decide)
    (by decide) { int := 42 }
  exact (h.1 _ _ _ _ hfield).2

end GlideMq.TopLevelNumber
