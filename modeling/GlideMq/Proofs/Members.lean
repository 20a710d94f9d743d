import GlideMq.Model.Codecs

/-!
# What is read back from a member

No job id has a colon, so the members with a colon after the id or before it are read back. A job id
may have bars, and a scheduled member is cut at the first two bars in a row.
-/

namespace GlideMq

/-- Each member that is put together from the parts gives the parts back. -/
structure DecodesMembers (J : JobId) (group : Group) (ms seq : Nat) (timestamp base : String)
    (name parentQueue : QueueName) (parentId : JobId) : Prop where
  scheduled : splitMember (scheduledMember J none) = (J, none)
  retry : splitMember (scheduledMember J (some group)) = (J, some group)
  held : splitHeld (heldMember (streamId ms seq) J) = some (streamId ms seq, J)
  dedup : splitDedup (dedupValue J timestamp) = some (J, timestamp)
  parent : splitParentRef (parentRef (keyPrefix base name) J) = some (keyPrefix base name, J)
  tag : extractQueueTag (keyPrefix base name) = some name
  notification :
    parseCrossQueueParentNotification
        (parentNotification parentQueue parentId (parentRef (keyPrefix base name) J)) =
      some (parentQueue, parentId, parentRef (keyPrefix base name) J)

section

variable {J : JobId} {group : Group} {l r : List Char}

/-! ## Bars -/

theorem splitBars_cons {c : Char} (h : ∀ rest, c = '|' → l = '|' :: rest → False) :
    splitBars (c :: l) = (splitBars l).map fun p => (c :: p.1, p.2) := by
  rw [splitBars]
  exact h

theorem infix_cons_iff_of_not_front {c : Char} (h : ∀ rest, c = '|' → l = '|' :: rest → False) :
    ['|', '|'] <:+: c :: l ↔ ['|', '|'] <:+: l := by
  -- No two bars stand at the front, so they are in the rest.
  rw [List.infix_cons_iff, or_iff_right]
  rintro ⟨tail, htail⟩
  cases htail
  exact h tail rfl rfl

theorem splitBars_eq_none : splitBars l = none ↔ ¬ ['|', '|'] <:+: l := by
  induction l using splitBars.induct with
  | case1 rest =>
    refine iff_of_false (by simp [splitBars]) ?_
    rw [not_not]
    exact ⟨[], rest, rfl⟩
  | case2 c rest hbars ih =>
    rw [splitBars_cons hbars, Option.map_eq_none_iff, ih, infix_cons_iff_of_not_front hbars]
  | case3 => simp [splitBars]

theorem splitBars_append :
    splitBars (l ++ '|' :: '|' :: r) = some (l, r) ↔ ¬ ['|', '|'] <:+: l ∧ l.getLast? ≠ some '|' := by
  induction l with
  | nil => simp [splitBars]
  | cons c l ih =>
    by_cases hfront : c = '|' ∧ (l = [] ∨ ∃ rest, l = '|' :: rest)
    · -- the cut comes too early
      obtain ⟨rfl, rfl | ⟨rest, rfl⟩⟩ := hfront
      · simp [splitBars]
      · exact iff_of_false (by simp [splitBars]) fun h => h.1 ⟨[], rest, rfl⟩
    · have hrest : ∀ rest, c = '|' → l = '|' :: rest → False :=
        fun rest hc hl => hfront ⟨hc, .inr ⟨rest, hl⟩⟩
      have hall : ∀ rest, c = '|' → l ++ '|' :: '|' :: r = '|' :: rest → False := by
        intro rest hc hl
        cases l with
        | nil => exact hfront ⟨hc, .inl rfl⟩
        | cons d l =>
          cases hl
          exact hrest l hc rfl
      have hlast : (c :: l).getLast? ≠ some '|' ↔ l.getLast? ≠ some '|' := by
        cases l with
        | nil =>
          have hc : c ≠ '|' := fun hc => hfront ⟨hc, .inl rfl⟩
          simp [hc]
        | cons d l => rw [List.getLast?_cons_cons]
      rw [List.cons_append, splitBars_cons hall, infix_cons_iff_of_not_front hrest, hlast, ← ih,
        Option.map_eq_some_iff]
      constructor
      · rintro ⟨⟨front, back⟩, hsplit, heq⟩
        cases heq
        exact hsplit
      · intro hsplit
        exact ⟨(l, r), hsplit, rfl⟩

/-- An id that keeps its two bars apart. -/
def BarsApart (J : JobId) : Prop := ¬ ['|', '|'] <:+: J.toList ∧ J.toList.getLast? ≠ some '|'

theorem splitMember_id (h : ¬ ['|', '|'] <:+: J.toList) : splitMember (scheduledMember J none) = (J, none) := by
  unfold splitMember scheduledMember
  simp only [splitBars_eq_none.mpr h]

theorem splitMember_retry (hgroup : group ≠ "") :
    splitMember (scheduledMember J (some group)) = (J, some group) ↔ BarsApart J := by
  have hmember : (scheduledMember J (some group)).toList = J.toList ++ '|' :: '|' :: group.toList := by
    unfold scheduledMember
    rw [String.toList_append, String.toList_append, List.append_assoc]
    rfl
  have hchars : group.toList ≠ [] := by simpa using hgroup
  unfold splitMember BarsApart
  rw [← splitBars_append (r := group.toList), hmember]
  constructor
  · intro hsplit
    split at hsplit
    · exact absurd (congrArg Prod.snd hsplit) (by simp)
    · rename_i a b hbars
      simp only [Prod.mk.injEq] at hsplit
      obtain ⟨hid, hrest⟩ := hsplit
      split at hrest
      · cases hrest
      · rw [Option.some.injEq] at hrest
        rw [hbars, ← hid, ← hrest, String.toList_ofList, String.toList_ofList]
  · intro hsplit
    rw [hsplit]
    simp [hchars]

/-! ## Colons and braces -/

theorem chars_of_validJobId (h : validateJobId J = .ok ()) {c : Char} (hc : c ∈ J.toList) :
    invalidJobIdChar c = false := by
  cases hany : J.toList.any invalidJobIdChar with
  | true =>
    unfold validateJobId at h
    by_cases hlong : 256 < utf16Length J
    · rw [if_pos hlong] at h
      cases h
    · rw [if_neg hlong, if_pos hany] at h
      cases h
  | false => simpa using List.any_eq_false.mp hany c hc

theorem colon_notMem (h : validateJobId J = .ok ()) : ':' ∉ J.toList :=
  fun hmem => absurd (chars_of_validJobId h hmem) (by decide)

theorem chars_of_validQueueName {name : QueueName} (h : validateQueueName name = .ok ()) :
    name ≠ "" ∧ ∀ c ∈ name.toList, invalidQueueNameChar c = false := by
  unfold validateQueueName at h
  by_cases hempty : name = ""
  · rw [if_pos hempty] at h
    cases h
  rw [if_neg hempty] at h
  by_cases hlong : 256 < utf16Length name
  · rw [if_pos hlong] at h
    cases h
  rw [if_neg hlong] at h
  cases hany : name.toList.any invalidQueueNameChar with
  | true =>
    rw [if_pos hany] at h
    cases h
  | false => exact ⟨hempty, fun c hc => by simpa using List.any_eq_false.mp hany c hc⟩

theorem splitParentRef_iff {queuePrefix : String} (h : ':' ∉ J.toList) :
    splitParentRef (parentRef queuePrefix J) = some (queuePrefix, J) ↔ J ≠ "" := by
  have hchars : (parentRef queuePrefix J).toList = queuePrefix.toList ++ ':' :: J.toList := by
    unfold parentRef
    rw [String.toList_append, String.toList_append, List.append_assoc]
    rfl
  unfold splitParentRef
  rw [hchars, Text.splitLast_append h]
  simp only [String.ofList_toList]
  split
  · rename_i hempty
    have hJ : J = "" := by simpa using hempty
    simp [hJ]
  · rename_i hsome
    have hJ : J ≠ "" := by simpa using hsome
    simp [hJ]

theorem extractQueueTag_keyPrefix {base : String} {name : QueueName} (h : validateQueueName name = .ok ()) :
    extractQueueTag (keyPrefix base name) = some name := by
  obtain ⟨hname, hvalid⟩ := chars_of_validQueueName h
  have hopen : '\x7b' ∉ name.toList.reverse := by
    rw [List.mem_reverse]
    exact fun hmem => absurd (hvalid _ hmem) (by decide)
  have hclose : '\x7d' ∉ name.toList.reverse := by
    rw [List.mem_reverse]
    exact fun hmem => absurd (hvalid _ hmem) (by decide)
  have hchars : (keyPrefix base name).toList.reverse =
      '\x7d' :: (name.toList.reverse ++ '\x7b' :: ':' :: base.toList.reverse) := by
    unfold keyPrefix
    simp [String.toList_append]
  have hne : name.toList.reverse ≠ [] := by simpa using hname
  unfold extractQueueTag
  rw [hchars]
  simp only [Text.splitFirst_append hopen]
  rw [if_neg (not_or.mpr ⟨hne, hclose⟩), List.reverse_reverse, String.ofList_toList]

theorem splitHeld_heldMember (ms seq : Nat) :
    splitHeld (heldMember (streamId ms seq) J) = some (streamId ms seq, J) := by
  have hbar (n : Nat) : '|' ∉ n.repr.toList := by
    intro hmem
    have hdigits := Lua.isDigits_repr n
    simp only [Lua.isDigits, Bool.and_eq_true, List.all_eq_true] at hdigits
    exact absurd (hdigits.2 _ hmem) (by decide)
  have hid : '|' ∉ (streamId ms seq).toList := by
    unfold streamId
    simp only [String.toList_append, List.mem_append, not_or]
    exact ⟨⟨hbar ms, by decide⟩, hbar seq⟩
  have hchars : (heldMember (streamId ms seq) J).toList = (streamId ms seq).toList ++ '|' :: J.toList := by
    unfold heldMember
    rw [String.toList_append, String.toList_append, List.append_assoc]
    rfl
  unfold splitHeld
  rw [hchars, Text.splitFirst_append hid]
  simp

theorem splitDedup_dedupValue {timestamp : String} (h : ':' ∉ J.toList) :
    splitDedup (dedupValue J timestamp) = some (J, timestamp) := by
  have hchars : (dedupValue J timestamp).toList = J.toList ++ ':' :: timestamp.toList := by
    unfold dedupValue
    rw [String.toList_append, String.toList_append, List.append_assoc]
    rfl
  unfold splitDedup
  rw [hchars, Text.splitFirst_append h]
  simp

theorem parse_parentNotification (parentQueue : QueueName) (parentId : JobId) (depsMember : String) :
    parseCrossQueueParentNotification (parentNotification parentQueue parentId depsMember) =
      some (parentQueue, parentId, depsMember) := by
  unfold parseCrossQueueParentNotification parentNotification
  rw [String.toList_ofList, Json.readArray_write]
  simp

/-! ## All members -/

/-- Every member gives its parts back exactly if the id is not empty, has no two bars in a row and does
not end with one. -/
theorem members_decode_iff {ms seq : Nat} {timestamp base : String} {name parentQueue : QueueName}
    {parentId : JobId} (hJ : validateJobId J = .ok ()) (hname : validateQueueName name = .ok ())
    (hgroup : group ≠ "") :
    DecodesMembers J group ms seq timestamp base name parentQueue parentId ↔ J ≠ "" ∧ BarsApart J := by
  have hcolon := colon_notMem hJ
  constructor
  · intro h
    exact ⟨(splitParentRef_iff hcolon).mp h.parent, (splitMember_retry hgroup).mp h.retry⟩
  · rintro ⟨hempty, hbars⟩
    exact
      { scheduled := splitMember_id hbars.1
        retry := (splitMember_retry hgroup).mpr hbars
        held := splitHeld_heldMember ms seq
        dedup := splitDedup_dedupValue hcolon
        parent := (splitParentRef_iff hcolon).mpr hempty
        tag := extractQueueTag_keyPrefix hname
        notification := parse_parentNotification _ _ _ }

end

theorem members_decode_plain :
    DecodesMembers "a|b" "mail" 1700 0 "1700" "glide" "q" "parent" "7" := by
  have hbars : ¬ ['|', '|'] <:+: "a|b".toList := by
    rw [← splitBars_eq_none]
    decide
  exact (members_decode_iff (by decide) (by decide) (by decide)).mpr ⟨by decide, hbars, by decide⟩

/-- The retry of the job `a|` is taken for one of the job `a`. -/
theorem retry_of_another_job :
    validateJobId "a|" = .ok () ∧ splitMember (scheduledMember "a|" (some "mail")) = ("a", some "|mail") ∧
      ¬ DecodesMembers "a|" "mail" 1700 0 "1700" "glide" "q" "parent" "7" := by
  refine ⟨by decide, by decide, fun h => ?_⟩
  exact absurd h.retry (by decide)

end GlideMq
