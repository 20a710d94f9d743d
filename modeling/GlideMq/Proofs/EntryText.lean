import GlideMq.Machine.Lookup
import GlideMq.Model.EntryText
import GlideMq.Proofs.TopLevelNumber

/-!
# The two advances of a parked entry

Both sides see the same fields and decide alike, if the server decodes the entry at all. What they
write differs where 14 digits are not enough for the next run.
-/

open Json Lua Machine

namespace GlideMq.EntryText

/-! ## What an entry holds -/

theorem names_nodup (e : ParkedEntry) : (e.fields.map fun f => utf16Text f.1).Nodup := by
  have hnames : e.fields.map (fun f => utf16Text f.1) =
      [patternName, everyName, repeatAfterCompleteName, "tz".toList, "startDate".toList, endDateName, limitName,
        iterationCountName, "template".toList, "compression".toList, "lastRun".toList, nextRunName,
        inflightJobIdName].map utf16Text := rfl
  rw [hnames]
  decide +kernel

theorem property_members (e : ParkedEntry) {f : Text × Option (Value Double)} (hf : f ∈ e.fields) :
    property f.1 e.members = f.2 := by
  have hnodup : (e.fields.reverse.map fun f => utf16Text f.1).Nodup := by
    rw [List.map_reverse, List.nodup_reverse]
    exact names_nodup e
  have hlookup : (e.fields.reverse.filterMap fun f => f.2.map fun value => (utf16Text f.1, value)).lookup
      (utf16Text f.1) = f.2 := lookup_filterMap hnodup (List.mem_reverse.mpr hf)
  unfold property ParkedEntry.members
  rw [← List.filterMap_reverse]
  exact hlookup

theorem val_round (n : ℕ) : (Double.round n).val = toDouble n := nearest_natCast n

theorem val_repeatAfterComplete (e : ParkedEntry) :
    (Double.round e.repeatAfterComplete).val = e.repeatAfterComplete := by
  rw [val_round, toDouble_of_lt e.safe]

/-- The next run. -/
def ParkedEntry.next (e : ParkedEntry) (now : ℕ) : ℕ := toDouble (toDouble now + e.repeatAfterComplete)

theorem add_repeatAfterComplete (e : ParkedEntry) (now : ℕ) :
    (Double.round now + Double.round e.repeatAfterComplete).val = e.next now := by
  change nearest ((Double.round now).val + (Double.round e.repeatAfterComplete).val) = _
  rw [val_round, val_repeatAfterComplete, ← Nat.cast_add, nearest_natCast]
  rfl

/-- The job is not the one that the entry waits for. -/
def ParkedEntry.Ignores (e : ParkedEntry) (jobId : Text) : Prop :=
  ∃ inflight ∈ e.inflightJobId, inflight ≠ [] ∧ inflight ≠ utf16Text jobId

/-- The schedule is over. -/
def ParkedEntry.Ends (e : ParkedEntry) (now : ℕ) : Prop :=
  (∃ endDate ∈ e.endDate, endDate.val < e.next now) ∨
    ∃ limit ∈ e.limit, limit.val ≤ (e.iterationCount.getD 0).val

instance (e : ParkedEntry) (jobId : Text) : Decidable (e.Ignores jobId) :=
  inferInstanceAs (Decidable (∃ inflight ∈ e.inflightJobId, inflight ≠ [] ∧ inflight ≠ utf16Text jobId))

instance (e : ParkedEntry) (now : ℕ) : Decidable (e.Ends now) :=
  inferInstanceAs (Decidable ((∃ endDate ∈ e.endDate, endDate.val < e.next now) ∨
    ∃ limit ∈ e.limit, limit.val ≤ (e.iterationCount.getD 0).val))

theorem parse_raw (w : NumberWriter) (e : ParkedEntry) :
    parse readDouble (e.raw w) = some (.object e.members) := parse_stringify w.text readDouble w.read_text _

theorem numberOf_map (x : Option Double) : numberOf (x.map Value.number) = x := by
  cases x <;> rfl

theorem stringOf_map (s : Option JSString) : stringOf (s.map (Value.string (N := Double))) = s := by
  cases s <;> rfl

/-- What both sides read of an entry. -/
structure Reads (e : ParkedEntry) (config : Text → Option (Value Double)) : Prop where
  repeatAfterComplete : numberOf (config repeatAfterCompleteName) = some (Double.round e.repeatAfterComplete)
  nextRun : numberOf (config nextRunName) = some 0
  inflightJobId : stringOf (config inflightJobIdName) = e.inflightJobId
  endDate : numberOf (config endDateName) = e.endDate
  limit : numberOf (config limitName) = e.limit
  iterationCount : numberOf (config iterationCountName) = e.iterationCount

theorem reads_members (e : ParkedEntry) : Reads e fun name => property name e.members where
  repeatAfterComplete := by
    rw [property_members e (f := (repeatAfterCompleteName, some (.number (Double.round e.repeatAfterComplete))))
      (by simp [ParkedEntry.fields])]
    rfl
  nextRun := by
    rw [property_members e (f := (nextRunName, some (.number 0))) (by simp [ParkedEntry.fields])]
    rfl
  inflightJobId := by
    rw [property_members e (f := (inflightJobIdName, e.inflightJobId.map .string)) (by simp [ParkedEntry.fields])]
    exact stringOf_map _
  endDate := by
    rw [property_members e (f := (endDateName, e.endDate.map .number)) (by simp [ParkedEntry.fields])]
    exact numberOf_map _
  limit := by
    rw [property_members e (f := (limitName, e.limit.map .number)) (by simp [ParkedEntry.fields])]
    exact numberOf_map _
  iterationCount := by
    rw [property_members e (f := (iterationCountName, e.iterationCount.map .number))
      (by simp [ParkedEntry.fields])]
    exact numberOf_map _

/-! ## The server -/

/-- `cjson.decode` has for each name the property of the object, where it accepts the text. -/
def ReadsObjects (decode : Text → Option (Text → Option (Value Double))) : Prop :=
  ∀ raw config members, decode raw = some config → parse readDouble raw = some (.object members) →
    ∀ name, config name = property name members

theorem schedulerJobId_append (keyPrefix jobId : Text) :
    schedulerJobId (keyPrefix ++ "job:".toList ++ jobId) keyPrefix = jobId := by
  unfold schedulerJobId
  simp only
  rw [if_pos (List.prefix_append _ _), List.drop_left]

theorem tostring_next (e : ParkedEntry) (now : ℕ) :
    tostring (Double.round now + Double.round e.repeatAfterComplete) = (toStr (e.next now)).toList := by
  unfold tostring
  rw [add_repeatAfterComplete, Rat.num_natCast, Int.toNat_natCast]

theorem advanceRepeatAfterComplete_eq {decode : Text → Option (Text → Option (Value Double))}
    (hdecode : ReadsObjects decode) (w : NumberWriter) (e : ParkedEntry)
    {config : Text → Option (Value Double)} (hconfig : decode (e.raw w) = some config)
    (keyPrefix jobId : Text) (now : ℕ) :
    advanceRepeatAfterComplete decode (e.raw w) (keyPrefix ++ "job:".toList ++ jobId) keyPrefix
        (Double.round now) =
      if e.Ignores jobId then .leave
      else if e.Ends now then .delete
      else
        match replaceTopLevelJsonNumber (e.raw w) nextRunName (toStr (e.next now)).toList with
        | none => .leave
        | some updated => .write updated := by
  have hreads : Reads e config := by
    have h := reads_members e
    rwa [← funext (hdecode _ _ _ hconfig (parse_raw w e))] at h
  have hpositive : ¬ (Double.round e.repeatAfterComplete).val ≤ 0 := by
    rw [val_repeatAfterComplete, not_le]
    exact_mod_cast e.positive
  unfold advanceRepeatAfterComplete
  rw [hconfig]
  simp only [hreads.repeatAfterComplete, hreads.nextRun, hreads.inflightJobId, hreads.endDate, hreads.limit,
    hreads.iterationCount, Option.getD_some, schedulerJobId_append, add_repeatAfterComplete, tostring_next]
  rw [if_neg (by simp [hpositive])]
  rfl

/-! ## The worker -/

theorem isValidSchedulerEvery_round (e : ParkedEntry) :
    isValidSchedulerEvery (some (Double.round e.repeatAfterComplete)) := by
  have hpositive : (0 : ℚ) < e.repeatAfterComplete := by exact_mod_cast e.positive
  have hsafe : (e.repeatAfterComplete : ℚ) < 2 ^ 53 := by exact_mod_cast e.safe
  simp only [isValidSchedulerEvery, Option.any_some, val_repeatAfterComplete, decide_eq_true_eq]
  exact ⟨Rat.den_natCast _, hpositive, hsafe⟩

theorem updateSchedulerAfterComplete_eq (w : NumberWriter) (e : ParkedEntry) (jobId : Text) (now : ℕ) :
    updateSchedulerAfterComplete w (e.raw w) (utf16Text jobId) (Double.round now) =
      if e.Ignores jobId then .leave
      else if e.Ends now then .delete
      else
        .write (stringify w.text (.object (setProperty nextRunName
          (.number (Double.round now + Double.round e.repeatAfterComplete)) e.members))) := by
  have hreads := reads_members e
  have hne : Double.round e.repeatAfterComplete ≠ 0 := by
    intro heq
    have hval : (Double.round e.repeatAfterComplete).val = 0 := congrArg Subtype.val heq
    rw [val_repeatAfterComplete] at hval
    have hzero : e.repeatAfterComplete = 0 := by exact_mod_cast hval
    exact e.positive.ne' hzero
  unfold updateSchedulerAfterComplete
  rw [parse_raw]
  simp only [hreads.repeatAfterComplete, hreads.nextRun, hreads.inflightJobId, hreads.limit,
    hreads.iterationCount, Option.getD_some, hne, if_false, ne_eq, not_true_eq_false]
  unfold computeFollowingSchedulerNextRun
  simp only [isValidSchedulerEvery_round, hreads.endDate, Bool.not_true, Bool.false_eq_true, and_false,
    if_false, add_repeatAfterComplete]
  unfold ParkedEntry.Ends
  by_cases hdate : ∃ endDate ∈ e.endDate, endDate.val < e.next now
  · simp only [hdate, if_true, true_or]
    rfl
  · simp only [hdate, if_false, false_or]
    rfl

/-! ## What is written -/

/-- The fields before and after the next run. -/
def ParkedEntry.front (e : ParkedEntry) : List (JSString × Value Double) :=
  (e.fields.take 11).filterMap fun f => f.2.map fun value => (utf16Text f.1, value)

def ParkedEntry.back (e : ParkedEntry) : List (JSString × Value Double) :=
  (e.fields.drop 12).filterMap fun f => f.2.map fun value => (utf16Text f.1, value)

theorem members_eq (e : ParkedEntry) :
    e.members = e.front ++ (utf16Text nextRunName, .number 0) :: e.back := by
  have hfields : e.fields = e.fields.take 11 ++ (nextRunName, some (.number 0)) :: e.fields.drop 12 := rfl
  unfold ParkedEntry.members ParkedEntry.front ParkedEntry.back
  conv_lhs => rw [hfields]
  rw [List.filterMap_append]
  rfl

theorem keys_nodup (e : ParkedEntry) : (e.members.map (·.1)).Nodup :=
  (names_nodup e).sublist (keys_filterMap_sublist _ _ _)

theorem nextRun_not_mem (e : ParkedEntry) : ∀ m ∈ e.front ++ e.back, m.1 ≠ utf16Text nextRunName := by
  intro m hm heq
  have hnodup := keys_nodup e
  rw [members_eq, List.map_append, List.map_cons] at hnodup
  have hnot := (List.nodup_middle.mp hnodup)
  rw [List.nodup_cons, ← List.map_append] at hnot
  have hmem : m.1 ∈ (e.front ++ e.back).map (·.1) := List.mem_map_of_mem hm
  rw [heq] at hmem
  exact hnot.1 hmem

theorem setProperty_nextRun (e : ParkedEntry) (value : Value Double) :
    setProperty nextRunName value e.members = e.front ++ (utf16Text nextRunName, value) :: e.back := by
  have hkeep (l : List (JSString × Value Double)) (hl : ∀ m ∈ l, m.1 ≠ utf16Text nextRunName) :
      (l.map fun m => if m.1 = utf16Text nextRunName then (m.1, value) else m) = l := by
    calc (l.map fun m => if m.1 = utf16Text nextRunName then (m.1, value) else m) = l.map id :=
          List.map_congr_left fun m hm => if_neg (hl m hm)
      _ = l := List.map_id l
  have hnot := nextRun_not_mem e
  rw [List.forall_mem_append] at hnot
  unfold setProperty
  rw [if_pos (by simp [members_eq]), members_eq, List.map_append, List.map_cons, hkeep _ hnot.1,
    hkeep _ hnot.2, if_pos rfl]

/-- The entry with another next run. -/
def ParkedEntry.withNextRun (e : ParkedEntry) (nextRun : Double) : Value Double :=
  .object (e.front ++ (utf16Text nextRunName, .number nextRun) :: e.back)

theorem memberTrees_eq (text : Double → NumText) (members : List (JSString × Value Double)) :
    memberTrees text members = members.map fun m => (stringPieces m.1, m.2.tree text) := by
  induction members with
  | nil => rfl
  | cons m rest ih =>
    rw [memberTrees, ih]
    rfl

theorem inner_front (w : NumberWriter) (e : ParkedEntry) :
    ∀ m ∈ memberTrees w.text e.front, inner m.1 ≠ nextRunName := by
  have hnames : ∀ name ∈ [patternName, everyName, repeatAfterCompleteName, "tz".toList, "startDate".toList,
      endDateName, limitName, iterationCountName, "template".toList, "compression".toList, "lastRun".toList],
      inner (stringPieces (utf16Text name)) ≠ nextRunName := by decide +kernel
  rw [memberTrees_eq]
  intro m hm
  obtain ⟨f, hf, rfl⟩ := List.mem_map.mp hm
  obtain ⟨field, hfield, hvalue⟩ := List.mem_filterMap.mp hf
  obtain ⟨value, -, rfl⟩ := Option.map_eq_some_iff.mp hvalue
  apply hnames
  have hmem : field.1 ∈ (e.fields.take 11).map (·.1) := List.mem_map_of_mem hfield
  exact hmem

theorem objectOf_eq {members : List (List Piece × Tree)} (h : members ≠ []) :
    ∃ ms : Members, objectOf members = .object ms ∧ ms.toList = members := by
  cases members with
  | nil => exact absurd rfl h
  | cons m rest => exact ⟨membersOf m rest, rfl, toList_membersOf m rest⟩

/-- The server's edit gives the entry with the number that the text denotes. -/
theorem replace_raw (w : NumberWriter) (e : ParkedEntry) (t : NumText) :
    ∃ updated, replaceTopLevelJsonNumber (e.raw w) nextRunName t.render = some updated ∧
      parse readDouble updated = some (e.withNextRun (readDouble t)) := by
  have htrees : memberTrees w.text e.members = memberTrees w.text e.front ++
      (stringPieces (utf16Text nextRunName), .number (w.text 0)) :: memberTrees w.text e.back := by
    simp only [memberTrees_eq, members_eq, List.map_append, List.map_cons, Value.tree]
  have hkey : inner (stringPieces (utf16Text nextRunName)) = nextRunName := by decide +kernel
  obtain ⟨ms, hms, hlist⟩ := objectOf_eq (show memberTrees w.text e.members ≠ [] by simp [htrees])
  obtain ⟨ms', hreplace, hlist'⟩ := TopLevelNumber.replaceIn_number t hkey ms (hlist.trans htrees) (inner_front w e)
  have hraw : e.raw w = noBlanks.val ++ (Tree.object ms).render ++ noBlanks.val := by
    rw [← hms]
    simp [ParkedEntry.raw, stringify, Value.tree, noBlanks]
  refine ⟨(Tree.object ms').render, ?_, ?_⟩
  · rw [hraw, TopLevelNumber.replace_object (by decide) (by decide), hreplace]
    simp [noBlanks]
  · have hread := value_memberTrees w.text readDouble w.read_text
    rw [parse_tree, Tree.value, Members.values_eq, hlist', List.map_append, List.map_cons, hread, hread,
      units_stringPieces]
    rfl

theorem parse_written (w : NumberWriter) (e : ParkedEntry) (nextRun : Double) :
    parse readDouble (stringify w.text (.object (setProperty nextRunName (.number nextRun) e.members))) =
      some (e.withNextRun nextRun) := by
  rw [parse_stringify w.text readDouble w.read_text, setProperty_nextRun]
  rfl

theorem withNextRun_inj {e : ParkedEntry} {x y : Double} (h : e.withNextRun x = e.withNextRun y) : x = y := by
  unfold ParkedEntry.withNextRun at h
  simpa using h

/-! ## The theorem -/

/-- The same decision, and texts that denote the same object. -/
def Advance.Agrees : Advance → Advance → Prop
  | .leave, .leave => True
  | .delete, .delete => True
  | .write s, .write t => ∃ v, parse readDouble s = some v ∧ parse readDouble t = some v
  | _, _ => False

/-- Where both advance, they agree if the text of the number is read back. -/
theorem written_agrees_iff {decode : Text → Option (Text → Option (Value Double))}
    (hdecode : ReadsObjects decode) (w : NumberWriter) (e : ParkedEntry)
    (hconfig : (decode (e.raw w)).isSome) (keyPrefix : Text) {jobId : Text} {now : ℕ}
    (hignores : ¬ e.Ignores jobId) (hends : ¬ e.Ends now) :
    (advanceRepeatAfterComplete decode (e.raw w) (keyPrefix ++ "job:".toList ++ jobId) keyPrefix
        (Double.round now)).Agrees
      (updateSchedulerAfterComplete w (e.raw w) (utf16Text jobId) (Double.round now)) ↔
    toDouble (printed (e.next now)) = e.next now := by
  obtain ⟨config, hconfig⟩ := Option.isSome_iff_exists.mp hconfig
  obtain ⟨t, hrender, hexact⟩ := toStr_numText (e.next now)
  obtain ⟨updated, hreplace, hparse⟩ := replace_raw w e t
  rw [hrender] at hreplace
  have hread : (readDouble t).val = toDouble (printed (e.next now)) := by
    change nearest t.exact = _
    rw [hexact, nearest_natCast]
  rw [updateSchedulerAfterComplete_eq, advanceRepeatAfterComplete_eq hdecode w e hconfig]
  simp only [hignores, hends, if_false, hreplace, Advance.Agrees, hparse, parse_written]
  constructor
  · rintro ⟨v, hv, hv'⟩
    have heq := withNextRun_inj (Option.some.inj (hv.trans hv'.symm))
    have hval := congrArg Subtype.val heq
    rw [hread, add_repeatAfterComplete] at hval
    exact_mod_cast hval
  · intro heq
    have hsame : readDouble t = Double.round now + Double.round e.repeatAfterComplete := by
      apply Subtype.ext
      rw [hread, add_repeatAfterComplete, heq]
    exact ⟨_, rfl, by rw [hsame]⟩

/-- The two advances agree exactly if the job is ignored, or the server can decode the entry and the
schedule is over or 14 digits of the next run are read back as the next run. -/
theorem advances_agree_iff {decode : Text → Option (Text → Option (Value Double))}
    (hdecode : ReadsObjects decode) (w : NumberWriter) (e : ParkedEntry) (keyPrefix jobId : Text) (now : ℕ) :
    (advanceRepeatAfterComplete decode (e.raw w) (keyPrefix ++ "job:".toList ++ jobId) keyPrefix
        (Double.round now)).Agrees
      (updateSchedulerAfterComplete w (e.raw w) (utf16Text jobId) (Double.round now)) ↔
    e.Ignores jobId ∨
      (decode (e.raw w)).isSome ∧ (e.Ends now ∨ toDouble (printed (e.next now)) = e.next now) := by
  cases hconfig : decode (e.raw w) with
  | none =>
    have hleave : advanceRepeatAfterComplete decode (e.raw w) (keyPrefix ++ "job:".toList ++ jobId) keyPrefix
        (Double.round now) = .leave := by
      unfold advanceRepeatAfterComplete
      rw [hconfig]
    rw [hleave, updateSchedulerAfterComplete_eq]
    split_ifs <;> simp_all [Advance.Agrees]
  | some config =>
    by_cases hignores : e.Ignores jobId
    · rw [updateSchedulerAfterComplete_eq, advanceRepeatAfterComplete_eq hdecode w e hconfig]
      simp [hignores, Advance.Agrees]
    · by_cases hends : e.Ends now
      · rw [updateSchedulerAfterComplete_eq, advanceRepeatAfterComplete_eq hdecode w e hconfig]
        simp [hignores, hends, Advance.Agrees]
      · rw [written_agrees_iff hdecode w e (by simp [hconfig]) keyPrefix hignores hends]
        simp [hignores, hends]

/-! ## A writer and a decoder -/

/-- A power of ten below one. -/
def minusPower (k : ℕ) : Exponent where
  upper := false
  sign := some true
  first := digitValue ((Nat.toDigits 10 k).headD '0')
  rest := (Nat.toDigits 10 k).tail.map digitValue

theorem exact_minusPower (k : ℕ) : (minusPower k).exact = -k := by
  obtain ⟨c, cs, hcons, hc⟩ := toDigits_eq_cons k
  have hdigits := isDigit_toDigits k
  rw [hcons, List.forall_mem_cons] at hdigits
  have hvalue : ofDigits (digitValue c) (cs.map digitValue) = k := by
    have hall := Nat.ofDigitChars_ten_toDigits (n := k)
    rw [hcons, Nat.ofDigitChars_cons] at hall
    rw [ofDigits_map hdigits.2, val_digitValue hc]
    simpa using hall
  simp [minusPower, Exponent.exact, hcons, hvalue]

/-- All digits of a double: an integer as it is, another one with a power of ten. -/
def exactText (x : Double) : NumText :=
  if x.val.den = 1 then { negative := x.val.num < 0, int := x.val.num.natAbs }
  else
    let m := roundEven (x.val / 2 ^ lastBit x.val)
    let k := (-lastBit x.val).toNat
    { negative := m < 0, int := m.natAbs * 5 ^ k, exponent := some (minusPower k) }

theorem exact_exactText (x : Double) : (exactText x).exact = x.val := by
  obtain ⟨q, hq⟩ := x
  have hsign (m : ℤ) (y : ℚ) : (if decide (m < 0) then -((m.natAbs : ℚ) * y) else (m.natAbs : ℚ) * y) = m * y := by
    rw [Nat.cast_natAbs]
    by_cases hm : m < 0
    · simp [hm, abs_of_neg hm]
    · simp [hm, abs_of_nonneg (not_lt.mp hm)]
  unfold exactText
  simp only
  split
  · rename_i hden
    have h := hsign q.num 1
    simp only [mul_one] at h
    simp only [NumText.exact, ofDigits, List.foldl_nil, Option.map_none, Option.getD_none, List.length_nil,
      Nat.cast_zero, sub_zero, zpow_zero, mul_one]
    rw [h, Rat.coe_int_num_of_den_eq_one hden]
  · rename_i hden
    unfold nearest at hq
    obtain ⟨m, hm⟩ : ∃ m, roundEven (q / 2 ^ lastBit q) = m := ⟨_, rfl⟩
    rw [hm] at hq ⊢
    have hlow : lastBit q < 0 := by
      by_contra hnonneg
      obtain ⟨k, hk⟩ := Int.eq_ofNat_of_zero_le (not_lt.mp hnonneg)
      rw [hk, zpow_natCast] at hq
      apply hden
      rw [← hq]
      exact_mod_cast Rat.den_intCast (m * 2 ^ k)
    obtain ⟨k, hk⟩ : ∃ k : ℕ, lastBit q = -k := ⟨(-lastBit q).toNat, by omega⟩
    have h := hsign m (5 ^ k * 10 ^ (-(k : ℤ)))
    rw [hk] at hq
    simp only [NumText.exact, ofDigits, List.foldl_nil, Option.map_some, Option.getD_some, exact_minusPower,
      List.length_nil, Nat.cast_zero, sub_zero, hk, neg_neg, Int.toNat_natCast]
    push_cast
    have hpower : (5 : ℚ) ^ k * 10 ^ (-(k : ℤ)) = 2 ^ (-(k : ℤ)) := by
      rw [zpow_neg, zpow_neg, zpow_natCast, zpow_natCast, show (10 : ℚ) = 5 * 2 by norm_num, mul_pow]
      field_simp
    rw [mul_assoc, h, hpower]
    exact hq

def exactWriter : NumberWriter where
  text := exactText
  read_text x := by
    apply Subtype.ext
    change nearest (exactText x).exact = x.val
    rw [exact_exactText]
    exact x.property

/-- A decoder that accepts every object. -/
def decodeObject (raw : Text) : Option (Text → Option (Value Double)) :=
  match parse readDouble raw with
  | some (.object members) => some fun name => property name members
  | _ => none

theorem readsObjects_decodeObject : ReadsObjects decodeObject := by
  intro raw config members hconfig hparse name
  unfold decodeObject at hconfig
  rw [hparse] at hconfig
  rw [← Option.some.inj hconfig]

theorem decodeObject_raw (w : NumberWriter) (e : ParkedEntry) : (decodeObject (e.raw w)).isSome := by
  unfold decodeObject
  rw [parse_raw]
  rfl

/-- A job every five seconds. -/
def fiveSeconds : ParkedEntry where
  repeatAfterComplete := 5000
  positive := by decide
  safe := by decide

theorem fiveSeconds_agree :
    (advanceRepeatAfterComplete decodeObject (fiveSeconds.raw exactWriter) ("g:job:7".toList) ("g:".toList)
        (Double.round 1000)).Agrees
      (updateSchedulerAfterComplete exactWriter (fiveSeconds.raw exactWriter) (utf16Text ['7'])
        (Double.round 1000)) :=
  (advances_agree_iff readsObjects_decodeObject exactWriter fiveSeconds "g:".toList ['7'] 1000).mpr
    (Or.inr ⟨decodeObject_raw _ _, Or.inr (by decide +kernel)⟩)

/-- An interval whose next run has 15 digits. -/
def longInterval : ParkedEntry where
  repeatAfterComplete := 100000000000001
  positive := by decide
  safe := by decide

theorem longInterval_disagrees :
    ¬ ∀ (decode : Text → Option (Text → Option (Value Double))) (w : NumberWriter) (e : ParkedEntry)
        (keyPrefix jobId : Text) (now : ℕ), ReadsObjects decode →
      (advanceRepeatAfterComplete decode (e.raw w) (keyPrefix ++ "job:".toList ++ jobId) keyPrefix
          (Double.round now)).Agrees
        (updateSchedulerAfterComplete w (e.raw w) (utf16Text jobId) (Double.round now)) := by
  intro h
  have hagree := h decodeObject exactWriter longInterval "g:".toList ['7'] 0 readsObjects_decodeObject
  rw [written_agrees_iff readsObjects_decodeObject exactWriter longInterval (decodeObject_raw _ _) _
    (by decide) (by decide +kernel)] at hagree
  revert hagree
  decide +kernel

end GlideMq.EntryText
