import GlideMq.Model.ReplyText

/-!
# When a chain reply is read back

The worker looks for markers from the end of the reply. It does not know where the job of the reply
begins, so an id or a field name in the place of a marker is taken for one.
-/

open Json

namespace GlideMq.ReplyText

variable {N : Type} (read : NumText → N) (numberText : N → JSString)

/-! ## The payloads -/

theorem parseParentNotifications_write (notifications : List Text) :
    parseParentNotifications read (writeArray notifications) = notifications.map utf16Text := by
  have hitems : (notifications.map fun member => Value.string (N := N) (utf16Text member)).mapM stringItem =
      some (notifications.map utf16Text) := by
    induction notifications with
    | nil => rfl
    | cons member rest ih =>
      rw [List.map_cons, List.mapM_cons, ih]
      rfl
  have hvalues : (notifications.map textTree).map (Tree.value read) =
      notifications.map fun member => Value.string (utf16Text member) := by
    simp [Function.comp_def, value_textTree]
  unfold parseParentNotifications
  rw [← render_arrayOf_texts, parse_tree, value_arrayOf, hvalues]
  simp only
  rw [hitems]
  rfl

/-- What the worker makes of a failure. -/
def ActivationFailure.parsed (failure : ActivationFailure) : JSString × JSString :=
  (utf16Text failure.id, utf16Text failure.reason)

theorem failedActivation_value (idFirst : Bool) (failure : ActivationFailure) :
    failedActivation numberText ((failureTree idFirst failure).value read) = some (some failure.parsed) := by
  have hbeq : (utf16Text idName == utf16Text reasonName) = false := by decide
  have hbeq' : (utf16Text reasonName == utf16Text idName) = false := by decide
  have hvalue : (failureTree idFirst failure).value read = .object (if idFirst then
      [(utf16Text idName, .string (utf16Text failure.id)), (utf16Text reasonName, .string (utf16Text failure.reason))]
      else
      [(utf16Text reasonName, .string (utf16Text failure.reason)),
        (utf16Text idName, .string (utf16Text failure.id))]) := by
    unfold failureTree
    rw [value_objectOf]
    cases idFirst <;> simp [units_map_cjsonPiece, value_textTree]
  rw [hvalue]
  cases idFirst <;>
    simp [failedActivation, property, List.lookup_cons, hbeq, hbeq', toText, ActivationFailure.parsed]

theorem parseFailedActivations_write (idFirst : Bool) (failures : List ActivationFailure) :
    parseFailedActivations read numberText (arrayOf (failures.map (failureTree idFirst))).render =
      failures.map ActivationFailure.parsed := by
  have hentries : ((failures.map (failureTree idFirst)).map (Tree.value read)).mapM
      (failedActivation numberText) = some (failures.map fun failure => some failure.parsed) := by
    induction failures with
    | nil => rfl
    | cons failure rest ih =>
      rw [List.map_cons, List.map_cons, List.mapM_cons, ih, failedActivation_value]
      rfl
  unfold parseFailedActivations
  rw [parse_tree, value_arrayOf]
  simp only
  rw [hentries, Option.map_some, Option.getD_some, List.filterMap_map]
  simp

/-! ## The markers -/

def markers : List Text := [parentNotificationsMarker, failedActivationsMarker, listsEmptyMarker]

theorem readTrailers_stop {marker : Text} (h : marker ∉ markers) (trailers : Trailers) (payload : Text)
    (rest : List Text) : readTrailers read numberText trailers (payload :: marker :: rest) =
      (trailers, payload :: marker :: rest) := by
  simp only [markers, List.mem_cons, List.not_mem_nil, or_false, not_or] at h
  rw [readTrailers, if_neg h.1, if_neg h.2.1, if_neg h.2.2]

/-- What a payload after a marker says. -/
def Trailers.take (trailers : Trailers) (marker payload : Text) : Trailers :=
  if marker = parentNotificationsMarker then
    { trailers with parentNotifications := parseParentNotifications read payload }
  else if marker = failedActivationsMarker then
    { trailers with failedActivations := parseFailedActivations read numberText payload }
  else { trailers with listsEmpty := payload = ['1'] }

theorem readTrailers_take {marker : Text} (h : marker ∈ markers) (trailers : Trailers) (payload : Text)
    (rest : List Text) : readTrailers read numberText trailers (payload :: marker :: rest) =
      readTrailers read numberText (trailers.take read numberText marker payload) rest := by
  simp only [markers, List.mem_cons, List.not_mem_nil, or_false] at h
  rcases h with rfl | rfl | rfl <;> rfl

theorem length_readTrailers (trailers : Trailers) (l : List Text) :
    (readTrailers read numberText trailers l).2.length ≤ l.length := by
  fun_induction readTrailers read numberText trailers l with
  | case1 trailers payload rest ih => exact ih.trans (Nat.le_add_right _ 2)
  | case2 trailers payload rest _ ih => exact ih.trans (Nat.le_add_right _ 2)
  | case3 trailers payload rest _ _ ih => exact ih.trans (Nat.le_add_right _ 2)
  | case4 => exact le_refl _
  | case5 => exact le_refl _

/-- What the server has put in. -/
def sent (failures : List ActivationFailure) (listsEmpty : Bool) (notifications : List Text) : Trailers where
  parentNotifications := notifications.map utf16Text
  failedActivations := failures.map ActivationFailure.parsed
  listsEmpty := listsEmpty

/-- The trailers are read back, and the loop goes on into the head of the reply. -/
theorem readTrailers_finish (idFirst : Bool) (result : List Text) (failures : List ActivationFailure)
    (listsEmpty : Bool) (notifications : List Text) :
    readTrailers read numberText {} (finishChainReply idFirst result failures listsEmpty notifications).reverse =
      readTrailers read numberText (sent failures listsEmpty notifications) result.reverse := by
  have htrailer (trailers : Trailers) (l : List Text) {marker : Text} (h : marker ∈ markers) (payload : Text) :
      readTrailers read numberText trailers (l ++ [marker, payload]).reverse =
        readTrailers read numberText (trailers.take read numberText marker payload) l.reverse := by
    rw [List.reverse_append]
    exact readTrailers_take read numberText h trailers payload l.reverse
  have hfailures (trailers : Trailers) (h : trailers.failedActivations = []) :
      readTrailers read numberText trailers (if failures = [] then result
        else result ++ [failedActivationsMarker, (arrayOf (failures.map (failureTree idFirst))).render]).reverse =
      readTrailers read numberText { trailers with failedActivations := failures.map ActivationFailure.parsed }
        result.reverse := by
    split
    · rename_i hnil
      rw [hnil, List.map_nil, ← h]
    · rw [htrailer trailers result (by simp [markers])]
      simp only [Trailers.take, parseFailedActivations_write]
      rfl
  have hempty (trailers : Trailers) (h : trailers.listsEmpty = false) (l : List Text) :
      readTrailers read numberText trailers (if listsEmpty then l ++ [listsEmptyMarker, ['1']] else l).reverse =
        readTrailers read numberText { trailers with listsEmpty } l.reverse := by
    split
    · rename_i htrue
      rw [htrailer trailers l (by simp [markers]), htrue]
      rfl
    · rename_i hfalse
      rw [Bool.not_eq_true] at hfalse
      rw [hfalse, ← h]
  unfold finishChainReply appendParentNotifications
  simp only
  split
  · rename_i hnil
    rw [hempty {} rfl, hfailures _ rfl, sent, hnil]
    rfl
  · rw [htrailer {} _ (by simp [markers]), hempty _ rfl, hfailures _ rfl]
    simp only [Trailers.take, if_true, parseParentNotifications_write]
    rfl

/-! ## The hash -/

theorem pairs_flatMap (fields : List (Text × Text)) :
    pairs (fields.flatMap fun field => [field.1, field.2]) = fields := by
  induction fields with
  | nil => rfl
  | cons field rest ih => exact congrArg (_ :: ·) ih

theorem length_pairs (l : List Text) : 2 * (pairs l).length ≤ l.length := by
  fun_induction pairs l with
  | case1 field value rest ih =>
    simp only [List.length_cons]
    omega
  | case2 => simp

theorem foldl_setField {hash fields : List (Text × Text)} (h : ((hash ++ fields).map (·.1)).Nodup) :
    fields.foldl setField hash = hash ++ fields := by
  induction fields generalizing hash with
  | nil => simp
  | cons field rest ih =>
    have hnew : field.1 ∉ hash.map (·.1) := by
      intro hmem
      rw [List.map_append, List.map_cons] at h
      exact (List.nodup_append.mp h).2.2 _ hmem _ (List.mem_cons_self ..) rfl
    have hrest : ((hash ++ [field] ++ rest).map (·.1)).Nodup := by simpa using h
    rw [List.foldl_cons, setField, if_neg hnew, ih hrest]
    simp

theorem length_foldl_setField (hash fields : List (Text × Text)) :
    (fields.foldl setField hash).length ≤ hash.length + fields.length := by
  induction fields generalizing hash with
  | nil => simp
  | cons field rest ih =>
    have hset : (setField hash field).length ≤ hash.length + 1 := by
      unfold setField
      split <;> simp
    have h := ih (setField hash field)
    rw [List.foldl_cons, List.length_cons]
    omega

/-! ## The reply -/

namespace Head

def next : Head → Next
  | none => .none
  | revoked _ _ => .revoked
  | hash _ _ fields _ => .hash fields

def nextJobId : Head → Option Text
  | none => .none
  | revoked nextJobId _ => some nextJobId
  | hash nextJobId _ _ _ => some nextJobId

def nextEntryId : Head → Option Text
  | none => .none
  | revoked _ nextEntryId => some nextEntryId
  | hash _ nextEntryId _ _ => some nextEntryId

end Head

/-- What the server has put in, as the worker names it. -/
def Head.result (head : Head) (jobId : Text) (trailers : Trailers) : Result where
  completed := jobId
  next := head.next
  nextJobId := head.nextJobId
  nextEntryId := head.nextEntryId
  parentNotifications := trailers.parentNotifications
  failedActivations := trailers.failedActivations
  listsEmpty := trailers.listsEmpty

/-- A job id that is a marker does no harm if the entry id says what the trailer has said. -/
def IdReadable (trailers : Trailers) (nextJobId nextEntryId : Text) : Prop :=
  (nextJobId = parentNotificationsMarker →
    parseParentNotifications read nextEntryId = trailers.parentNotifications) ∧
  (nextJobId = failedActivationsMarker →
    parseFailedActivations read numberText nextEntryId = trailers.failedActivations)

/-- The last entries of the head are not taken for a trailer that says something else. -/
def Head.Readable (trailers : Trailers) : Head → Prop
  | none => True
  | revoked nextJobId nextEntryId => IdReadable read numberText trailers nextJobId nextEntryId
  | hash nextJobId nextEntryId fields _ =>
    (fields = [] → IdReadable read numberText trailers nextJobId nextEntryId) ∧
      ∀ last ∈ fields.getLast?, last.1 ∉ markers

theorem finishChainReply_append (idFirst : Bool) (result : List Text) (failures : List ActivationFailure)
    (listsEmpty : Bool) (notifications : List Text) :
    ∃ tail, finishChainReply idFirst result failures listsEmpty notifications = result ++ tail := by
  have hstep (p : Prop) [Decidable p] (l more : List Text) : l <+: if p then l else l ++ more := by
    split
    · exact List.prefix_refl l
    · exact List.prefix_append l more
  have hflag (l more : List Text) : l <+: if listsEmpty then l ++ more else l := by
    split
    · exact List.prefix_append l more
    · exact List.prefix_refl l
  obtain ⟨tail, htail⟩ := ((hstep (failures = []) result _).trans (hflag _ _)).trans
    (hstep (notifications = []) _ _)
  exact ⟨tail, htail.symm⟩

theorem readTrailers_ids (trailers : Trailers) {tag : Text} (htag : tag ∉ markers)
    (jobId nextJobId nextEntryId : Text) :
    let (found, rest) := readTrailers read numberText trailers [nextEntryId, nextJobId, jobId, tag]
    rest.length ≤ 4 ∧
      (found.parentNotifications = trailers.parentNotifications ∧
        found.failedActivations = trailers.failedActivations ↔
        IdReadable read numberText trailers nextJobId nextEntryId) := by
  by_cases h : nextJobId ∈ markers
  · have hdistinct : parentNotificationsMarker ≠ failedActivationsMarker ∧
        parentNotificationsMarker ≠ listsEmptyMarker ∧ failedActivationsMarker ≠ listsEmptyMarker := by decide
    rw [readTrailers_take read numberText h, readTrailers_stop read numberText htag]
    simp only [markers, List.mem_cons, List.not_mem_nil, or_false] at h
    refine ⟨by simp, ?_⟩
    rcases h with rfl | rfl | rfl
    · simp [Trailers.take, IdReadable, hdistinct.1]
    · simp [Trailers.take, IdReadable, hdistinct.1.symm]
    · simp [Trailers.take, IdReadable, hdistinct.2.1.symm, hdistinct.2.2.symm]
  · rw [readTrailers_stop read numberText h]
    simp only [markers, List.mem_cons, List.not_mem_nil, or_false, not_or] at h
    simp [IdReadable, h]

theorem parseChainReply_hash {jobId nextJobId nextEntryId : Text} {more : List Text} {found : Trailers}
    {rest : List Text} (hread : readTrailers read numberText {}
      ("NEXT_HASH".toList :: jobId :: nextJobId :: nextEntryId :: more).reverse = (found, rest))
    (arg func : Text) :
    parseChainReply read numberText ("NEXT_HASH".toList :: jobId :: nextJobId :: nextEntryId :: more) arg func =
      .ok { completed := jobId
            next := .hash ((pairs (rest.reverse.drop 4)).foldl setField [])
            nextJobId := some nextJobId
            nextEntryId := some nextEntryId
            parentNotifications := found.parentNotifications
            failedActivations := found.failedActivations } := by
  unfold parseChainReply
  rw [hread]
  simp [entryText]

/-- A reply is read back exactly if its head does not end like a trailer and the flag of the empty lists
comes with no job. -/
theorem parseChainReply_finish_iff (idFirst : Bool) (head : Head) (jobId : Text)
    (failures : List ActivationFailure) (listsEmpty : Bool) (notifications : List Text) (arg func : Text) :
    parseChainReply read numberText
        (finishChainReply idFirst (head.reply jobId) failures listsEmpty notifications) arg func =
      .ok (head.result jobId (sent failures listsEmpty notifications)) ↔
    head.Readable read numberText (sent failures listsEmpty notifications) ∧
      (listsEmpty → head.next = .none) := by
  have hread := readTrailers_finish read numberText idFirst (head.reply jobId) failures listsEmpty notifications
  obtain ⟨tail, htail⟩ := finishChainReply_append idFirst (head.reply jobId) failures listsEmpty notifications
  rw [htail] at hread ⊢
  generalize hsent : sent failures listsEmpty notifications = trailers at hread ⊢
  have hempty : trailers.listsEmpty = listsEmpty := by rw [← hsent]; rfl
  cases head with
  | none =>
    have hstop := readTrailers_stop read numberText (show "NEXT_NONE".toList ∉ markers by decide) trailers
      jobId []
    have hreverse : (Head.none.reply jobId).reverse = [jobId, "NEXT_NONE".toList] := rfl
    unfold parseChainReply
    rw [hread, hreverse, hstop]
    simp [Head.reply, entryText, Head.result, Head.next, Head.nextJobId, Head.nextEntryId, Head.Readable]
  | revoked nextJobId nextEntryId =>
    have hids := readTrailers_ids read numberText trailers (show "NEXT_REVOKED".toList ∉ markers by decide)
      jobId nextJobId nextEntryId
    have hreverse : ((Head.revoked nextJobId nextEntryId).reply jobId).reverse =
        [nextEntryId, nextJobId, jobId, "NEXT_REVOKED".toList] := rfl
    unfold parseChainReply
    rw [hread, hreverse]
    generalize readTrailers read numberText trailers
      [nextEntryId, nextJobId, jobId, "NEXT_REVOKED".toList] = found at hids ⊢
    obtain ⟨found, rest⟩ := found
    obtain ⟨-, hids⟩ := hids
    simp only [Head.Readable, ← hids, ← hempty]
    simp [Head.reply, entryText, Head.result, Head.next, Head.nextJobId, Head.nextEntryId]
    exact and_assoc.symm
  | hash nextJobId nextEntryId fields unique =>
    generalize hfound : readTrailers read numberText trailers
      ((Head.hash nextJobId nextEntryId fields unique).reply jobId).reverse = found at hread
    obtain ⟨found, rest⟩ := found
    have hparse := parseChainReply_hash read numberText hread arg func
    refine (Eq.congr_left hparse).trans ?_
    rcases fields.eq_nil_or_concat' with rfl | ⟨front, ⟨field, value⟩, rfl⟩
    · have hids := readTrailers_ids read numberText trailers (show "NEXT_HASH".toList ∉ markers by decide)
        jobId nextJobId nextEntryId
      have hreverse : ((Head.hash nextJobId nextEntryId [] unique).reply jobId).reverse =
          [nextEntryId, nextJobId, jobId, "NEXT_HASH".toList] := rfl
      rw [← hreverse, hfound] at hids
      obtain ⟨hlength, hids⟩ := hids
      have hdrop : rest.reverse.drop 4 = [] := List.drop_eq_nil_of_le (by simpa using hlength)
      simp only [Head.Readable, ← hids, ← hempty, hdrop]
      simp [Head.result, Head.next, Head.nextJobId, Head.nextEntryId, pairs]
      exact and_assoc.symm
    · have hreverse : ((Head.hash nextJobId nextEntryId (front ++ [(field, value)]) unique).reply jobId).reverse =
          value :: field :: (["NEXT_HASH".toList, jobId, nextJobId, nextEntryId] ++
            front.flatMap fun field => [field.1, field.2]).reverse := by
        simp [Head.reply]
      by_cases hmarker : field ∈ markers
      · have hlength := length_readTrailers read numberText
          (trailers.take read numberText field value) (["NEXT_HASH".toList, jobId, nextJobId, nextEntryId] ++
            front.flatMap fun field => [field.1, field.2]).reverse
        rw [hreverse, readTrailers_take read numberText hmarker] at hfound
        rw [hfound] at hlength
        have hpairs := length_pairs (rest.reverse.drop 4)
        have hfold := length_foldl_setField [] (pairs (rest.reverse.drop 4))
        have hflat : (front.flatMap fun field => [field.1, field.2]).length = 2 * front.length := by
          simp [List.length_flatMap, Nat.mul_comm]
        simp only [List.length_reverse, List.length_append, List.length_cons, List.length_nil,
          List.length_drop, hflat] at hlength hpairs hfold
        constructor
        · intro heq
          have hnext := congrArg (fun r => r.toOption.map Result.next) heq
          simp only [Except.toOption, Option.map_some, Option.some.injEq, Head.result, Head.next,
            Next.hash.injEq] at hnext
          rw [hnext, List.length_append, List.length_singleton] at hfold
          omega
        · intro h
          exact absurd hmarker (h.1.2 (field, value) (by simp))
      · rw [hreverse, readTrailers_stop read numberText hmarker, ← hreverse] at hfound
        obtain ⟨rfl, rfl⟩ := Prod.mk.inj hfound
        have hdrop : ((Head.hash nextJobId nextEntryId (front ++ [(field, value)]) unique).reply
            jobId).reverse.reverse.drop 4 = (front ++ [(field, value)]).flatMap fun f => [f.1, f.2] := by
          rw [List.reverse_reverse]
          rfl
        have hhash : (front ++ [(field, value)]).foldl setField [] = [] ++ (front ++ [(field, value)]) :=
          foldl_setField unique
        rw [hdrop, pairs_flatMap, hhash, List.nil_append]
        simp only [Head.Readable, ← hempty]
        simp [Head.result, Head.next, Head.nextJobId, Head.nextEntryId, hmarker]

/-- A revoked job whose id is a marker hides the parent notifications. -/
theorem marker_id_hides_notifications :
    ¬ ∀ (head : Head) (jobId : Text) (failures : List ActivationFailure) (listsEmpty : Bool)
        (notifications : List Text), (listsEmpty → head.next = .none) →
      parseChainReply (fun _ => ()) (fun _ => [])
          (finishChainReply true (head.reply jobId) failures listsEmpty notifications) jobId [] =
        .ok (head.result jobId (sent failures listsEmpty notifications)) := by
  intro h
  have hreply := h (.revoked parentNotificationsMarker "1-1".toList) ['7'] [] false [['m']] (by simp)
  have hfound := congrArg (fun r => (r.toOption.map Result.parentNotifications)) hreply
  revert hfound
  decide +kernel

end GlideMq.ReplyText
