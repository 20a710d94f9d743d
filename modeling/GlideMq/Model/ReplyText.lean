import GlideMq.Json.Writer

/-!
# The reply of a chain call as texts

The server flattens its reply to one array of texts. Failed activations, the flag of the empty lists
and the parent notifications stand at its end, each after a marker.
-/

namespace GlideMq.ReplyText

open Json

abbrev Text := List Char

/-- A string of JavaScript, as code units. -/
abbrev JSString := List UInt16

def parentNotificationsMarker : Text := "__glidemq_parent_notifications__".toList

def failedActivationsMarker : Text := "__glidemq_failed_activations__".toList

def listsEmptyMarker : Text := "__glidemq_lists_empty__".toList

/-! ## The server -/

/-- What the chain call fetched. A job hash has each field once. -/
inductive Head where
  | none
  | revoked (nextJobId nextEntryId : Text)
  | hash (nextJobId nextEntryId : Text) (fields : List (Text × Text))
      (unique : (fields.map (·.1)).Nodup)

/-- The reply of `fetchNextForChain`. -/
def Head.reply (jobId : Text) : Head → List Text
  | none => ["NEXT_NONE".toList, jobId]
  | revoked nextJobId nextEntryId => ["NEXT_REVOKED".toList, jobId, nextJobId, nextEntryId]
  | hash nextJobId nextEntryId fields _ =>
    ["NEXT_HASH".toList, jobId, nextJobId, nextEntryId] ++ fields.flatMap fun field => [field.1, field.2]

/-- A job that failed when it was to start, and the reason. -/
structure ActivationFailure where
  id : Text
  reason : Text
  deriving DecidableEq

def idName : Text := "id".toList

def reasonName : Text := "reason".toList

/-- `cjson.encode` of one failure. A table has its keys in an order of its own. -/
def failureTree (idFirst : Bool) (failure : ActivationFailure) : Tree :=
  let id := (idName.map cjsonPiece, textTree failure.id)
  let reason := (reasonName.map cjsonPiece, textTree failure.reason)
  objectOf (if idFirst then [id, reason] else [reason, id])

def appendParentNotifications (result notifications : List Text) : List Text :=
  if notifications = [] then result
  else result ++ [parentNotificationsMarker, writeArray notifications]

def finishChainReply (idFirst : Bool) (result : List Text) (activationFailures : List ActivationFailure)
    (chainListsEmpty : Bool) (notifications : List Text) : List Text :=
  let result :=
    if activationFailures = [] then result
    else result ++ [failedActivationsMarker, (arrayOf (activationFailures.map (failureTree idFirst))).render]
  let result := if chainListsEmpty then result ++ [listsEmptyMarker, ['1']] else result
  appendParentNotifications result notifications

/-! ## The worker -/

section

-- numbers as they are read, and the text of a number
variable {N : Type} (read : NumText → N) (numberText : N → JSString)

def stringItem : Value N → Option JSString
  | .string member => some member
  | _ => none

def parseParentNotifications (raw : Text) : List JSString :=
  match parse read raw with
  | some (.array items) => (items.mapM stringItem).getD []
  | _ => []

def isNull : Value N → Bool
  | .null => true
  | _ => false

mutual

/-- `String(value)`. An object with a property `toString` has no text: the property is not a function. -/
def toText : Value N → Option JSString
  | .null => some (utf16Text "null".toList)
  | .bool b => some (utf16Text (if b then "true".toList else "false".toList))
  | .number n => some (numberText n)
  | .string s => some s
  | .array items => joinTexts items
  | .object members =>
    if (property "toString".toList members).isSome then none
    else some (utf16Text "[object Object]".toList)

/-- The texts of the items, with commas between them. The text of `null` is empty. -/
def joinTexts : List (Value N) → Option JSString
  | [] => some []
  | item :: rest => do
    let text ← toText item
    let texts ← joinTexts rest
    return (if isNull item then [] else text) ++ if rest.isEmpty then [] else utf16Text [','] ++ texts

end

/-- An entry of the list, if it is one. There is no result if the reason has no text. -/
def failedActivation : Value N → Option (Option (JSString × JSString))
  | .object members =>
    match property idName members with
    | some (.string id) =>
      match property reasonName members with
      | none => some (some (id, []))
      | some .null => some (some (id, []))
      | some reason => (toText numberText reason).map fun text => some (id, text)
    | _ => some none
  | _ => some none

def parseFailedActivations (raw : Text) : List (JSString × JSString) :=
  match parse read raw with
  | some (.array entries) => ((entries.mapM (failedActivation numberText)).map (·.filterMap id)).getD []
  | _ => []

inductive Next where
  | none
  | currentRevoked
  | revoked
  | hash (fields : List (Text × Text))
  deriving DecidableEq

/-- What `CompleteAndFetchResult` holds. -/
structure Result where
  completed : Text
  next : Next
  nextJobId : Option Text := .none
  nextEntryId : Option Text := .none
  parentNotifications : List JSString := []
  failedActivations : List (JSString × JSString) := []
  listsEmpty : Bool := false
  deriving DecidableEq

/-- What the markers have said so far. -/
structure Trailers where
  parentNotifications : List JSString := []
  failedActivations : List (JSString × JSString) := []
  listsEmpty : Bool := false

/-- The loop over the markers, on the reply from its end. What is left is the reply up to `end`. -/
def readTrailers (trailers : Trailers) : List Text → Trailers × List Text
  | payload :: marker :: rest =>
    if marker = parentNotificationsMarker then
      readTrailers { trailers with parentNotifications := parseParentNotifications read payload } rest
    else if marker = failedActivationsMarker then
      readTrailers { trailers with failedActivations := parseFailedActivations read numberText payload } rest
    else if marker = listsEmptyMarker then
      readTrailers { trailers with listsEmpty := payload = ['1'] } rest
    else (trailers, payload :: marker :: rest)
  | rest => (trailers, rest)

/-- `hash[field] = value`. -/
def setField (hash : List (Text × Text)) (field : Text × Text) : List (Text × Text) :=
  if field.1 ∈ hash.map (·.1) then hash.map fun f => if f.1 = field.1 then field else f
  else hash ++ [field]

def pairs : List Text → List (Text × Text)
  | field :: value :: rest => (field, value) :: pairs rest
  | _ => []

/-- `String` of an entry of the reply. -/
def entryText (raw : List Text) (i : Nat) : Text := raw.getD i "undefined".toList

def parseChainReply (raw : List Text) (jobId func : Text) : Except Text Result :=
  let (trailers, rest) := readTrailers read numberText {} raw.reverse
  let tag := entryText raw 0
  let completed := raw.getD 1 jobId
  let result : Result :=
    { completed
      next := .none
      parentNotifications := trailers.parentNotifications
      failedActivations := trailers.failedActivations }
  if tag = "NEXT_NONE".toList then .ok { result with listsEmpty := trailers.listsEmpty }
  else if tag = "CURRENT_REVOKED".toList then .ok { completed, next := .currentRevoked }
  else if tag = "NEXT_REVOKED".toList then
    .ok { result with
      next := .revoked
      nextJobId := some (entryText raw 2)
      nextEntryId := some (entryText raw 3) }
  else if tag = "NEXT_HASH".toList then
    .ok { result with
      next := .hash ((pairs (rest.reverse.drop 4)).foldl setField [])
      nextJobId := some (entryText raw 2)
      nextEntryId := some (entryText raw 3) }
  else .error ("Unexpected ".toList ++ func ++ " tag: ".toList ++ tag)

end

end GlideMq.ReplyText
