import GlideMq.Lua.Json
import GlideMq.Lua.Number
import GlideMq.Lua.Text
import GlideMq.Model.Promote

/-!
# Composite members

Several keys hold texts that are put together from ids and are cut again at a separator.
-/

namespace GlideMq

/-! ## Names -/

/-- The length of a JavaScript string. -/
def utf16Length (s : String) : Nat := (s.toList.map fun c => if c.toNat < 0x10000 then 1 else 2).sum

/-- `INVALID_JOB_ID_CHARS`. -/
def invalidJobIdChar (c : Char) : Bool :=
  c.toNat < 32 || c.toNat = 127 || c = '\x7b' || c = '\x7d' || c = ':'

def validateJobId (J : JobId) : Except String Unit := do
  if 256 < utf16Length J then throw "jobId must be at most 256 characters"
  if J.toList.any invalidJobIdChar then
    throw "jobId must not contain control characters, curly braces, or colons"

/-- `INVALID_QUEUE_NAME_CHARS`. -/
def invalidQueueNameChar (c : Char) : Bool := c = '\x7b' || c = '\x7d' || c = ':'

def validateQueueName (name : QueueName) : Except String Unit := do
  if name = "" then throw "Queue name must be a non-empty string"
  if 256 < utf16Length name then throw "Queue name must be at most 256 characters"
  if name.toList.any invalidQueueNameChar then
    throw "Queue name must not contain curly braces or colons"

/-- The prefix of a queue's keys, with its name in a hash tag. -/
def keyPrefix (base : String) (name : QueueName) : String := base ++ ":\x7b" ++ name ++ "\x7d"

/-- The queue name in the hash tag at the end of a prefix. -/
def extractQueueTag (queuePrefix : String) : Option QueueName :=
  match queuePrefix.toList.reverse with
  | '\x7d' :: rest =>
    match Text.splitFirst '\x7b' rest with
    | some (name, _) => if name = [] ∨ '\x7d' ∈ name then none else some (String.ofList name.reverse)
    | none => none
  | _ => none

/-! ## Members -/

/-- A member of the scheduled set: the job, or its retry for one subscription of a broadcast. -/
def scheduledMember (J : JobId) : Option Group → String
  | none => J
  | some group => J ++ "||" ++ group

/-- A stream id. -/
def streamId (ms seq : Nat) : String := ms.repr ++ "-" ++ seq.repr

def heldMember (entryId : String) (J : JobId) : String := entryId ++ "|" ++ J

def splitHeld (member : String) : Option (String × JobId) :=
  (Text.splitFirst '|' member.toList).map fun p => (String.ofList p.1, String.ofList p.2)

def dedupValue (J : JobId) (timestamp : String) : String := J ++ ":" ++ timestamp

def splitDedup (value : String) : Option (JobId × String) :=
  (Text.splitFirst ':' value.toList).map fun p => (String.ofList p.1, String.ofList p.2)

def parentRef (queuePrefix : String) (J : JobId) : String := queuePrefix ++ ":" ++ J

/-- The cut at the last colon, which must not be the last character. -/
def splitParentRef (entry : String) : Option (String × JobId) :=
  match Text.splitLast ':' entry.toList with
  | some (queuePrefix, J) => if J = [] then none else some (String.ofList queuePrefix, String.ofList J)
  | none => none

/-- A member of `xq-pending`. -/
def parentNotification (parentQueue : QueueName) (parentId : JobId) (depsMember : String) : String :=
  String.ofList (Json.writeArray [parentQueue.toList, parentId.toList, depsMember.toList])

/-- A member is an array of three texts, or three texts with tabs between them from older versions. The
arrays of texts that `parentNotification` writes are all the JSON that is read here: `JSON.parse` also takes
other forms. -/
def parseCrossQueueParentNotification (member : String) : Option (QueueName × JobId × String) :=
  match Json.readArray member.toList with
  | some [parentQueue, parentId, depsMember] =>
    some (String.ofList parentQueue, String.ofList parentId, String.ofList depsMember)
  | some _ => none
  | none =>
    match member.toList.splitOn '\t' with
    | [parentQueue, parentId, depsMember] =>
      some (String.ofList parentQueue, String.ofList parentId, String.ofList depsMember)
    | _ => none

end GlideMq
