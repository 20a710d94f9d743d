import GlideMq.Json.Stringify
import GlideMq.Lua.NumberText
import GlideMq.Model.TopLevelNumber

/-!
# The two ends of a repeat-after-complete job

The worker parses the entry of the scheduler and writes it anew. The server decodes it for the
decision and changes the next run in its text. A field that is not of its type counts as absent.
-/

namespace GlideMq.EntryText

open Json Lua

abbrev Text := List Char

abbrev JSString := List UInt16

/-! ## Numbers -/

/-- A number of JavaScript or Lua. -/
abbrev Double := {q : ℚ // nearest q = q}

def Double.round (q : ℚ) : Double := ⟨nearest q, nearest_nearest q⟩

instance : Add Double := ⟨fun x y => Double.round (x.val + y.val)⟩

instance : Zero Double := ⟨⟨0, by simp [nearest, roundEven]⟩⟩

def readDouble (t : NumText) : Double := Double.round t.exact

/-- `Number::toString`: it writes digits that are read back. -/
structure NumberWriter where
  text : Double → NumText
  read_text : ∀ x, readDouble (text x) = x

/-- `tostring` of a number that is natural. -/
def tostring (x : Double) : Text := (Lua.toStr x.val.num.toNat).toList

/-! ## Entries -/

section

variable {N : Type}

def stringOf : Option (Value N) → Option JSString
  | some (.string s) => some s
  | _ => none

def numberOf : Option (Value N) → Option N
  | some (.number n) => some n
  | _ => none

/-- `config[name] = value`. -/
def setProperty (name : Text) (value : Value N) (members : List (JSString × Value N)) :
    List (JSString × Value N) :=
  if utf16Text name ∈ members.map (·.1) then
    members.map fun m => if m.1 = utf16Text name then (m.1, value) else m
  else members ++ [(utf16Text name, value)]

end

def patternName : Text := "pattern".toList

def everyName : Text := "every".toList

def repeatAfterCompleteName : Text := "repeatAfterComplete".toList

def endDateName : Text := "endDate".toList

def limitName : Text := "limit".toList

def iterationCountName : Text := "iterationCount".toList

def nextRunName : Text := "nextRun".toList

def inflightJobIdName : Text := "inflightJobId".toList

/-- An entry that waits for its job: `nextRun` is 0. Its interval has passed the check of
`upsertJobScheduler`. -/
structure ParkedEntry where
  pattern : Option JSString := none
  every : Option Double := none
  repeatAfterComplete : ℕ
  tz : Option JSString := none
  startDate : Option Double := none
  endDate : Option Double := none
  limit : Option Double := none
  iterationCount : Option Double := some 0
  template : Option (Value Double) := none
  compression : Option JSString := none
  lastRun : Option Double := none
  inflightJobId : Option JSString := none
  positive : 0 < repeatAfterComplete
  safe : repeatAfterComplete < 2 ^ 53

/-- The fields in their order. One without a value is not written. -/
def ParkedEntry.fields (e : ParkedEntry) : List (Text × Option (Value Double)) :=
  [(patternName, e.pattern.map .string), (everyName, e.every.map .number),
    (repeatAfterCompleteName, some (.number (Double.round e.repeatAfterComplete))),
    ("tz".toList, e.tz.map .string), ("startDate".toList, e.startDate.map .number),
    (endDateName, e.endDate.map .number), (limitName, e.limit.map .number),
    (iterationCountName, e.iterationCount.map .number), ("template".toList, e.template),
    ("compression".toList, e.compression.map .string), ("lastRun".toList, e.lastRun.map .number),
    (nextRunName, some (.number 0)), (inflightJobIdName, e.inflightJobId.map .string)]

def ParkedEntry.members (e : ParkedEntry) : List (JSString × Value Double) :=
  e.fields.filterMap fun f => f.2.map fun value => (utf16Text f.1, value)

/-- The text that `upsertJobScheduler` stores. -/
def ParkedEntry.raw (w : NumberWriter) (e : ParkedEntry) : Text := stringify w.text (.object e.members)

/-- What becomes of the entry when its job is over. -/
inductive Advance where
  | leave
  | delete
  | write (raw : Text)

/-! ## The worker -/

/-- A positive safe integer. -/
def isValidSchedulerEvery (every : Option Double) : Bool :=
  every.any fun x => x.val.den = 1 ∧ 0 < x.val ∧ x.val < 2 ^ 53

/-- The branch for `repeatAfterComplete`. -/
def computeFollowingSchedulerNextRun (config : List (JSString × Value Double)) (repeatAfterComplete afterMs : Double) :
    Option Double :=
  if ((stringOf (property patternName config)).getD []) = [] ∧
      !isValidSchedulerEvery (numberOf (property everyName config)) ∧
      !isValidSchedulerEvery (some repeatAfterComplete) then none
  else
    let nextRun := afterMs + repeatAfterComplete
    if ∃ endDate ∈ numberOf (property endDateName config), endDate.val < nextRun.val then none else some nextRun

def updateSchedulerAfterComplete (w : NumberWriter) (raw : Text) (jobId : JSString) (now : Double) : Advance :=
  match parse readDouble raw with
  | some (.object config) =>
    let repeatAfterComplete := (numberOf (property repeatAfterCompleteName config)).getD 0
    if repeatAfterComplete = 0 then .leave
    else if numberOf (property nextRunName config) ≠ some 0 then .leave
    else if ∃ inflight ∈ stringOf (property inflightJobIdName config), inflight ≠ [] ∧ inflight ≠ jobId then .leave
    else
      match computeFollowingSchedulerNextRun config repeatAfterComplete now with
      | none => .delete
      | some nextRun =>
        if ∃ limit ∈ numberOf (property limitName config),
            limit.val ≤ ((numberOf (property iterationCountName config)).getD 0).val then .delete
        else .write (stringify w.text (.object (setProperty nextRunName (.number nextRun) config)))
  | _ => .leave

/-! ## The server -/

def schedulerJobId (jobKey keyPrefix : Text) : Text :=
  let marker := keyPrefix ++ "job:".toList
  if marker <+: jobKey then jobKey.drop marker.length else jobKey

section

-- `cjson.decode`: the table of a text, unless it is refused or is no table
variable (decode : Text → Option (Text → Option (Value Double)))

def advanceRepeatAfterComplete (raw jobKey keyPrefix : Text) (timestamp : Double) : Advance :=
  match decode raw with
  | none => .leave
  | some config =>
    let repeatMs := (numberOf (config repeatAfterCompleteName)).getD 0
    if repeatMs.val ≤ 0 ∨ numberOf (config nextRunName) ≠ some 0 then .leave
    else if ∃ inflight ∈ stringOf (config inflightJobIdName),
        inflight ≠ [] ∧ inflight ≠ utf16Text (schedulerJobId jobKey keyPrefix) then .leave
    else
      let nextRun := timestamp + repeatMs
      let iterationCount := (numberOf (config iterationCountName)).getD 0
      if (∃ endDate ∈ numberOf (config endDateName), endDate.val < nextRun.val) ∨
          ∃ limit ∈ numberOf (config limitName), limit.val ≤ iterationCount.val then .delete
      else
        match replaceTopLevelJsonNumber raw nextRunName (tostring nextRun) with
        | none => .leave
        | some updated => .write updated

end

end GlideMq.EntryText
