import GlideMq.Model.EntryText
import GlideMq.Model.State

/-!
# Usage reports

`Job.reportUsage` stores the report in the job's hash and counts it in the bucket of its minute.
The report it replaces is read back from the hash and taken out of its own bucket. The texts are
as they are written, the counters of the buckets are exact.
-/

namespace GlideMq.UsageReport

open Json Lua EntryText

/-! ## Numbers and their texts -/

/-- A number of JavaScript. -/
inductive JSNumber where
  | finite (x : Double)
  | nan
  | infinite (negative : Bool)

def JSNumber.isFinite : JSNumber → Bool
  | .finite _ => true
  | _ => false

/-- What `Date.now()` may return. -/
abbrev Timestamp := {n : ℕ // n ≤ 8640000000000000}

def JSNumber.toText (w : NumberWriter) : JSNumber → Text
  | .finite x => (w.text x).render
  | .nan => "NaN".toList
  | .infinite false => "Infinity".toList
  | .infinite true => "-Infinity".toList

/-- `parseFloat`, of a text that `toString` wrote for a finite number. -/
def parseFloat (cs : Text) : Option Double := (readNumber (cs.takeWhile isNumberChar)).map readDouble

/-- `parseInt(cs, 10)`: the digits at the start, after a sign. -/
def parseInt (cs : Text) : Option Double :=
  let (sign, cs) := readSign cs
  match (readDigits cs).1 with
  | [] => none
  | d :: ds =>
    let n : ℚ := ofDigits 0 (d :: ds)
    some (Double.round (if sign = some true then -n else n))

/-! ## Reports -/

/-- The entries of an object, each key once. -/
abbrev JSRecord (V : Type) := List (JSString × V)

/-- A report, as the caller gives it. -/
structure JobUsage where
  model : Option Text := none
  provider : Option Text := none
  tokens : Option (JSRecord JSNumber) := none
  totalTokens : Option JSNumber := none
  costs : Option (JSRecord JSNumber) := none
  totalCost : Option JSNumber := none
  costUnit : Option Text := none
  latencyMs : Option JSNumber := none
  cached : Option Bool := none

/-- A report that was checked, or read back. -/
structure Resolved where
  model : Option Text := none
  provider : Option Text := none
  tokens : Option (JSRecord (Value Double)) := none
  totalTokens : Option Double := none
  costs : Option (JSRecord (Value Double)) := none
  totalCost : Option Double := none
  costUnit : Option Text := none
  latencyMs : Option JSNumber := none
  cached : Option Bool := none

inductive ReportError where
  | tokenCount (key : JSString)
  | totalTokens
  | cost (key : JSString)
  | totalCost
  | notFound (job : JobId)

def ReportError.message : ReportError → JSString
  | .tokenCount key =>
    utf16Text "Token count for '".toList ++ key ++ utf16Text "' must be a finite non-negative number".toList
  | .totalTokens => utf16Text "totalTokens must be a finite non-negative number".toList
  | .cost key =>
    utf16Text "Cost for '".toList ++ key ++ utf16Text "' must be a finite non-negative number".toList
  | .totalCost => utf16Text "totalCost must be a finite non-negative number".toList
  | .notFound job => utf16Text ("Job ".toList ++ job.toList ++ " not found".toList)

/-- A finite number that is not negative. -/
def amountOf : JSNumber → Option Double
  | .finite x => if x.val < 0 then none else some x
  | _ => none

def checkAmounts (error : JSString → ReportError) :
    JSRecord JSNumber → Except ReportError (JSRecord (Value Double))
  | [] => .ok []
  | (key, val) :: rest =>
    match amountOf val with
    | none => .error (error key)
    | some x => do
      let rest ← checkAmounts error rest
      return (key, .number x) :: rest

def checkRecord (error : JSString → ReportError) :
    Option (JSRecord JSNumber) → Except ReportError (Option (JSRecord (Value Double)))
  | none => .ok none
  | some entries => (checkAmounts error entries).map some

def checkTotal (error : ReportError) : Option JSNumber → Except ReportError (Option Double)
  | none => .ok none
  | some val =>
    match amountOf val with
    | none => .error error
    | some x => .ok (some x)

/-- The sum of the entries, where no total is given and there are any. -/
def resolveTotal (total : Option Double) (entries : Option (JSRecord (Value Double))) : Option Double :=
  match total, entries with
  | none, some (entry :: rest) =>
    some ((entry :: rest).foldl (fun sum e => sum + (numberOf (some e.2)).getD 0) 0)
  | total, _ => total

def validateAndResolveUsage (usage : JobUsage) : Except ReportError Resolved := do
  let tokens ← checkRecord .tokenCount usage.tokens
  let totalTokens ← checkTotal .totalTokens usage.totalTokens
  let costs ← checkRecord .cost usage.costs
  let totalCost ← checkTotal .totalCost usage.totalCost
  return {
    model := usage.model
    provider := usage.provider
    tokens
    totalTokens := resolveTotal totalTokens tokens
    costs
    totalCost := resolveTotal totalCost costs
    costUnit := usage.costUnit
    latencyMs := usage.latencyMs
    cached := usage.cached }

def hasUsageFields (usage : Resolved) : Bool :=
  usage.model.isSome || usage.provider.isSome || usage.tokens.isSome || usage.totalTokens.isSome ||
    usage.costs.isSome || usage.totalCost.isSome || usage.costUnit.isSome || usage.latencyMs.isSome ||
    usage.cached.isSome

/-! ## The fields of a job's hash -/

/-- The `usage:` fields. -/
structure UsageHash where
  model : Option Text := none
  provider : Option Text := none
  tokens : Option Text := none
  totalTokens : Option Text := none
  costs : Option Text := none
  totalCost : Option Text := none
  costUnit : Option Text := none
  latencyMs : Option Text := none
  cached : Option Text := none
  bucketTs : Option Text := none

/-- The fields of a report. -/
def fields (w : NumberWriter) (usage : Resolved) (bucketTs : ℕ) : UsageHash where
  model := usage.model
  provider := usage.provider
  tokens := usage.tokens.map fun entries => stringify w.text (.object entries)
  totalTokens := usage.totalTokens.map fun x => (w.text x).render
  costs := usage.costs.map fun entries => stringify w.text (.object entries)
  totalCost := usage.totalCost.map fun x => (w.text x).render
  costUnit := usage.costUnit
  latencyMs := usage.latencyMs.map (JSNumber.toText w)
  cached := usage.cached.map fun b => if b then ['1'] else ['0']
  bucketTs := some (Nat.toDigits 10 bucketTs)

/-- `values[i] ? String(values[i]) : undefined`. -/
def filled (value : Option Text) : Option Text := value.filter (· ≠ [])

/-- An object, or an array as the object of its indexes. -/
def parseJsonRecord (raw : Text) : Option (JSRecord (Value Double)) :=
  match parse readDouble raw with
  | some (.object members) => some members
  | some (.array items) => some (items.zipIdx.map fun item => (utf16Text (Nat.toDigits 10 item.2), item.1))
  | _ => none

/-- `parseStoredUsage`: the bucket and the report. -/
def parseStoredUsage (hash : UsageHash) : Option Double × Option Resolved :=
  let usage : Resolved :=
    { model := filled hash.model
      provider := filled hash.provider
      tokens := (filled hash.tokens).bind parseJsonRecord
      totalTokens := hash.totalTokens.bind parseFloat
      costs := (filled hash.costs).bind parseJsonRecord
      totalCost := hash.totalCost.bind parseFloat
      costUnit := filled hash.costUnit
      latencyMs := (hash.latencyMs.bind parseInt).map .finite
      cached := hash.cached.bind fun cs => if cs = ['1'] then some true else if cs = ['0'] then some false else none }
  (hash.bucketTs.bind parseInt, if hasUsageFields usage then some usage else none)

/-! ## Buckets -/

/-- The fields of a bucket that count. -/
inductive UsageField where
  | jobCount
  | totalTokens
  | totalCost
  | model (model : Text)
  | tokens (key : JSString)
  | costs (key : JSString)
  deriving DecidableEq

/-- The hash `usage:<bucketTs>`. A counter is 0 when its field is absent. -/
structure UsageBucket where
  counters : UsageField → ℚ := fun _ => 0
  costUnit : Option Text := none

def UsageBucket.hincr (bucket : UsageBucket) (field : UsageField) (amount : ℚ) : UsageBucket :=
  { bucket with counters := Function.update bucket.counters field (bucket.counters field + amount) }

/-- `HINCRBYFLOAT`, of a field that may have no amount. -/
def UsageBucket.hincrSome (bucket : UsageBucket) (field : UsageField) (amount : Option Double) (delta : ℚ) :
    UsageBucket :=
  match amount with
  | none => bucket
  | some x => bucket.hincr field (x.val * delta)

/-- An entry of a record. One that is 0 is passed over. -/
def UsageBucket.hincrEntry (bucket : UsageBucket) (field : UsageField) (value : Value Double) (delta : ℚ) :
    UsageBucket :=
  match value with
  | .number x => if x.val ≠ 0 then bucket.hincr field (x.val * delta) else bucket
  | _ => bucket

def UsageBucket.hincrEntries (bucket : UsageBucket) (field : JSString → UsageField)
    (entries : JSRecord (Value Double)) (delta : ℚ) : UsageBucket :=
  entries.foldl (fun bucket e => bucket.hincrEntry (field e.1) e.2 delta) bucket

/-- A unit is kept when its report is taken out. -/
def UsageBucket.setCostUnit (bucket : UsageBucket) (costUnit : Option Text) (delta : ℚ) : UsageBucket :=
  if (filled costUnit).isSome ∧ 0 < delta then { bucket with costUnit } else bucket

def UsageBucket.hincrModel (bucket : UsageBucket) (model : Option Text) (delta : ℚ) : UsageBucket :=
  match filled model with
  | none => bucket
  | some model => bucket.hincr (.model model) delta

def applyUsageDelta (bucket : UsageBucket) (usage : Resolved) (delta : ℚ) : UsageBucket :=
  let bucket := bucket.hincr .jobCount delta
  let bucket := bucket.hincrSome .totalTokens usage.totalTokens delta
  let bucket := bucket.hincrSome .totalCost usage.totalCost delta
  let bucket := bucket.setCostUnit usage.costUnit delta
  let bucket := bucket.hincrModel usage.model delta
  let bucket := bucket.hincrEntries .tokens (usage.tokens.getD []) delta
  bucket.hincrEntries .costs (usage.costs.getD []) delta

/-! ## Reporting -/

/-- The jobs that exist, with their fields, and the buckets by their start. -/
structure UsageStore where
  hashes : JobId → Option UsageHash
  buckets : ℚ → UsageBucket := fun _ => {}

def UsageStore.addTo (st : UsageStore) (bucketTs : ℚ) (usage : Resolved) (delta : ℚ) : UsageStore :=
  { st with buckets := Function.update st.buckets bucketTs (applyUsageDelta (st.buckets bucketTs) usage delta) }

def floorUsageBucket (now : Timestamp) : ℕ := now.val / 60000 * 60000

structure ReportCall where
  job : JobId
  usage : JobUsage
  now : Timestamp

/-- The batch, on the fields that were read. -/
def writeReport (w : NumberWriter) (st : UsageStore) (job : JobId) (hash : UsageHash) (resolved : Resolved)
    (bucketTs : ℕ) : UsageStore :=
  let hasUsage := hasUsageFields resolved
  let stored := if hasUsage then fields w resolved bucketTs else {}
  let st := { st with hashes := Function.update st.hashes job (some stored) }
  let st :=
    match parseStoredUsage hash with
    | (some previousTs, some usage) => st.addTo previousTs.val usage (-1)
    | _ => st
  if hasUsage then st.addTo bucketTs resolved 1 else st

def reportUsage (w : NumberWriter) (st : UsageStore) (c : ReportCall) : Except ReportError UsageStore := do
  let resolved ← validateAndResolveUsage c.usage
  match st.hashes c.job with
  | none => .error (.notFound c.job)
  | some hash => return writeReport w st c.job hash resolved (floorUsageBucket c.now)

/-- A call that throws changes nothing. -/
def reportStep (w : NumberWriter) (st : UsageStore) (c : ReportCall) : UsageStore :=
  match reportUsage w st c with
  | .ok st => st
  | .error _ => st

end GlideMq.UsageReport
