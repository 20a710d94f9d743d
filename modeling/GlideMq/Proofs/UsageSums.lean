import GlideMq.Machine.Runs
import GlideMq.Model.UsageReport
import GlideMq.Proofs.EntryText
import Mathlib.Algebra.BigOperators.Pi

/-!
# Usage buckets as sums

Each report is in its bucket while it is its job's latest. A report of which nothing is read back
stays there when it is replaced.
-/

namespace GlideMq.UsageReport

open Json Lua EntryText Machine

variable {w : NumberWriter} {usage : Resolved} {b : ℚ} {f : UsageField}

/-! ## What a report counts -/

/-- The amount of an entry. -/
def entryAmount : Value Double → ℚ
  | .number x => x.val
  | _ => 0

/-- The sum of the entries of a key. -/
def amountOfKey (entries : Option (JSRecord (Value Double))) (key : JSString) : ℚ :=
  ((entries.getD []).map fun e => if e.1 = key then entryAmount e.2 else 0).sum

/-- What a report adds to each counter. An empty name is no model. -/
def Resolved.amounts (usage : Resolved) : UsageField → ℚ
  | .jobCount => 1
  | .totalTokens => (usage.totalTokens.map Subtype.val).getD 0
  | .totalCost => (usage.totalCost.map Subtype.val).getD 0
  | .model m => if filled usage.model = some m then 1 else 0
  | .tokens key => amountOfKey usage.tokens key
  | .costs key => amountOfKey usage.costs key

/-- Something of the report is read back: not every field of it is an empty text or a latency
that is no number. -/
def Resolved.Readable (usage : Resolved) : Bool :=
  hasUsageFields { usage with
    model := filled usage.model
    provider := filled usage.provider
    costUnit := filled usage.costUnit
    latencyMs := usage.latencyMs.filter JSNumber.isFinite }

theorem hincr_counters (bucket : UsageBucket) (field f : UsageField) (amount : ℚ) :
    (bucket.hincr field amount).counters f = bucket.counters f + if f = field then amount else 0 := by
  by_cases h : f = field
  · simp [UsageBucket.hincr, h]
  · simp [UsageBucket.hincr, h]

theorem hincrSome_counters (bucket : UsageBucket) (field f : UsageField) (amount : Option Double) (delta : ℚ) :
    (bucket.hincrSome field amount delta).counters f =
      bucket.counters f + if f = field then (amount.map Subtype.val).getD 0 * delta else 0 := by
  cases amount with
  | none => simp [UsageBucket.hincrSome]
  | some x => simp [UsageBucket.hincrSome, hincr_counters]

theorem hincrEntry_counters (bucket : UsageBucket) (field f : UsageField) (value : Value Double) (delta : ℚ) :
    (bucket.hincrEntry field value delta).counters f =
      bucket.counters f + if f = field then entryAmount value * delta else 0 := by
  cases value with
  | number x =>
    by_cases hx : x.val = 0
    · simp [UsageBucket.hincrEntry, entryAmount, hx]
    · simp [UsageBucket.hincrEntry, entryAmount, hx, hincr_counters]
  | _ => simp [UsageBucket.hincrEntry, entryAmount]

theorem hincrEntries_counters (bucket : UsageBucket) (field : JSString → UsageField) (f : UsageField)
    (entries : JSRecord (Value Double)) (delta : ℚ) :
    (bucket.hincrEntries field entries delta).counters f = bucket.counters f +
      (entries.map fun e => if f = field e.1 then entryAmount e.2 else 0).sum * delta := by
  unfold UsageBucket.hincrEntries
  induction entries generalizing bucket with
  | nil => simp
  | cons e rest ih =>
    rw [List.foldl_cons, ih, hincrEntry_counters, List.map_cons, List.sum_cons, add_mul, ite_mul, zero_mul,
      add_assoc]

theorem hincrEntries_other (bucket : UsageBucket) {field : JSString → UsageField} {f : UsageField}
    (hf : ∀ key, f ≠ field key) (entries : JSRecord (Value Double)) (delta : ℚ) :
    (bucket.hincrEntries field entries delta).counters f = bucket.counters f := by
  rw [hincrEntries_counters]
  simp [hf]

theorem setCostUnit_counters (bucket : UsageBucket) (costUnit : Option Text) (delta : ℚ) :
    (bucket.setCostUnit costUnit delta).counters = bucket.counters := by
  unfold UsageBucket.setCostUnit
  split <;> rfl

theorem hincrModel_counters (bucket : UsageBucket) (model : Option Text) (delta : ℚ) (f : UsageField) :
    (bucket.hincrModel model delta).counters f =
      bucket.counters f + if ∃ m ∈ filled model, f = .model m then delta else 0 := by
  unfold UsageBucket.hincrModel
  cases filled model with
  | none => simp
  | some m => simp [hincr_counters]

theorem applyUsageDelta_counters (bucket : UsageBucket) (usage : Resolved) (delta : ℚ) (f : UsageField) :
    (applyUsageDelta bucket usage delta).counters f = bucket.counters f + usage.amounts f * delta := by
  unfold applyUsageDelta
  simp only
  cases f with
  | tokens key =>
    rw [hincrEntries_other _ (by simp), hincrEntries_counters, hincrModel_counters, setCostUnit_counters,
      hincrSome_counters, hincrSome_counters, hincr_counters]
    simp [Resolved.amounts, amountOfKey, eq_comm]
  | costs key =>
    rw [hincrEntries_counters, hincrEntries_other _ (by simp), hincrModel_counters, setCostUnit_counters,
      hincrSome_counters, hincrSome_counters, hincr_counters]
    simp [Resolved.amounts, amountOfKey, eq_comm]
  | _ =>
    rw [hincrEntries_other _ (by simp), hincrEntries_other _ (by simp), hincrModel_counters,
      setCostUnit_counters, hincrSome_counters, hincrSome_counters, hincr_counters]
    simp [Resolved.amounts]

/-! ## What is read back -/

theorem parseFloat_render (n : NumText) : parseFloat n.render = some (readDouble n) := by
  unfold parseFloat
  rw [List.takeWhile_eq_self_iff.mpr (isNumberChar_render n), readNumber_render]
  rfl

theorem readSign_toDigits (n : ℕ) (tail : Text) :
    readSign (Nat.toDigits 10 n ++ tail) = (none, Nat.toDigits 10 n ++ tail) := by
  obtain ⟨c, cs, hcs, hdigit⟩ := toDigits_eq_cons n
  rw [hcs, List.cons_append, ← digit_digitValue hdigit]
  exact readSign_digits _ _

theorem readDigits_toDigits (n : ℕ) {tail : Text} (htail : Ends Char.isDigit tail) :
    (readDigits (Nat.toDigits 10 n ++ tail)).1 = (Nat.toDigits 10 n).map digitValue := by
  unfold readDigits
  rw [takeWhile_run (isDigit_toDigits n) htail]

theorem parseInt_toDigits (n : ℕ) : parseInt (Nat.toDigits 10 n) = some (Double.round n) := by
  have hsign := readSign_toDigits n []
  have hends : Ends Char.isDigit [] := by simp [Ends]
  have hdigits := readDigits_toDigits n hends
  have hvalue : ofDigits 0 ((Nat.toDigits 10 n).map digitValue) = n := by
    rw [ofDigits_map (isDigit_toDigits n)]
    exact Nat.ofDigitChars_ten_toDigits
  obtain ⟨c, cs, hcs, -⟩ := toDigits_eq_cons n
  rw [List.append_nil] at hsign hdigits
  unfold parseInt
  rw [hsign]
  simp only [hdigits]
  rw [hcs, List.map_cons] at hvalue ⊢
  simp [hvalue]

theorem isSome_parseInt_render (n : NumText) : (parseInt n.render).isSome := by
  have hdigits := readDigits_toDigits n.int (ends_fraction n)
  obtain ⟨c, cs, hcs, -⟩ := toDigits_eq_cons n.int
  have hrest : (readDigits (readSign n.render).2).1 = (c :: cs).map digitValue := by
    rw [← hcs, ← hdigits]
    unfold NumText.render
    cases n.negative with
    | true =>
      simp only [List.append_assoc, if_true, List.cons_append, List.nil_append]
      rfl
    | false =>
      simp only [List.append_assoc, Bool.false_eq_true, if_false, List.nil_append]
      rw [readSign_toDigits]
  unfold parseInt
  simp only [hrest]
  rfl

theorem isSome_parseInt_toText (x : JSNumber) : (parseInt (x.toText w)).isSome = x.isFinite := by
  cases x with
  | finite x => exact isSome_parseInt_render _
  | nan =>
    show (parseInt "NaN".toList).isSome = false
    decide
  | infinite negative =>
    cases negative with
    | false =>
      show (parseInt "Infinity".toList).isSome = false
      decide
    | true =>
      show (parseInt "-Infinity".toList).isSome = false
      decide

theorem filled_stringify (v : Value Double) : filled (some (stringify w.text v)) = some (stringify w.text v) := by
  have hne : stringify w.text v ≠ [] := by
    intro hnil
    have hparse := parse_stringify w.text readDouble w.read_text v
    rw [hnil] at hparse
    cases hparse
  simp [filled, hne]

theorem parseJsonRecord_stringify (entries : JSRecord (Value Double)) :
    parseJsonRecord (stringify w.text (.object entries)) = some entries := by
  unfold parseJsonRecord
  rw [parse_stringify w.text readDouble w.read_text]

theorem val_parseInt_bucket {n : ℕ} (h : n ≤ 8640000000000000) : (Double.round (n : ℚ)).val = n := by
  have hlt : n < 2 ^ 53 := by omega
  show nearest (n : ℚ) = n
  rw [nearest_natCast, toDouble_of_lt hlt]

theorem filled_filled (value : Option Text) : filled (filled value) = filled value := by
  simp [filled]

theorem parseStoredUsage_fields (w : NumberWriter) (usage : Resolved) (bucketTs : ℕ) :
    ∃ back : Resolved, back.amounts = usage.amounts ∧
      parseStoredUsage (fields w usage bucketTs) =
        (some (Double.round bucketTs), if usage.Readable then some back else none) := by
  refine ⟨{ usage with
    model := filled usage.model
    provider := filled usage.provider
    costUnit := filled usage.costUnit
    latencyMs := ((usage.latencyMs.map (JSNumber.toText w)).bind parseInt).map .finite }, ?_, ?_⟩
  · funext f
    cases f with
    | model m => simp only [Resolved.amounts, filled_filled]
    | _ => rfl
  · have htext (entries : Option (JSRecord (Value Double))) :
        (filled (entries.map fun entries => stringify w.text (.object entries))).bind parseJsonRecord =
          entries := by
      cases entries with
      | none => rfl
      | some entries => rw [Option.map_some, filled_stringify, Option.bind_some, parseJsonRecord_stringify]
    have htotal (total : Option Double) : (total.map fun x => (w.text x).render).bind parseFloat = total := by
      cases total with
      | none => rfl
      | some x => rw [Option.map_some, Option.bind_some, parseFloat_render, w.read_text]
    have hcached (cached : Option Bool) :
        ((cached.map fun b => if b then ['1'] else ['0']).bind fun cs =>
          if cs = ['1'] then some true else if cs = ['0'] then some false else none) = cached := by
      rcases cached with _ | _ | _ <;> rfl
    have hlatency : (((usage.latencyMs.map (JSNumber.toText w)).bind parseInt).map JSNumber.finite).isSome =
        (usage.latencyMs.filter JSNumber.isFinite).isSome := by
      cases usage.latencyMs with
      | none => rfl
      | some x =>
        rw [Option.map_some, Option.bind_some, Option.isSome_map, isSome_parseInt_toText]
        cases hx : x.isFinite <;> simp [hx]
    unfold parseStoredUsage fields
    simp only [htext, htotal, hcached, Option.bind_some, parseInt_toDigits]
    unfold Resolved.Readable hasUsageFields
    simp only [hlatency]

/-! ## The latest reports -/

/-- The report of a call that does not throw. -/
def accepted (jobs : JobId → Bool) (c : ReportCall) : Option Resolved :=
  if jobs c.job then (validateAndResolveUsage c.usage).toOption else none

/-- The latest report of each job, with the start of its bucket. A report without a field is none. -/
abbrev Latest := JobId → Option (ℕ × Resolved)

def latestStep (jobs : JobId → Bool) (latest : Latest) (c : ReportCall) : Latest :=
  match accepted jobs c with
  | none => latest
  | some usage =>
    Function.update latest c.job (if hasUsageFields usage then some (floorUsageBucket c.now, usage) else none)

/-- What a report adds to a bucket. -/
def share (report : Option (ℕ × Resolved)) (b : ℚ) (f : UsageField) : ℚ :=
  match report with
  | none => 0
  | some (bucketTs, usage) => if b = bucketTs then usage.amounts f else 0

/-- The report that the call replaces without taking it out of its bucket. -/
def lostAt (jobs : JobId → Bool) (latest : Latest) (c : ReportCall) : Option (ℕ × Resolved) :=
  if (accepted jobs c).isSome then (latest c.job).filter (!·.2.Readable) else none

/-- The fields of a job whose latest report this is. -/
def fieldsOf (w : NumberWriter) (report : Option (ℕ × Resolved)) : UsageHash :=
  report.elim {} fun report => fields w report.2 report.1

/-- The fields of each job's hash are those of its latest report. -/
structure Stored (w : NumberWriter) (jobs : JobId → Bool) (latest : Latest) (st : UsageStore) : Prop where
  hashes : ∀ J, st.hashes J =
    if jobs J then some (fieldsOf w (latest J)) else none
  time : ∀ J, ∀ report ∈ latest J, report.1 ≤ 8640000000000000

/-- No job has reported. -/
def start (jobs : JobId → Bool) : UsageStore where
  hashes J := if jobs J then some {} else none

variable {jobs : JobId → Bool} {latest : Latest} {st : UsageStore} {c : ReportCall}

theorem stored_start (w : NumberWriter) (jobs : JobId → Bool) : Stored w jobs (fun _ => none) (start jobs) where
  hashes _ := rfl
  time _ _ h := by cases h

theorem floorUsageBucket_le (now : Timestamp) : floorUsageBucket now ≤ 8640000000000000 :=
  (Nat.div_mul_le_self _ _).trans now.property

theorem reportStep_eq (hst : Stored w jobs latest st) (c : ReportCall) :
    reportStep w st c =
      match accepted jobs c with
      | none => st
      | some usage => writeReport w st c.job (fieldsOf w (latest c.job)) usage (floorUsageBucket c.now) := by
  have hhash := hst.hashes c.job
  unfold reportStep reportUsage accepted
  cases validateAndResolveUsage c.usage with
  | error e => cases jobs c.job <;> rfl
  | ok usage =>
    cases hjob : jobs c.job with
    | false =>
      rw [hjob] at hhash
      simp [hhash, bind, Except.bind]
    | true =>
      rw [hjob] at hhash
      simp [hhash, bind, Except.bind, pure, Except.pure, Except.toOption, fieldsOf]

theorem addTo_counters (st : UsageStore) (bucketTs b : ℚ) (usage : Resolved) (delta : ℚ) (f : UsageField) :
    ((st.addTo bucketTs usage delta).buckets b).counters f =
      (st.buckets b).counters f + if b = bucketTs then usage.amounts f * delta else 0 := by
  by_cases h : b = bucketTs
  · simp [UsageStore.addTo, h, applyUsageDelta_counters]
  · simp [UsageStore.addTo, h]

/-- What the batch takes out is the report before, if it is read back, and what it adds is the new one. -/
theorem writeReport_counters (st : UsageStore) (J : JobId) {report : Option (ℕ × Resolved)}
    (htime : ∀ r ∈ report, r.1 ≤ 8640000000000000) (usage : Resolved) (bucketTs : ℕ) (b : ℚ) (f : UsageField) :
    ((writeReport w st J (fieldsOf w report) usage bucketTs).buckets b).counters f =
      (st.buckets b).counters f - share (report.filter (·.2.Readable)) b f +
        share (if hasUsageFields usage then some (bucketTs, usage) else none) b f := by
  have hnew (st : UsageStore) :
      ((if hasUsageFields usage then st.addTo bucketTs usage 1 else st).buckets b).counters f =
        (st.buckets b).counters f +
          share (if hasUsageFields usage then some (bucketTs, usage) else none) b f := by
    cases hasUsageFields usage with
    | true => simp [addTo_counters, share]
    | false => simp [share]
  unfold writeReport
  rw [hnew]
  congr 1
  cases report with
  | none => simp [fieldsOf, parseStoredUsage, share]
  | some r =>
    obtain ⟨back, hamounts, hback⟩ := parseStoredUsage_fields w r.2 r.1
    have hts : (Double.round (r.1 : ℚ)).val = r.1 := val_parseInt_bucket (htime r rfl)
    have hfields : fieldsOf w (some r) = fields w r.2 r.1 := rfl
    rw [hfields, hback, Option.filter_some]
    cases r.2.Readable with
    | true =>
      simp only [if_true, addTo_counters, share, hts, hamounts]
      split
      · ring
      · ring
    | false => simp [share]

theorem reportStep_counters (hst : Stored w jobs latest st) (c : ReportCall) (b : ℚ) (f : UsageField) :
    ((reportStep w st c).buckets b).counters f = (st.buckets b).counters f +
      (share (latestStep jobs latest c c.job) b f - share (latest c.job) b f) +
        share (lostAt jobs latest c) b f := by
  rw [reportStep_eq hst]
  unfold latestStep lostAt
  cases accepted jobs c with
  | none => simp [share]
  | some usage =>
    simp only [Option.isSome_some, if_true, Function.update_self]
    rw [writeReport_counters st c.job (hst.time c.job)]
    have hsplit : share (latest c.job) b f = share ((latest c.job).filter (·.2.Readable)) b f +
        share ((latest c.job).filter (!·.2.Readable)) b f := by
      cases latest c.job with
      | none => simp [share]
      | some r =>
        rw [Option.filter_some, Option.filter_some]
        cases r.2.Readable <;> simp [share]
    rw [hsplit]
    ring

theorem writeReport_hashes (st : UsageStore) (J : JobId) (hash : UsageHash) (usage : Resolved) (bucketTs : ℕ) :
    (writeReport w st J hash usage bucketTs).hashes = Function.update st.hashes J
      (some (fieldsOf w (if hasUsageFields usage then some (bucketTs, usage) else none))) := by
  have hfields : (if hasUsageFields usage then fields w usage bucketTs else {}) =
      fieldsOf w (if hasUsageFields usage then some (bucketTs, usage) else none) := by
    cases hasUsageFields usage <;> rfl
  unfold writeReport
  simp only [hfields]
  split
  · split <;> rfl
  · split <;> rfl

theorem Stored.step (hst : Stored w jobs latest st) (c : ReportCall) :
    Stored w jobs (latestStep jobs latest c) (reportStep w st c) := by
  rw [reportStep_eq hst]
  unfold latestStep
  cases hc : accepted jobs c with
  | none => exact hst
  | some usage =>
    have hjob : jobs c.job = true := by
      unfold accepted at hc
      by_contra hjob
      simp [hjob] at hc
    refine ⟨fun J => ?_, fun J report hreport => ?_⟩
    · by_cases hJ : J = c.job
      · subst hJ
        simp [writeReport_hashes, hjob]
      · simp [writeReport_hashes, hJ, hst.hashes J]
    · by_cases hJ : J = c.job
      · subst hJ
        simp only [Function.update_self] at hreport
        split at hreport
        · cases hreport
          exact floorUsageBucket_le c.now
        · cases hreport
      · simp only [Function.update_of_ne hJ] at hreport
        exact hst.time J report hreport

/-! ## Runs -/

/-- The reports that a run leaves behind. -/
def lost (jobs : JobId → Bool) : Latest → List ReportCall → List (ℕ × Resolved)
  | _, [] => []
  | latest, c :: calls => (lostAt jobs latest c).toList ++ lost jobs (latestStep jobs latest c) calls

theorem share_toList (report : Option (ℕ × Resolved)) (b : ℚ) (f : UsageField) :
    (report.toList.map fun r => share (some r) b f).sum = share report b f := by
  cases report <;> simp [share]

theorem sum_latestStep {T : Finset JobId} (hc : c.job ∈ T) (latest : Latest) (b : ℚ) (f : UsageField) :
    ∑ J ∈ T, share (latestStep jobs latest c J) b f = ∑ J ∈ T, share (latest J) b f +
      (share (latestStep jobs latest c c.job) b f - share (latest c.job) b f) := by
  rw [← Finset.add_sum_erase T _ hc, ← Finset.add_sum_erase T _ hc]
  have hrest : ∑ J ∈ T.erase c.job, share (latestStep jobs latest c J) b f =
      ∑ J ∈ T.erase c.job, share (latest J) b f := by
    apply Finset.sum_congr rfl
    intro J hJ
    unfold latestStep
    cases accepted jobs c with
    | none => rfl
    | some usage =>
      simp only
      rw [Function.update_of_ne (Finset.ne_of_mem_erase hJ)]
  rw [hrest]
  ring

/-- The counters of a run: the sums, and what was left behind. -/
theorem run_counters {T : Finset JobId} {calls : List ReportCall} (hst : Stored w jobs latest st)
    (hT : ∀ c ∈ calls, c.job ∈ T) (b : ℚ) (f : UsageField) :
    ((run (reportStep w) st calls).buckets b).counters f - (st.buckets b).counters f =
      ∑ J ∈ T, share (run (latestStep jobs) latest calls J) b f - ∑ J ∈ T, share (latest J) b f +
        ((lost jobs latest calls).map fun r => share (some r) b f).sum := by
  induction calls generalizing st latest with
  | nil => simp [lost]
  | cons c calls ih =>
    rw [List.forall_mem_cons] at hT
    have hrest := ih (hst.step c) hT.2
    rw [reportStep_counters hst, sum_latestStep hT.1] at hrest
    rw [run_cons, run_cons, lost, List.map_append, List.sum_append, share_toList]
    linarith

/-- No call replaces a report that is not read back. -/
def ReplacesReadable (jobs : JobId → Bool) (latest : Latest) (c : ReportCall) : Prop :=
  (accepted jobs c).isSome → ∀ r ∈ latest c.job, r.2.Readable

theorem lostAt_eq_none : lostAt jobs latest c = none ↔ ReplacesReadable jobs latest c := by
  unfold lostAt ReplacesReadable
  cases accepted jobs c with
  | none => simp
  | some usage => simp

theorem lost_eq_nil {calls : List ReportCall} :
    lost jobs latest calls = [] ↔ Meets (latestStep jobs) (ReplacesReadable jobs) latest calls := by
  induction calls generalizing latest with
  | nil => simp [lost, Meets]
  | cons c calls ih => rw [lost, List.append_eq_nil_iff, Option.toList_eq_nil_iff, lostAt_eq_none, ih, Meets]

/-- After any reports the counters of every bucket are the sums of what the latest reports in it
count, exactly if no report was replaced of which nothing is read back. -/
theorem usage_sums_iff (w : NumberWriter) (jobs : JobId → Bool) (calls : List ReportCall) :
    (∀ b f, ((run (reportStep w) (start jobs) calls).buckets b).counters f =
      ∑ J ∈ (calls.map (·.job)).toFinset, share (run (latestStep jobs) (fun _ => none) calls J) b f) ↔
    Meets (latestStep jobs) (ReplacesReadable jobs) (fun _ => none) calls := by
  have hjobs : ∀ c ∈ calls, c.job ∈ (calls.map (·.job)).toFinset :=
    fun c hc => List.mem_toFinset.mpr (List.mem_map_of_mem hc)
  have hrun := run_counters (stored_start w jobs) hjobs
  have hstart (b : ℚ) (f : UsageField) : ((start jobs).buckets b).counters f = 0 := rfl
  have hnone (b : ℚ) (f : UsageField) :
      ∑ J ∈ (calls.map (·.job)).toFinset, share ((fun _ => none : Latest) J) b f = 0 := Finset.sum_const_zero
  simp only [hstart, hnone, sub_zero] at hrun
  simp only [hrun, add_eq_left]
  rw [← lost_eq_nil]
  constructor
  · intro hzero
    by_contra hne
    obtain ⟨r, rest, hlost⟩ := List.exists_cons_of_ne_nil hne
    have hcount := hzero r.1 .jobCount
    have hrest : 0 ≤ (rest.map fun r' => share (some r') r.1 .jobCount).sum := by
      apply List.sum_nonneg
      intro x hx
      obtain ⟨r', -, rfl⟩ := List.mem_map.mp hx
      unfold share Resolved.amounts
      simp only
      split <;> norm_num
    rw [hlost, List.map_cons, List.sum_cons] at hcount
    have hfirst : share (some r) r.1 .jobCount = 1 := by simp [share, Resolved.amounts]
    linarith
  · intro hnil b f
    rw [hnil]
    rfl

/-- Two reports on one job in one minute. The model of the first is an empty text. -/
def emptyModelCalls : List ReportCall :=
  [{ job := "1", usage := { model := some [] }, now := ⟨0, by decide⟩ },
    { job := "1", usage := { model := some "m".toList }, now := ⟨1, by decide⟩ }]

theorem emptyModel_counted_twice :
    ((run (reportStep exactWriter) (start (· = "1")) emptyModelCalls).buckets 0).counters .jobCount = 2 ∧
      ∑ J ∈ (emptyModelCalls.map (·.job)).toFinset,
        share (run (latestStep (· = "1")) (fun _ => none) emptyModelCalls J) 0 .jobCount = 1 := by
  constructor
  · decide +kernel
  · decide +kernel

end GlideMq.UsageReport
