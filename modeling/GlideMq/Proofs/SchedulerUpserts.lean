import GlideMq.Machine.Runs
import GlideMq.Model.SchedulerSteps

/-!
# Upserts that are lost

A tick works under the lock of the upserts, and most writes of a worker are a compare-and-set. The one
that is not is the delete of an entry at its limit or its end date: it also hits an entry that an upsert
has replaced since the worker read it.
-/

namespace GlideMq

open Queue Machine

/-- What the step would write from: the entry that was read, with the number of upserts at that time.
A compare-and-set that fails writes nothing. -/
def writesFrom (s : SchedulerState) : SchedulerStep → Option (SchedulerEntry × Nat)
  | .advanceParked =>
    match s.holder with
    | .advance e _ => if s.entry = some e then some (e, s.readAt) else none
    | _ => none
  | .awaitInflight =>
    match s.holder with
    | .await e _ _ J =>
      if s.entry = some e ∧ !ended (s.server.stateOf J) then some (e, s.readAt) else none
    | _ => none
  | .writeBatch _ _ =>
    match s.holder with
    | .write e _ _ => some (e, s.readAt)
    | _ => none
  | .writeEntry w =>
    match s.completions w with
    | .delete e readAt => some (e, readAt)
    | .cas _ _ _ e _ readAt => if s.entry = some e then some (e, readAt) else none
    | _ => none
  | _ => none

/-- The step writes from the entry as it is, or no upsert has succeeded since it was read. -/
def KeepsUpserts (s : SchedulerState) (c : SchedulerStep) : Prop :=
  ∀ p ∈ writesFrom s c, p.2 = s.upserts ∨ s.entry = some p.1

instance (s : SchedulerState) (c : SchedulerStep) : Decidable (KeepsUpserts s c) :=
  inferInstanceAs (Decidable (∀ p ∈ writesFrom s c, p.2 = s.upserts ∨ s.entry = some p.1))

/-- What a worker deletes has not been replaced by an upsert since the worker read it. -/
def DeletesFresh (s : SchedulerState) : SchedulerStep → Prop
  | .writeEntry w =>
    match s.completions w with
    | .delete e readAt => readAt = s.upserts ∨ s.entry = some e
    | _ => True
  | _ => True

/-- The tick that holds the lock has read the entry after the last upsert. -/
def ReadsLast (s : SchedulerState) : Prop :=
  match s.holder with
  | .look .. | .advance .. | .await .. | .write .. => s.readAt = s.upserts
  | _ => True

section

variable {nextCronOccurrence : String → Int → Option String → Except String Int}
variable {s : SchedulerState} {c : SchedulerStep}

theorem readsLast_of_eq {t : SchedulerState} (h : ReadsLast s) (hholder : t.holder = s.holder)
    (hread : t.readAt = s.readAt) (hupserts : t.upserts = s.upserts) : ReadsLast t := by
  unfold ReadsLast at h ⊢
  rw [hholder, hread, hupserts]
  exact h

theorem tickWork_readsLast {e : SchedulerEntry} {now : Int} {plan : TickPlan} :
    ReadsLast { s with holder := tickWork e now plan, readAt := s.upserts } := by
  unfold ReadsLast
  simp only
  split <;> trivial

theorem schedulerStep_readsLast (h : ReadsLast s) : ReadsLast (schedulerStep nextCronOccurrence s c) := by
  cases c with
  | lockTick now =>
    simp only [schedulerStep]
    split
    · trivial
    · exact h
  | readTick prepared =>
    simp only [schedulerStep]
    split
    · split
      · trivial
      · exact tickWork_readsLast
    · exact h
  | lookAtJob =>
    simp only [schedulerStep]
    split
    · rename_i hholder
      unfold ReadsLast at h
      rw [hholder] at h
      split
      · split <;> exact h
      · trivial
    · exact h
  | awaitInflight =>
    simp only [schedulerStep]
    split
    · rename_i hholder
      unfold ReadsLast at h
      rw [hholder] at h
      unfold ReadsLast
      simp only
      split <;> first | exact h | trivial
    · exact h
  | advanceParked | writeBatch id args =>
    simp only [schedulerStep]
    split
    · trivial
    · exact h
  | lockUpsert schedule template =>
    simp only [schedulerStep]
    split
    · trivial
    · exact h
  | readUpsert now =>
    simp only [schedulerStep]
    split
    · split <;> trivial
    · exact h
  | casUpsert =>
    simp only [schedulerStep]
    split
    · split
      · trivial
      · split <;> trivial
    · exact h
  | release => trivial
  | removeScheduler | complete w J now =>
    simp only [schedulerStep]
    split
    · exact readsLast_of_eq h rfl rfl rfl
    · exact h
  | readEntry w =>
    simp only [schedulerStep]
    split
    · exact readsLast_of_eq h rfl rfl rfl
    · exact h
  | writeEntry w =>
    simp only [schedulerStep]
    split
    · exact readsLast_of_eq h rfl rfl rfl
    · exact readsLast_of_eq h rfl rfl rfl
    · exact h
  | failJob J timestamp | others t => exact readsLast_of_eq h rfl rfl rfl

theorem keepsUpserts_of_fresh (h : ReadsLast s) (hfresh : DeletesFresh s c) : KeepsUpserts s c := by
  rintro ⟨e, readAt⟩ hp
  cases c with
  | advanceParked =>
    simp only [writesFrom] at hp
    split at hp
    · rename_i hholder
      unfold ReadsLast at h
      rw [hholder] at h
      split at hp
      · cases hp
        exact .inl h
      · cases hp
    · cases hp
  | awaitInflight =>
    simp only [writesFrom] at hp
    split at hp
    · rename_i hholder
      unfold ReadsLast at h
      rw [hholder] at h
      split at hp
      · cases hp
        exact .inl h
      · cases hp
    · cases hp
  | writeBatch id args =>
    simp only [writesFrom] at hp
    split at hp
    · rename_i hholder
      unfold ReadsLast at h
      rw [hholder] at h
      cases hp
      exact .inl h
    · cases hp
  | writeEntry w =>
    simp only [writesFrom] at hp
    split at hp
    · rename_i hstage
      unfold DeletesFresh at hfresh
      simp only [hstage] at hfresh
      cases hp
      exact hfresh
    · split at hp
      · rename_i hentry
        cases hp
        exact .inr hentry
      · cases hp
    · cases hp
  | _ => cases hp

theorem upserts_kept_from {steps : List SchedulerStep} (h : ReadsLast s)
    (hmeets : Meets (schedulerStep nextCronOccurrence) DeletesFresh s steps) :
    Meets (schedulerStep nextCronOccurrence) KeepsUpserts s steps := by
  induction steps generalizing s with
  | nil => trivial
  | cons c steps ih =>
    exact ⟨keepsUpserts_of_fresh h hmeets.1, ih (schedulerStep_readsLast h) hmeets.2⟩

/-- No upsert is lost in a run where no worker deletes an entry that was replaced since it read it. -/
theorem upserts_kept {q : Queue} {name : String} {steps : List SchedulerStep}
    (hmeets : Meets (schedulerStep nextCronOccurrence) DeletesFresh { server := q, name } steps) :
    Meets (schedulerStep nextCronOccurrence) KeepsUpserts { server := q, name } steps :=
  upserts_kept_from trivial hmeets

end

/-- No schedule has a pattern. -/
def noPattern : String → Int → Option String → Except String Int := fun _ _ _ => .error ""

/-- A job that is fired near the end date and is over. The worker has read the entry. -/
def endingRun : List SchedulerStep :=
  [.lockUpsert { repeatAfterComplete := 1000, endDate := some 5000 } none, .readUpsert 4400, .casUpsert,
    .release, .lockTick 4500, .readTick true, .writeBatch 1 { timestamp := 4500, serverNow := 4500 },
    .release, .complete 0 "1" 4600, .readEntry 0]

theorem endingRun_fresh :
    DeletesFresh (run (schedulerStep noPattern) { server := { name := "q" }, name := "s" } endingRun) (.writeEntry 0) := by
  -- The worker deletes the entry that the tick has written, and no upsert came after the first one.
  have hstage : (run (schedulerStep noPattern) { server := { name := "q" }, name := "s" } endingRun).completions 0 =
      .delete { repeatAfterComplete := 1000, endDate := some 5000, iterationCount := 1, lastRun := some 4500,
                inflightJobId := some "1" } 1 := by
    decide +kernel
  unfold DeletesFresh
  simp only [hstage]
  exact .inl (by decide +kernel)

theorem upserts_kept_ending :
    Meets (schedulerStep noPattern) KeepsUpserts { server := { name := "q" }, name := "s" }
      (endingRun ++ [.writeEntry 0]) :=
  upserts_kept ⟨trivial, trivial, trivial, trivial, trivial, trivial, trivial, trivial, trivial, trivial,
    endingRun_fresh, trivial⟩

/-- The user takes the end date away before the worker sends its delete. -/
def extendedRun : List SchedulerStep :=
  endingRun ++ [.lockUpsert { repeatAfterComplete := 1000 } none, .readUpsert 4700, .casUpsert, .release]

/-- The upsert succeeds, and its entry is deleted. -/
theorem upsert_deleted_by_completion :
    let s : SchedulerState := { server := { name := "q" }, name := "s" }
    ((run (schedulerStep noPattern) s extendedRun).upserts = 2 ∧
        (run (schedulerStep noPattern) s extendedRun).entry.map (·.endDate) = some none) ∧
      (run (schedulerStep noPattern) s (extendedRun ++ [.writeEntry 0])).entry = none ∧
      ¬ Meets (schedulerStep noPattern) KeepsUpserts s (extendedRun ++ [.writeEntry 0]) := by
  decide +kernel

end GlideMq
