import Mathlib.Data.List.Basic
import GlideMq.Model.WorkerLoop

/-!
# What a slot can do

One step of a slot records what came back about its claim. Then the slot waits for something else,
leaves, or takes up the claim that a chain call has brought.
-/

namespace GlideMq.BaseWorker

namespace Await

/-- What a slot waits for while its claim is open, unless it has just been given the claim. -/
def isOpen : Await → Bool
  | .finalizing | .following .. | .copying => false
  | _ => true

/-- How the wait of a slot goes with the state of its claim. -/
def Fits (a : Await) (settled isList : Bool) : Prop :=
  match a with
  | .finalizing => settled = true
  | .following f _ => settled = f.claim.isNone
  | .copying => settled = !isList
  | _ => settled = false

theorem Fits.of_isOpen {a : Await} {isList : Bool} (ha : a.isOpen = true) : a.Fits false isList := by
  cases a <;> first | rfl | cases ha

theorem Fits.settled_of_isOpen {a : Await} {settled isList : Bool} (h : a.Fits settled isList)
    (ha : a.isOpen = true) : settled = false := by
  cases a <;> first | exact h | cases ha

end Await

@[simp] theorem settles_done (c : Claim) (call : Call) : settles c call .done = true := by cases call <;> rfl

@[simp] theorem settles_threw (c : Claim) (call : Call) : settles c call .threw = false := by cases call <;> rfl

@[simp] theorem settles_refused (c : Claim) (call : Call) : settles c call .refused = false := by cases call <;> rfl

namespace Worker

variable {w w' : Worker} {i j : Nat}

/-! ## Slots and claims -/

/-- Slot `i` has to see to claim `n`. -/
def Holds (w : Worker) (i n : Nat) : Prop :=
  (w.slot i).await.isSome ∧ (w.slot i).settled = false ∧ (w.slot i).claim = n

/-- How many calls have ended the worker's part in claim `n`. -/
def settlements (w : Worker) (n : Nat) : Nat :=
  w.log.countP fun e => decide (e.claim = n) && settles (w.claim n) e.call e.reply

/-- The state without the flags and memories that only decide which way a slot or a poll goes. -/
def core (w : Worker) : Worker :=
  { w with
    queuePaused := false
    failAndFetchNextUnavailable := false
    listsEmptyAt := 0
    suspendContinuations := [] }

@[simp] theorem core_core (w : Worker) : w.core.core = w.core := rfl

@[simp] theorem core_await (w : Worker) (i : Nat) (a : Await) : (w.await i a).core = w.core.await i a := rfl

@[simp] theorem core_leave (w : Worker) (i : Nat) (rejected : Bool) :
    (w.leave i rejected).core = w.core.leave i rejected := rfl

@[simp] theorem core_record (w : Worker) (i : Nat) (call : Call) (r : Reply) :
    (w.record i call r).core = w.core.record i call r := rfl

@[simp] theorem core_forgetContinuation (w : Worker) (jobId : String) : (w.forgetContinuation jobId).core = w.core :=
  rfl

@[simp] theorem core_setSuspendContinuation (w : Worker) (jobId : String) :
    (w.setSuspendContinuation jobId).core = w.core := by
  unfold setSuspendContinuation core
  rfl

theorem commandClient_of_core (h : w'.core = w.core) : w'.commandClient = w.commandClient := by
  have := congrArg Worker.commandClient h
  exact this

/-! ## A slot with an open claim -/

/-- The slot waits on, or leaves with its claim open because the command client is gone. -/
inductive Proceeds (w : Worker) (i : Nat) (w' : Worker) : Prop
  | waits (a : Await) (ha : a.isOpen = true) (h : w'.core = w.core.await i a)
  | leaves (rejected : Bool) (hclient : w.commandClient = false) (h : w'.core = w.core.leave i rejected)

theorem Proceeds.of_core {w₀ : Worker} (hp : Proceeds w i w') (h : w.core = w₀.core) : Proceeds w₀ i w' := by
  cases hp with
  | waits a ha hw => exact .waits a ha (by rw [hw, h])
  | leaves rejected hclient hw => exact .leaves rejected (by rw [← commandClient_of_core h, hclient]) (by rw [hw, h])

theorem proceeds_await (w : Worker) (i : Nat) {a : Await} (ha : a.isOpen = true) : Proceeds w i (w.await i a) :=
  .waits a ha rfl

theorem proceeds_leave (i : Nat) (rejected : Bool) (hclient : w.commandClient = false) :
    Proceeds w i (w.leave i rejected) :=
  .leaves rejected hclient rfl

theorem proceeds_ite (w : Worker) (i : Nat) {a : Await} (ha : a.isOpen = true) (rejected : Bool) :
    Proceeds w i (if w.commandClient then w.await i a else w.leave i rejected) := by
  split
  · exact proceeds_await w i ha
  · rename_i hclient
    exact proceeds_leave i rejected (by simpa using hclient)

theorem deferPausedActivation_proceeds (w : Worker) (i : Nat) (undoGroupClaim : Bool) :
    Proceeds w i (w.deferPausedActivation i undoGroupClaim) := proceeds_ite w i rfl false

theorem deferOutOfOrderJob_proceeds (w : Worker) (i : Nat) (guarded : Bool) :
    Proceeds w i (w.deferOutOfOrderJob i guarded) := proceeds_ite w i rfl false

theorem releaseListActiveSlot_proceeds (w : Worker) (i : Nat) : Proceeds w i (w.releaseListActiveSlot i) :=
  proceeds_ite w i rfl false

theorem postpone_proceeds (w : Worker) (i : Nat) (job : Job) (call : Call) : Proceeds w i (w.postpone i job call) :=
  proceeds_ite w i rfl false

theorem handleJobFailure_proceeds (w : Worker) (i : Nat) (job : Job) (error : Failure) :
    Proceeds w i (w.handleJobFailure i job error) := by
  unfold handleJobFailure
  split
  · rename_i hclient
    exact proceeds_leave i false (by simpa using hclient)
  · split <;> exact proceeds_await w i rfl

theorem failAndChain_proceeds (w : Worker) (i : Nat) (job : Job) (error : Failure) :
    Proceeds w i (w.failAndChain i job error) := by
  unfold failAndChain
  split
  · exact handleJobFailure_proceeds w i job error
  · exact proceeds_await w i rfl

theorem failPlanned_proceeds (w : Worker) (i : Nat) (maxAttempts : Nat) (chain : Bool) :
    Proceeds w i (w.failPlanned i maxAttempts chain) := by
  unfold failPlanned
  split
  · exact proceeds_await w i rfl
  · exact proceeds_ite w i rfl true

theorem notPostponed_proceeds (w : Worker) (i : Nat) (job : Job) (call : Call) :
    Proceeds w i (w.notPostponed i job call) := by
  unfold notPostponed
  split
  · exact (handleJobFailure_proceeds _ i job .other).of_core rfl
  · exact handleJobFailure_proceeds w i job .other

theorem runProcessor_proceeds (w : Worker) (i : Nat) (job : Job) : Proceeds w i (w.runProcessor i job) := by
  unfold runProcessor
  simp only
  split <;> exact .waits _ rfl rfl

theorem divertIfBudgetExceeded_proceeds (w : Worker) (i : Nat) (job : Job) :
    Proceeds w i (w.divertIfBudgetExceeded i job) := by
  unfold divertIfBudgetExceeded
  split
  · exact proceeds_await w i rfl
  · exact runProcessor_proceeds w i job

theorem startJob_proceeds (w : Worker) (i : Nat) (job : Job) : Proceeds w i (w.startJob i job) := by
  unfold startJob
  split
  · split
    · exact proceeds_await w i rfl
    · exact deferOutOfOrderJob_proceeds w i false
  · exact divertIfBudgetExceeded_proceeds w i job

theorem succeed_proceeds (w : Worker) (i : Nat) (job : Job) (returned : Returned) :
    Proceeds w i (w.succeed i job returned) := by
  unfold succeed
  split
  · rename_i hclient
    exact proceeds_leave i false (by simpa using hclient)
  · split
    · exact handleJobFailure_proceeds w i job .other
    · split <;> exact proceeds_await w i rfl

/-! ## One step -/

/-- What follows a recorded reply. A slot whose claim is open leaves only for a cause. -/
inductive Follows (lost : Prop) (reply : Reply) (w : Worker) (i : Nat) (w' : Worker) : Prop
  | waits (a : Await) (ha : a.Fits (w.slot i).settled (w.isListClaim i)) (h : w'.core = w.core.await i a)
  | leaves (rejected : Bool) (hlost : (w.slot i).settled = true ∨ lost) (h : w'.core = w.core.leave i rejected)
  | takes (f : Fetched) (guarded : Bool) (c : Claim) (hf : f.claim = some c) (hsettled : (w.slot i).settled = true)
      (hreply : reply = .fetched f) (h : w'.core = w.core.follow i f guarded)
  | movedToFailed (hopen : (w.slot i).settled = false)
      (h : w'.core = (w.core.record i .moveToFailed .done).await i .finalizing)

theorem Proceeds.follows {lost : Prop} {reply : Reply} (hp : Proceeds w i w') (hopen : (w.slot i).settled = false)
    (hlost : w.commandClient = false → lost) : Follows lost reply w i w' := by
  cases hp with
  | waits a ha h =>
    refine .waits a ?_ h
    rw [hopen]
    exact .of_isOpen ha
  | leaves rejected hclient h => exact .leaves rejected (.inr (hlost hclient)) h

theorem follow_follows (w : Worker) (i : Nat) {lost : Prop} {reply : Reply}
    (hsettled : (w.slot i).settled = true) (f : Fetched) (hf : f.claim = none ∨ reply = .fetched f) (guarded : Bool) :
    Follows lost reply w i (w.follow i f guarded) := by
  cases hclaim : f.claim with
  | none =>
    refine .waits (.following f guarded) ?_ ?_
    · rw [hsettled]
      simp [Await.Fits, hclaim]
    · simp [follow, hclaim]
  | some c =>
    refine .takes f guarded c hclaim hsettled ?_ ?_
    · simpa [hclaim] using hf
    · simp only [follow, hclaim]
      rfl

theorem releaseIfList_follows (w : Worker) (i : Nat) {lost : Prop} {reply : Reply}
    (hsettled : (w.slot i).settled = !w.isListClaim i) (hlost : w.commandClient = false → lost) :
    Follows lost reply w i (w.releaseIfList i) := by
  unfold releaseIfList
  split
  · rename_i hlist
    exact (releaseListActiveSlot_proceeds w i).follows (by rw [hsettled, hlist]; rfl) hlost
  · rename_i hlist
    exact .leaves false (.inl (by rw [hsettled]; simpa using hlist)) rfl

theorem edgeCase_follows (w : Worker) (i : Nat) {lost : Prop} {reply : Reply} (r : MoveResult)
    (hsettled : (w.slot i).settled = (r.isRefused && !w.isListClaim i)) (hlost : w.commandClient = false → lost) :
    Follows lost reply w i (w.handleMoveToActiveEdgeCase i r) := by
  unfold handleMoveToActiveEdgeCase
  split
  · rename_i hclient
    exact .leaves false (.inr (hlost (by simpa using hclient))) rfl
  · cases r with
    | gone =>
      have hopen : (w.slot i).settled = false := hsettled
      simp only
      split
      · exact (releaseListActiveSlot_proceeds w i).follows hopen hlost
      · exact (proceeds_await w i rfl).follows hopen hlost
    | revoked => exact (proceeds_await w i rfl).follows hsettled hlost
    | paused =>
      have hpaused : Proceeds w i ({ w with queuePaused := true }.deferPausedActivation i false) :=
        (deferPausedActivation_proceeds _ i false).of_core rfl
      exact hpaused.follows hsettled hlost
    | globalFull => exact (deferOutOfOrderJob_proceeds w i true).follows hsettled hlost
    | hash job => exact (startJob_proceeds w i job).follows hsettled hlost
    | costExceedsCapacity =>
      have hrefused : (w.slot i).settled = !w.isListClaim i := by simpa [MoveResult.isRefused] using hsettled
      simp only
      split
      · exact .waits .copying hrefused rfl
      · exact releaseIfList_follows w i hrefused hlost
    | expired | groupFull | groupRateLimited | groupTokenLimited | groupOrdered | stale =>
      refine releaseIfList_follows w i ?_ hlost
      simpa [MoveResult.isRefused] using hsettled

theorem holdStreamClaim_follows (w : Worker) (i : Nat) {lost : Prop} {reply : Reply} (now deadline : Int)
    (hopen : (w.slot i).settled = false) (hlost : w.commandClient = false → lost) :
    Follows lost reply w i (w.holdStreamClaim i now deadline) := by
  unfold holdStreamClaim
  split
  · split
    · exact (deferPausedActivation_proceeds w i false).follows hopen hlost
    · split
      · exact edgeCase_follows w i .globalFull hopen hlost
      · exact (proceeds_await w i rfl).follows hopen hlost
  · exact edgeCase_follows w i .globalFull hopen hlost

/-- Why a slot may leave although its claim is open: a call or a follow-up of the job before it in the
chain failed, the worker is closed or being closed by force, the server says that the job is active no
more, or its reply named nothing that could be settled. -/
def Abandons (w : Worker) (a : Await) (r : Reply) : Prop :=
  r = .threw ∨ w.commandClient = false ∨ w.forceClosing = true ∨ (∃ job, a = .parking job ∧ r = .refused) ∨
    ∃ f guarded c, a = .following f guarded ∧ f.claim = some c ∧ (c.jobId = "" ∨ c.entryId = "" ∧ f = .revoked c)

theorem Abandons.threw (w : Worker) (a : Await) : w.Abandons a .threw := .inl rfl

theorem Abandons.client {a : Await} {r : Reply} (hclient : w.commandClient = false) : w.Abandons a r :=
  .inr (.inl hclient)

theorem chain_follows (w : Worker) (i : Nat) (now : Int) {f : Fetched} {guarded : Bool} {r : Reply}
    (hsettled : (w.slot i).settled = f.claim.isNone) (hrunning : w.running = true ∨ w.closing = true) :
    Follows (w.Abandons (.following f guarded) r) r w i (w.chain i now f) := by
  cases f with
  | none listsEmpty =>
    refine .leaves false (.inl hsettled) ?_
    cases listsEmpty <;> rfl
  | revoked c =>
    have hopen : (w.slot i).settled = false := hsettled
    simp only [chain]
    split
    · exact (proceeds_await w i rfl).follows hopen Abandons.client
    · rename_i hnothing
      refine .leaves false (.inr ?_) rfl
      by_cases hclient : w.commandClient = true
      · refine .inr (.inr (.inr (.inr ⟨_, _, c, rfl, rfl, ?_⟩)))
        by_cases hjob : c.jobId = ""
        · exact .inl hjob
        · exact .inr ⟨by simpa [hjob, hclient] using hnothing, rfl⟩
      · exact Abandons.client (by simpa using hclient)
  | hash c job =>
    have hopen : (w.slot i).settled = false := hsettled
    simp only [chain]
    split
    · exact (deferPausedActivation_proceeds w i true).follows hopen Abandons.client
    · rename_i hgo
      split
      · exact (startJob_proceeds w i job).follows hopen Abandons.client
      · rename_i hstop
        refine .leaves false (.inr ?_) rfl
        by_cases hclient : w.commandClient = true
        · refine .inr (.inr (.inr (.inr ⟨_, _, c, rfl, rfl, .inl ?_⟩)))
          -- A slot of an open worker goes on.
          have hclosing : w.closing = true := by
            rcases hrunning with hrun | hclosing
            · simpa [hrun, hclient] using hstop
            · exact hclosing
          simpa [hclosing] using hgo
        · exact Abandons.client (by simpa using hclient)

theorem afterProcessor_follows (w : Worker) (i : Nat) (job : Job) (o : Processed) {a : Await} {r : Reply}
    (hopen : (w.slot i).settled = false) : Follows (w.Abandons a r) r w i (w.afterProcessor i job o) := by
  have hwaits {w' : Worker} (hp : Proceeds w i w') : Follows (w.Abandons a r) r w i w' :=
    hp.follows hopen Abandons.client
  unfold afterProcessor
  simp only
  split
  · exact .movedToFailed hopen rfl
  split
  · exact hwaits (postpone_proceeds w i _ _)
  split
  · exact hwaits (postpone_proceeds w i _ _)
  split
  · exact hwaits (postpone_proceeds w i _ _)
  split
  · split
    · exact hwaits ((postpone_proceeds _ i _ _).of_core (core_setSuspendContinuation w _))
    · exact hwaits (postpone_proceeds w i _ _)
  split
  · split
    · rename_i hforce
      simp only [Bool.and_eq_true] at hforce
      exact .leaves false (.inr (.inr (.inr (.inl hforce.2)))) rfl
    · split <;> exact hwaits (proceeds_await w i rfl)
  · exact hwaits (succeed_proceeds w i _ _)

/-- The state once a reply about the claim is recorded. -/
def recorded (w : Worker) (i : Nat) (a : Await) (r : Reply) : Worker :=
  match a.call with
  | some call => w.record i call r
  | none => w

theorem resume_eq (w : Worker) (i : Nat) (now : Int) (r : Reply) {a : Await} (ha : (w.slot i).await = some a)
    (haccepts : a.accepts r = true) : w.resume i now r = (w.recorded i a r).next i now a r := by
  unfold resume
  rw [ha]
  exact if_pos haccepts

/-! ## What follows a reply -/

theorem threw_follows (w : Worker) (i : Nat) (a : Await) :
    Follows (w.Abandons a .threw) .threw w i (w.leave i true) :=
  .leaves true (.inr (.threw w a)) rfl

theorem proceeds_follows {a : Await} {r : Reply} (hopen : (w.slot i).settled = false) (hp : Proceeds w i w') :
    Follows (w.Abandons a r) r w i w' :=
  hp.follows hopen Abandons.client

section Waits

variable (w : Worker) (i : Nat) (now : Int) {r : Reply}

theorem activating_follows (haccepts : Await.activating.accepts r = true)
    (hsettled : (w.slot i).settled = settles (w.claimOf i) .moveToActive r) :
    Follows (w.Abandons .activating r) r w i (w.next i now .activating r) := by
  cases r with
  | threw => exact threw_follows w i _
  | moved r =>
    have hrefused : (w.slot i).settled = (r.isRefused && !w.isListClaim i) := by
      simpa [settles, isListClaim] using hsettled
    change Follows _ _ w i (w.activateStreamClaim i now r)
    unfold activateStreamClaim
    split
    · rename_i hfull
      exact holdStreamClaim_follows w i now _ (by simpa [hfull.1, MoveResult.isRefused] using hrefused) .client
    · exact edgeCase_follows w i r hrefused .client
  | _ => cases haccepts

theorem holding_follows (deadline : Int) (hopen : (w.slot i).settled = false) :
    Follows (w.Abandons (.holding deadline) r) r w i (w.next i now (.holding deadline) r) := by
  change Follows _ _ w i (if w.closing || w.paused then _ else _)
  split
  · exact proceeds_follows hopen (deferPausedActivation_proceeds w i false)
  · exact proceeds_follows hopen (proceeds_await w i rfl)

theorem retrying_follows (deadline : Int) (haccepts : (Await.retrying deadline).accepts r = true)
    (hsettled : (w.slot i).settled = settles (w.claimOf i) .moveToActive r) :
    Follows (w.Abandons (.retrying deadline) r) r w i (w.next i now (.retrying deadline) r) := by
  cases r with
  | threw => exact threw_follows w i _
  | moved r =>
    have hrefused : (w.slot i).settled = (r.isRefused && !w.isListClaim i) := by
      simpa [settles, isListClaim] using hsettled
    change Follows _ _ w i (if r = .globalFull then _ else _)
    split
    · rename_i hfull
      exact holdStreamClaim_follows w i now deadline (by simpa [hfull, MoveResult.isRefused] using hrefused) .client
    · exact edgeCase_follows w i r hrefused .client
  | _ => cases haccepts

theorem last_follows (call : Call) (guarded : Bool) (haccepts : (Await.last call guarded).accepts r = true)
    (hsettled : (w.slot i).settled = settles (w.claimOf i) call r) :
    Follows (w.Abandons (.last call guarded) r) r w i (w.next i now (.last call guarded) r) := by
  cases r with
  | threw => exact .leaves _ (.inr (.threw w _)) rfl
  | done =>
    refine .leaves _ (.inl ?_) rfl
    rw [hsettled, settles_done]
  | _ => cases haccepts

theorem checkingTurn_follows (job : Job) (haccepts : (Await.checkingTurn job).accepts r = true)
    (hopen : (w.slot i).settled = false) :
    Follows (w.Abandons (.checkingTurn job) r) r w i (w.next i now (.checkingTurn job) r) := by
  cases r with
  | threw => exact threw_follows w i _
  | lastDone n =>
    change Follows _ _ w i (if job.orderingSeq ≤ n + 1 then _ else _)
    split
    · exact proceeds_follows hopen (divertIfBudgetExceeded_proceeds w i job)
    · exact proceeds_follows hopen (deferOutOfOrderJob_proceeds w i false)
  | _ => cases haccepts

theorem checkingBudget_follows (job : Job) (haccepts : (Await.checkingBudget job).accepts r = true)
    (hopen : (w.slot i).settled = false) :
    Follows (w.Abandons (.checkingBudget job) r) r w i (w.next i now (.checkingBudget job) r) := by
  cases r with
  | threw => exact threw_follows w i _
  | answer exceeded =>
    change Follows _ _ w i (if !exceeded then _ else if w.commandClient then _ else _)
    split
    · exact proceeds_follows hopen (runProcessor_proceeds w i job)
    split
    · exact proceeds_follows hopen (proceeds_await w i rfl)
    · exact proceeds_follows hopen (handleJobFailure_proceeds w i job .other)
  | _ => cases haccepts

theorem readingPolicy_follows (job : Job) (haccepts : (Await.readingPolicy job).accepts r = true)
    (hopen : (w.slot i).settled = false) :
    Follows (w.Abandons (.readingPolicy job) r) r w i (w.next i now (.readingPolicy job) r) := by
  cases r with
  | answer pause =>
    change Follows _ _ w i (if pause && w.commandClient then _ else _)
    split
    · exact proceeds_follows hopen (proceeds_await w i rfl)
    · exact proceeds_follows hopen (handleJobFailure_proceeds w i job .other)
  | _ => cases haccepts

theorem parking_follows (job : Job) (haccepts : (Await.parking job).accepts r = true)
    (hsettled : (w.slot i).settled = settles (w.claimOf i) .moveActiveToDelayed r) :
    Follows (w.Abandons (.parking job) r) r w i (w.next i now (.parking job) r) := by
  cases r with
  | threw => exact proceeds_follows hsettled (handleJobFailure_proceeds w i job .other)
  | done => exact .leaves false (.inl hsettled) rfl
  | refused =>
    -- The server says that the job is not active: nothing is left to settle.
    exact .leaves false (.inr (.inr (.inr (.inr (.inl ⟨job, rfl, rfl⟩))))) rfl
  | _ => cases haccepts

theorem limiting_follows (job : Job) (haccepts : (Await.limiting job).accepts r = true)
    (hopen : (w.slot i).settled = false) :
    Follows (w.Abandons (.limiting job) r) r w i (w.next i now (.limiting job) r) := by
  cases r with
  | threw => exact threw_follows w i _
  | limited aborted =>
    change Follows _ _ w i (if aborted then _ else if w.closing then _ else _)
    split
    · exact afterProcessor_follows w i job _ hopen
    split
    · exact proceeds_follows hopen (deferPausedActivation_proceeds w i true)
    · exact proceeds_follows hopen (proceeds_await w i rfl)
  | _ => cases haccepts

theorem postponing_follows (job : Job) (call : Call) (haccepts : (Await.postponing job call).accepts r = true)
    (hsettled : (w.slot i).settled = settles (w.claimOf i) call r) :
    Follows (w.Abandons (.postponing job call) r) r w i (w.next i now (.postponing job call) r) := by
  cases r with
  | done =>
    refine .leaves false (.inl ?_) rfl
    rw [hsettled, settles_done]
  | threw => exact proceeds_follows (by rw [hsettled, settles_threw]) (notPostponed_proceeds w i job call)
  | refused => exact proceeds_follows (by rw [hsettled, settles_refused]) (notPostponed_proceeds w i job call)
  | _ => cases haccepts

theorem failing_follows (maxAttempts : Nat) (haccepts : (Await.failing maxAttempts).accepts r = true)
    (hsettled : (w.slot i).settled = settles (w.claimOf i) (.failJob maxAttempts false) r) :
    Follows (w.Abandons (.failing maxAttempts) r) r w i (w.next i now (.failing maxAttempts) r) := by
  cases r with
  | threw => exact threw_follows w i _
  | done => exact follow_follows w i hsettled (.none false) (.inl rfl) false
  | _ => cases haccepts

theorem failingAndFetching_follows (maxAttempts : Nat)
    (haccepts : (Await.failingAndFetching maxAttempts).accepts r = true)
    (hsettled : (w.slot i).settled = settles (w.claimOf i) (.failAndFetchNext maxAttempts) r) :
    Follows (w.Abandons (.failingAndFetching maxAttempts) r) r w i
      (w.next i now (.failingAndFetching maxAttempts) r) := by
  cases r with
  | threw => exact threw_follows w i _
  | notFound =>
    -- An older server lacks the function: the failure is reported in a call of its own.
    exact proceeds_follows hsettled (.waits _ rfl rfl)
  | fetched f => exact follow_follows w i hsettled f (.inr rfl) true
  | _ => cases haccepts

theorem completing_follows (job : Job) (haccepts : (Await.completing job).accepts r = true)
    (hsettled : (w.slot i).settled = settles (w.claimOf i) .completeJob r) :
    Follows (w.Abandons (.completing job) r) r w i (w.next i now (.completing job) r) := by
  cases r with
  | threw => exact threw_follows w i _
  | done => exact follow_follows w i hsettled (.none false) (.inl rfl) false
  | revoked => exact proceeds_follows hsettled (handleJobFailure_proceeds w i job .unrecoverable)
  | _ => cases haccepts

theorem completingAndFetching_follows (job : Job) (haccepts : (Await.completingAndFetching job).accepts r = true)
    (hsettled : (w.slot i).settled = settles (w.claimOf i) .completeAndFetchNext r) :
    Follows (w.Abandons (.completingAndFetching job) r) r w i (w.next i now (.completingAndFetching job) r) := by
  cases r with
  | threw => exact threw_follows w i _
  | fetched f => exact follow_follows w i hsettled f (.inr rfl) false
  | revoked => exact proceeds_follows hsettled (handleJobFailure_proceeds w i job .unrecoverable)
  | _ => cases haccepts

theorem following_follows (f : Fetched) (guarded : Bool) (hsettled : (w.slot i).settled = f.claim.isNone)
    (hrunning : w.running = true ∨ w.closing = true) :
    Follows (w.Abandons (.following f guarded) r) r w i (w.next i now (.following f guarded) r) := by
  change Follows _ _ w i (if r = .threw && !guarded then _ else _)
  split
  · rename_i hr
    simp only [Bool.and_eq_true, decide_eq_true_eq] at hr
    rw [hr.1]
    exact threw_follows w i _
  · exact chain_follows w i now hsettled hrunning

end Waits

/-- What follows a reply, by the wait that it ends. -/
theorem next_follows (w : Worker) (i : Nat) (now : Int) {a : Await} {r : Reply} (haccepts : a.accepts r = true)
    (hcall : ∀ call, a.call = some call → (w.slot i).settled = settles (w.claimOf i) call r)
    (hwait : a.call = none → a.Fits (w.slot i).settled (w.isListClaim i))
    (hrunning : w.running = true ∨ w.closing = true) : Follows (w.Abandons a r) r w i (w.next i now a r) := by
  cases a with
  | activating => exact activating_follows w i now haccepts (hcall _ rfl)
  | holding deadline => exact holding_follows w i now deadline (hwait rfl)
  | retrying deadline => exact retrying_follows w i now deadline haccepts (hcall _ rfl)
  | last call guarded => exact last_follows w i now call guarded haccepts (hcall _ rfl)
  | copying => exact releaseIfList_follows w i (hwait rfl) .client
  | checkingTurn job => exact checkingTurn_follows w i now job haccepts (hwait rfl)
  | checkingBudget job => exact checkingBudget_follows w i now job haccepts (hwait rfl)
  | readingPolicy job => exact readingPolicy_follows w i now job haccepts (hwait rfl)
  | parking job => exact parking_follows w i now job haccepts (hcall _ rfl)
  | limiting job => exact limiting_follows w i now job haccepts (hwait rfl)
  | processing job =>
    cases r with
    | processed o => exact afterProcessor_follows w i job o (hwait rfl)
    | _ => cases haccepts
  | finalizing => exact .leaves _ (.inl (hwait rfl)) rfl
  | postponing job call => exact postponing_follows w i now job call haccepts (hcall _ rfl)
  | confirming job error =>
    cases r with
    | answer revoked => exact proceeds_follows (hwait rfl) (proceeds_await w i rfl)
    | _ => cases haccepts
  | charging job error => exact proceeds_follows (hwait rfl) (failAndChain_proceeds w i job error)
  | planning job error chain =>
    cases r with
    | threw => exact threw_follows w i _
    | slept => exact proceeds_follows (hwait rfl) (failPlanned_proceeds w i _ chain)
    | _ => cases haccepts
  | failing maxAttempts => exact failing_follows w i now maxAttempts haccepts (hcall _ rfl)
  | failingAndFetching maxAttempts => exact failingAndFetching_follows w i now maxAttempts haccepts (hcall _ rfl)
  | completing job => exact completing_follows w i now job haccepts (hcall _ rfl)
  | completingAndFetching job => exact completingAndFetching_follows w i now job haccepts (hcall _ rfl)
  | following f guarded => exact following_follows w i now f guarded (hwait rfl) hrunning

theorem resume_eq_self (w : Worker) (i : Nat) (now : Int) (r : Reply)
    (h : ∀ a, (w.slot i).await = some a → a.accepts r = false) : w.resume i now r = w := by
  unfold resume
  cases ha : (w.slot i).await with
  | none => rfl
  | some a => simp [h a ha]

end Worker

end GlideMq.BaseWorker
