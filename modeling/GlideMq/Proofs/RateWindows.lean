import Mathlib.Tactic.Common
import GlideMq.Machine.Runs
import GlideMq.Model.RateLimit

/-!
# The windows of the rate limit

The `rate` hash counts the jobs that were let through in the current window. So a window holds no more
than the limit and any stretch of its length at most twice as many. A worker waits for the end of a
window only if that window is full.
-/

namespace GlideMq

open FixedWindow

def RateHash.window (rate : RateHash) : Window := ⟨rate.windowStart.getD 0, rate.count.getD 0⟩

/-- The limit that the server applies to the round. -/
def RateCall.limit (c : RateCall) : Option (Int × Int) :=
  c.limiter.args.bind fun a => c.rateMeta.limit a.1 a.2

/-- The `rate` hash, and the rounds that ended a wait, the latest first. -/
structure RateSys where
  rate : RateHash := {}
  passed : List (RateCall × Int) := []

def rateStep (s : RateSys) (c : RateCall) : RateSys where
  rate := (waitForRateLimit s.rate c).1
  passed := if (waitForRateLimit s.rate c).2 ≤ 0 then (c, c.now) :: s.passed else s.passed

/-! ## One round -/

variable {limit span clock now : Int} {rate : RateHash} {s : RateSys} {c : RateCall}

/-- What a round does under a limit. -/
inductive Round (limit span : Int) (rate : RateHash) (c : RateCall) : Prop
  | passes (hopen : span ≤ c.now - rate.window.start ∨ rate.window.count < limit)
      (hreply : (waitForRateLimit rate c).2 = 0)
      (hwindow : (waitForRateLimit rate c).1.window = rate.window.enter span c.now)
  | waits (hin : c.now - rate.window.start < span) (hfull : limit ≤ rate.window.count)
      (hsame : waitForRateLimit rate c = (rate, span - (c.now - rate.window.start)))

theorem waitForRateLimit_of_limit (h : c.limit = some (limit, span)) :
    waitForRateLimit rate c = if span ≤ c.now - rate.window.start then (⟨some c.now, some 1⟩, 0)
      else if limit ≤ rate.window.count then (rate, span - (c.now - rate.window.start))
      else ({ rate with count := some (rate.window.count + 1) }, 0) := by
  obtain ⟨a, hargs, hlimit⟩ := Option.bind_eq_some_iff.mp h
  unfold waitForRateLimit
  rw [hargs]
  unfold rateLimit
  simp only [hlimit]
  rfl

theorem round_cases (h : c.limit = some (limit, span)) : Round limit span rate c := by
  have heq := @waitForRateLimit_of_limit _ _ rate _ h
  by_cases hover : span ≤ c.now - rate.window.start
  · rw [if_pos hover] at heq
    refine .passes (.inl hover) (by rw [heq]) ?_
    rw [heq, Window.enter, if_pos hover]
    rfl
  · rw [if_neg hover] at heq
    by_cases hfull : limit ≤ rate.window.count
    · rw [if_pos hfull] at heq
      exact .waits (by omega) hfull heq
    · rw [if_neg hfull] at heq
      refine .passes (.inr (by omega)) (by rw [heq]) ?_
      rw [heq, Window.enter, if_neg hover]
      rfl

/-! ## The invariant -/

/-- At `clock`, the hash counts what the current window has let through. -/
structure RateSys.Within (s : RateSys) (limit span clock : Int) : Prop where
  ok : Ok limit span s.rate.window s.passed
  counted : held span s.rate.window.start s.passed = s.rate.window.count
  opened : s.rate.window.start ≤ clock
  past : ∀ a ∈ s.passed, a.2 ≤ clock
  stretch : ∀ start, Stretch limit span start clock s.rate.window s.passed

theorem within_start (hlimit : 0 < limit) (hclock : 0 ≤ clock) : ({} : RateSys).Within limit span clock where
  ok := ok_nil (by omega) 0
  counted := rfl
  opened := hclock
  past := by simp
  stretch _ := .first (by simp [held, RateHash.window])

theorem RateSys.Within.later (h : s.Within limit span clock) (hle : clock ≤ now) :
    s.Within limit span now where
  ok := h.ok
  counted := h.counted
  opened := h.opened.trans hle
  past a ha := (h.past a ha).trans hle
  stretch start := (h.stretch start).later hle

theorem RateSys.Within.step (h : s.Within limit span clock) (hlimit : 0 < limit) (hspan : 0 < span)
    (hc : c.limit = some (limit, span)) (hle : clock ≤ c.now) : (rateStep s c).Within limit span c.now := by
  have hopened := h.opened
  have hround : Round limit span s.rate c := round_cases hc
  cases hround with
  | passes hopen hreply hwindow =>
    have hpassed : (rateStep s c).passed = (c, c.now) :: s.passed := by
      unfold rateStep
      simp [hreply]
    have hrate : (rateStep s c).rate.window = s.rate.window.enter span c.now := hwindow
    constructor
    · rw [hrate, hpassed]
      exact h.ok.enter hspan hlimit hopen
    · rw [hrate, hpassed]
      exact h.ok.held_enter hspan (by omega) h.counted
    · rw [hrate]
      unfold Window.enter
      split
      · exact Int.le_refl _
      · exact hopened.trans hle
    · rw [hpassed]
      intro a ha
      rcases List.mem_cons.mp ha with rfl | ha
      · exact Int.le_refl _
      · exact (h.past a ha).trans hle
    · intro start
      rw [hrate, hpassed]
      exact (h.stretch start).enter h.ok hle h.past
  | waits hin hfull hsame =>
    have hstep : rateStep s c = s := by
      unfold rateStep
      rw [hsame, if_neg (by dsimp only; omega)]
    rw [hstep]
    exact h.later hle

theorem RateSys.Within.run (h : s.Within limit span clock) (hlimit : 0 < limit) (hspan : 0 < span)
    {calls : List RateCall} (hcalls : ∀ c ∈ calls, c.limit = some (limit, span))
    (hafter : ∀ c ∈ calls, clock ≤ c.now) (hclock : calls.Pairwise (·.now ≤ ·.now))
    (hnow : ∀ c ∈ calls, c.now ≤ now) (hle : clock ≤ now) :
    (Machine.run rateStep s calls).Within limit span now := by
  induction calls generalizing s clock with
  | nil => exact h.later hle
  | cons c calls ih =>
    obtain ⟨hfirst, hrest⟩ := List.pairwise_cons.mp hclock
    have hstep := h.step hlimit hspan (hcalls c List.mem_cons_self) (hafter c List.mem_cons_self)
    exact ih hstep (fun d hd => hcalls d (List.mem_cons_of_mem c hd)) hfirst hrest
      (fun d hd => hnow d (List.mem_cons_of_mem c hd)) (hnow c List.mem_cons_self)

/-- A worker waits to the end of the current window, which is full. -/
theorem RateSys.Within.waits (h : s.Within limit span c.now) (hc : c.limit = some (limit, span)) :
    (waitForRateLimit s.rate c).2 = 0 ∨
      (0 < (waitForRateLimit s.rate c).2 ∧ (waitForRateLimit s.rate c).2 ≤ span) ∧
        held span (c.now + (waitForRateLimit s.rate c).2 - span) s.passed = limit := by
  have hopened := h.opened
  have hround : Round limit span s.rate c := round_cases hc
  cases hround with
  | passes _ hreply _ => exact .inl hreply
  | waits hin hfull hsame =>
    have hcounted := h.counted
    have hlimit := h.ok.le_limit
    rw [hsame]
    refine .inr ⟨⟨by dsimp only; omega, by dsimp only; omega⟩, ?_⟩
    have hstart : c.now + (span - (c.now - s.rate.window.start)) - span = s.rate.window.start := by omega
    dsimp only
    rw [hstart]
    omega

theorem passes_after_wait {d : RateCall} (hc : c.limit = some (limit, span)) (hd : d.limit = some (limit, span))
    (hafter : c.now + (waitForRateLimit s.rate c).2 ≤ d.now) (hwait : 0 < (waitForRateLimit s.rate c).2) :
    (waitForRateLimit (rateStep s c).rate d).2 = 0 := by
  have hround : Round limit span s.rate c := round_cases hc
  cases hround with
  | passes _ hreply _ => omega
  | waits hin _ hsame =>
    have hrate : (rateStep s c).rate = s.rate := by
      unfold rateStep
      rw [hsame]
    rw [hsame] at hafter
    rw [hrate, waitForRateLimit_of_limit hd, if_pos (by dsimp only at hafter; omega)]

theorem exists_last (calls : List RateCall) : ∃ last, 0 ≤ last ∧ ∀ c ∈ calls, c.now ≤ last := by
  induction calls with
  | nil => exact ⟨0, Int.le_refl 0, by simp⟩
  | cons c calls ih =>
    obtain ⟨last, h0, hlast⟩ := ih
    refine ⟨max c.now last, by omega, fun d hd => ?_⟩
    rcases List.mem_cons.mp hd with rfl | hd
    · omega
    · have hd := hlast d hd
      omega

/-- Two jobs within a second. -/
def fullWindow : List RateCall :=
  [⟨{ limiter := some (2, 1000) }, {}, 5000⟩, ⟨{ limiter := some (2, 1000) }, {}, 5999⟩]

end GlideMq
