import GlideMq.Machine.FixedWindow

/-!
# The rate limit of a queue

`glidemq_rateLimit` of `glidemq.lua`, and a round of `waitForRateLimit` of `base-worker.ts`: a worker
asks before it runs a job, and for as long as the reply says it sleeps and asks again.
-/

namespace GlideMq

/-- The `rate` hash. -/
structure RateHash where
  windowStart : Option Int := none
  count : Option Int := none
  deriving DecidableEq

/-- The limit in the `meta` hash. -/
structure RateMeta where
  rateLimitMax : Option Int := none
  rateLimitDuration : Option Int := none
  deriving DecidableEq

/-- The inline limit, or else the one of the queue. -/
def RateMeta.limit (rateMeta : RateMeta) (maxPerWindow windowDuration : Int) : Option (Int × Int) :=
  if 0 < maxPerWindow then some (maxPerWindow, windowDuration)
  else if 0 < rateMeta.rateLimitMax.getD 0 then
    some (rateMeta.rateLimitMax.getD 0, rateMeta.rateLimitDuration.getD 0)
  else none

/-- The reply is the time to wait. -/
def rateLimit (rate : RateHash) (rateMeta : RateMeta) (maxPerWindow windowDuration now : Int) :
    RateHash × Int :=
  match rateMeta.limit maxPerWindow windowDuration with
  | none => (rate, 0)
  | some (maxPerWindow, windowDuration) =>
    let windowStart := rate.windowStart.getD 0
    let count := rate.count.getD 0
    if windowDuration ≤ now - windowStart then ({ windowStart := some now, count := some 1 }, 0)
    else if maxPerWindow ≤ count then (rate, windowDuration - (now - windowStart))
    else ({ rate with count := some (count + 1) }, 0)

/-- What a worker knows of limits: the queue's, as it last read it, and its own option. -/
structure Limiter where
  globalRateLimitEnabled : Bool := false
  cachedRateLimitMax : Int := 0
  cachedRateLimitDuration : Int := 0
  limiter : Option (Int × Int) := none
  deriving DecidableEq

/-- The arguments of the call, if there is any limit. -/
def Limiter.args (l : Limiter) : Option (Int × Int) :=
  if l.globalRateLimitEnabled ∧ 0 < l.cachedRateLimitMax then
    some (l.cachedRateLimitMax, l.cachedRateLimitDuration)
  else l.limiter

/-- A round of some worker, with the `meta` hash and the worker's clock. -/
structure RateCall where
  limiter : Limiter
  rateMeta : RateMeta
  now : Int
  deriving DecidableEq

/-- The reply of a round; a worker that knows no limit does not call. -/
def waitForRateLimit (rate : RateHash) (c : RateCall) : RateHash × Int :=
  match c.limiter.args with
  | none => (rate, 0)
  | some (max, duration) => rateLimit rate c.rateMeta max duration c.now

end GlideMq
