import Mathlib.Logic.Function.Basic

/-!
# Locks

The locks of `glidemq.lua`: a key with a token and a time to live. A tick of the scheduler, the
upsert or removal of a scheduler and a report of usage each hold one. Clients take a new random token
for every lock.
-/

namespace GlideMq

/-- The value of a lock key, and the last instant at which the key is there. -/
structure StoredLock where
  token : String
  expiresAt : Int
  deriving DecidableEq

abbrev Locks := String → Option StoredLock

/-- `GET`. -/
def Locks.get (l : Locks) (lockKey : String) (now : Int) : Option String :=
  ((l lockKey).filter (now ≤ ·.expiresAt)).map (·.token)

inductive LockReply where
  /-- 1. -/
  | done
  /-- 0. -/
  | refused
  /-- `SET` takes no time to live that is not positive. -/
  | error
  deriving DecidableEq

/-- `tonumber(args[2]) or 1000`. -/
def ttlOf (ttl : Option Int) : Int := ttl.getD 1000

/-- `SET lockKey token PX ttl NX`. -/
def tryLock (l : Locks) (now : Int) (lockKey token : String) (ttl : Option Int) : Locks × LockReply :=
  if ttlOf ttl ≤ 0 then (l, .error)
  else if l.get lockKey now = none then
    (Function.update l lockKey (some ⟨token, now + ttlOf ttl⟩), .done)
  else (l, .refused)

def unlock (l : Locks) (now : Int) (lockKey token : String) : Locks × LockReply :=
  if l.get lockKey now = some token then (Function.update l lockKey none, .done) else (l, .refused)

/-- `PEXPIRE` deletes the key if no time is left. -/
def renewLock (l : Locks) (now : Int) (lockKey token : String) (ttl : Option Int) : Locks × LockReply :=
  if l.get lockKey now = some token then
    (Function.update l lockKey (if ttlOf ttl ≤ 0 then none else some ⟨token, now + ttlOf ttl⟩), .done)
  else (l, .refused)

inductive LockFunction where
  | tryLock (ttl : Option Int)
  | unlock
  | renewLock (ttl : Option Int)
  deriving DecidableEq

/-- A call of a client, with the time at which the server runs it. -/
structure LockCall where
  now : Int
  lockKey : String
  token : String
  function : LockFunction
  deriving DecidableEq

def LockCall.run (l : Locks) (c : LockCall) : Locks × LockReply :=
  match c.function with
  | .tryLock ttl => tryLock l c.now c.lockKey c.token ttl
  | .unlock => unlock l c.now c.lockKey c.token
  | .renewLock ttl => renewLock l c.now c.lockKey c.token ttl

end GlideMq
