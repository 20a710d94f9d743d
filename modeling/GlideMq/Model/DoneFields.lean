import GlideMq.Lua.Number
import GlideMq.Lua.Text
import GlideMq.Model.Commands

/-!
# The done frontier as Redis keeps it

`markOrderingDone` on the texts that it reads and writes: the `orderdone:` fields of `meta`, and the
fields of the hashes `orderdone:pending:<key>`, whose values are all `'1'`.
-/

namespace Lua

/-- `tonumber` of a text that `tostring` gave. -/
def ofStr (s : String) : Nat :=
  match Text.splitFirst 'e' s.toList with
  | none => toNumber s
  | some (mantissa, power) =>
    let (whole, frac) := (Text.splitFirst '.' mantissa).getD (mantissa, [])
    let exponent := value (String.ofList (power.drop 1)) - frac.length
    toDouble (value (String.ofList (whole ++ frac)) * 10 ^ exponent)

end Lua

namespace GlideMq

structure DoneHashes where
  orderdone : GroupKey → Option String := fun _ => none
  pending : GroupKey → List String := fun _ => []

namespace DoneHashes

/-- The loop of `markOrderingDone`. A round takes a field away, so as many rounds as there are
fields are enough. -/
def runDone : Nat → List String → Nat → List String × Nat
  | 0, fields, advanced => (fields, advanced)
  | fuel + 1, fields, advanced =>
    let nextSeq := Lua.toDouble (advanced + 1)
    if Lua.toStr nextSeq ∈ fields then
      runDone fuel (fields.filter (· ≠ Lua.toStr nextSeq)) nextSeq
    else (fields, advanced)

/-- The key and the sequence are hints where the caller has read them, else they come from the
job hash. -/
def markOrderingDone (jobs : JobId → Option Job) (h : DoneHashes) (J : JobId)
    (hintOrderingKey : Option GroupKey) (hintOrderingSeq : Option Nat) : DoneHashes :=
  let job := (jobs J).getD {}
  match hintOrderingKey <|> job.orderingKey <|> job.groupKey with
  | none => h
  | some key =>
    let orderingSeq := Lua.toDouble (hintOrderingSeq.getD job.orderingSeq)
    let lastDone := ((h.orderdone key).map Lua.ofStr).getD 0
    let pending := h.pending key
    if orderingSeq ≤ 0 then h
    else if orderingSeq ≤ lastDone then
      { h with
          pending := Function.update h.pending key
            (pending.filter (· ≠ Lua.toStr orderingSeq)) }
    else
      let marked := pending.insert (Lua.toStr orderingSeq)
      let (rest, advanced) := runDone marked.length marked lastDone
      { h with
          pending := Function.update h.pending key rest
          orderdone := if lastDone < advanced then
              Function.update h.orderdone key (some (Lua.toStr advanced))
            else h.orderdone }

end DoneHashes

end GlideMq
