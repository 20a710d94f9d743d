import Mathlib.Data.List.Basic
import Mathlib.Data.List.Pairwise
import Mathlib.Data.List.Nodup

/-!
# Streams with consumer groups

Entry ids are a strictly growing counter, so an id names one entry for ever. Each consumer
group keeps the id it delivered last and its pending entries, oldest first.
-/

namespace Redis

structure Entry (α : Type) where
  id : Nat
  val : α
  deriving DecidableEq

structure Pending where
  id : Nat
  consumer : String
  deriving DecidableEq

structure ConsumerGroup where
  lastDelivered : Nat := 0
  pel : List Pending := []
  deriving DecidableEq

structure Stream (α : Type) where
  entries : List (Entry α)
  lastId : Nat
  groups : String → ConsumerGroup
  increasing : entries.Pairwise (fun a b => a.id < b.id)
  le_lastId : ∀ e ∈ entries, e.id ≤ lastId

namespace Stream

variable {α : Type}

def empty : Stream α where
  entries := []
  lastId := 0
  groups := fun _ => {}
  increasing := List.Pairwise.nil
  le_lastId := by simp

instance : EmptyCollection (Stream α) := ⟨empty⟩
instance : Inhabited (Stream α) := ⟨∅⟩

/-- `XADD key *`. -/
def xadd (s : Stream α) (v : α) : Stream α where
  entries := s.entries ++ [⟨s.lastId + 1, v⟩]
  lastId := s.lastId + 1
  groups := s.groups
  increasing := by
    rw [List.pairwise_append]
    refine ⟨s.increasing, List.pairwise_singleton _ _, ?_⟩
    intro a ha b hb
    have := s.le_lastId a ha
    rw [List.mem_singleton.mp hb]
    exact Nat.lt_succ_of_le this
  le_lastId := by
    intro e he
    rcases List.mem_append.mp he with he | he
    · exact Nat.le_succ_of_le (s.le_lastId e he)
    · exact Nat.le_of_eq (congrArg Entry.id (List.mem_singleton.mp he))

/-- `XDEL`: the entry goes, a pending record of it stays. -/
def xdel (s : Stream α) (id : Nat) : Stream α where
  entries := s.entries.filter (fun e => e.id ≠ id)
  lastId := s.lastId
  groups := s.groups
  increasing := s.increasing.sublist List.filter_sublist
  le_lastId := fun e he => s.le_lastId e (List.mem_filter.mp he).1

/-- `XTRIM MINID`: the entries before `id` go, pending records of them stay. -/
def xtrimMinId (s : Stream α) (id : Nat) : Stream α where
  entries := s.entries.filter (fun e => id ≤ e.id)
  lastId := s.lastId
  groups := s.groups
  increasing := s.increasing.sublist List.filter_sublist
  le_lastId := fun e he => s.le_lastId e (List.mem_filter.mp he).1

/-- `XTRIM MAXLEN`. -/
def xtrimMaxLen (s : Stream α) (maxLen : Nat) : Stream α where
  entries := s.entries.drop (s.entries.length - maxLen)
  lastId := s.lastId
  groups := s.groups
  increasing := s.increasing.sublist (List.drop_sublist _ _)
  le_lastId := fun e he => s.le_lastId e (List.mem_of_mem_drop he)

def setGroup (s : Stream α) (g : String) (c : ConsumerGroup) : Stream α :=
  { s with groups := fun k => if k = g then c else s.groups k }

/-- `XACK`. -/
def xack (s : Stream α) (g : String) (id : Nat) : Stream α :=
  s.setGroup g { s.groups g with pel := (s.groups g).pel.filter (fun p => p.id ≠ id) }

/-- `XACK` in every group of the stream. -/
def xackAll (s : Stream α) (id : Nat) : Stream α :=
  { s with
    groups := fun k => { s.groups k with pel := (s.groups k).pel.filter (fun p => p.id ≠ id) } }

/-- The entry that `XREADGROUP ... COUNT 1 >` hands to group `g`. -/
def next? (s : Stream α) (g : String) : Option (Entry α) :=
  s.entries.find? (fun e => (s.groups g).lastDelivered < e.id)

/-- `XREADGROUP` of the entry `e` by consumer `c` of group `g`. -/
def deliver (s : Stream α) (g c : String) (e : Entry α) : Stream α :=
  s.setGroup g { lastDelivered := e.id, pel := (s.groups g).pel ++ [⟨e.id, c⟩] }

/-- The summary count of `XPENDING`. -/
def pendingCount (s : Stream α) (g : String) : Nat := (s.groups g).pel.length

def isPending (s : Stream α) (g : String) (id : Nat) : Bool := (s.groups g).pel.any (·.id = id)

/-- The entries that `XAUTOCLAIM` hands over. `visited` is the server's side of the call: the
pending entries it looks at and finds idle for long enough. -/
def claimable (s : Stream α) (g : String) (visited : Nat → Bool) : List (Entry α) :=
  s.entries.filter (fun e => s.isPending g e.id && visited e.id)

/-- `XAUTOCLAIM`: the claimed entries change hands. A visited record of a deleted entry is
dropped. -/
def autoclaim (s : Stream α) (g c : String) (visited : Nat → Bool) : Stream α :=
  s.setGroup g { s.groups g with
    pel := ((s.groups g).pel.filter
        (fun p => !visited p.id || s.entries.any (fun e => e.id = p.id))).map
      (fun p => if visited p.id then { p with consumer := c } else p) }

/-! ## Entries -/

@[simp] theorem entries_empty : (∅ : Stream α).entries = [] := rfl
@[simp] theorem entries_setGroup (s : Stream α) (g : String) (c : ConsumerGroup) :
    (s.setGroup g c).entries = s.entries := rfl
@[simp] theorem entries_xack (s : Stream α) (g : String) (id : Nat) :
    (s.xack g id).entries = s.entries := rfl
@[simp] theorem entries_xackAll (s : Stream α) (id : Nat) : (s.xackAll id).entries = s.entries := rfl
@[simp] theorem entries_deliver (s : Stream α) (g c : String) (e : Entry α) :
    (s.deliver g c e).entries = s.entries := rfl
@[simp] theorem entries_autoclaim (s : Stream α) (g c : String) (visited : Nat → Bool) :
    (s.autoclaim g c visited).entries = s.entries := rfl

@[simp] theorem mem_entries_xadd {s : Stream α} {v : α} {e : Entry α} :
    e ∈ (s.xadd v).entries ↔ e ∈ s.entries ∨ e = ⟨s.lastId + 1, v⟩ := by
  simp [xadd]

@[simp] theorem mem_entries_xdel {s : Stream α} {id : Nat} {e : Entry α} :
    e ∈ (s.xdel id).entries ↔ e ∈ s.entries ∧ e.id ≠ id := by
  simp [xdel]

theorem mem_of_next? {s : Stream α} {g : String} {e : Entry α} (h : s.next? g = some e) :
    e ∈ s.entries := List.mem_of_find?_eq_some h

theorem mem_of_mem_claimable {s : Stream α} {g : String} {visited : Nat → Bool} {e : Entry α}
    (h : e ∈ s.claimable g visited) : e ∈ s.entries := (List.mem_filter.mp h).1

theorem eq_of_id_eq {s : Stream α} {a b : Entry α} (ha : a ∈ s.entries) (hb : b ∈ s.entries)
    (h : a.id = b.id) : a = b := by
  have hnodup : (s.entries.map Entry.id).Nodup :=
    List.pairwise_map.mpr (s.increasing.imp fun hlt => Nat.ne_of_lt hlt)
  exact List.inj_on_of_nodup_map hnodup ha hb h

theorem nodup_entries (s : Stream α) : s.entries.Nodup :=
  s.increasing.imp fun hlt heq => Nat.ne_of_lt hlt (congrArg Entry.id heq)

theorem lt_of_take_drop {s : Stream α} {n : Nat} {a b : Entry α} (ha : a ∈ s.entries.take n)
    (hb : b ∈ s.entries.drop n) : a.id < b.id := by
  have hincreasing := s.increasing
  rw [← List.take_append_drop n s.entries] at hincreasing
  exact (List.pairwise_append.mp hincreasing).2.2 a ha b hb

theorem entries_xtrimMinId {s : Stream α} {n : Nat} {e : Entry α} (h : s.entries[n]? = some e) :
    (s.xtrimMinId e.id).entries = s.entries.drop n := by
  obtain ⟨hn, hget⟩ := List.getElem?_eq_some_iff.mp h
  have hcons : s.entries.drop n = e :: s.entries.drop (n + 1) := by
    rw [List.drop_eq_getElem_cons hn, hget]
  have hmem : e ∈ s.entries.drop n := by
    rw [hcons]
    exact List.mem_cons_self
  have hold : (s.entries.take n).filter (fun a => e.id ≤ a.id) = [] := by
    apply List.filter_eq_nil_iff.mpr
    intro a ha
    simpa using lt_of_take_drop ha hmem
  have hnew : (s.entries.drop n).filter (fun a => e.id ≤ a.id) = s.entries.drop n := by
    apply List.filter_eq_self.mpr
    intro a ha
    have hincreasing := s.increasing.sublist (List.drop_sublist n s.entries)
    rw [hcons] at hincreasing ha
    rcases List.mem_cons.mp ha with rfl | ha
    · simp
    · simpa using Nat.le_of_lt ((List.pairwise_cons.mp hincreasing).1 a ha)
  unfold xtrimMinId
  dsimp only
  conv_lhs => rw [← List.take_append_drop n s.entries]
  rw [List.filter_append, hold, hnew]
  rfl

/-! ## Later streams -/

/-- Whatever is new has a new id. -/
structure Extends (s t : Stream α) : Prop where
  lastId : s.lastId ≤ t.lastId
  entries : ∀ e ∈ t.entries, e ∈ s.entries ∨ s.lastId < e.id

theorem Extends.refl (s : Stream α) : Extends s s := ⟨Nat.le_refl _, fun _ h => Or.inl h⟩

theorem Extends.trans {s t u : Stream α} (h : Extends s t) (h' : Extends t u) : Extends s u where
  lastId := Nat.le_trans h.lastId h'.lastId
  entries e he := by
    rcases h'.entries e he with he | he
    · exact h.entries e he
    · exact Or.inr (Nat.lt_of_le_of_lt h.lastId he)

theorem extends_xadd (s : Stream α) (v : α) : Extends s (s.xadd v) where
  lastId := Nat.le_succ _
  entries e he := by
    rcases mem_entries_xadd.mp he with he | rfl
    · exact Or.inl he
    · exact Or.inr (Nat.lt_succ_self _)

theorem extends_xdel (s : Stream α) (id : Nat) : Extends s (s.xdel id) where
  lastId := Nat.le_refl _
  entries _ he := Or.inl (mem_entries_xdel.mp he).1

theorem Extends.of_eq {s t : Stream α} (hentries : t.entries = s.entries)
    (hlast : t.lastId = s.lastId) : Extends s t where
  lastId := Nat.le_of_eq hlast.symm
  entries e he := Or.inl (by rwa [hentries] at he)

end Stream

end Redis
