import GlideMq.Machine.Acyclic
import GlideMq.Model.Dag

/-!
# The search for a cycle

The nodes that Kahn's algorithm leaves may lie behind a cycle only. A root from which `dfs` comes
back without a cycle begins no endless walk, and one of the roots does.
-/

open Machine

namespace GlideMq

variable {adjacency : String → List String} {remaining : List String} {d : Dfs} {node : String}

/-- The edges of the graph. -/
def Edge (adjacency : String → List String) (a b : String) : Prop := b ∈ adjacency a

/-- Every walk from the node through the remaining nodes ends. -/
def WalksEnd (adjacency : String → List String) (remaining : List String) (node : String) : Prop :=
  Acc (fun y x => Edge adjacency x y ∧ y ∈ remaining) node

/-- The path is a walk. A node that was visited and is not on the path has no cycle behind it. -/
structure Dfs.Ok (adjacency : String → List String) (remaining : List String) (d : Dfs) : Prop where
  walk : d.path.IsChain (Edge adjacency)
  done : ∀ v ∈ d.visited, v ∈ d.path ∨ WalksEnd adjacency remaining v

/-- A search ends with a cycle on the path, or with the path as it was and `P`. -/
def Dfs.Post (adjacency : String → List String) (remaining : List String) (d : Dfs) (P : Prop)
    (out : Bool × Dfs) : Prop :=
  if out.1 then ClosedWalk (Edge adjacency) out.2.path
  else out.2.Ok adjacency remaining ∧ out.2.path = d.path ∧ d.visited ⊆ out.2.visited ∧ P

/-- How many nodes a search can still enter. -/
def Dfs.unvisited (remaining : List String) (d : Dfs) : Nat :=
  (remaining.filter (· ∉ d.visited)).length

theorem Dfs.unvisited_anti {d' : Dfs} (h : d.visited ⊆ d'.visited) :
    d'.unvisited remaining ≤ d.unvisited remaining := by
  apply List.Sublist.length_le
  apply List.monotone_filter_right
  intro v hv
  simp only [decide_eq_true_eq] at hv ⊢
  exact fun hmem => hv (h hmem)

theorem Dfs.unvisited_enter (path : List String) (hmem : node ∈ remaining) (hnew : node ∉ d.visited) :
    Dfs.unvisited remaining { visited := node :: d.visited, path } < d.unvisited remaining := by
  have hsplit : remaining.filter (· ∉ node :: d.visited) =
      (remaining.filter (· ∉ d.visited)).filter (· ≠ node) := by
    rw [List.filter_filter]
    congr 1
    funext v
    simp
  unfold Dfs.unvisited
  rw [hsplit]
  exact List.length_filter_lt_length_iff_exists.mpr ⟨node, by simp [hmem, hnew], by simp⟩

theorem closedWalk_of_mem (h : d.path.IsChain (Edge adjacency)) (hmem : node ∈ d.path)
    (hedge : ∀ last ∈ d.path.getLast?, Edge adjacency last node) :
    ClosedWalk (Edge adjacency) ((d.path ++ [node]).drop (d.path.idxOf node)) := by
  have hlt := List.idxOf_lt_length_iff.mpr hmem
  have hwalk : (d.path ++ [node]).IsChain (Edge adjacency) := by
    apply h.append (List.isChain_singleton _)
    intro last hlast next hnext
    obtain rfl := Option.some.inj hnext
    exact hedge last hlast
  have hdrop : (d.path ++ [node]).drop (d.path.idxOf node) =
      node :: (d.path.drop (d.path.idxOf node + 1) ++ [node]) := by
    rw [List.drop_append_of_le_length hlt.le, List.drop_eq_getElem_cons hlt, List.getElem_idxOf]
    rfl
  refine ⟨?_, ?_, hwalk.drop _⟩
  · rw [hdrop]
    simp
  · rw [hdrop]
    simp [List.getLast?_cons]

theorem dfsEach_post {visit : String → Dfs → Bool × Dfs} {bound : Nat}
    (hvisit : ∀ (node : String) (d : Dfs), d.Ok adjacency remaining → node ∈ remaining → d.unvisited remaining < bound →
      (∀ last ∈ d.path.getLast?, Edge adjacency last node) →
      d.Post adjacency remaining (WalksEnd adjacency remaining node) (visit node d))
    (hd : d.Ok adjacency remaining) (hbound : d.unvisited remaining < bound) (neighbors : List String)
    (hedge : ∀ n ∈ neighbors, ∀ last ∈ d.path.getLast?, Edge adjacency last n) :
    d.Post adjacency remaining (∀ n ∈ neighbors, n ∈ remaining → WalksEnd adjacency remaining n)
      (dfsEach remaining visit neighbors d) := by
  induction neighbors generalizing d with
  | nil => exact ⟨hd, rfl, fun _ h => h, by simp⟩
  | cons n rest ih =>
    have hrest (m : String) (hm : m ∈ rest) := hedge m (List.mem_cons_of_mem _ hm)
    unfold dfsEach
    split
    · rename_i hn
      have hout := hvisit n d hd hn hbound (hedge n (List.mem_cons_self ..))
      generalize visit n d = out at hout ⊢
      obtain ⟨found, d'⟩ := out
      cases found
      · obtain ⟨hd', hpath, hsub, hends⟩ := hout
        have hlater := ih hd' (lt_of_le_of_lt (Dfs.unvisited_anti hsub) hbound) (hpath ▸ hrest)
        simp only [Bool.false_eq_true, if_false]
        generalize dfsEach remaining visit rest d' = out at hlater ⊢
        obtain ⟨found, d''⟩ := out
        cases found
        · obtain ⟨hd'', hpath', hsub', hall⟩ := hlater
          refine ⟨hd'', hpath'.trans hpath, fun v hv => hsub' (hsub hv), ?_⟩
          intro m hm hmem
          rcases List.mem_cons.mp hm with rfl | hm
          · exact hends
          · exact hall m hm hmem
        · exact hlater
      · exact hout
    · rename_i hn
      have hlater := ih hd hbound hrest
      generalize dfsEach remaining visit rest d = out at hlater ⊢
      obtain ⟨found, d'⟩ := out
      cases found
      · obtain ⟨hd', hpath, hsub, hall⟩ := hlater
        refine ⟨hd', hpath, hsub, ?_⟩
        intro m hm hmem
        rcases List.mem_cons.mp hm with rfl | hm
        · exact absurd hmem hn
        · exact hall m hm hmem
      · exact hlater

theorem dfs_post {depth : Nat} (hd : d.Ok adjacency remaining) (hnode : node ∈ remaining)
    (hdepth : d.unvisited remaining < depth)
    (hedge : ∀ last ∈ d.path.getLast?, Edge adjacency last node) :
    d.Post adjacency remaining (WalksEnd adjacency remaining node)
      (dfs adjacency remaining depth node d) := by
  induction depth generalizing d node with
  | zero => omega
  | succ depth ih =>
    unfold dfs
    split
    · rename_i hmem
      exact closedWalk_of_mem hd.walk hmem hedge
    · rename_i hpath
      split
      · rename_i hvisited
        exact ⟨hd, rfl, fun _ h => h, (hd.done node hvisited).resolve_left hpath⟩
      · rename_i hnew
        -- The node is entered: it stands at the end of the path until its neighbors are done.
        have hless := Dfs.unvisited_enter (d.path ++ [node]) hnode hnew
        have hd' : Dfs.Ok adjacency remaining
            { visited := node :: d.visited, path := d.path ++ [node] } := by
          constructor
          · apply hd.walk.append (List.isChain_singleton _)
            intro last hlast next hnext
            obtain rfl := Option.some.inj hnext
            exact hedge last hlast
          · intro v hv
            rcases List.mem_cons.mp hv with rfl | hv
            · exact Or.inl (by simp)
            · rcases hd.done v hv with h | h
              · exact Or.inl (by simp [h])
              · exact Or.inr h
        have hout := dfsEach_post (fun n d hd hn hb he => ih hd hn hb he) hd' (by omega)
          (adjacency node) (by
            intro n hn last hlast
            simp only [List.getLast?_append, List.getLast?_singleton, Option.some_or,
              Option.mem_some_iff] at hlast
            exact hlast ▸ hn)
        generalize dfsEach _ _ _ _ = out at hout ⊢
        obtain ⟨found, d'⟩ := out
        cases found
        · obtain ⟨hend, hpath', hsub, hall⟩ := hout
          have hends : WalksEnd adjacency remaining node := ⟨node, fun n hn => hall n hn.1 hn.2⟩
          simp only at hpath'
          refine ⟨⟨?_, ?_⟩, ?_, ?_, hends⟩
          · simpa [hpath'] using hd.walk
          · intro v hv
            rcases hend.done v hv with h | h
            · rw [hpath', List.mem_append, List.mem_singleton] at h
              rcases h with h | rfl
              · exact Or.inl (by simpa [hpath'] using h)
              · exact Or.inr hends
            · exact Or.inr h
          · simp [hpath']
          · exact fun v hv => hsub (List.mem_cons_of_mem _ hv)
        · exact hout

/-- Where every remaining node has a predecessor, one of the roots finds a cycle. -/
theorem findCyclePath_closed (hne : remaining ≠ [])
    (hpred : ∀ b ∈ remaining, ∃ a ∈ remaining, Edge adjacency a b) :
    ClosedWalk (Edge adjacency) (findCyclePath remaining adjacency) := by
  have hroots (roots : List String) (hsub : roots ⊆ remaining) :
      match tryRoots adjacency remaining roots with
      | some path => ClosedWalk (Edge adjacency) path
      | none => ∀ root ∈ roots, WalksEnd adjacency remaining root := by
    induction roots with
    | nil => simp [tryRoots]
    | cons root roots ih =>
      obtain ⟨hroot, hrest⟩ := List.cons_subset.mp hsub
      have hout : Dfs.Post adjacency remaining {} (WalksEnd adjacency remaining root)
          (dfs adjacency remaining (remaining.length + 1) root {}) :=
        dfs_post ⟨List.isChain_nil, by simp⟩ hroot (Nat.lt_succ_of_le (List.length_filter_le _ _))
          (by simp)
      unfold tryRoots
      generalize dfs adjacency remaining (remaining.length + 1) root {} = out at hout ⊢
      obtain ⟨found, d⟩ := out
      cases found
      · have hlater := ih hrest
        simp only [Bool.false_eq_true, if_false]
        split at hlater
        · exact hlater
        · intro r hr
          rcases List.mem_cons.mp hr with rfl | hr
          · exact hout.2.2.2
          · exact hlater r hr
      · exact hout
  have hall := hroots remaining (List.Subset.refl _)
  unfold findCyclePath
  split at hall
  · rename_i path hpath
    rw [hpath]
    exact hall
  · obtain ⟨a, ha, hendless⟩ := exists_not_acc hne hpred
    exact absurd (hall a ha) hendless

end GlideMq
