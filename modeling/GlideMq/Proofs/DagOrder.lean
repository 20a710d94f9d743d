import GlideMq.Proofs.DagCycles
import Mathlib.Algebra.BigOperators.Group.Finset.Piecewise
import Mathlib.Algebra.Order.BigOperators.Group.Finset

/-!
# The order of a flow

Kahn's algorithm lists every name after its dependencies. It gets to every name exactly when the
dependencies have no cycle.
-/

open Machine

namespace GlideMq

/-! ## The graph of the nodes -/

section

variable {α : Type} {nodes : List (DAGNode α)} {node : DAGNode α} {name dep : String}

/-- The first name is a dependency of the second. -/
def Dep (nodes : List (DAGNode α)) (a b : String) : Prop :=
  ∃ node ∈ nodes, node.name = b ∧ a ∈ node.deps.getD []

/-- Every dependency names a node. -/
def Known (nodes : List (DAGNode α)) : Prop :=
  ∀ node ∈ nodes, ∀ dep ∈ node.deps.getD [], ∃ other ∈ nodes, other.name = dep

structure WellFormed (nodes : List (DAGNode α)) : Prop where
  unique : (nodes.map (·.name)).Nodup
  known : Known nodes
  acyclic : Acyclic (Dep nodes)

theorem mapNodes_spec (nodes : List (DAGNode α)) (nodeMap : String → Option (DAGNode α)) :
    match mapNodes nodes nodeMap with
    | .ok after => (nodes.map (·.name)).Nodup ∧ (∀ node ∈ nodes, nodeMap node.name = none) ∧
        (∀ node ∈ nodes, after node.name = some node) ∧
        ∀ name, name ∉ nodes.map (·.name) → after name = nodeMap name
    | .error e => (∃ name, e = .duplicate name) ∧
        ¬ ((nodes.map (·.name)).Nodup ∧ ∀ node ∈ nodes, nodeMap node.name = none) := by
  induction nodes generalizing nodeMap with
  | nil => simp [mapNodes]
  | cons node nodes ih =>
    by_cases hsome : (nodeMap node.name).isSome
    · rw [mapNodes, if_pos hsome]
      refine ⟨⟨_, rfl⟩, fun h => ?_⟩
      simp [h.2 node (List.mem_cons_self ..)] at hsome
    · rw [mapNodes, if_neg hsome]
      have hnone : nodeMap node.name = none := by simpa using hsome
      have hrest := ih (Function.update nodeMap node.name (some node))
      have hfresh : (∀ n ∈ nodes, Function.update nodeMap node.name (some node) n.name = none) ↔
          node.name ∉ nodes.map (·.name) ∧ ∀ n ∈ nodes, nodeMap n.name = none := by
        constructor
        · intro h
          have hne : ∀ n ∈ nodes, n.name ≠ node.name := by
            intro n hn heq
            have := h n hn
            rw [heq, Function.update_self] at this
            cases this
          refine ⟨?_, fun n hn => ?_⟩
          · simpa using hne
          · have := h n hn
            rwa [Function.update_of_ne (hne n hn)] at this
        · rintro ⟨hnotmem, h⟩ n hn
          have hne : n.name ≠ node.name := fun heq => hnotmem (heq ▸ List.mem_map_of_mem hn)
          rw [Function.update_of_ne hne]
          exact h n hn
      rw [List.map_cons, List.nodup_cons, List.forall_mem_cons]
      generalize mapNodes nodes _ = out at hrest ⊢
      cases out with
      | ok after =>
        obtain ⟨hnodup, hclear, hmaps, hkeeps⟩ := hrest
        obtain ⟨hnotmem, hclear⟩ := hfresh.mp hclear
        refine ⟨⟨hnotmem, hnodup⟩, ⟨hnone, hclear⟩, ?_, ?_⟩
        · rw [List.forall_mem_cons]
          refine ⟨?_, hmaps⟩
          rw [hkeeps _ hnotmem, Function.update_self]
        · intro name hname
          rw [List.mem_cons, not_or] at hname
          rw [hkeeps _ hname.2, Function.update_of_ne hname.1]
      | error e =>
        obtain ⟨hduplicate, hnot⟩ := hrest
        refine ⟨hduplicate, fun h => hnot ⟨h.1.2, hfresh.mpr ⟨h.1.1, h.2.2⟩⟩⟩

theorem checkDeps_spec (nodeMap : String → Option (DAGNode α)) (name : String) (deps : List String) :
    match checkDeps nodeMap name deps with
    | .ok () => ∀ dep ∈ deps, (nodeMap dep).isSome ∧ dep ≠ name
    | .error e => (∃ dep ∈ deps, e = .unknown name dep ∧ nodeMap dep = none) ∨
        e = .cycle [name, name] ∧ name ∈ deps := by
  induction deps with
  | nil => simp [checkDeps]
  | cons dep deps ih =>
    by_cases hnone : (nodeMap dep).isNone
    · rw [checkDeps, if_pos hnone]
      exact Or.inl ⟨dep, List.mem_cons_self .., rfl, by simpa using hnone⟩
    · rw [checkDeps, if_neg hnone]
      by_cases hne : dep = name
      · rw [if_pos hne]
        exact Or.inr ⟨rfl, hne ▸ List.mem_cons_self ..⟩
      · rw [if_neg hne]
        generalize checkDeps nodeMap name deps = out at ih ⊢
        cases out with
        | ok =>
          rw [List.forall_mem_cons]
          exact ⟨⟨by simpa [Option.isSome_iff_ne_none] using hnone, hne⟩, ih⟩
        | error e =>
          rcases ih with ⟨other, hmem, h⟩ | ⟨he, hmem⟩
          · exact Or.inl ⟨other, List.mem_cons_of_mem _ hmem, h⟩
          · exact Or.inr ⟨he, List.mem_cons_of_mem _ hmem⟩

theorem checkNodes_spec (nodes : List (DAGNode α)) (nodeMap : String → Option (DAGNode α)) :
    match checkNodes nodeMap nodes with
    | .ok () => ∀ node ∈ nodes, ∀ dep ∈ node.deps.getD [], (nodeMap dep).isSome ∧ dep ≠ node.name
    | .error e => ∃ node ∈ nodes, (∃ dep ∈ node.deps.getD [], e = .unknown node.name dep ∧ nodeMap dep = none) ∨
        e = .cycle [node.name, node.name] ∧ node.name ∈ node.deps.getD [] := by
  induction nodes with
  | nil => simp [checkNodes]
  | cons node nodes ih =>
    have hfirst := checkDeps_spec nodeMap node.name (node.deps.getD [])
    unfold checkNodes
    generalize checkDeps nodeMap node.name (node.deps.getD []) = out at hfirst ⊢
    cases out with
    | error e => exact ⟨node, List.mem_cons_self .., hfirst⟩
    | ok =>
      show match checkNodes nodeMap nodes with
        | .ok () => _
        | .error e => _
      generalize checkNodes nodeMap nodes = out at ih ⊢
      cases out with
      | ok => exact List.forall_mem_cons.mpr ⟨hfirst, ih⟩
      | error e =>
        obtain ⟨n, hn, h⟩ := ih
        exact ⟨n, List.mem_cons_of_mem _ hn, h⟩

/-! ## The edges -/

/-- The degrees count the edges, which lie between the names. -/
structure Graded (names : Finset String) (g : DAGGraph α) : Prop where
  degree : ∀ n, g.inDegree n = ∑ a ∈ names, ((g.adjacency a).count n : Int)
  inside : ∀ a b, Edge g.adjacency a b → a ∈ names ∧ b ∈ names

theorem counted_addEdge {names : Finset String} {g : DAGGraph α} (h : Graded names g)
    (hname : name ∈ names) (hdep : dep ∈ names) : Graded names (addEdge g name dep) := by
  constructor
  · intro n
    have hcount (a : String) : (((addEdge g name dep).adjacency a).count n : Int) =
        ((g.adjacency a).count n : Int) + if a = dep ∧ name = n then 1 else 0 := by
      unfold addEdge
      by_cases ha : a = dep
      · subst ha
        simp only [Function.update_self, List.count_append, List.count_singleton, beq_iff_eq, true_and]
        split <;> simp
      · simp [ha]
    simp only [hcount, Finset.sum_add_distrib, ← h.degree]
    unfold addEdge
    by_cases hn : n = name
    · subst hn
      simp [Finset.sum_ite_eq', hdep]
    · have hne : ¬ name = n := fun heq => hn heq.symm
      simp [hn, hne]
  · intro a b hedge
    unfold Edge addEdge at hedge
    by_cases ha : a = dep
    · subst ha
      simp only [Function.update_self, List.mem_append, List.mem_singleton] at hedge
      rcases hedge with hedge | rfl
      · exact h.inside _ _ hedge
      · exact ⟨hdep, hname⟩
    · simp only [Function.update_of_ne ha] at hedge
      exact h.inside _ _ hedge

theorem edge_addEdge {g : DAGGraph α} {a b : String} :
    Edge (addEdge g name dep).adjacency a b ↔ Edge g.adjacency a b ∨ a = dep ∧ b = name := by
  unfold Edge addEdge
  by_cases ha : a = dep
  · subst ha
    simp
  · simp [ha]

theorem edge_addEdges {g : DAGGraph α} {a b : String} :
    Edge (addEdges g node).adjacency a b ↔
      Edge g.adjacency a b ∨ node.name = b ∧ a ∈ node.deps.getD [] := by
  unfold addEdges
  generalize node.deps.getD [] = deps
  induction deps generalizing g with
  | nil => simp
  | cons dep deps ih =>
    rw [List.foldl_cons, ih, edge_addEdge, List.mem_cons, or_assoc]
    refine or_congr_right ⟨?_, ?_⟩
    · rintro (⟨rfl, rfl⟩ | ⟨rfl, h⟩)
      · exact ⟨rfl, Or.inl rfl⟩
      · exact ⟨rfl, Or.inr h⟩
    · rintro ⟨rfl, rfl | h⟩
      · exact Or.inl ⟨rfl, rfl⟩
      · exact Or.inr ⟨rfl, h⟩

theorem edge_foldl {g : DAGGraph α} {a b : String} :
    Edge (nodes.foldl addEdges g).adjacency a b ↔ Edge g.adjacency a b ∨ Dep nodes a b := by
  induction nodes generalizing g with
  | nil => simp [Dep]
  | cons node nodes ih =>
    rw [List.foldl_cons, ih, edge_addEdges, or_assoc]
    unfold Dep
    rw [List.exists_mem_cons_iff]

theorem counted_foldl {names : Finset String} {g : DAGGraph α} (h : Graded names g)
    (hnames : ∀ node ∈ nodes, node.name ∈ names ∧ ∀ dep ∈ node.deps.getD [], dep ∈ names) :
    Graded names (nodes.foldl addEdges g) := by
  have hnode (node : DAGNode α) {g : DAGGraph α} (h : Graded names g) (hname : node.name ∈ names)
      (hdeps : ∀ dep ∈ node.deps.getD [], dep ∈ names) : Graded names (addEdges g node) := by
    unfold addEdges
    generalize node.deps.getD [] = deps at hdeps ⊢
    induction deps generalizing g with
    | nil => exact h
    | cons dep deps ih =>
      rw [List.forall_mem_cons] at hdeps
      exact ih (counted_addEdge h hname hdeps.1) hdeps.2
  induction nodes generalizing g with
  | nil => exact h
  | cons node nodes ih =>
    rw [List.forall_mem_cons] at hnames
    exact ih (hnode node h hnames.1.1 hnames.1.2) hnames.2

theorem nodeMap_foldl {g : DAGGraph α} : (nodes.foldl addEdges g).nodeMap = g.nodeMap := by
  have hnode (node : DAGNode α) (g : DAGGraph α) : (addEdges g node).nodeMap = g.nodeMap := by
    unfold addEdges
    induction node.deps.getD [] generalizing g with
    | nil => rfl
    | cons dep deps ih => rw [List.foldl_cons, ih, addEdge]
  induction nodes generalizing g with
  | nil => rfl
  | cons node nodes ih => rw [List.foldl_cons, ih, hnode]

/-- What `buildGraph` gives for nodes that pass its checks. -/
structure Built (nodes : List (DAGNode α)) (g : DAGGraph α) : Prop where
  counted : Graded (nodes.map (·.name)).toFinset g
  edge : ∀ a b, Edge g.adjacency a b ↔ Dep nodes a b
  nodeMap : ∀ node ∈ nodes, g.nodeMap node.name = some node

theorem buildGraph_spec (nodes : List (DAGNode α)) :
    match buildGraph nodes with
    | .ok g => (nodes.map (·.name)).Nodup ∧ Known nodes ∧ Built nodes g
    | .error e => ¬ WellFormed nodes ∧ ∀ path, e = .cycle path → ClosedWalk (Dep nodes) path := by
  have hmap := mapNodes_spec nodes fun _ => none
  unfold buildGraph
  generalize mapNodes nodes _ = out at hmap ⊢
  cases out with
  | error e =>
    obtain ⟨⟨name, rfl⟩, hnot⟩ := hmap
    exact ⟨fun h => hnot ⟨h.unique, by simp⟩, by simp⟩
  | ok nodeMap =>
    obtain ⟨hnodup, -, hmaps, hkeeps⟩ := hmap
    have hsome (dep : String) : (nodeMap dep).isSome ↔ ∃ other ∈ nodes, other.name = dep := by
      constructor
      · intro h
        by_contra hnone
        rw [hkeeps dep (by simpa using hnone)] at h
        cases h
      · rintro ⟨other, hother, rfl⟩
        rw [hmaps other hother]
        rfl
    have hcheck := checkNodes_spec nodes nodeMap
    show match (do
      checkNodes nodeMap nodes
      return nodes.foldl addEdges { nodeMap, inDegree := fun _ => 0, adjacency := fun _ => [] } :
        Except DAGError (DAGGraph α)) with
      | .ok g => _
      | .error e => _
    generalize checkNodes nodeMap nodes = out at hcheck ⊢
    cases out with
    | error e =>
      obtain ⟨node, hnode, ⟨dep, hdep, rfl, hnone⟩ | ⟨rfl, hself⟩⟩ := hcheck
      · refine ⟨fun h => ?_, by simp⟩
        have := (hsome dep).mpr (h.known node hnode dep hdep)
        rw [hnone] at this
        cases this
      · have hedge : Dep nodes node.name node.name := ⟨node, hnode, rfl, hself⟩
        refine ⟨fun h => h.acyclic _ (.single hedge), ?_⟩
        intro path hpath
        obtain rfl := DAGError.cycle.inj hpath
        exact ⟨by simp, rfl, List.isChain_pair.mpr hedge⟩
    | ok =>
      have hknown : Known nodes := fun node hnode dep hdep => (hsome dep).mp (hcheck node hnode dep hdep).1
      refine ⟨hnodup, hknown, ?_, ?_, ?_⟩
      · apply counted_foldl
        · exact ⟨by simp, by simp [Edge]⟩
        · intro node hnode
          refine ⟨by simpa using ⟨node, hnode, rfl⟩, fun dep hdep => ?_⟩
          simpa using hknown node hnode dep hdep
      · intro a b
        rw [edge_foldl]
        simp [Edge]
      · intro node hnode
        rw [nodeMap_foldl]
        exact hmaps node hnode

end

/-! ## Kahn's algorithm -/

section

variable {adjacency : String → List String} {names : Finset String} {k : Kahn} {current : String}
  {queue : List String}

/-- What a round keeps: a name is queued once all its dependencies are in the order. -/
structure Kahn.Ok (adjacency : String → List String) (names : Finset String) (k : Kahn) : Prop where
  nodup : (k.order ++ k.queue).Nodup
  known : ∀ n ∈ k.order ++ k.queue, n ∈ names
  degree : ∀ n, k.inDegree n = ∑ a ∈ names with a ∉ k.order, ((adjacency a).count n : Int)
  zero : ∀ n ∈ names, k.inDegree n = 0 ↔ n ∈ k.order ++ k.queue
  ordered : Ordered (Edge adjacency) k.order

@[simp] theorem release_order (neighbors : List String) :
    (neighbors.foldl Kahn.release k).order = k.order := by
  induction neighbors generalizing k with
  | nil => rfl
  | cons x rest ih => rw [List.foldl_cons, ih, Kahn.release]

theorem release_spec (neighbors : List String) (h : ∀ n, (neighbors.count n : Int) ≤ k.inDegree n) :
    (∀ n, (neighbors.foldl Kahn.release k).inDegree n = k.inDegree n - neighbors.count n) ∧
      ∃ added, (neighbors.foldl Kahn.release k).queue = k.queue ++ added ∧ added.Nodup ∧
        ∀ n, n ∈ added ↔ n ∈ neighbors ∧ k.inDegree n = neighbors.count n := by
  -- The inner loop counts down, and queues the names that come to 0.
  induction neighbors generalizing k with
  | nil => exact ⟨by simp, [], by simp⟩
  | cons x rest ih =>
    have hx := h x
    rw [List.count_cons_self] at hx
    have hrest (n : String) : (rest.count n : Int) ≤ (k.release x).inDegree n := by
      unfold Kahn.release
      by_cases hn : n = x
      · subst hn
        simp only [Function.update_self]
        omega
      · have := h n
        rw [List.count_cons_of_ne (Ne.symm hn)] at this
        simpa [Function.update_of_ne hn] using this
    obtain ⟨hdegree, added, hqueue, hnodup, hadded⟩ := ih hrest
    rw [List.foldl_cons]
    have hcount (n : String) : (k.release x).inDegree n - rest.count n =
        k.inDegree n - (x :: rest).count n := by
      unfold Kahn.release
      by_cases hn : n = x
      · subst hn
        simp only [Function.update_self, List.count_cons_self]
        omega
      · rw [List.count_cons_of_ne (Ne.symm hn)]
        simp [Function.update_of_ne hn]
    have hends (n : String) : (k.release x).inDegree n = rest.count n ↔
        k.inDegree n = (x :: rest).count n := by
      have := hcount n
      omega
    refine ⟨fun n => (hdegree n).trans (hcount n), ?_⟩
    simp only [hends] at hadded
    by_cases hzero : k.inDegree x - 1 = 0
    · have hgone : x ∉ rest := by
        rw [← List.count_eq_zero]
        omega
      refine ⟨x :: added, ?_, List.nodup_cons.mpr ⟨fun hmem => hgone ((hadded x).mp hmem).1, hnodup⟩, ?_⟩
      · rw [hqueue]
        simp [Kahn.release, hzero]
      · intro n
        rw [List.mem_cons, List.mem_cons, hadded]
        constructor
        · rintro (rfl | ⟨hn, heq⟩)
          · refine ⟨Or.inl rfl, ?_⟩
            rw [List.count_cons_self, List.count_eq_zero.mpr hgone]
            omega
          · exact ⟨Or.inr hn, heq⟩
        · rintro ⟨hn, heq⟩
          exact hn.imp_right fun hn => ⟨hn, heq⟩
    · refine ⟨added, ?_, hnodup, ?_⟩
      · rw [hqueue]
        simp [Kahn.release, hzero]
      · intro n
        rw [List.mem_cons, hadded]
        refine and_congr_left fun heq => ⟨Or.inr, ?_⟩
        rintro (rfl | hn)
        · rw [List.count_cons_self] at heq
          rw [← List.count_pos_iff]
          omega
        · exact hn

theorem Kahn.Ok.step (h : k.Ok adjacency names) (hqueue : k.queue = current :: queue)
    (hinside : ∀ a b, Edge adjacency a b → a ∈ names ∧ b ∈ names) :
    Kahn.Ok adjacency names
      ((adjacency current).foldl Kahn.release { k with queue, order := k.order ++ [current] }) := by
  have hnodup := h.nodup
  have hknown := h.known
  have hzero := h.zero
  rw [hqueue] at hnodup hknown hzero
  have hcurrent : current ∈ names := hknown current (by simp)
  have hfresh : current ∉ k.order := fun hmem =>
    (List.nodup_append.mp hnodup).2.2 current hmem current (List.mem_cons_self ..) rfl
  have hmem : current ∈ names.filter (· ∉ k.order) := Finset.mem_filter.mpr ⟨hcurrent, hfresh⟩
  have hle (n : String) : ((adjacency current).count n : Int) ≤ k.inDegree n := by
    rw [h.degree]
    exact Finset.single_le_sum (f := fun a => ((adjacency a).count n : Int)) (fun _ _ => by simp) hmem
  obtain ⟨hdegree, added, hqueue', hadded, hmem'⟩ :=
    release_spec (k := { k with queue, order := k.order ++ [current] }) (adjacency current) hle
  have hall : k.order ++ current :: queue ++ added = k.order ++ [current] ++ (queue ++ added) := by simp
  have hpositive (n : String) (hn : n ∈ added) : n ∉ k.order ++ current :: queue := by
    obtain ⟨hedge, heq⟩ := (hmem' n).mp hn
    intro hold
    have := (hzero n (hinside _ _ hedge).2).mpr hold
    have := List.count_pos_iff.mpr hedge
    simp only at heq
    omega
  constructor
  · rw [release_order, hqueue', ← hall]
    refine List.nodup_append.mpr ⟨hnodup, hadded, ?_⟩
    rintro n hn m hm rfl
    exact hpositive n hm hn
  · rw [release_order, hqueue', ← hall]
    intro n hn
    rcases List.mem_append.mp hn with hn | hn
    · exact hknown n hn
    · exact (hinside _ _ ((hmem' n).mp hn).1).2
  · intro n
    have herase : names.filter (· ∉ k.order ++ [current]) = (names.filter (· ∉ k.order)).erase current := by
      ext a
      simp only [Finset.mem_filter, Finset.mem_erase, List.mem_append, List.mem_singleton, not_or]
      tauto
    rw [hdegree, release_order, herase, Finset.sum_erase_eq_sub hmem, ← h.degree]
  · intro n hn
    rw [hdegree, release_order, hqueue', ← hall, List.mem_append, hmem', ← hzero n hn]
    have hpos : n ∈ adjacency current ↔ 0 < (adjacency current).count n := List.count_pos_iff.symm
    have := hle n
    simp only [hpos]
    omega
  · rw [release_order]
    apply ordered_snoc h.ordered
    intro d hedge
    have hdegree := (hzero current hcurrent).mpr (by simp)
    rw [h.degree, Finset.sum_eq_zero_iff_of_nonneg (by simp)] at hdegree
    by_contra hnew
    have := hdegree d (Finset.mem_filter.mpr ⟨(hinside _ _ hedge).1, hnew⟩)
    exact List.count_eq_zero.mp (by exact_mod_cast this) hedge

theorem kahnLoop_spec (hinside : ∀ a b, Edge adjacency a b → a ∈ names ∧ b ∈ names) (fuel : Nat)
    (h : k.Ok adjacency names) (hfuel : names.card ≤ fuel + k.order.length) :
    (kahnLoop adjacency fuel k).Ok adjacency names ∧ (kahnLoop adjacency fuel k).queue = [] := by
  induction fuel generalizing k with
  | zero =>
    refine ⟨h, ?_⟩
    have hcard : (k.order ++ k.queue).length ≤ names.card := by
      rw [← List.toFinset_card_of_nodup h.nodup]
      exact Finset.card_le_card fun n hn => h.known n (List.mem_toFinset.mp hn)
    rw [List.length_append] at hcard
    show k.queue = []
    exact List.length_eq_zero_iff.mp (by omega)
  | succ fuel ih =>
    unfold kahnLoop
    split
    · rename_i hqueue
      exact ⟨h, hqueue⟩
    · rename_i current queue hqueue
      apply ih (h.step hqueue hinside)
      rw [release_order, List.length_append, List.length_singleton]
      omega

theorem kahn_start {α : Type} {nodes : List (DAGNode α)} {g : DAGGraph α}
    (hunique : (nodes.map (·.name)).Nodup) (h : Graded (nodes.map (·.name)).toFinset g) :
    Kahn.Ok g.adjacency (nodes.map (·.name)).toFinset
      { inDegree := g.inDegree
        queue := (nodes.map (·.name)).filter fun name => g.inDegree name = 0 } := by
  constructor
  · exact hunique.filter _
  · intro n hn
    exact List.mem_toFinset.mpr (List.mem_of_mem_filter hn)
  · simpa using h.degree
  · intro n hn
    rw [List.mem_toFinset] at hn
    simp only [List.nil_append, List.mem_filter, decide_eq_true_eq]
    exact ⟨fun hzero => ⟨hn, hzero⟩, And.right⟩
  · exact ordered_nil

/-- The order and what is left, once the queue is empty. -/
structure Emitted {α : Type} (nodes : List (DAGNode α)) (g : DAGGraph α) (k : Kahn) : Prop where
  nodup : k.order.Nodup
  known : ∀ n ∈ k.order, n ∈ nodes.map (·.name)
  ordered : Ordered (Edge g.adjacency) k.order
  rest : ∀ n ∈ nodes.map (·.name), n ∉ k.order →
    0 < k.inDegree n ∧ ∃ a ∈ nodes.map (·.name), a ∉ k.order ∧ Edge g.adjacency a n
  done : ∀ n ∈ k.order, k.inDegree n = 0

theorem kahn_spec {α : Type} {nodes : List (DAGNode α)} {g : DAGGraph α}
    (hunique : (nodes.map (·.name)).Nodup) (h : Graded (nodes.map (·.name)).toFinset g) :
    Emitted nodes g (kahn nodes g) := by
  have hcard : (nodes.map (·.name)).toFinset.card = nodes.length := by
    rw [List.toFinset_card_of_nodup hunique, List.length_map]
  obtain ⟨hok, hempty⟩ := kahnLoop_spec h.inside nodes.length (kahn_start hunique h) (by simp [hcard])
  change (kahn nodes g).Ok _ _ at hok
  change (kahn nodes g).queue = [] at hempty
  have hnodup := hok.nodup
  have hknown := hok.known
  have hzero := hok.zero
  rw [hempty, List.append_nil] at hnodup hknown hzero
  refine ⟨hnodup, fun n hn => List.mem_toFinset.mp (hknown n hn), hok.ordered, ?_, ?_⟩
  · intro n hn hleft
    have hne : (kahn nodes g).inDegree n ≠ 0 := fun h0 => hleft ((hzero n (List.mem_toFinset.mpr hn)).mp h0)
    have hdegree := hok.degree n
    have hnonneg : 0 ≤ (kahn nodes g).inDegree n := by
      rw [hdegree]
      exact Finset.sum_nonneg (by simp)
    refine ⟨by omega, ?_⟩
    rw [hdegree] at hne
    obtain ⟨a, ha, hcount⟩ := Finset.exists_ne_zero_of_sum_ne_zero hne
    rw [Finset.mem_filter, List.mem_toFinset] at ha
    exact ⟨a, ha.1, ha.2, List.count_pos_iff.mp (by omega)⟩
  · intro n hn
    exact (hzero n (hknown n hn)).mpr hn

end

/-! ## The sorted nodes -/

section

variable {α : Type} {nodes : List (DAGNode α)} {g : DAGGraph α} {k : Kahn}

/-- Every node comes after the nodes that it depends on. -/
def DepsFirst (sorted : List (DAGNode α)) : Prop :=
  ∀ before node after, sorted = before ++ node :: after →
    ∀ dep ∈ node.deps.getD [], ∃ other ∈ before, other.name = dep

theorem nodeMap_of_name (hbuilt : Built nodes g) {n : String} (hn : n ∈ nodes.map (·.name)) :
    ∃ node ∈ nodes, node.name = n ∧ g.nodeMap n = some node := by
  obtain ⟨node, hnode, rfl⟩ := List.mem_map.mp hn
  exact ⟨node, hnode, rfl, hbuilt.nodeMap node hnode⟩

theorem listed_depsFirst (hbuilt : Built nodes g) (h : Emitted nodes g k) :
    DepsFirst (k.order.filterMap g.nodeMap) := by
  intro before node after heq dep hdep
  obtain ⟨l₁, rest, horder, rfl, hrest⟩ := List.filterMap_eq_append_iff.mp heq
  obtain ⟨skipped, n, l₂, rfl, hnone, hn, -⟩ := List.filterMap_eq_cons_iff.mp hrest
  have hknown : n ∈ nodes.map (·.name) := h.known n (by simp [horder])
  obtain ⟨other, hother, rfl, hmap⟩ := nodeMap_of_name hbuilt hknown
  obtain rfl := Option.some.inj (hn.symm.trans hmap)
  have hedge : Edge g.adjacency dep node.name := (hbuilt.edge _ _).mpr ⟨node, hother, rfl, hdep⟩
  have hbefore := h.ordered (l₁ ++ skipped) node.name l₂ (by simp [horder]) dep hedge
  obtain ⟨other, -, rfl, hmap⟩ := nodeMap_of_name hbuilt (h.known dep (by
    rw [horder, ← List.append_assoc]
    exact List.mem_append_left _ hbefore))
  rcases List.mem_append.mp hbefore with hmem | hmem
  · exact ⟨other, List.mem_filterMap.mpr ⟨_, hmem, hmap⟩, rfl⟩
  · rw [hnone _ hmem] at hmap
    cases hmap

theorem listed_all_iff (hunique : (nodes.map (·.name)).Nodup) (h : Emitted nodes g k) :
    nodes.length ≤ k.order.length ↔ ∀ n ∈ nodes.map (·.name), n ∈ k.order := by
  have hsub : k.order.Subperm (nodes.map (·.name)) := List.subperm_of_subset h.nodup h.known
  constructor
  · intro hle n hn
    have hperm := hsub.perm_of_length_le (by simpa using hle)
    exact hperm.mem_iff.mpr hn
  · intro hall
    have := (List.subperm_of_subset hunique hall).length_le
    simpa using this

theorem listed_perm (hunique : (nodes.map (·.name)).Nodup) (hbuilt : Built nodes g)
    (h : Emitted nodes g k) (hall : ∀ n ∈ nodes.map (·.name), n ∈ k.order) :
    (k.order.filterMap g.nodeMap).Perm nodes := by
  have hperm : k.order.Perm (nodes.map (·.name)) :=
    (List.perm_ext_iff_of_nodup h.nodup hunique).mpr fun n => ⟨h.known n, hall n⟩
  have hself : (nodes.map (·.name)).filterMap g.nodeMap = nodes := by
    rw [List.filterMap_map]
    calc nodes.filterMap (g.nodeMap ∘ (·.name)) = nodes.filterMap some :=
          List.filterMap_congr fun node hnode => hbuilt.nodeMap node hnode
      _ = nodes := List.filterMap_some
  exact (hperm.filterMap _).trans (.of_eq hself)

theorem listed_all_iff_acyclic (hbuilt : Built nodes g) (h : Emitted nodes g k) :
    (∀ n ∈ nodes.map (·.name), n ∈ k.order) ↔ Acyclic (Dep nodes) := by
  -- The names that are left have no first one.
  have hedges : Dep nodes = Edge g.adjacency := by
    funext a b
    exact propext (hbuilt.edge a b).symm
  rw [hedges]
  constructor
  · intro hall
    apply h.ordered.acyclic
    intro a b hedge
    obtain ⟨node, hnode, rfl, -⟩ := (hbuilt.edge a b).mp hedge
    exact hall _ (List.mem_map_of_mem hnode)
  · intro hacyclic n hn
    by_contra hleft
    let left := (nodes.map (·.name)).filter (· ∉ k.order)
    have hmem : ∀ m, m ∈ left ↔ m ∈ nodes.map (·.name) ∧ m ∉ k.order := by simp [left]
    obtain ⟨b, hb, hsource⟩ := hacyclic.exists_source
      (List.ne_nil_of_mem ((hmem n).mpr ⟨hn, hleft⟩))
    obtain ⟨hbname, hbleft⟩ := (hmem b).mp hb
    obtain ⟨-, a, haname, haleft, hedge⟩ := h.rest b hbname hbleft
    exact hsource a ((hmem a).mpr ⟨haname, haleft⟩) hedge

theorem cycleError_closed (hbuilt : Built nodes g) (h : Emitted nodes g k)
    (hleft : ¬ ∀ n ∈ nodes.map (·.name), n ∈ k.order) :
    ∃ path, cycleError nodes g k = .cycle path ∧ ClosedWalk (Dep nodes) path := by
  have hmem (n : String) : n ∈ (nodes.filter fun node => 0 < k.inDegree node.name).map (·.name) ↔
      n ∈ nodes.map (·.name) ∧ n ∉ k.order := by
    simp only [List.mem_map, List.mem_filter, decide_eq_true_eq]
    constructor
    · rintro ⟨node, ⟨hnode, hpos⟩, rfl⟩
      refine ⟨⟨node, hnode, rfl⟩, fun hdone => ?_⟩
      have := h.done _ hdone
      omega
    · rintro ⟨⟨node, hnode, rfl⟩, hnew⟩
      exact ⟨node, ⟨hnode, (h.rest _ (List.mem_map_of_mem hnode) hnew).1⟩, rfl⟩
  have hedges : Dep nodes = Edge g.adjacency := by
    funext a b
    exact propext (hbuilt.edge a b).symm
  refine ⟨_, rfl, ?_⟩
  rw [hedges]
  apply findCyclePath_closed
  · simp only [not_forall] at hleft
    obtain ⟨n, hn, hnew⟩ := hleft
    exact List.ne_nil_of_mem ((hmem n).mpr ⟨hn, hnew⟩)
  · intro b hb
    obtain ⟨hname, hnew⟩ := (hmem b).mp hb
    obtain ⟨-, a, ha, hanew, hedge⟩ := h.rest b hname hnew
    exact ⟨a, (hmem a).mpr ⟨ha, hanew⟩, hedge⟩

/-- Both outcomes of `topoSort`. -/
theorem topoSort_spec (nodes : List (DAGNode α)) :
    match topoSort nodes with
    | .ok sorted => WellFormed nodes ∧ sorted.Perm nodes ∧ DepsFirst sorted
    | .error e => ¬ WellFormed nodes ∧ ∀ path, e = .cycle path → ClosedWalk (Dep nodes) path := by
  have hbuild := buildGraph_spec nodes
  unfold topoSort
  generalize buildGraph nodes = out at hbuild ⊢
  cases out with
  | error e => exact hbuild
  | ok g =>
    obtain ⟨hunique, hknown, hbuilt⟩ := hbuild
    have hlisted := kahn_spec hunique hbuilt.counted
    have hall := listed_all_iff hunique hlisted
    have hacyclic := listed_all_iff_acyclic hbuilt hlisted
    show match (if (kahn nodes g).order.length < nodes.length then
        .error (cycleError nodes g (kahn nodes g))
      else .ok ((kahn nodes g).order.filterMap g.nodeMap) : Except DAGError (List (DAGNode α))) with
      | .ok sorted => _
      | .error e => _
    by_cases hless : (kahn nodes g).order.length < nodes.length
    · rw [if_pos hless]
      have hleft := hall.not.mp (not_le.mpr hless)
      obtain ⟨cycle, hcycle, hclosed⟩ := cycleError_closed hbuilt hlisted hleft
      refine ⟨fun h => hleft (hacyclic.mpr h.acyclic), fun path hpath => ?_⟩
      obtain rfl := DAGError.cycle.inj (hcycle.symm.trans hpath)
      exact hclosed
    · rw [if_neg hless]
      have hdone := hall.mp (not_lt.mp hless)
      exact ⟨⟨hunique, hknown, hacyclic.mp hdone⟩, listed_perm hunique hbuilt hlisted hdone,
        listed_depsFirst hbuilt hlisted⟩

/-- `validateDAG` accepts what `topoSort` sorts, with the same errors. -/
theorem validateDAG_eq (nodes : List (DAGNode α)) :
    validateDAG nodes = (topoSort nodes).map fun _ => () := by
  unfold validateDAG topoSort
  cases buildGraph nodes with
  | error e => rfl
  | ok g =>
    simp only [bind, Except.bind]
    split <;> rfl

/-- `topoSort` sorts exactly the nodes with unique names, known dependencies and no cycle, and every
cycle that it reports is one of the input. -/
theorem topoSort_sorts_iff (nodes : List (DAGNode α)) :
    ((∃ sorted, topoSort nodes = .ok sorted ∧ sorted.Perm nodes ∧ DepsFirst sorted) ↔
        WellFormed nodes) ∧
      (¬ WellFormed nodes → ∃ e, topoSort nodes = .error e) ∧
      ∀ path, topoSort nodes = .error (.cycle path) → ClosedWalk (Dep nodes) path := by
  have hspec := topoSort_spec nodes
  cases hsort : topoSort nodes with
  | ok sorted =>
    rw [hsort] at hspec
    obtain ⟨hwell, hperm, hfirst⟩ := hspec
    exact ⟨⟨fun _ => hwell, fun _ => ⟨sorted, rfl, hperm, hfirst⟩⟩, fun h => absurd hwell h, by simp⟩
  | error e =>
    rw [hsort] at hspec
    obtain ⟨hnot, hclosed⟩ := hspec
    refine ⟨⟨by simp, fun h => absurd h hnot⟩, fun _ => ⟨e, rfl⟩, fun path hpath => ?_⟩
    exact hclosed path (Except.error.inj hpath)

end

end GlideMq
