import Mathlib.Logic.Function.Basic
import Mathlib.Data.List.Basic

/-!
# Flows with several parents

`dag-utils.ts`: the nodes of a flow are checked and put in an order in which every node comes after
its dependencies.
-/

namespace GlideMq

/-- `DAGNode`, with the data that is only handed on as one field. -/
structure DAGNode (α : Type) where
  name : String
  deps : Option (List String) := none
  job : α

inductive DAGError where
  | duplicate (name : String)
  | unknown (node dep : String)
  | cycle (path : List String)
  deriving DecidableEq

def DAGError.message : DAGError → String
  | .duplicate name => "Duplicate node name: " ++ name
  | .unknown node dep => "Node \"" ++ node ++ "\" depends on unknown node \"" ++ dep ++ "\""
  | .cycle path => "DAG contains a cycle: " ++ " -> ".intercalate path

variable {α : Type}

/-! ## The graph -/

/-- `inDegree` and `adjacency` have the names of the nodes as their keys, in that order. -/
structure DAGGraph (α : Type) where
  nodeMap : String → Option (DAGNode α)
  inDegree : String → Int
  adjacency : String → List String

/-- The first loop of `buildGraph`. -/
def mapNodes : List (DAGNode α) → (String → Option (DAGNode α)) →
    Except DAGError (String → Option (DAGNode α))
  | [], nodeMap => .ok nodeMap
  | node :: nodes, nodeMap =>
    if (nodeMap node.name).isSome then .error (.duplicate node.name)
    else mapNodes nodes (Function.update nodeMap node.name (some node))

def checkDeps (nodeMap : String → Option (DAGNode α)) (name : String) : List String → Except DAGError Unit
  | [] => .ok ()
  | dep :: deps =>
    if (nodeMap dep).isNone then .error (.unknown name dep)
    else if dep = name then .error (.cycle [name, name])
    else checkDeps nodeMap name deps

def checkNodes (nodeMap : String → Option (DAGNode α)) : List (DAGNode α) → Except DAGError Unit
  | [] => .ok ()
  | node :: nodes => do
    checkDeps nodeMap node.name (node.deps.getD [])
    checkNodes nodeMap nodes

def addEdge (g : DAGGraph α) (name dep : String) : DAGGraph α :=
  { g with
      adjacency := Function.update g.adjacency dep (g.adjacency dep ++ [name])
      inDegree := Function.update g.inDegree name (g.inDegree name + 1) }

def addEdges (g : DAGGraph α) (node : DAGNode α) : DAGGraph α :=
  (node.deps.getD []).foldl (addEdge · node.name) g

def buildGraph (nodes : List (DAGNode α)) : Except DAGError (DAGGraph α) := do
  let nodeMap ← mapNodes nodes fun _ => none
  checkNodes nodeMap nodes
  return nodes.foldl addEdges { nodeMap, inDegree := fun _ => 0, adjacency := fun _ => [] }

/-! ## Kahn's algorithm -/

/-- The variables of the loop. `processed` counts the names in `order`. -/
structure Kahn where
  inDegree : String → Int
  queue : List String
  order : List String := []

/-- The inner loop, over the neighbors of the current name. -/
def Kahn.release (k : Kahn) (neighbor : String) : Kahn :=
  let newDegree := k.inDegree neighbor - 1
  { k with
      inDegree := Function.update k.inDegree neighbor newDegree
      queue := if newDegree = 0 then k.queue ++ [neighbor] else k.queue }

/-- The outer loop. A name is queued once, so as many rounds as there are nodes are enough. -/
def kahnLoop (adjacency : String → List String) : Nat → Kahn → Kahn
  | 0, k => k
  | fuel + 1, k =>
    match k.queue with
    | [] => k
    | current :: queue =>
      kahnLoop adjacency fuel
        ((adjacency current).foldl Kahn.release { k with queue, order := k.order ++ [current] })

def kahn (nodes : List (DAGNode α)) (g : DAGGraph α) : Kahn :=
  kahnLoop g.adjacency nodes.length
    { inDegree := g.inDegree
      queue := (nodes.map (·.name)).filter fun name => g.inDegree name = 0 }

/-! ## The cycle of an error -/

/-- The variables that `dfs` changes. -/
structure Dfs where
  visited : List String := []
  path : List String := []

/-- The loop of `dfs` over the neighbors of a node. -/
def dfsEach (remaining : List String) (dfs : String → Dfs → Bool × Dfs) :
    List String → Dfs → Bool × Dfs
  | [], d => (false, d)
  | neighbor :: rest, d =>
    if neighbor ∈ remaining then
      let (found, d) := dfs neighbor d
      if found then (true, d) else dfsEach remaining dfs rest d
    else dfsEach remaining dfs rest d

/-- Every call that goes on marks one more node, so the depth is bounded by the nodes. -/
def dfs (adjacency : String → List String) (remaining : List String) : Nat → String → Dfs → Bool × Dfs
  | 0, _, d => (false, d)
  | depth + 1, node, d =>
    if node ∈ d.path then (true, { d with path := (d.path ++ [node]).drop (d.path.idxOf node) })
    else if node ∈ d.visited then (false, d)
    else
      let (found, d) := dfsEach remaining (dfs adjacency remaining depth) (adjacency node)
        { visited := node :: d.visited, path := d.path ++ [node] }
      if found then (true, d) else (false, { d with path := d.path.dropLast })

/-- The roots are tried one after another, each with nothing visited. -/
def tryRoots (adjacency : String → List String) (remaining : List String) : List String → Option (List String)
  | [] => none
  | root :: roots =>
    let (found, d) := dfs adjacency remaining (remaining.length + 1) root {}
    if found then some d.path else tryRoots adjacency remaining roots

def findCyclePath (remaining : List String) (adjacency : String → List String) : List String :=
  (tryRoots adjacency remaining remaining).getD (remaining.take 2)

/-! ## The exported functions -/

/-- The error after a loop that did not get to every node. -/
def cycleError (nodes : List (DAGNode α)) (g : DAGGraph α) (k : Kahn) : DAGError :=
  .cycle (findCyclePath ((nodes.filter fun n => 0 < k.inDegree n.name).map (·.name)) g.adjacency)

def validateDAG (nodes : List (DAGNode α)) : Except DAGError Unit := do
  let g ← buildGraph nodes
  let k := kahn nodes g
  if k.order.length < nodes.length then .error (cycleError nodes g k) else .ok ()

def topoSort (nodes : List (DAGNode α)) : Except DAGError (List (DAGNode α)) := do
  let g ← buildGraph nodes
  let k := kahn nodes g
  if k.order.length < nodes.length then .error (cycleError nodes g k)
  else .ok (k.order.filterMap g.nodeMap)

end GlideMq
