import TaskGraph.Graph.Fault
import TaskGraph.Graph.Site
import TaskGraph.Graph.Structure

/-!
From definitions to graphs. `Block.toGraph` makes the graph of any block; `Definition.faults` lists, in
a fixed order, all that is wrong with it; a definition is built if there are no faults.
-/

namespace TaskGraph

/-- The node under which the older form keeps its steps. -/
def stepsId : String := "steps"

/-- How often a loop may run if it does not say. -/
def standardCap : Nat := 1000

/-- The bindings that runs set themselves. -/
def reservedBindings : List String := ["results","index","iteration","last","error"]

namespace Graph

/-- The nodes whose ids have not occurred before. -/
def distinct (seen : List String) : List (GraphNode Graph) → List (GraphNode Graph)
  | [] => []
  | n::rest => if seen.contains n.id then distinct seen rest else n::distinct (n.id::seen) rest

/-- Lets every node but the first wait for the one before it. -/
def chain : Option String → List (GraphNode Graph) → List (GraphNode Graph)
  | _, [] => []
  | previous, n::rest =>
    { n with dependency := Dependency.following previous n.dependency }::chain (some n.id) rest

/-- The branches that may select a node, other than itself. -/
def gates (nodes : List (GraphNode Graph)) (id : String) : List String :=
  (nodes.filter fun n => n.id != id && n.kind.targets.contains id).map GraphNode.id

/-- Lets a node wait for the branches that may select it. -/
def behind (branches : List String) (n : GraphNode Graph) : GraphNode Graph :=
  if branches.isEmpty then n
  else
    let gate := Dependency.ofAll branches
    { n with dependency := some ((n.dependency.map fun d => d.and gate).getD gate) }

def gated (nodes : List (GraphNode Graph)) : List (GraphNode Graph) :=
  nodes.map fun n => behind (gates nodes n.id) n

/-- A graph from the nodes of a block; its terminal nodes are those declared, or its sinks. -/
def ofNodes (nodes : List (GraphNode Graph)) (terminal : Option (List String)) : Graph :=
  let nodes := gated nodes
  mk nodes (terminal.getD (sinks (mk nodes [])))

end Graph

mutual

/-- The graph of a block; `cap` is for loops that have none of their own. -/
def Block.toGraph (cap : Nat) : Block → Graph
  | .steps steps =>
    let nodes := Graph.chain none (Graph.distinct [] (graphNodes cap steps))
    .ofNodes nodes (some (nodes.getLast?.map GraphNode.id).toList)
  | .graph nodes terminal => .ofNodes (graphNodes cap nodes) terminal

def graphNodes (cap : Nat) : List NamedNode → List (GraphNode Graph)
  | [] => []
  | (id,node)::rest => graphNode cap id node::graphNodes cap rest

def graphNode (cap : Nat) (id : String) : NodeDefinition Block → GraphNode Graph
  | ⟨description,kind,dependsOn,resources,retry,timeout,onFailure⟩ => {
    id
    description
    kind := nodeKind cap kind
    dependency := dependsOn
    tags := .ofList resources
    retry := (retry.map RetrySettings.policy).getD .once
    timeout
    handler := optionalGraph cap onFailure }

def nodeKind (cap : Nat) : KindDefinition Block → NodeKind Graph
  | .action name params => .action name params
  | .sequence steps => .sequence (steps.toGraph cap)
  | .forEach items binding template => .forEach items binding (template.toGraph cap)
  | .loop condition ownCap body => .loop condition (ownCap.getD cap) (body.toGraph cap)
  | .branch arms fallback =>
    .branch (arms.map fun a => ⟨a.condition,a.targets.ids⟩) ((fallback.map Targets.ids).getD [])
  | .guarded body recovery always =>
    .guarded (body.toGraph cap) (optionalGraph cap recovery) (optionalGraph cap always)

def optionalGraph (cap : Nat) : Option Block → Option Graph
  | none => none
  | some block => some (block.toGraph cap)

end

namespace Block

/-- The nodes of a block before branches gate them. -/
def drafts (cap : Nat) : Block → List (GraphNode Graph)
  | .steps list => Graph.chain none (Graph.distinct [] (graphNodes cap list))
  | .graph nodes _ => graphNodes cap nodes

/-- The terminal nodes that a block declares. -/
def declaredTerminal (cap : Nat) : Block → Option (List String)
  | .steps list => some (((Block.steps list).drafts cap).getLast?.map GraphNode.id).toList
  | .graph _ terminal => terminal

/-- Ids that occur among the steps before them. -/
def repeatedSteps : Block → List String
  | .steps list => go [] (list.map (·.1))
  | .graph .. => []
where
  go (seen : List String) : List String → List String
    | [] => []
    | id::rest => if seen.contains id then id::go seen rest else go (id::seen) rest

def isEmpty : Block → Bool
  | .steps list => list.isEmpty
  | .graph nodes _ => nodes.isEmpty

end Block

namespace Graph

open Site (qualify)

/-- What is wrong with a node by itself, or with a tag that a node around it holds. -/
def nodeFaults (cap : Nat) (path : String) (held : NameSet) (d : NodeDefinition Block) :
    List Fault :=
  let invalid (test : Bool) (reason : String) : List Fault :=
    if test then [.invalidNode path reason] else []
  let reentrant := ((NameSet.ofList d.resources).filter held.contains).map (Fault.reentrantTag path)
  let retry := match d.retry with
    | none => []
    | some r => invalid (r.maxAttempts == 0) "retry max_attempts must be at least 1"
      ++ invalid (!(r.multiplier.isFinite && r.multiplier.isPositive))
        "retry backoff_multiplier must be positive"
  let kind := match d.kind with
    | .action name _ => invalid (Text.isBlankText name) "action name cannot be empty"
    | .forEach _ binding _ =>
      if Text.isBlankText binding then invalid true "item binding name cannot be empty"
      else invalid (reservedBindings.contains binding)
        s!"item binding name '{binding}' is reserved"
    | .loop _ ownCap _ => invalid (ownCap.getD cap == 0) "max_iterations must be at least 1"
    | .branch arms fallback => invalid (arms.isEmpty && fallback.isNone)
      "branch needs at least one arm or a default"
    | _ => []
  reentrant ++ retry
    ++ invalid (d.timeout == some .zero) "timeout must be greater than zero"
    ++ invalid ((d.dependsOn.map Dependency.hasEmptyGroup).getD false)
      "dependency expression has an empty group"
    ++ kind

/-- What is wrong with a branch among some nodes. -/
def targetFaults (path : String) (ids : List String) (n : GraphNode Graph) : List Fault :=
  n.kind.targets.filterMap fun target =>
    if target = n.id then some (.invalidNode (qualify path n.id) "branch cannot target itself")
    else if ids.contains target then none
    else some (.unknownTarget (qualify path n.id) target)

/-- What is wrong with the nodes of a block taken together. -/
def levelFaults (path : String) (nodes : List (GraphNode Graph)) (terminal : List String) :
    List Fault :=
  let ids := nodes.map GraphNode.id
  (nodes.flatMap fun n => (n.references.filter fun id => !ids.contains id).map
      (Fault.unknownDependency (qualify path n.id)))
    ++ nodes.flatMap (targetFaults path ids)
    ++ (linksOf (gated nodes)).cycles.map (fun ids => Fault.cycle (ids.map (qualify path)))
    ++ (terminal.filter fun id => !ids.contains id).map
      (fun id => Fault.unknownTerminal (qualify path id))

def siteFaults (cap : Nat) : Site → List Fault
  | .opening path block =>
    block.repeatedSteps.map (fun id => Fault.duplicateNode (qualify path id))
      ++ if block.isEmpty then [.emptyGraph (if path.isEmpty then "<root>" else path)] else []
  | .node path held d => nodeFaults cap path held d
  | .closing path block =>
    levelFaults path (block.drafts cap) ((block.declaredTerminal cap).getD [])

/-- The pairs of a tag that is held and a tag that is requested inside, at one site. -/
def nestings : Site → List (String × String)
  | .node _ held d =>
    ((NameSet.ofList d.resources).filter fun tag => !held.contains tag).flatMap fun tag =>
      held.map fun outer => (outer,tag)
  | _ => []

/-- The tags of nested requests, each with the tags that are requested while it is held. -/
def tagLinks (pairs : List (String × String)) : Links :=
  (NameSet.ofList (pairs.flatMap fun p => [p.1,p.2])).map fun tag =>
    (tag,(pairs.filter fun p => p.1 == tag).map (·.2))

def tagFaults (pairs : List (String × String)) : List Fault :=
  (tagLinks pairs).knots.map Fault.tagOrderConflict

end Graph

namespace Definition

/-- The outermost block; steps of the older form are the body of a single node. -/
def block (d : Definition) : Block :=
  match d.steps, d.nodes.isEmpty with
  | some steps, true => .graph [(stepsId,{ kind := .sequence (.steps steps) })] none
  | _, _ => .graph d.nodes d.terminal

def sites (d : Definition) : List Site := Site.ofBlock "" [] d.block

def faults (cap : Nat) (d : Definition) : List Graph.Fault :=
  d.sites.flatMap (Graph.siteFaults cap) ++ Graph.tagFaults (d.sites.flatMap Graph.nestings)

/-- The graph of a definition without faults. -/
def build (cap : Nat) (d : Definition) : Except (List Graph.Fault) Graph :=
  match d.faults cap with
  | [] => .ok (d.block.toGraph cap)
  | faults => .error faults

end Definition

end TaskGraph
