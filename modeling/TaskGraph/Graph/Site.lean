import TaskGraph.Data.NameSet
import TaskGraph.Definition

/-!
The places of a definition in the order in which they are checked: each block where it opens, then
its nodes, each followed by the blocks inside it, and the block again where it closes. Every node is
seen with the tags that the nodes around it hold.
-/

namespace TaskGraph

inductive Site where
  | opening (path : String) (block : Block)
  | node (path : String) (held : NameSet) (definition : NodeDefinition Block)
  | closing (path : String) (block : Block)

namespace Site

/-- The path of a node inside the block at a path. -/
def qualify (path id : String) : String := if path.isEmpty then id else path ++ "/" ++ id

/-- The path of a block inside a node. -/
def inside (path label : String) : String := path ++ "/" ++ label

mutual

/-- The sites of a block at a path, inside nodes that hold some tags. A step whose id has occurred
before is left out. -/
def ofBlock (path : String) (held : NameSet) : Block → List Site
  | .steps steps =>
    .opening path (.steps steps)::ofSteps path held [] none steps ++ [.closing path (.steps steps)]
  | .graph nodes terminal =>
    .opening path (.graph nodes terminal)::ofNodes path held nodes
      ++ [.closing path (.graph nodes terminal)]

def ofNodes (path : String) (held : NameSet) : List NamedNode → List Site
  | [] => []
  | (id,d)::rest => ofNode (qualify path id) held none d ++ ofNodes path held rest

def ofSteps (path : String) (held : NameSet) (seen : List String) (previous : Option String) :
    List NamedNode → List Site
  | [] => []
  | (id,d)::rest =>
    if seen.contains id then ofSteps path held seen previous rest
    else ofNode (qualify path id) held previous d
      ++ ofSteps path held (id::seen) (some id) rest

/-- The sites of a node. A step is seen with all it waits for. -/
def ofNode (path : String) (held : NameSet) (previous : Option String) :
    NodeDefinition Block → List Site
  | ⟨description,kind,dependsOn,resources,retry,timeout,onFailure⟩ =>
    let within := held.union resources
    .node path held
        ⟨description,kind,Dependency.following previous dependsOn,resources,retry,timeout,onFailure⟩
      ::ofKind path within kind ++ ofOptional path "on_failure" within onFailure

def ofKind (path : String) (held : NameSet) : KindDefinition Block → List Site
  | .action .. | .branch .. => []
  | .sequence steps => ofBlock (inside path "steps") held steps
  | .forEach _ _ template => ofBlock (inside path "template") held template
  | .loop _ _ body => ofBlock (inside path "body") held body
  | .guarded body recovery always =>
    ofBlock (inside path "body") held body ++ ofOptional path "recovery" held recovery
      ++ ofOptional path "always" held always

def ofOptional (path label : String) (held : NameSet) : Option Block → List Site
  | none => []
  | some block => ofBlock (inside path label) held block

end

end Site

end TaskGraph
