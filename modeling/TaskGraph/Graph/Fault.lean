import TaskGraph.Failure.Wire

/-!
What can be wrong with the graph of a definition.
-/

namespace TaskGraph.Graph

inductive Fault where
  | unknownDependency (node dependency : String)
  | cycle (nodes : List String)
  | unknownTarget (branch target : String)
  | unknownTerminal (node : String)
  | duplicateNode (node : String)
  | invalidNode (node reason : String)
  | reentrantTag (node tag : String)
  | tagOrderConflict (tags : List String)
  | emptyGraph (path : String)
  deriving DecidableEq, Repr

namespace Fault

def text : Fault → String
  | .unknownDependency node dependency =>
    s!"Node '{node}' depends on unknown node '{dependency}'"
  | .cycle nodes =>
    "Cyclic dependency detected: " ++ " -> ".intercalate (nodes ++ nodes.head?.toList)
  | .unknownTarget branch target => s!"Branch '{branch}' targets unknown node '{target}'"
  | .unknownTerminal node => s!"Terminal node '{node}' is not declared"
  | .duplicateNode node => s!"Duplicate node id: {node}"
  | .invalidNode node reason => s!"Invalid node '{node}': {reason}"
  | .reentrantTag node tag =>
    s!"Node '{node}' requests resource '{tag}' already held by an enclosing node"
  | .tagOrderConflict tags =>
    s!"Resources are nested in conflicting orders: {Text.quotedList tags}"
  | .emptyGraph path => s!"Graph '{path}' has no nodes"

/-- The texts of several faults. -/
def texts (faults : List Fault) : String := "; ".intercalate (faults.map text)

def isCycle : Fault → Bool
  | .cycle _ => true
  | _ => false

def toValue : Fault → Value
  | .unknownDependency node dependency => .tagged "kind" "unknown_dependency"
    [("node",.string node),("dependency",.string dependency)]
  | .cycle nodes => .tagged "kind" "cyclic_dependency" [("cycle",.ofStrings nodes)]
  | .unknownTarget branch target => .tagged "kind" "unknown_branch_target"
    [("branch",.string branch),("target",.string target)]
  | .unknownTerminal node => .tagged "kind" "unknown_terminal_node" [("node",.string node)]
  | .duplicateNode node => .tagged "kind" "duplicate_node" [("node",.string node)]
  | .invalidNode node reason => .tagged "kind" "invalid_node"
    [("node",.string node),("reason",.string reason)]
  | .reentrantTag node tag => .tagged "kind" "reentrant_resource_tag"
    [("node",.string node),("tag",.string tag)]
  | .tagOrderConflict tags => .tagged "kind" "resource_order_conflict" [("tags",.ofStrings tags)]
  | .emptyGraph path => .tagged "kind" "empty_graph" [("path",.string path)]

end Fault

end TaskGraph.Graph
