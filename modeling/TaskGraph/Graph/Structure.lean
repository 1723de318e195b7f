import TaskGraph.Graph
import TaskGraph.Graph.Links

/-!
The structure of a graph: which nodes wait for which, where it starts and ends, and an order in which
every node stands after those it waits for.
-/

namespace TaskGraph.Graph

/-- The links from nodes to the nodes that their dependencies mention. -/
def linksOf (nodes : List (GraphNode Graph)) : Links := nodes.map fun n => (n.id,n.references)

def links (g : Graph) : Links := linksOf g.nodes

/-- The nodes that the dependency of a node mentions. -/
def dependencies (g : Graph) (id : String) : List String := g.links.next id

/-- The nodes whose dependencies mention a node. -/
def dependents (g : Graph) (id : String) : List String := g.links.previous id

/-- The nodes without dependencies. -/
def roots (g : Graph) : List String := g.ids.filter fun id => (g.dependencies id).isEmpty

/-- The nodes that no other node waits for. -/
def sinks (g : Graph) : List String := g.ids.filter fun id => (g.dependents id).isEmpty

def order (g : Graph) : List String := g.links.order

end TaskGraph.Graph
