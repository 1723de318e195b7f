/-!
Directed links between names, each name given with the names that it refers to: cycles, orders and
reachability.
-/

namespace TaskGraph

/-- Names in a fixed order, each with the names it refers to. -/
abbrev Links := List (String × List String)

namespace Links

def names (links : Links) : List String := links.map (·.1)

/-- The declared names that a name refers to. -/
def next (links : Links) (name : String) : List String :=
  ((links.lookup name).getD []).filter links.names.contains

/-- The names that refer to a name. -/
def previous (links : Links) (name : String) : List String :=
  (links.filter fun l => l.2.contains name).map (·.1)

/-- A walk along the links: the names it is on, the innermost first, the names it has left for good,
and the cycles it has met. -/
structure Walk where
  path : List String := []
  done : List String := []
  cycles : List (List String) := []

/-- Two lists with the same members. -/
def sameMembers (a b : List String) : Bool := a.all b.contains && b.all a.contains

/-- A cycle counts only once, wherever it is entered. -/
def Walk.addCycle (walk : Walk) (cycle : List String) : Walk :=
  if walk.cycles.any (sameMembers cycle) then walk
  else { walk with cycles := walk.cycles ++ [cycle] }

/-- Where a walk meets its own path, the part of the path from there on is a cycle. -/
def Walk.meet (walk : Walk) (name : String) : Walk :=
  walk.addCycle (walk.path.reverse.dropWhile (· != name))

/-- Walks from a name to all that it refers to. The path is never longer than `n` names. -/
def visit (links : Links) : Nat → String → Walk → Walk
  | 0, _, walk => walk
  | n+1, name, walk =>
    let walk := (links.next name).foldl (fun walk other =>
      if walk.path.contains other then walk.meet other
      else if walk.done.contains other then walk
      else visit links n other walk) { walk with path := name::walk.path }
    { walk with path := walk.path.tail, done := name::walk.done }

/-- The cycles that a walk from every name in turn meets, each from its first name on. -/
def cycles (links : Links) : List (List String) :=
  (links.names.foldl (fun (walk : Walk) name =>
    if walk.done.contains name then walk else visit links links.length name walk) {}).cycles

/-- Puts a name in front of the names already ordered, after all that refer to it. -/
def place (links : Links) : Nat → String → List String × List String → List String × List String
  | 0, _, state => state
  | n+1, name, (seen,ordered) =>
    let (seen,ordered) := (links.previous name).foldl (fun state other =>
      if state.1.contains other then state else place links n other state) (name::seen,ordered)
    (seen,name::ordered)

/-- Each name after all that it refers to, if there is no cycle: names are left for good in a walk
against the links, and stand in the reverse of that order. -/
def order (links : Links) : List String :=
  (links.names.foldl (fun state name =>
    if state.1.contains name then state else place links links.length name state) ([],[])).2

/-- The names reached from some names within `n` links. -/
def reach (links : Links) : Nat → List String → List String
  | 0, found => found
  | n+1, found => reach links n (found ++ found.flatMap links.next).eraseDups

/-- Whether one name can be reached from another by at least one link. -/
def leadsTo (links : Links) (a b : String) : Bool :=
  (links.reach links.length (links.next a)).contains b

/-- The groups of at least two names that can be reached from each other, each in the order of the
names and listed at its first name. -/
def knots (links : Links) : List (List String) :=
  links.names.filterMap fun name =>
    let knot := links.names.filter fun other =>
      other == name || (links.leadsTo name other && links.leadsTo other name)
    if 1 < knot.length && knot.head? == some name then some knot else none

end Links

end TaskGraph
