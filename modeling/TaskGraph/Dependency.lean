import TaskGraph.Status

/-!
The condition under which a node may start: a formula over the states of other nodes. `holds` asks
whether it is true now; `resolve` asks whether its truth can still change, and reads unfinished
nodes as undecided.
-/

namespace TaskGraph

inductive Dependency where
  | node (id : String)
  | all (terms : List Dependency)
  | any (terms : List Dependency)
  | negation (term : Dependency)
  deriving Inhabited, Repr

/-- Truth as far as it is settled. -/
inductive Resolution where
  | satisfied
  | unsatisfied
  | undecided
  deriving DecidableEq, Repr

namespace Resolution

def and : Resolution → Resolution → Resolution
  | .unsatisfied, _ | _, .unsatisfied => .unsatisfied
  | .satisfied, .satisfied => .satisfied
  | _, _ => .undecided

def or : Resolution → Resolution → Resolution
  | .satisfied, _ | _, .satisfied => .satisfied
  | .unsatisfied, .unsatisfied => .unsatisfied
  | _, _ => .undecided

def negate : Resolution → Resolution
  | .satisfied => .unsatisfied
  | .unsatisfied => .satisfied
  | .undecided => .undecided

/-- A node that has ended decides; success is truth. -/
def ofStatus : Status → Resolution
  | .success => .satisfied
  | .pending | .running => .undecided
  | _ => .unsatisfied

def text : Resolution → String
  | .satisfied => "satisfied"
  | .unsatisfied => "unsatisfied"
  | .undecided => "undecided"

end Resolution

namespace Dependency

def ofAll (ids : List String) : Dependency := .all (ids.map .node)

/-- The terms of a conjunction; any other formula is its only term. -/
def conjuncts : Dependency → List Dependency
  | .all terms => terms
  | d => [d]

/-- The conjunction of two formulas, without nesting. -/
def and (a b : Dependency) : Dependency := .all (a.conjuncts ++ b.conjuncts)

/-- What a step waits for: the step before it, besides what it declares. -/
def following (previous : Option String) (declared : Option Dependency) : Option Dependency :=
  match previous with
  | none => declared
  | some id => some ((declared.map (Dependency.node id).and).getD (.node id))

mutual

/-- A node counts as true once it has succeeded. -/
def holds (status : String → Status) : Dependency → Bool
  | .node id => status id == .success
  | .all terms => holdsAll status terms
  | .any terms => holdsAny status terms
  | .negation term => !holds status term

def holdsAll (status : String → Status) : List Dependency → Bool
  | [] => true
  | d::ds => holds status d && holdsAll status ds

def holdsAny (status : String → Status) : List Dependency → Bool
  | [] => false
  | d::ds => holds status d || holdsAny status ds

end

mutual

def resolve (status : String → Status) : Dependency → Resolution
  | .node id => .ofStatus (status id)
  | .all terms => resolveAll status terms
  | .any terms => resolveAny status terms
  | .negation term => (resolve status term).negate

def resolveAll (status : String → Status) : List Dependency → Resolution
  | [] => .satisfied
  | d::ds => (resolve status d).and (resolveAll status ds)

def resolveAny (status : String → Status) : List Dependency → Resolution
  | [] => .unsatisfied
  | d::ds => (resolve status d).or (resolveAny status ds)

end

mutual

/-- The nodes at the leaves, from left to right. -/
def leaves : Dependency → List String
  | .node id => [id]
  | .all terms | .any terms => leavesOf terms
  | .negation term => leaves term

def leavesOf : List Dependency → List String
  | [] => []
  | d::ds => leaves d ++ leavesOf ds

end

/-- The nodes that are mentioned, each once, in the order of their first mention. -/
def references (d : Dependency) : List String := d.leaves.eraseDups

mutual

/-- Whether a group without terms stands anywhere. -/
def hasEmptyGroup : Dependency → Bool
  | .node _ => false
  | .all terms | .any terms => terms.isEmpty || someEmptyGroup terms
  | .negation term => hasEmptyGroup term

def someEmptyGroup : List Dependency → Bool
  | [] => false
  | d::ds => hasEmptyGroup d || someEmptyGroup ds

end

mutual

def text : Dependency → String
  | .node id => id
  | .all terms => "(" ++ " and ".intercalate (texts terms) ++ ")"
  | .any terms => "(" ++ " or ".intercalate (texts terms) ++ ")"
  | .negation term => "not " ++ text term

def texts : List Dependency → List String
  | [] => []
  | d::ds => text d::texts ds

end

end Dependency

end TaskGraph
