import TaskGraph.Dependency
import TaskGraph.Yaml.Tree

/-!
The written form of dependencies: a name, a list that means all of its members, or a record with one
of the parts `and`, `or` and `not`.
-/

namespace TaskGraph.Dependency

open Yaml

def partNames : List String := ["and","or","not"]

mutual

def toTree : Dependency → Tree
  | .node id => .string id
  | .all terms => Tree.ofFields [("and",.list (toTrees terms))]
  | .any terms => Tree.ofFields [("or",.list (toTrees terms))]
  | .negation term => Tree.ofFields [("not",toTree term)]

def toTrees : List Dependency → List Tree
  | [] => []
  | d::ds => toTree d::toTrees ds

end

/-- A record of operators: exactly one part is there and not null, and no other name occurs. -/
def ofRecord? (read : Tree → Option Dependency) (tree : Tree) : Option Dependency := do
  let entries ← tree.record? partNames
  if entries.any fun e => !partNames.contains e.1 then none
  let conj ← entries.optional? ["and"] (Tree.asOption? (Tree.asList? read))
  let disj ← entries.optional? ["or"] (Tree.asOption? (Tree.asList? read))
  let neg ← entries.optional? ["not"] (Tree.asOption? read)
  match conj, disj, neg with
  | some terms, none, none => some (.all terms)
  | none, some terms, none => some (.any terms)
  | none, none, some term => some (.negation term)
  | _, _, _ => none

/-- Reads a tree of at most `n-1` levels. A list that is no conjunction may still be a record whose
parts stand in order. -/
def ofTreeWithin? : Nat → Tree → Option Dependency
  | 0, _ => none
  | n+1, tree =>
    match tree with
    | .string id => some (.node id)
    | .list items =>
      match items.mapM (ofTreeWithin? n) with
      | some terms => some (.all terms)
      | none => ofRecord? (ofTreeWithin? n) tree
    | .map _ => ofRecord? (ofTreeWithin? n) tree
    | _ => none

def ofTree? (tree : Tree) : Option Dependency := ofTreeWithin? (tree.height+1) tree

end TaskGraph.Dependency
