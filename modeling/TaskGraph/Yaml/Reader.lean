import TaskGraph.Yaml.Typed

/-!
The two ways of reading the parts of a record: straight from the nodes of a document, where any
scalar is a text, and from plain trees, where a number is not.
-/

namespace TaskGraph.Yaml

structure Reader (α : Type) where
  text? : α → Option String
  nat? : Nat → α → Option Nat
  double? : α → Option Double
  isNothing? : α → Option Bool
  items? : α → Option (List α)
  /-- The parts of a record; the names tell what keys and places without a name stand for. -/
  record? : List String → α → Option (Entries α)
  tree? : α → Option Tree

namespace Reader

def nodes : Reader Node where
  text? := Node.asText?
  nat? := Node.asNat?
  double? := Node.asDouble?
  isNothing? := Node.isNothing?
  items? := Node.items?
  record? _ := Node.entries?
  tree? := Node.tree?

def trees : Reader Tree where
  text? := Tree.asString?
  nat? := Tree.asNat?
  double? := Tree.asDouble?
  isNothing?
    | .null => some true
    | _ => some false
  items? := Tree.asList? some
  record? := Tree.record?
  tree? := some

def option? (r : Reader α) (read : α → Option β) (x : α) : Option (Option β) := do
  if ← r.isNothing? x then some none else (read x).map some

def list? (r : Reader α) (read : α → Option β) (x : α) : Option (List β) := do
  (← r.items? x).mapM read

def texts? (r : Reader α) : α → Option (List String) := r.list? r.text?

def duration? (r : Reader α) (x : α) : Option Duration := do Duration.parse? (← r.text? x)

end Reader

end TaskGraph.Yaml
