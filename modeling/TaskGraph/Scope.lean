import TaskGraph.Data.Value

/-!
What templates can see: bindings by name, and the results of nodes by id.
-/

namespace TaskGraph

structure Scope where
  bindings : Fields := []
  results : Fields := []
  deriving DecidableEq, Inhabited, Repr

namespace Scope

def bind (scope : Scope) (name : String) (v : Value) : Scope :=
  { scope with bindings := scope.bindings.insert name v }

def binding? (scope : Scope) (name : String) : Option Value := scope.bindings.get? name

def result? (scope : Scope) (node : String) : Option Value := scope.results.get? node

/-- Keeps the result of a node, in place of an earlier one under that id. -/
def recordResult (scope : Scope) (node : String) (v : Value) : Scope :=
  { scope with results := scope.results.insert node v }

/-- The bindings as an object, with the results under `results`. -/
def value (scope : Scope) : Value := .object (scope.bindings.insert "results" (.object scope.results))

end Scope

end TaskGraph
