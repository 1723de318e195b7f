import TaskGraph.Failure.Wire
import TaskGraph.Record
import TaskGraph.Time.Instant.Reader

/-!
The written form of records. Parts that are not there are left out; the two times are null instead.
-/

namespace TaskGraph

namespace SkipReason

def toValue (s : SkipReason) : Value :=
  .tagged "reason" s.word [match s with
    | .branchNotTaken branch => ("branch",.string branch)
    | .deadPath dependencies | .blocked dependencies => ("dependencies",.ofStrings dependencies)]

def ofValue? (v : Value) : Option SkipReason := do
  let (tag,body) ← v.tag? "reason"
  match ← tag.asString? with
  | "branch_not_taken" => do some (.branchNotTaken (← (← body.part? "branch").asString?))
  | "dead_path" => do some (.deadPath (← (← body.part? "dependencies").asStrings?))
  | "blocked" => do some (.blocked (← (← body.part? "dependencies").asStrings?))
  | _ => none

end SkipReason

namespace Status

/-- The word of a state, or an object whose only field has that word and is null. -/
def ofValue? : Value → Option Status
  | .string s => parse? s
  | .object [(s,.null)] => parse? s
  | _ => none

end Status

namespace Record

def optionalField (name : String) (v : Option Value) : List (String × Value) :=
  (v.map fun v => (name,v)).toList

def timeValue (t : Option Instant) : Value := (t.map fun t => Value.string t.text).getD .null

/-- All parts but the two times. -/
def timelessFields (r : Record) : List (String × Value) :=
  [("node_id",.string r.node),("kind",.string r.kind),("status",.string r.status.text)]
    ++ optionalField "result" r.result
    ++ optionalField "error" (r.failure.map Failure.toValue)
    ++ optionalField "skip_reason" (r.skipReason.map SkipReason.toValue)
    ++ [("attempts",.int r.attempts)]

def toValue (r : Record) : Value :=
  Value.ofPairs (r.timelessFields
    ++ [("started_at",timeValue r.started),("finished_at",timeValue r.finished)])

def partNames : List String := ["node_id","kind","status","result","error","skip_reason","attempts",
  "started_at","finished_at"]

/-- A part that may be missing or null. -/
def optional? (read : Value → Option α) : Option Value → Option (Option α)
  | none | some .null => some none
  | some v => (read v).map some

def readTime? (v : Value) : Option Instant := do Instant.parse? (← v.asString?)

/-- An array has to give all parts. -/
def ofValue? (v : Value) : Option Record := do
  let parts ← v.parts? partNames
  if v.asArray?.any fun items => items.length < partNames.length then none
  match parts with
  | [some node,some kind,some status,result,failure,reason,some attempts,started,finished] =>
    some {
      node := ← node.asString?
      kind := ← kind.asString?
      status := ← Status.ofValue? status
      result := ← optional? some result
      failure := ← optional? Failure.ofValue? failure
      skipReason := ← optional? SkipReason.ofValue? reason
      attempts := ← attempts.asNat? (Nat.pow 2 32-1)
      started := ← optional? readTime? started
      finished := ← optional? readTime? finished }
  | _ => none

end Record

end TaskGraph
