import TaskGraph.Failure

/-!
The written form of failures: an object with a `kind` and the parts of that kind. It is also read
from an array that gives the kind and the parts in order.
-/

namespace TaskGraph

namespace Value

/-- An object with a tag beside its parts. -/
def tagged (tag name : String) (parts : List (String × Value)) : Value :=
  ofPairs ((tag,.string name)::parts)

/-- A whole number of at most `most`. -/
def asNat? (most : Nat) (v : Value) : Option Nat := do
  let n ← v.asUnsigned?
  if n ≤ most then some n else none

/-- A list of strings. -/
def asStrings? (v : Value) : Option (List String) := do (← v.asArray?).mapM asString?

/-- The parts of a record with the given names, in their order, from an object or from an array that
is not longer. A part may be missing. -/
def parts? (names : List String) : Value → Option (List (Option Value))
  | .object fields => some (names.map fun name => Fields.get? name fields)
  | .array items =>
    if items.length ≤ names.length then
      some ((List.range names.length).map fun n => items[n]?)
    else none
  | _ => none

/-- The only part of a record. -/
def part? (name : String) (v : Value) : Option Value := do
  match ← v.parts? [name] with
  | [some x] => some x
  | _ => none

/-- The two parts of a record. -/
def pair? (a b : String) (v : Value) : Option (Value × Value) := do
  match ← v.parts? [a,b] with
  | [some x,some y] => some (x,y)
  | _ => none

/-- A tagged record: the value of its tag, and what its parts are read from. -/
def tag? (tag : String) : Value → Option (Value × Value)
  | .object fields => (Fields.get? tag fields).map fun name => (name,.object fields)
  | .array (name::items) => some (name,.array items)
  | _ => none

end Value

namespace Failure

mutual

def toValue : Failure → Value
  | .execution action message =>
    .tagged "kind" "execution" [("action",.string action),("message",.string message)]
  | .render message => .tagged "kind" "render" [("message",.string message)]
  | .invalidInput message => .tagged "kind" "invalid_input" [("message",.string message)]
  | .timeout limit => .tagged "kind" "timeout" [("timeout",.string limit.spoken)]
  | .aggregate total failures =>
    .tagged "kind" "aggregate" [("total",.int total),("failures",.array (itemValues failures))]
  | .step name source =>
    .tagged "kind" "step" [("step",.string name),("source",toValue source)]
  | .incomplete terminal => .tagged "kind" "incomplete" [("terminal",.ofStrings terminal)]
  | .loopCapExceeded cap => .tagged "kind" "loop_cap_exceeded" [("max_iterations",.int cap)]
  | .recovery body source =>
    .tagged "kind" "recovery" [("body",toValue body),("source",toValue source)]
  | .always source => .tagged "kind" "always" [("source",toValue source)]
  | .internal message => .tagged "kind" "internal" [("message",.string message)]
  | .cancelled => .tagged "kind" "cancelled" []

def itemValues : List (ItemFailure Failure) → List Value
  | [] => []
  | ⟨index,item,failure⟩::rest =>
    Value.ofPairs [("index",.int index),("item",item),("error",toValue failure)]::itemValues rest

end

/-- The kinds in the order in which a number may stand for one inside another failure. -/
def kindNames : List String := ["execution","render","invalid_input","timeout","aggregate","step",
  "incomplete","loop_cap_exceeded","recovery","always","internal","cancelled"]

/-- The kind that a tag names; numbers count only where `counted`. -/
def kindOf? (counted : Bool) : Value → Option String
  | .string s => if kindNames.contains s then some s else none
  | .int (.ofNat n) => if counted then kindNames[n]? else none
  | _ => none

def ofItem? (read : Value → Option Failure) (v : Value) : Option (ItemFailure Failure) := do
  match ← v.parts? ["index","item","error"] with
  | [some index,some item,some failure] =>
    some ⟨← index.asUnsigned?,item,← read failure⟩
  | _ => none

/-- Reads the parts of a failure of some kind, and the failures in it by a reader. -/
def ofParts? (read : Value → Option Failure) (body : Value) : String → Option Failure
  | "execution" => do
    let (action,message) ← body.pair? "action" "message"
    some (.execution (← action.asString?) (← message.asString?))
  | "render" => do some (.render (← (← body.part? "message").asString?))
  | "invalid_input" => do some (.invalidInput (← (← body.part? "message").asString?))
  | "timeout" => do some (.timeout (← Duration.parse? (← (← body.part? "timeout").asString?)))
  | "aggregate" => do
    let (total,failures) ← body.pair? "total" "failures"
    some (.aggregate (← total.asUnsigned?) (← (← failures.asArray?).mapM (ofItem? read)))
  | "step" => do
    let (name,source) ← body.pair? "step" "source"
    some (.step (← name.asString?) (← read source))
  | "incomplete" => do some (.incomplete (← (← body.part? "terminal").asStrings?))
  | "loop_cap_exceeded" => do
    some (.loopCapExceeded (← (← body.part? "max_iterations").asNat? (Nat.pow 2 32-1)))
  | "recovery" => do
    let (inner,source) ← body.pair? "body" "source"
    some (.recovery (← read inner) (← read source))
  | "always" => do some (.always (← read (← body.part? "source")))
  | "internal" => do some (.internal (← (← body.part? "message").asString?))
  | _ => do
    if body.asArray?.any fun items => !items.isEmpty then none
    some .cancelled

/-- Reads a failure with fewer than `n` failures inside each other. -/
def ofValueWithin? (counted : Bool) : Nat → Value → Option Failure
  | 0, _ => none
  | n+1, v => do
    let (tag,body) ← v.tag? "kind"
    ofParts? (ofValueWithin? true n) body (← kindOf? counted tag)

def ofValue? (v : Value) : Option Failure := ofValueWithin? false (v.height+1) v

end Failure

end TaskGraph
