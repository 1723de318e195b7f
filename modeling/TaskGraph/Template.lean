import TaskGraph.Data.Truth
import TaskGraph.Template.Render

/-!
Templates in values: every string with template marks is rendered, in the keys of objects too, and
conditions are decided.
-/

namespace TaskGraph.Template

/-- A text with the marks of a template. -/
def hasMarks (s : String) : Bool := Text.contains s "\x7b\x7b" && Text.contains s "\x7d\x7d"

def renderString (world : Surroundings) (scope : Value) (s : String) : Except Fault String :=
  if hasMarks s then renderText world s scope else .ok s

mutual

/-- Renders the strings of a value. Of two keys that become equal the later counts. -/
def renderValue (world : Surroundings) (scope : Value) : Value → Except Fault Value
  | .string s => do .ok (.string (← renderString world scope s))
  | .array items => do .ok (.array (← renderItems world scope items))
  | .object fields => do .ok (Value.ofPairs (← renderFields world scope fields))
  | v => .ok v

def renderItems (world : Surroundings) (scope : Value) : List Value → Except Fault (List Value)
  | [] => .ok []
  | v::vs => do .ok ((← renderValue world scope v)::(← renderItems world scope vs))

def renderFields (world : Surroundings) (scope : Value) :
    List (String × Value) → Except Fault (List (String × Value))
  | [] => .ok []
  | (k,v)::rest => do
    let k ← renderString world scope k
    let v ← renderValue world scope v
    .ok ((k,v)::(← renderFields world scope rest))

end

/-- Why a condition cannot be decided. -/
inductive ConditionFault where
  | render (f : Fault)
  | noCondition (v : Value)
  deriving DecidableEq, Repr

def faultText (f : Fault) : String := s!"Handlebars error: {f.message}"

def ConditionFault.text : ConditionFault → String
  | .render f => faultText f
  | .noCondition v => "Invalid condition: expected a boolean, number or template string, got "
    ++ Json.text v

/-- Decides a condition: strings are rendered first, collections are no conditions. -/
def evaluate (world : Surroundings) (scope : Value) : Value → Except ConditionFault Bool
  | .bool b => .ok b
  | .null => .ok false
  | .int n => .ok (n != 0)
  | .float d => .ok !d.isZero
  | .string s => do
    let text ← (renderString world scope s).mapError .render
    .ok (Value.string text).isTruthy
  | v => .error (.noCondition v)

end TaskGraph.Template
