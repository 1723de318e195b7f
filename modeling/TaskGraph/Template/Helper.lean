import TaskGraph.Data.Json.Printer
import TaskGraph.Template.Lookup
import TaskGraph.Text.Case
import TaskGraph.Time.Format

/-!
The functions that templates may call.
-/

namespace TaskGraph

mutual

/-- A value as a template shows it. -/
def Value.shown : Value → String
  | .null => ""
  | .string s => s
  | .array items => "[" ++ shownItems items ++ "]"
  | .object _ => "[object]"
  | v => Json.text v

def shownItems : List Value → String
  | [] => ""
  | v::vs => v.shown ++ ", " ++ shownItems vs

end

namespace Template

/-- What templates can learn of the world around. -/
structure Surroundings where
  now : Instant := ⟨0,0⟩
  environment : List (String × String) := []
  freshId : String := "00000000-0000-4000-8000-000000000000"

/-- What a function gives: a value, or a text it has written. -/
inductive Given where
  | value (v : Value)
  | written (s : String)

def Given.text : Given → String
  | .value v => v.shown
  | .written s => s

def Given.asValue : Given → Value
  | .value v => v
  | .written s => .string s

namespace Helper

/-- The truth of a value in a condition. Zero is true only on demand. -/
def isTrue (zero : Bool) : Value → Bool
  | .null => false
  | .bool b => b
  | .int n => zero || n != 0
  | .float d => if zero then !d.isNaN else d.isFinite && d.exponentField != 0
  | .string s => !s.isEmpty
  | .array items => !items.isEmpty
  | .object fields => !fields.isEmpty

mutual

/-- Equality of values; the two zeros are equal. -/
def same : Value → Value → Bool
  | .float a, .float b => a == b || (a.isZero && b.isZero)
  | .array a, .array b => sameItems a b
  | .object a, .object b => sameFields a b
  | a, b => a == b

def sameItems : List Value → List Value → Bool
  | [], [] => true
  | a::as, b::bs => same a b && sameItems as bs
  | _, _ => false

def sameFields : List (String × Value) → List (String × Value) → Bool
  | [], [] => true
  | (k,a)::as, (l,b)::bs => k == l && same a b && sameFields as bs
  | _, _ => false

end

/-- A text for joining and for fallbacks: strings as they are, nothing for null. -/
def display : Value → String
  | .string s => s
  | .null => ""
  | v => Json.text v

def any (helper name : String) (args : List Found) (n : Nat) : Except Cause Value :=
  match args[n]? with
  | some f => .ok f.value
  | none => .error (.noParameter helper name)

def typed (helper name type : String) (read : Value → Option α) (args : List Found) (n : Nat) :
    Except Cause α := do
  let v ← any helper name args n
  match read v with
  | some x => .ok x
  | none => .error (.wrongType helper name type (Json.text v))

def text (helper : String) (args : List Found) : Except Cause String :=
  typed helper "s" "str" Value.asString? args 0

def compare (helper : String) (test : Int → Int → Bool) (args : List Found) :
    Except Cause Given := do
  let x ← typed helper "x" "i64" Value.asSigned? args 0
  let y ← typed helper "y" "i64" Value.asSigned? args 1
  .ok (.value (.bool (test x y)))

def relate (helper : String) (test : Value → Value → Bool) (args : List Found) :
    Except Cause Given := do
  let x ← any helper "x" args 0
  let y ← any helper "y" args 1
  .ok (.value (.bool (test x y)))

def size : Value → Nat
  | .array items => items.length
  | .object fields => fields.length
  | .string s => s.utf8ByteSize
  | _ => 0

def lookupIn (args : List Found) : Except Cause Given := do
  let some collection := args[0]? | .error (.missingParam "lookup")
  let some key := args[1]? | .error (.tooFewParams "lookup")
  let found := match collection.value with
    | .array items => key.value.asUnsigned?.bind fun n => items[n]?
    | .object fields => key.value.asString?.bind fun k => Fields.get? k fields
    | _ => none
  .ok (.value (found.getD .null))

def argText (args : List Found) (n : Nat) : Option String := args[n]?.bind fun f => f.value.asString?

def join (args : List Found) : Except Cause Given :=
  match args[0]?.bind fun f => f.value.asArray? with
  | some items =>
    .ok (.written (((argText args 1).getD ",").intercalate (items.map display)))
  | none => .error .joinNeedsArray

/-- The first value, or the second if the first is missing, null or an empty text. -/
def fallback (args : List Found) : Except Cause Given := do
  let some second := args[1]? | .error .defaultNeedsFallback
  let chosen := match args[0]?.map Found.value with
    | none | some .null | some (.string "") => second.value
    | some v => v
  .ok (.written (display chosen))

def environment (world : Surroundings) (args : List Found) : Except Cause Given := do
  let some name := argText args 0 | .error .envNeedsName
  .ok (.written ((world.environment.lookup name).getD ((argText args 1).getD "")))

def levels : List String := ["error","warn","info","debug","trace"]

/-- Notes for a log are passed over. -/
def log (options : List (String × Found)) : Except Cause Given :=
  let level := ((options.lookup "level").bind fun f => f.value.asString?).getD "info"
  if levels.contains (Text.lowerLatin level) then .ok (.written "")
  else .error (.unknownLevel level)

/-- The standard pattern of time stamps. -/
def standardPattern : String := "%Y-%m-%dT%H:%M:%SZ"

def timestamp (world : Surroundings) (args : List Found) : Except Cause Given :=
  match world.now.format? ((argText args 0).getD standardPattern) with
  | some s => .ok (.written s)
  | none => .error .brokenPattern

/-- The functions that need no body. -/
def call? (world : Surroundings) (name : String) (args : List Found)
    (options : List (String × Found)) : Option (Except Cause Given) :=
  match name with
  | "upper" => some (do .ok (.value (.string (Text.upper (← text name args)))))
  | "lower" => some (do .ok (.value (.string (Text.lower (← text name args)))))
  | "json" => some (do .ok (.value (.string (Json.text (← any name "v" args 0)))))
  | "eq" => some (relate name same args)
  | "ne" => some (relate name (fun x y => !same x y) args)
  | "gt" => some (compare name (fun x y => decide (x > y)) args)
  | "gte" => some (compare name (fun x y => decide (x ≥ y)) args)
  | "lt" => some (compare name (fun x y => decide (x < y)) args)
  | "lte" => some (compare name (fun x y => decide (x ≤ y)) args)
  | "and" => some (relate name (fun x y => isTrue false x && isTrue false y) args)
  | "or" => some (relate name (fun x y => isTrue false x || isTrue false y) args)
  | "not" => some (do .ok (.value (.bool (!isTrue false (← any name "x" args 0)))))
  | "len" => some (do .ok (.value (.int (size (← any name "x" args 0)))))
  | "lookup" => some (lookupIn args)
  | "join" => some (join args)
  | "default" => some (fallback args)
  | "env" => some (environment world args)
  | "timestamp" => some (timestamp world args)
  | "uuid" => some (.ok (.written world.freshId))
  | "log" => some (log options)
  | _ => none

/-- The functions that choose whether and for what their body is rendered. -/
def blockNames : List String := ["if","unless","each","with","raw"]

/-- A function that is used without a body, although it is made for one. -/
def bodiless? (name : String) (args : List Found) : Option (Except Cause Given) :=
  match name with
  | "if" | "unless" => some (if args.isEmpty then .error (.missingParam "if") else .ok (.written ""))
  | "each" | "with" =>
    some (if args.isEmpty then .error (.missingParam name) else .ok (.written ""))
  | "raw" => some (.ok (.written ""))
  | _ => none

def isKnown (world : Surroundings) (name : String) : Bool :=
  blockNames.contains name || (call? world name [] []).isSome

end Helper

end Template

end TaskGraph
