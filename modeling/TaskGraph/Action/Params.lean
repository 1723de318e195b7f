import TaskGraph.Data.Json.Printer
import TaskGraph.Text.Quoted
import TaskGraph.Time.Duration

/-!
Typed reading of parameters. A record is read from an object, field by field in key order, or from
an array, by position; the first fault ends the reading.
-/

namespace TaskGraph.Params

/-- What a parameter should have been. -/
inductive Expected where
  | text
  | count
  | code
  | duration
  | list
  | table
  | record (name : String)
  deriving DecidableEq, Repr

def Expected.word : Expected → String
  | .text => "a string"
  | .count => "u64"
  | .code => "i32"
  | .duration => "a duration"
  | .list => "a sequence"
  | .table => "a map"
  | .record name => s!"struct {name}"

inductive Fault where
  | wrongType (found : Value) (expected : Expected)
  | wrongValue (found : Value) (expected : Expected)
  | tooMany (n : Nat)
  /-- A span that no clock can count. -/
  | overflow
  deriving DecidableEq, Repr

def ticked (s : String) : String := "\x60" ++ s ++ "\x60"

/-- A value as a message names it. -/
def described : Value → String
  | .null => "null"
  | .bool b => "boolean " ++ ticked (if b then "true" else "false")
  | .int n => "integer " ++ ticked (toString n)
  | .float d => "floating point " ++ ticked (Json.text (.float d))
  | .string s => "string " ++ Text.quoted s
  | .array _ => "sequence"
  | .object _ => "map"

def Fault.message : Fault → String
  | .wrongType found expected => s!"invalid type: {described found}, expected {expected.word}"
  | .wrongValue found expected => s!"invalid value: {described found}, expected {expected.word}"
  | .tooMany n => s!"invalid length {n}, expected fewer elements in array"
  | .overflow => "overflow in Duration::new"

abbrev Read (α : Type) := Value → Except Fault α

def text : Read String
  | .string s => .ok s
  | v => .error (.wrongType v .text)

/-- A number from 0 to 2^64-1. -/
def count : Read Nat
  | .int n => if 0 ≤ n ∧ n < Nat.pow 2 64 then .ok n.toNat else .error (.wrongValue (.int n) .count)
  | v => .error (.wrongType v .count)

/-- A number from -2^31 to 2^31-1. -/
def code : Read Int
  | .int n => if -(Nat.pow 2 31) ≤ n ∧ n < Nat.pow 2 31 then .ok n else .error (.wrongValue (.int n) .code)
  | v => .error (.wrongType v .code)

def duration : Read Duration
  | .string s =>
    match Duration.read s with
    | .ok d => .ok d
    | .error .overflow => .error .overflow
    | .error .malformed => .error (.wrongValue (.string s) .duration)
  | v => .error (.wrongType v .duration)

def optional (read : Read α) : Read (Option α)
  | .null => .ok none
  | v => (read v).map some

def list (read : Read α) : Read (List α)
  | .array items => items.mapM read
  | v => .error (.wrongType v .list)

def table (read : Read α) : Read (List (String × α))
  | .object fields => fields.mapM fun p => (read p.2).map fun a => (p.1,a)
  | v => .error (.wrongType v .table)

/-- Reads a record: `set` puts a named field into it, and what is absent keeps its default. -/
def record (name : String) (fields : List String) (default : α)
    (set : α → String → Value → Except Fault α) : Read α
  | .object given =>
    (given.filter fun p => fields.contains p.1).foldlM (fun r p => set r p.1 p.2) default
  | .array items => do
    let r ← (fields.zip items).foldlM (fun r p => set r p.1 p.2) default
    if items.length ≤ fields.length then .ok r else .error (.tooMany items.length)
  | v => .error (.wrongType v (.record name))

end TaskGraph.Params
