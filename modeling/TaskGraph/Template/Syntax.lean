import TaskGraph.Data.Value
import TaskGraph.Text.Quoted

/-!
Templates as trees: texts, outputs, blocks with an alternative, named parts and their uses.
-/

namespace TaskGraph.Template

/-- A step of a path: the outermost scope, the scope around, a variable of a block, or a field. -/
inductive Segment where
  | root
  | up
  | own
  | field (name : String)
  deriving DecidableEq, Repr

/-- A path into what is in scope, with its written form. -/
structure Path where
  segments : List Segment
  raw : String
  deriving DecidableEq, Repr

inductive Param where
  | name (s : String)
  | path (p : Path)
  | literal (v : Value)
  /-- A call whose result is the value. -/
  | call (callee : Param) (args : List Param) (options : List (String × Param))
  deriving Repr

/-- A name with what it is applied to. -/
structure Call where
  callee : Param
  args : List Param := []
  options : List (String × Param) := []
  deriving Repr

/-- Nothing is applied, so the name may also be a value. -/
def Call.isBare (c : Call) : Bool := c.args.isEmpty && c.options.isEmpty

/-- The names that a block gives to its item and to the key of the item. -/
structure BlockNames where
  item : String
  key : Option String
  deriving Repr

structure Position where
  line : Nat
  column : Nat
  deriving DecidableEq, Repr

/-- A part of a template. What may fail has its place. -/
inductive Element where
  | text (s : String)
  | output (place : Position) (call : Call)
  | block (place : Position) (call : Call) (names : Option BlockNames) (body : List Element)
    (alternative : Option (List Element))
  /-- Keeps a body for later use. -/
  | define (place : Position) (call : Call) (body : Option (List Element))
  /-- Uses a kept body, or its own if none is kept. -/
  | use (place : Position) (call : Call) (indent : Option String) (body : Option (List Element))
  | comment
  deriving Repr

abbrev Body := List Element

namespace Param

/-- The name as written, for a name or a path. -/
def rawName? : Param → Option String
  | .name s => some s
  | .path p => some p.raw
  | _ => none

end Param

namespace Path

/-- The level and the name of a variable of a block. -/
def ownVariable? (p : Path) : Option (Nat × String) :=
  match p.segments with
  | .own::rest =>
    let ups := rest.takeWhile (· == .up)
    match rest.dropWhile (· == .up) with
    | .field name::_ => some (ups.length,name)
    | _ => none
  | _ => none

end Path

namespace Segment

def describe : Segment → String
  | .root => "Ruled(path_root)"
  | .up => "Ruled(path_up)"
  | .own => "Ruled(path_local)"
  | .field name => s!"Named({Text.quoted name})"

end Segment

/-- How a message shows a callee that is not known. -/
def Param.describe : Param → String
  | .name s => s!"Name({Text.quoted s})"
  | .path p =>
    match p.ownVariable? with
    | some (level,field) =>
      s!"Path(Local(({level}, {Text.quoted field}, {Text.quoted p.raw})))"
    | none =>
      let segments := ", ".intercalate (p.segments.map Segment.describe)
      s!"Path(Relative(([{segments}], {Text.quoted p.raw})))"
  | .literal _ => "Literal"
  | .call .. => "Subexpression"

end TaskGraph.Template
