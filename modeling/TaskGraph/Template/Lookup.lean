import TaskGraph.Template.Fault

/-!
What is in scope while a template is rendered: the root value and the blocks around the current
place, the innermost first.
-/

namespace TaskGraph.Template

/-- The part of the root that a block has made current, or a value of its own; the marks it sets;
and the names it gives, to values or to the current part itself. -/
structure BlockScope where
  path : List String := []
  value : Option Value := none
  marks : List (String × Value) := []
  names : List (String × Option Value) := []

/-- What a parameter stands for: its value, and the path from the root to it if it is a part of the
root. -/
structure Found where
  value : Value
  path : Option (List String) := none
  missing : Bool := false

def Found.absent : Found := ⟨.null,none,true⟩

/-- A place in an array. -/
def index? (s : String) : Option Nat :=
  let ds := match s.toList with
    | '+'::ds => ds
    | ds => ds
  if ds.isEmpty || !ds.all Char.isDigit then none
  else
    let n := ds.foldl (fun n c => n*10+(c.toNat-48)) 0
    if n < Nat.pow 2 64 then some n else none

/-- Follows field names and places of arrays. -/
def descend : List String → Option Value → Except Cause (Option Value)
  | [], v => .ok v
  | name::rest, v => do
    let next ← match v with
      | some (.array items) =>
        match index? name with
        | some n => .ok items[n]?
        | none => .error .textIndex
      | some (.object fields) => .ok (Fields.get? name fields)
      | _ => .ok none
    descend rest next

def fieldNames (segments : List Segment) : List String :=
  segments.filterMap fun
    | .field name => some name
    | _ => none

/-- The innermost block that gives a name, with what it stands for. -/
def named? (blocks : List BlockScope) (name : String) : Option (BlockScope × Option Value) :=
  blocks.findSome? fun b => (b.names.lookup name).map fun v => (b,v)

def inValue (v : Value) (names : List String) : Except Cause Found := do
  match ← descend names (some v) with
  | some v => .ok { value := v }
  | none => .ok .absent

def inRoot (root : Value) (names : List String) : Except Cause Found := do
  match ← descend names (some root) with
  | some v => .ok { value := v, path := some names }
  | none => .ok .absent

/-- Follows names from what a block has made current. -/
def inBlock (root : Value) (block : Option BlockScope) (names : List String) :
    Except Cause Found :=
  match block with
  | some { value := some v, .. } => inValue v names
  | some b => inRoot root (b.path ++ names)
  | none => inRoot root names

/-- What a path stands for. A step up beyond the outermost block stays in the innermost. A name that
a block has given takes the place of the first step of a path, also where that is a step up. -/
def lookup (root : Value) (blocks : List BlockScope) (p : Path) : Except Cause Found :=
  match p.ownVariable? with
  | some (level,name) =>
    match blocks[level]?.bind fun b => b.marks.lookup name with
    | some v => .ok { value := v }
    | none => .ok .absent
  | none =>
    let names := fieldNames p.segments
    let ups := (p.segments.takeWhile (· == .up)).length
    let given := match p.segments.dropWhile (· == .up) with
      | .field name::_ =>
        (named? blocks name).map fun found => (found,fieldNames (p.segments.drop 1))
      | _ => none
    match given with
    | some ((_,some v),rest) => inValue v rest
    | some ((b,none),rest) => inRoot root (b.path ++ rest)
    | none =>
      if 0 < ups then inBlock root (blocks[ups]?.or blocks.head?) names
      else if p.segments.head? == some .root then inRoot root names
      else inBlock root blocks.head? names

end TaskGraph.Template
