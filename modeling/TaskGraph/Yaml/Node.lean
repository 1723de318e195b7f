import TaskGraph.Yaml.Scalar
import TaskGraph.Yaml.Token.Lexer

/-!
Documents as trees, as far as they are looked at. Aliases are replaced by what they stand for, within
limits on the nesting and on the number of replacements; parts that nobody looks at do not count.
-/

namespace TaskGraph.Yaml

inductive Node where
  | scalar (s : Scalar)
  | sequence (tagged : Bool) (items : List Node)
  | mapping (tagged : Bool) (entries : List (Node × Node))
  /-- The document of an empty text. -/
  | nothing
  deriving Inhabited, Repr

/-- Which parts of a document are looked at: all of them, or of mappings the parts with some names.
Parts with other names are looked at by a shape that they share, or not at all. -/
inductive Shape where
  | whole
  | record (parts : List (String × Shape)) (other : Option Shape)

namespace Shape

/-- A record of which the named parts are looked at, and they wholly. -/
def ofNames (names : List String) : Shape := .record (names.map (·,.whole)) none

/-- How a part is looked at; `none` if it is passed over. -/
def part? : Shape → String → Option Shape
  | .whole, _ => some .whole
  | .record parts other, name => (parts.lookup name).or other

end Shape

namespace Node

/-- The text of any scalar. -/
def asText? : Node → Option String
  | .scalar s => some s.text
  | _ => none

/-- Where the nodes with anchors start. An anchor gets the number of distinct names before it; of
two anchors with one number the later counts. -/
structure Anchors where
  numbers : List (String × Nat)
  places : List (Nat × Nat)

def Anchors.declare (a : Anchors) (props : Properties) (place : Nat) : Anchors :=
  match props.anchor with
  | none => a
  | some name =>
    let n := a.numbers.length
    ⟨(name,n)::a.numbers.filter (·.1 ≠ name),(n,place)::a.places⟩

/-- The events with every alias replaced by its number; `none` for an alias without an anchor. -/
def numberAliases : List Event → Nat → Anchors → Option (List (Event ⊕ Nat) × Anchors)
  | [], _, a => some ([],a)
  | .alias name::es, i, a => do
    let n ← a.numbers.lookup name
    let (rest,final) ← numberAliases es (i+1) a
    some (.inr n::rest,final)
  | e::es, i, a => do
    let a := match e with
      | .scalar props _ _ | .sequenceStart props | .mappingStart props => a.declare props i
      | _ => a
    let (rest,final) ← numberAliases es (i+1) a
    some (.inl e::rest,final)

/-- How many collections may lie inside each other. -/
def levels : Nat := 128

/-- The place after the node at a place that lies in some number of open collections. -/
def placeAfter (events : Array (Event ⊕ Nat)) : Nat → Nat → Nat → Option Nat
  | 0, _, _ => none
  | fuel+1, opened, i =>
    let opened := match events[i]? with
      | some (.inl (.sequenceStart _)) | some (.inl (.mappingStart _)) => opened+1
      | some (.inl .sequenceEnd) | some (.inl .mappingEnd) => opened-1
      | _ => opened
    if opened = 0 then some (i+1) else placeAfter events fuel opened (i+1)

mutual

/-- The node at a place as a shape looks at it, the place after it, and how many more aliases may be
followed. The second argument bounds the nesting. -/
def build (events : Array (Event ⊕ Nat)) (places : List (Nat × Nat)) :
    Nat → Nat → Shape → Nat → Nat → Option (Node × Nat × Nat)
  | 0, _, _, _, _ => none
  | fuel+1, depth, shape, i, jumps =>
    match events[i]?, jumps, depth with
    | some (.inr n), jumps+1, _ => do
      let (node,_,jumps) ← build events places fuel depth shape (← places.lookup n) jumps
      some (node,i+1,jumps)
    | some (.inl (.scalar props text style)), _, _ =>
      some (.scalar (Scalar.ofText text style props.tag),i+1,jumps)
    | some (.inl (.sequenceStart props)), _, depth+1 => do
      let (items,i,jumps) ← buildItems events places fuel depth (i+1) jumps
      some (.sequence (Scalar.isApplicationTag props.tag) items,i,jumps)
    | some (.inl (.mappingStart props)), _, depth+1 => do
      let (entries,i,jumps) ← buildEntries events places fuel depth shape (i+1) jumps
      some (.mapping (Scalar.isApplicationTag props.tag) entries,i,jumps)
    | _, _, _ => none

def buildItems (events : Array (Event ⊕ Nat)) (places : List (Nat × Nat)) :
    Nat → Nat → Nat → Nat → Option (List Node × Nat × Nat)
  | 0, _, _, _ => none
  | fuel+1, depth, i, jumps =>
    match events[i]? with
    | some (.inl .sequenceEnd) => some ([],i+1,jumps)
    | _ => do
      let (node,i,jumps) ← build events places fuel depth .whole i jumps
      let (items,i,jumps) ← buildItems events places fuel depth i jumps
      some (node::items,i,jumps)

/-- The entries of a mapping without those that are passed over. -/
def buildEntries (events : Array (Event ⊕ Nat)) (places : List (Nat × Nat)) :
    Nat → Nat → Shape → Nat → Nat → Option (List (Node × Node) × Nat × Nat)
  | 0, _, _, _, _ => none
  | fuel+1, depth, shape, i, jumps =>
    match events[i]? with
    | some (.inl .mappingEnd) => some ([],i+1,jumps)
    | _ => do
      let (key,i,jumps) ← build events places fuel depth .whole i jumps
      let valueShape := match key.asText? with
        | some name => shape.part? name
        | none => some .whole
      match valueShape with
      | some valueShape => do
        let (value,i,jumps) ← build events places fuel depth valueShape i jumps
        let (entries,i,jumps) ← buildEntries events places fuel depth shape i jumps
        some ((key,value)::entries,i,jumps)
      | none => buildEntries events places fuel depth shape (← placeAfter events fuel 0 i) jumps

end

/-- The tree of a document. Each event may be reached through a hundred aliases on average. -/
def ofEvents? (shape : Shape) (events : List Event) : Option Node := do
  if events.isEmpty then some .nothing
  else
    let (events,anchors) ← numberAliases events 0 ⟨[],[]⟩
    let n := events.length
    let (node,_,_) ← build events.toArray anchors.places (200*n+400) levels shape 0 (100*n)
    some node

/-- Reads a text as one document, as far as a shape looks at it. -/
def parse? (shape : Shape) (s : String) : Option Node := do
  ofEvents? shape (← Event.ofTokens? (← tokens? s))

/-- The scalar for a text that is read back as a string. -/
def ofString (s : String) : Node := .scalar { text := s, atom := .string, style := .quoted }

def null : Node := .scalar { text := "null", atom := .null, style := .plain }

def ofBool (b : Bool) : Node :=
  .scalar { text := if b then "true" else "false", atom := .bool b, style := .plain }

def ofInt (n : Int) : Node := .scalar { text := toString n, atom := .int n, style := .plain }

def ofDouble (d : Double) : Node :=
  let text :=
    if d.isFinite then DecimalStyle.data.render d
    else if d.isNaN then ".nan"
    else if d.isNegative then "-.inf" else ".inf"
  .scalar { text, atom := .float d, style := .plain }

def ofItems (items : List Node) : Node := .sequence false items

def ofStrings (names : List String) : Node := ofItems (names.map ofString)

/-- A mapping with texts as keys. -/
def ofFields (fields : List (String × Node)) : Node :=
  .mapping false (fields.map fun f => (ofString f.1,f.2))

end Node

end TaskGraph.Yaml
