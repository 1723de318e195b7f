import TaskGraph.Template.Helper
import TaskGraph.Template.Layout

/-!
Rendering a template against a value.
-/

namespace TaskGraph.Template

/-- What does not change within a level of rendering. -/
structure Setting where
  world : Surroundings
  root : Value
  blocks : List BlockScope := [{}]
  /-- The bodies of the uses around, the innermost first, and how many of them are passed over. -/
  outerBodies : List Body := []
  depth : Nat := 0
  indent : String := ""

namespace Setting

def enter (s : Setting) (block : BlockScope) : Setting := { s with blocks := block::s.blocks }

mutual

/-- What a parameter stands for. -/
def expand (s : Setting) : Param → Except Cause Found
  | .name _ => .ok .absent
  | .path p => lookup s.root s.blocks p
  | .literal v => .ok { value := v }
  | .call callee args options => do
    let name ← nameOf s callee
    let found ← expandAll s args
    let named ← expandOptions s options
    match (Helper.call? s.world name found named).or (Helper.bodiless? name found) with
    | some result => do .ok { value := (← result).asValue }
    | none => .error (.unknownHelper callee.describe)

def expandAll (s : Setting) : List Param → Except Cause (List Found)
  | [] => .ok []
  | p::ps => do .ok ((← expand s p)::(← expandAll s ps))

def expandOptions (s : Setting) : List (String × Param) → Except Cause (List (String × Found))
  | [] => .ok []
  | (name,p)::ps => do .ok ((name,← expand s p)::(← expandOptions s ps))

/-- The name that a callee stands for. -/
def nameOf (s : Setting) : Param → Except Cause String
  | .name name => .ok name
  | .path p => .ok p.raw
  | .literal v => .ok v.shown
  | .call callee args options => do .ok (← expand s (.call callee args options)).value.shown

end

/-- A text whose later lines get the indent of the current part. -/
def indented (s : Setting) (text : String) : String :=
  let rec go : List Char → List Char
    | [] => []
    | [c] => [c]
    | c::rest => if c = '\n' then c::s.indent.toList ++ go rest else c::go rest
  if s.indent.isEmpty then text else String.ofList (go text.toList)

end Setting

/-- The scope that a block opens for a value. -/
def BlockScope.ofFound (f : Found) : BlockScope :=
  match f.path with
  | some path => { path }
  | none => { value := some f.value }

/-- The scope for an item of a collection. -/
def BlockScope.ofItem (collection : Found) (names : Option BlockNames) (step : String)
    (keyName : String) (key item : Value) (first last : Bool) : BlockScope :=
  let marks := [("first",.bool first),("last",.bool last),(keyName,key)]
  let base : BlockScope := match collection.path with
    | some path => { path := path ++ [step], marks }
    | none => { value := some item, marks }
  match names with
  | none => base
  | some { item := itemName, key := keyAlias } =>
    let own := if collection.path.isSome then none else some item
    { base with names := (keyAlias.map fun k => (k,some key)).toList ++ [(itemName,own)] }

/-- The name that marks the body of the use around. -/
def outerBodyName : String := "@partial-block"

/-- The parts that have been kept, by name. -/
abbrev Parts := List (String × Body)

/-- The scopes for the items of a collection; `none` for a value without items. -/
def itemScopes (f : Found) (names : Option BlockNames) : Option (List BlockScope) :=
  match f.value with
  | .array items =>
    some <| items.mapIdx fun n v =>
      .ofItem f names (toString n) "index" (.int n) v (n == 0) (n+1 == items.length)
  | .object fields =>
    some <| fields.mapIdx fun n (k,v) =>
      .ofItem f names k "key" (.string k) v (n == 0) (n+1 == fields.length)
  | _ => none

/-- The setting in which a kept body is rendered. A part of the root that is given to it is its only
scope. Options are put over the fields of the current value, and hide the blocks around as well. -/
def partSetting (s : Setting) (isOuter : Bool) (own : Option Body) (args : List Found)
    (options : List (String × Found)) (indent : Option String) : Except Cause Setting := do
  let s := { s with
    depth := if isOuter then s.depth+1 else s.depth-1
    indent := indent.getD "" }
  let s := match args.head?.bind Found.path with
    | some path => { s with blocks := [{ path }] }
    | none => s
  let s ← if options.isEmpty then .ok s
    else do
      let block : BlockScope := s.blocks.headD {}
      let fields := match (← inBlock s.root block []).value with
        | .object fields => fields
        | _ => []
      let value := some (.object (Fields.union fields (options.map fun (k,f) => (k,f.value))))
      .ok { s with blocks := [{ block with value }] }
  .ok { s with outerBodies := own.toList ++ s.outerBodies }

/-- Registers a body under the name given as a parameter. -/
def keepPart (s : Setting) (parts : Parts) (call : Call) (body : Option Body) :
    Except Cause Parts := do
  let name ← s.nameOf call.callee
  let args ← s.expandAll call.args
  if name != "inline" then .error (.unknownDirective call.callee.describe)
  else
    let some f := args.head? | .error .partNeedsName
    let some part := f.value.asString? | .error .partNameNoText
    let some body := body | .error .partNeedsBody
    .ok ((part,body)::parts)

/-- Keeps the parts that a body defines, without rendering it. -/
def keepParts (s : Setting) (parts : Parts) : Body → Except Fault Parts
  | [] => .ok parts
  | .define place call body::rest => do
    let parts ← (keepPart s parts call body).mapError fun c => ⟨c,some place⟩
    keepParts s parts rest
  | _::rest => keepParts s parts rest

def atPlace (place : Position) (x : Except Cause α) : Except Fault α :=
  x.mapError fun cause => ⟨cause,some place⟩

/-- Renders parts in turn; each sees the bodies that the ones before have kept. -/
def inTurn (one : Parts → α → Except Fault (Parts × String)) :
    Parts → List α → Except Fault (Parts × String)
  | parts, [] => .ok (parts,"")
  | parts, x::xs => do
    let (parts,text) ← one parts x
    let (parts,more) ← inTurn one parts xs
    .ok (parts,text ++ more)

/-- Applies a function, with the body and the alternative that it may render. -/
def apply (render : Setting → Parts → Body → Except Fault (Parts × String)) (s : Setting)
    (parts : Parts) (place : Position) (call : Call) (names : Option BlockNames)
    (body alternative : Option Body) : Except Fault (Parts × String) := do
  let name ← atPlace place (s.nameOf call.callee)
  let args ← atPlace place (s.expandAll call.args)
  let options ← atPlace place (s.expandOptions call.options)
  let orNothing (s : Setting) (body : Option Body) : Except Fault (Parts × String) :=
    match body with
    | some body => render s parts body
    | none => .ok (parts,"")
  match Helper.call? s.world name args options with
  | some result => do .ok (parts,(← atPlace place result).text)
  | none =>
    if !Helper.blockNames.contains name then
      .error ⟨.unknownHelper (Text.quoted name),some place⟩
    else if name == "raw" then orNothing s body
    else match args.head? with
      | none => .error ⟨.missingParam (if name == "unless" then "if" else name),some place⟩
      | some found =>
        match name with
        | "if" | "unless" =>
          let zero := ((options.lookup "includeZero").map Found.value) == some (.bool true)
          let chosen := Helper.isTrue zero found.value != (name == "unless")
          orNothing s (if chosen then body else alternative)
        | "with" =>
          if Helper.isTrue false found.value then
            let block := BlockScope.ofFound found
            let own := if found.path.isSome then none else some found.value
            let block := match names with
              | some { item, key := none } => { block with names := [(item,own)] }
              | _ => block
            orNothing (s.enter block) body
          else orNothing s alternative
        | _ =>
          match body, itemScopes found names with
          | none, _ => .ok (parts,"")
          | some body, some (scope::scopes) =>
            inTurn (fun parts scope => render (s.enter scope) parts body) parts (scope::scopes)
          | some _, _ => orNothing s alternative

/-- Renders an element. The first argument bounds how deep bodies are entered. -/
def renderElement : Nat → Setting → Parts → Element → Except Fault (Parts × String)
  | 0, _, _, _ => .error ⟨.endless,none⟩
  | n+1, s, parts, e =>
    let render (s : Setting) (parts : Parts) (body : Body) : Except Fault (Parts × String) :=
      inTurn (renderElement n s) parts body
    match e with
    | .text t => .ok (parts,s.indented t)
    | .comment => .ok (parts,"")
    | .output place call => do
      let name ← atPlace place (s.nameOf call.callee)
      if call.isBare && !Helper.isKnown s.world name then
        let found ← atPlace place (s.expand call.callee)
        .ok (parts,if found.missing then "" else s.indented found.value.shown)
      else apply render s parts place call none none none
    | .block place call names body alternative =>
      apply render s parts place call names (some body) alternative
    | .define place call body => do .ok (← atPlace place (keepPart s parts call body),"")
    | .use place call indent body => do
      let name ← atPlace place (s.nameOf call.callee)
      let args ← atPlace place (s.expandAll call.args)
      let options ← atPlace place (s.expandOptions call.options)
      let parts ← match body with
        | some body => keepParts s parts body
        | none => .ok parts
      let isOuter := name == outerBodyName
      let kept := if isOuter then s.outerBodies[s.depth]? else parts.lookup name
      match kept.or body with
      | none => .ok (parts,"")
      | some part => do
        let inner ← atPlace place (partSetting s isOuter body args options indent)
        let (_,text) ← render inner parts part
        .ok (parts,text)

/-- How deep bodies are entered at most: as deep as a template nests them, for each level of the
value it is rendered against. -/
def depthFor (text : String) (root : Value) : Nat := (text.length+2)*(root.height+2)

/-- Renders a template text against a value. -/
def renderText (world : Surroundings) (text : String) (root : Value) : Except Fault String := do
  let some body := parse? text | .error ⟨.unreadable,none⟩
  let s : Setting := { world, root }
  .ok (← inTurn (renderElement (depthFor text root) s) [] body).2

end TaskGraph.Template
