import TaskGraph.Definition
import TaskGraph.Dependency.Wire
import TaskGraph.Yaml.Reader

/-!
The written form of definitions: `toTree` writes, the `of…?` functions read. The outer parts of a
definition and of its nodes are read straight from the document, all that lies deeper from plain
trees. A missing part takes its standard value, a part given twice is a fault, unknown parts are
passed over.
-/

namespace TaskGraph

open Yaml

def greatestCount : Nat := Nat.pow 2 32-1

namespace Targets

def toTree : Targets → Tree
  | .one id => .string id
  | .many ids => Tree.ofStrings ids

def ofTree? : Tree → Option Targets
  | .string id => some (.one id)
  | .list items => (items.mapM Tree.asString?).map .many
  | _ => none

end Targets

namespace ArmDefinition

def partNames : List String := ["when","target"]

def toTree (arm : ArmDefinition) : Tree :=
  Tree.ofFields [("when",.ofValue arm.condition),("target",arm.targets.toTree)]

/-- The second part is also called `then`; by its place it is the second all the same. -/
def ofTree? (tree : Tree) : Option ArmDefinition := do
  let entries ← tree.record? partNames
  let condition ← entries.required? ["when"] Tree.value?
  let targets ← entries.required? ["target","then"] Targets.ofTree?
  some ⟨condition,targets⟩

end ArmDefinition

namespace RetrySettings

def partNames : List String := ["max_attempts","delay","backoff_multiplier","max_delay"]

/-- The parts of a policy, with the other name of one. -/
def shape : Shape := .ofNames ("initial_delay"::partNames)

def durationTree (d : Duration) : Tree := .string d.spoken

def toTree (r : RetrySettings) : Tree :=
  Tree.ofFields ([("max_attempts",.int r.maxAttempts),("delay",durationTree r.delay),
    ("backoff_multiplier",.float r.multiplier)]
    ++ (r.maxDelay.map fun d => ("max_delay",durationTree d)).toList)

def read? (r : Reader α) (x : α) : Option RetrySettings := do
  let entries ← r.record? partNames x
  let maxAttempts ← entries.defaulted? ["max_attempts"] 3 (r.nat? greatestCount)
  let delay ← entries.defaulted? ["delay","initial_delay"] (.ofSecs 1) r.duration?
  let multiplier ← entries.defaulted? ["backoff_multiplier"] .one r.double?
  let maxDelay ← entries.optional? ["max_delay"] (r.option? r.duration?)
  some ⟨maxAttempts,delay,multiplier,maxDelay⟩

end RetrySettings

namespace KindDefinition

/-- The kinds in the order in which a number may stand for one, with their other names. -/
def kindNames : List (List String) := [["action"],["sequence"],["parallel_for_each","for_each"],
  ["conditional_loop","loop"],["branch"],["guarded"]]

/-- The kind that a tag names. -/
def ofTag? : Tree → Option String
  | .string s => (kindNames.find? fun names => names.contains s).bind List.head?
  | .int (.ofNat n) => kindNames[n]?.bind List.head?
  | _ => none

/-- The entry that tells the kind. -/
def isTag (e : Tree × Tree) : Bool :=
  match e.1 with
  | .string s => s == "type"
  | _ => false

/-- The parts of a kind besides its tag. -/
def ofParts? (nested? : Tree → Option Nested) (entries : List (Tree × Tree)) (kind : String) :
    Option (KindDefinition Nested) :=
  let optionalNested (names : List String) (parts : Entries Tree) : Option (Option Nested) :=
    parts.optional? names (Tree.asOption? nested?)
  match kind with
  | "action" => do
    let parts ← Tree.keyed? ["action","params"] entries
    some (.action (← parts.required? ["action"] Tree.asString?)
      (← parts.defaulted? ["params"] .null Tree.value?))
  | "sequence" => do
    let parts ← Tree.keyed? ["steps"] entries
    some (.sequence (← parts.required? ["steps"] nested?))
  | "parallel_for_each" => do
    let parts ← Tree.keyed? ["items","as","template"] entries
    some (.forEach (← parts.required? ["items"] Tree.value?)
      (← parts.defaulted? ["as","item_name"] "item" Tree.asString?)
      (← parts.required? ["template"] nested?))
  | "conditional_loop" => do
    let parts ← Tree.keyed? ["condition","max_iterations","body"] entries
    some (.loop (← parts.required? ["condition"] Tree.value?)
      (← parts.optional? ["max_iterations"] (Tree.asOption? (Tree.asNat? greatestCount)))
      (← parts.required? ["body"] nested?))
  | "branch" => do
    let parts ← Tree.keyed? ["branches","default"] entries
    some (.branch (← parts.required? ["branches"] (Tree.asList? ArmDefinition.ofTree?))
      (← parts.optional? ["default"] (Tree.asOption? Targets.ofTree?)))
  | _ => do
    let parts ← Tree.keyed? ["body","recovery","always"] entries
    some (.guarded (← parts.required? ["body"] nested?)
      (← optionalNested ["recovery"] parts) (← optionalNested ["always"] parts))

/-- A kind from the entries of a node. -/
def ofEntries? (nested? : Tree → Option Nested) (entries : List (Tree × Tree)) :
    Option (KindDefinition Nested) :=
  match entries.filter isTag with
  | [(_,tag)] => (ofTag? tag).bind (ofParts? nested? (entries.filter fun e => !isTag e))
  | _ => none

def optionalField (name : String) (write : α → Tree) (x : Option α) : List (String × Tree) :=
  (x.map fun x => (name,write x)).toList

end KindDefinition

namespace NodeDefinition

open KindDefinition (optionalField)

/-- The parts that every node may have, whatever its kind. -/
def sharedNames : List String :=
  ["description","depends_on","resources","retry","retry_config","timeout","on_failure"]

/-- Reads a node from its shared parts and the entries of its kind. -/
def read? (r : Reader α) (nested? : Tree → Option Nested) (shared : Entries α)
    (kindEntries : List (Tree × Tree)) : Option (NodeDefinition Nested) := do
  let description ← shared.optional? ["description"] (r.option? r.text?)
  let dependsOn ← shared.optional? ["depends_on"]
    (r.option? fun x => (r.tree? x).bind Dependency.ofTree?)
  let resources ← shared.defaulted? ["resources"] [] r.texts?
  let retry ← shared.optional? ["retry","retry_config"] (r.option? (RetrySettings.read? r))
  let timeout ← shared.optional? ["timeout"] (r.option? r.duration?)
  let onFailure ← shared.optional? ["on_failure"] (r.option? fun x => (r.tree? x).bind nested?)
  let kind ← KindDefinition.ofEntries? nested? kindEntries
  some { description, kind, dependsOn, resources, retry, timeout, onFailure }

/-- Reads a node from a plain tree, which has to be a map. -/
def ofEntries? (nested? : Tree → Option Nested) (entries : List (Tree × Tree)) :
    Option (NodeDefinition Nested) :=
  let isShared (e : Tree × Tree) : Bool := match e.1 with
    | .string s => sharedNames.contains s
    | _ => false
  let shared := entries.filterMap fun e => match e.1 with
    | .string s => if sharedNames.contains s then some (s,e.2) else none
    | _ => none
  read? .trees nested? shared (entries.filter fun e => !isShared e)

def ofTree? (nested? : Tree → Option Nested) : Tree → Option (NodeDefinition Nested)
  | .map entries => ofEntries? nested? entries
  | _ => none

/-- What is looked at of a node of the outermost graph: all, but of its retry policy only the parts
that count. -/
def shape : Shape :=
  .record [("retry",RetrySettings.shape),("retry_config",RetrySettings.shape)] (some .whole)

/-- Reads a node of the outermost graph. -/
def ofNode? (nested? : Tree → Option Nested) (node : Node) :
    Option (NodeDefinition Nested) := do
  match node with
  | .mapping _ _ => do
    let entries ← node.entries?
    let isShared (e : String × Node) : Bool := sharedNames.contains e.1
    let rest ← (entries.filter fun e => !isShared e).mapM fun e =>
      e.2.tree?.map fun t => (Tree.string e.1,t)
    read? .nodes nested? (entries.filter isShared) rest
  | _ => none

end NodeDefinition

namespace Block

/-- A step is a node that also has an `id`. -/
def stepOfTree? (nested? : Tree → Option Block) : Tree → Option NamedNode
  | .map entries => do
    let isId (e : Tree × Tree) : Bool := match e.1 with
      | .string s => s == "id"
      | _ => false
    match entries.filter isId with
    | [(_,id)] => do
      some (← id.asString?,← NodeDefinition.ofEntries? nested? (entries.filter fun e => !isId e))
    | _ => none
  | _ => none

/-- Puts a node under its id: the later of two with one id takes the place of the earlier. -/
def insertNode (node : NamedNode) (nodes : List NamedNode) : List NamedNode :=
  if nodes.any (·.1 == node.1) then nodes.map fun m => if m.1 = node.1 then node else m
  else nodes ++ [node]

def collectNodes (nodes : List NamedNode) : List NamedNode :=
  nodes.foldl (fun nodes node => insertNode node nodes) []

def nodesOfTree? (nested? : Tree → Option Block) : Tree → Option (List NamedNode)
  | .map entries => do
    let nodes ← entries.mapM fun e => do
      some (← e.1.asString?,← NodeDefinition.ofTree? nested? e.2)
    some (collectNodes nodes)
  | _ => none

/-- Reads a block with fewer than `n` blocks inside each other. -/
def ofTreeWithin? : Nat → Tree → Option Block
  | 0, _ => none
  | n+1, tree =>
    match tree with
    | .list items => (items.mapM (stepOfTree? (ofTreeWithin? n))).map .steps
    | .map entries => do
      let parts ← Tree.keyed? ["nodes","terminal_nodes"] entries
      let nodes ← parts.required? ["nodes"] (nodesOfTree? (ofTreeWithin? n))
      let terminal ← parts.optional? ["terminal_nodes"]
        (Tree.asOption? (Tree.asList? Tree.asString?))
      some (.graph nodes terminal)
    | _ => none

def ofTree? (tree : Tree) : Option Block := ofTreeWithin? (tree.height+1) tree

end Block

open KindDefinition (optionalField)

mutual

def Block.toTree : Block → Tree
  | .steps steps => .list (stepTrees steps)
  | .graph nodes terminal =>
    Tree.ofFields ([("nodes",Tree.ofFields (nodeTrees nodes))]
      ++ optionalField "terminal_nodes" Tree.ofStrings terminal)

def stepTrees : List NamedNode → List Tree
  | [] => []
  | (id,node)::rest => Tree.ofFields (("id",.string id)::nodeFields node)::stepTrees rest

def nodeTrees : List NamedNode → List (String × Tree)
  | [] => []
  | (id,node)::rest => (id,Tree.ofFields (nodeFields node))::nodeTrees rest

def nodeFields : NodeDefinition Block → List (String × Tree)
  | ⟨description,kind,dependsOn,resources,retry,timeout,onFailure⟩ =>
    optionalField "description" .string description
      ++ kindFields kind
      ++ optionalField "depends_on" Dependency.toTree dependsOn
      ++ (if resources.isEmpty then [] else [("resources",Tree.ofStrings resources)])
      ++ optionalField "retry" RetrySettings.toTree retry
      ++ optionalField "timeout" RetrySettings.durationTree timeout
      ++ nestedField "on_failure" onFailure

def kindFields : KindDefinition Block → List (String × Tree)
  | .action name params =>
    [("type",.string "action"),("action",.string name),("params",.ofValue params)]
  | .sequence steps => [("type",.string "sequence"),("steps",steps.toTree)]
  | .forEach items binding template =>
    [("type",.string "parallel_for_each"),("items",.ofValue items),("as",.string binding),
      ("template",template.toTree)]
  | .loop condition cap body =>
    [("type",.string "conditional_loop"),("condition",.ofValue condition),
      ("max_iterations",(cap.map fun n => .int n).getD .null),("body",body.toTree)]
  | .branch arms fallback =>
    [("type",.string "branch"),("branches",.list (arms.map ArmDefinition.toTree))]
      ++ optionalField "default" Targets.toTree fallback
  | .guarded body recovery always =>
    [("type",.string "guarded"),("body",body.toTree)]
      ++ nestedField "recovery" recovery ++ nestedField "always" always

def nestedField (name : String) : Option Block → List (String × Tree)
  | none => []
  | some block => [(name,block.toTree)]

end

namespace Definition

def toTree (d : Definition) : Tree :=
  Tree.ofFields ([("name",.string d.name)]
    ++ optionalField "description" .string d.description
    ++ [("variables",.map (Tree.ofValueFields d.bindings))]
    ++ (if d.nodes.isEmpty then [] else [("nodes",Tree.ofFields (nodeTrees d.nodes))])
    ++ optionalField "steps" (fun steps => Tree.list (stepTrees steps)) d.steps
    ++ optionalField "terminal_nodes" Tree.ofStrings d.terminal)

/-- A step of the outermost list: its id is any scalar. -/
def stepOfNode? : Node → Option NamedNode
  | .mapping tagged raw => do
    let entries ← (Node.mapping tagged raw).entries?
    let id ← entries.required? ["id"] Node.asText?
    let rest ← (entries.filter fun e => e.1 != "id").mapM fun e =>
      e.2.tree?.map fun t => (Tree.string e.1,t)
    some (id,← NodeDefinition.ofEntries? Block.ofTree? rest)
  | _ => none

/-- What is looked at of a document. -/
def shape : Shape :=
  .record (("nodes",.record [] (some NodeDefinition.shape))
    ::["name","description","variables","steps","terminal_nodes"].map (·,.whole)) none

/-- Reads a definition from a document, without the check of its form. -/
def ofNode? (node : Node) : Option Definition := do
  let parts ← node.entries?
  let readNode (e : String × Node) : Option NamedNode :=
    (NodeDefinition.ofNode? Block.ofTree? e.2).map fun d => (e.1,d)
  let names := Node.asOption? (Node.asList? Node.asText?)
  let name ← parts.required? ["name"] Node.asText?
  let description ← parts.optional? ["description"] (Node.asOption? Node.asText?)
  let bindings ← parts.defaulted? ["variables"] [] fun n => do
    let fields ← (← n.entries?).mapM fun e => e.2.value?.map fun v => (e.1,v)
    some (Fields.ofList fields)
  let nodes ← parts.defaulted? ["nodes"] [] fun n => do
    some (Block.collectNodes (← (← n.entries?).mapM readNode))
  let steps ← parts.optional? ["steps"] (Node.asOption? (Node.asList? stepOfNode?))
  let terminal ← parts.optional? ["terminal_nodes"] names
  some { name, description, bindings, nodes, steps, terminal }

/-- Reads a text as a definition. -/
def parse (text : String) : Except Fault Definition :=
  match (Node.parse? shape text).bind ofNode? with
  | none => .error .malformed
  | some d => d.check

/-- Writing a definition out and reading it again. What is nested too deep is written but not read. -/
def reread (d : Definition) : Except Fault Definition :=
  let tree := d.toTree
  match if tree.height ≤ Node.levels then ofNode? (Node.ofTree tree) else none with
  | none => .error .malformed
  | some d => d.check

end Definition

end TaskGraph
