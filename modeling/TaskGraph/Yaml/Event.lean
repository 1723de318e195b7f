import TaskGraph.Yaml.Token

/-!
The events of a document: scalars, aliases, and the starts and ends of collections. They are read
from tokens by the grammar of block and flow collections; a missing node is an empty plain scalar.
-/

namespace TaskGraph.Yaml

/-- What may stand before a node: its anchor and its tag, written out in full. -/
structure Properties where
  anchor : Option String := none
  tag : Option String := none

/-- Properties without the tag `!`, which says nothing of a scalar but that it is one. -/
def Properties.ofScalar (p : Properties) : Properties :=
  if p.tag = some "!" then { p with tag := none } else p

inductive Event where
  | alias (name : String)
  | scalar (props : Properties) (text : String) (style : Style)
  | sequenceStart (props : Properties)
  | sequenceEnd
  | mappingStart (props : Properties)
  | mappingEnd

namespace Event

def empty : Event := .scalar {} "" .plain

/-- The handles that directives of a document have defined. -/
abbrev Handles := List (String × String)

def defaultHandles : Handles := [("!","!"),("!!","tag:yaml.org,2002:")]

/-- The tag that a handle and a suffix stand for; without a handle the suffix is the whole tag. -/
def tagOf (handles : Handles) (handle suffix : String) : Option String :=
  if handle = "" then some suffix
  else ((handles ++ defaultHandles).lookup handle).map (· ++ suffix)

/-- The properties before a node, in either order. -/
def properties (handles : Handles) : List Token → Option (Properties × Bool × List Token)
  | .anchor a::.tag h s::rest => (tagOf handles h s).map fun t => (⟨some a,some t⟩,true,rest)
  | .tag h s::.anchor a::rest => (tagOf handles h s).map fun t => (⟨some a,some t⟩,true,rest)
  | .anchor a::rest => some (⟨some a,none⟩,true,rest)
  | .tag h s::rest => (tagOf handles h s).map fun t => (⟨none,some t⟩,true,rest)
  | rest => some ({},false,rest)

def endsMappingPart : List Token → Bool
  | .key::_ | .value::_ | .blockEnd::_ => true
  | _ => false

def endsSequencePart : List Token → Bool
  | .blockEntry::_ | .blockEnd::_ => true
  | _ => false

def endsIndentlessPart : List Token → Bool
  | .blockEntry::_ | .key::_ | .value::_ | .blockEnd::_ => true
  | _ => false

def endsFlowSequencePart : List Token → Bool
  | .flowEntry::_ | .flowSequenceEnd::_ => true
  | _ => false

def endsFlowMappingPart : List Token → Bool
  | .flowEntry::_ | .flowMappingEnd::_ => true
  | _ => false

def startsWithValue : List Token → Bool
  | .value::_ => true
  | _ => false

mutual

/-- A node. Block collections are read only in block context, a sequence without indentation of its
own only as a part of a mapping. -/
def node (handles : Handles) : Nat → Bool → Bool → List Token → Option (List Event × List Token)
  | 0, _, _, _ => none
  | _+1, _, _, .alias name::rest => some ([.alias name],rest)
  | fuel+1, block, indentless, tokens => do
    let (props,given,rest) ← properties handles tokens
    match rest with
    | .scalar text style::rest => some ([.scalar props.ofScalar text style],rest)
    | .flowSequenceStart::rest => do
      let (es,rest) ← flowItems handles fuel true rest
      some (.sequenceStart props::es,rest)
    | .flowMappingStart::rest => do
      let (es,rest) ← flowPairs handles fuel true rest
      some (.mappingStart props::es,rest)
    | t::tail =>
      if indentless ∧ t = .blockEntry then do
        let (es,rest) ← indentlessItems handles fuel rest
        some (.sequenceStart props::es,rest)
      else if block ∧ t = .blockSequenceStart then do
        let (es,rest) ← blockItems handles fuel tail
        some (.sequenceStart props::es,rest)
      else if block ∧ t = .blockMappingStart then do
        let (es,rest) ← blockPairs handles fuel tail
        some (.mappingStart props::es,rest)
      else if given then some ([.scalar props "" .plain],rest)
      else none
    | [] => none

/-- A node unless the part is left out. -/
def part (handles : Handles) :
    Nat → Bool → Bool → Bool → List Token → Option (List Event × List Token)
  | 0, _, _, _, _ => none
  | fuel+1, missing, block, indentless, tokens =>
    if missing then some ([.empty],tokens) else node handles fuel block indentless tokens

def blockItems (handles : Handles) : Nat → List Token → Option (List Event × List Token)
  | 0, _ => none
  | fuel+1, .blockEntry::rest => do
    let (es,rest) ← part handles fuel (endsSequencePart rest) true false rest
    let (more,rest) ← blockItems handles fuel rest
    some (es ++ more,rest)
  | _+1, .blockEnd::rest => some ([.sequenceEnd],rest)
  | _+1, _ => none

def indentlessItems (handles : Handles) : Nat → List Token → Option (List Event × List Token)
  | 0, _ => none
  | fuel+1, .blockEntry::rest => do
    let (es,rest) ← part handles fuel (endsIndentlessPart rest) true false rest
    let (more,rest) ← indentlessItems handles fuel rest
    some (es ++ more,rest)
  | _+1, rest => some ([.sequenceEnd],rest)

def blockPairs (handles : Handles) : Nat → List Token → Option (List Event × List Token)
  | 0, _ => none
  | fuel+1, .key::rest => do
    let (ks,rest) ← part handles fuel (endsMappingPart rest) true true rest
    let (vs,rest) ← blockValue handles fuel rest
    let (more,rest) ← blockPairs handles fuel rest
    some (ks ++ vs ++ more,rest)
  | _+1, .blockEnd::rest => some ([.mappingEnd],rest)
  | _+1, _ => none

def blockValue (handles : Handles) : Nat → List Token → Option (List Event × List Token)
  | 0, _ => none
  | fuel+1, .value::rest => part handles fuel (endsMappingPart rest) true true rest
  | _+1, rest => some ([.empty],rest)

/-- The items of a flow sequence and its end; the flag is set before the first. -/
def flowItems (handles : Handles) : Nat → Bool → List Token → Option (List Event × List Token)
  | 0, _, _ => none
  | _+1, _, .flowSequenceEnd::rest => some ([.sequenceEnd],rest)
  | fuel+1, true, tokens => flowItem handles fuel tokens
  | _+1, false, .flowEntry::.flowSequenceEnd::rest => some ([.sequenceEnd],rest)
  | fuel+1, false, .flowEntry::rest => flowItem handles fuel rest
  | _+1, false, _ => none

/-- An item, which may be a single pair, and what follows it. -/
def flowItem (handles : Handles) : Nat → List Token → Option (List Event × List Token)
  | 0, _ => none
  | fuel+1, .key::rest => do
    let missing := startsWithValue rest || endsFlowSequencePart rest
    let (ks,rest) ← if missing then some ([.empty],rest.drop 1) else node handles fuel false false rest
    let (vs,rest) ← match rest with
      | .value::rest => part handles fuel (endsFlowSequencePart rest) false false rest
      | rest => some ([.empty],rest)
    let (more,rest) ← flowItems handles fuel false rest
    some (.mappingStart {}::ks ++ vs ++ .mappingEnd::more,rest)
  | fuel+1, tokens => do
    let (es,rest) ← node handles fuel false false tokens
    let (more,rest) ← flowItems handles fuel false rest
    some (es ++ more,rest)

/-- The pairs of a flow mapping and its end; the flag is set before the first. -/
def flowPairs (handles : Handles) : Nat → Bool → List Token → Option (List Event × List Token)
  | 0, _, _ => none
  | _+1, _, .flowMappingEnd::rest => some ([.mappingEnd],rest)
  | fuel+1, true, tokens => flowPair handles fuel tokens
  | _+1, false, .flowEntry::.flowMappingEnd::rest => some ([.mappingEnd],rest)
  | fuel+1, false, .flowEntry::rest => flowPair handles fuel rest
  | _+1, false, _ => none

def flowPair (handles : Handles) : Nat → List Token → Option (List Event × List Token)
  | 0, _ => none
  | fuel+1, .key::rest => do
    let missing := startsWithValue rest || endsFlowMappingPart rest
    let (ks,rest) ← part handles fuel missing false false rest
    let (vs,rest) ← match rest with
      | .value::rest => part handles fuel (endsFlowMappingPart rest) false false rest
      | rest => some ([.empty],rest)
    let (more,rest) ← flowPairs handles fuel false rest
    some (ks ++ vs ++ more,rest)
  | fuel+1, tokens => do
    let (ks,rest) ← node handles fuel false false tokens
    let (more,rest) ← flowPairs handles fuel false rest
    some (ks ++ .empty::more,rest)

end

/-- The directives before a document: one version at most, which is 1.1 or 1.2, and each handle
once. -/
def directives : Bool → Handles → List Token → Option (Handles × List Token)
  | seen, handles, .versionDirective major minor::rest =>
    if seen ∨ major ≠ 1 ∨ (minor ≠ 1 ∧ minor ≠ 2) then none else directives true handles rest
  | seen, handles, .tagDirective h s::rest =>
    if (handles.lookup h).isSome then none else directives seen ((h,s)::handles) rest
  | _, handles, rest => some (handles,rest)

def endsDocument : List Token → Bool
  | .versionDirective _ _::_ | .tagDirective _ _::_ | .documentStart::_ | .documentEnd::_
  | .streamEnd::_ => true
  | _ => false

/-- The content of a document and its end. -/
def document (handles : Handles) (explicit : Bool) (tokens : List Token) :
    Option (List Event × List Token) := do
  let (es,rest) ←
    if explicit ∧ endsDocument tokens then some ([.empty],tokens)
    else node handles (4*tokens.length+8) true false tokens
  match rest with
  | .documentEnd::rest => some (es,rest)
  | rest => some (es,rest)

/-- The only document of a text: no events at all for an empty text, `none` if the text is not well
formed or holds further documents. -/
def ofTokens? (tokens : List Token) : Option (List Event) := do
  if tokens = [.streamEnd] then some []
  else
    let (handles,rest) ← directives false [] tokens
    let (es,rest) ← match rest with
      | .documentStart::rest => document handles true rest
      | rest => if rest.length = tokens.length then document handles false rest else none
    if rest.dropWhile (· = .documentEnd) = [.streamEnd] then some es else none

end Event

end TaskGraph.Yaml
