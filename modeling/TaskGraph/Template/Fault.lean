import TaskGraph.Template.Syntax

/-!
Why a template cannot be rendered.
-/

namespace TaskGraph.Template

inductive Cause where
  | unreadable
  | noParameter (helper name : String)
  | wrongType (helper name type shown : String)
  | joinNeedsArray
  | defaultNeedsFallback
  | envNeedsName
  | missingParam (helper : String)
  | tooFewParams (helper : String)
  | unknownLevel (level : String)
  | unknownHelper (shown : String)
  | textIndex
  | unknownDirective (shown : String)
  | partNeedsName
  | partNameNoText
  | partNeedsBody
  /-- Parts use each other without end. -/
  | endless
  /-- A pattern of a time stamp asks for a part that there is not. -/
  | brokenPattern
  deriving DecidableEq, Repr

def Cause.message : Cause → String
  | .unreadable => "Failed to parse template."
  | .noParameter helper name => s!"`{helper}` helper: Couldn't read parameter {name}"
  | .wrongType helper name type shown =>
    s!"`{helper}` helper: Couldn't convert parameter {name} to type `{type}`. It's {shown} as JSON."
  | .joinNeedsArray => "join helper requires an array"
  | .defaultNeedsFallback => "default helper requires a fallback value"
  | .envNeedsName => "env helper requires a variable name"
  | .missingParam helper => s!"Param not found for helper \"{helper}\""
  | .tooFewParams helper => s!"Insufficient params for helper \"{helper}\""
  | .unknownLevel level => s!"Unsupported logging level {level}"
  | .unknownHelper shown => s!"Helper not defined: {shown}"
  | .textIndex => "Cannot access array/vector with string index."
  | .unknownDirective shown => s!"Decorator not defined: {shown}"
  | .partNeedsName => "Param required for \"inline\""
  | .partNameNoText => "inline name must be string"
  | .partNeedsBody => "inline should have a block"
  | .endless => "Cannot include self in >"
  | .brokenPattern => "a Display implementation returned an error unexpectedly: Error"

/-- Whether the cause breaks down whoever renders, instead of being reported. -/
def Cause.isBreakdown : Cause → Bool
  | .brokenPattern => true
  | _ => false

/-- A cause, with the place of the innermost element it arose in. -/
structure Fault where
  cause : Cause
  place : Option Position := none
  deriving DecidableEq, Repr

def Fault.message (f : Fault) : String :=
  match f.place with
  | some p => s!"Error rendering \"Unnamed template\" line {p.line}, col {p.column}: {f.cause.message}"
  | none => f.cause.message

end TaskGraph.Template
