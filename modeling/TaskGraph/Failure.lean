import TaskGraph.Data.Value
import TaskGraph.Text.Quoted
import TaskGraph.Time.Duration

/-!
Why a node failed. Failures of nested graphs are kept whole inside the failure of the node around
them.
-/

namespace TaskGraph

/-- The failure of one item of a fan-out. -/
structure ItemFailure (F : Type) where
  index : Nat
  item : Value
  failure : F
  deriving DecidableEq, Repr

inductive Failure where
  | execution (action message : String)
  | render (message : String)
  | invalidInput (message : String)
  | timeout (limit : Duration)
  | aggregate (total : Nat) (failures : List (ItemFailure Failure))
  | step (name : String) (source : Failure)
  | incomplete (terminal : List String)
  | loopCapExceeded (cap : Nat)
  | recovery (body source : Failure)
  | always (source : Failure)
  | internal (message : String)
  | cancelled
  deriving Repr

namespace Failure

instance : Inhabited Failure := ⟨.cancelled⟩

/-- The word for the kind of a failure. -/
def kind : Failure → String
  | .execution .. => "execution"
  | .render _ => "render"
  | .invalidInput _ => "invalid_input"
  | .timeout _ => "timeout"
  | .aggregate .. => "aggregate"
  | .step .. => "step"
  | .incomplete _ => "incomplete"
  | .loopCapExceeded _ => "loop_cap_exceeded"
  | .recovery .. => "recovery"
  | .always _ => "always"
  | .internal _ => "internal"
  | .cancelled => "cancelled"

def text : Failure → String
  | .execution action message => s!"Action '{action}' failed: {message}"
  | .render message => s!"Failed to render parameters: {message}"
  | .invalidInput message => s!"Invalid input: {message}"
  | .timeout limit => s!"Attempt timed out after {limit.compact}"
  | .aggregate total failures => s!"{failures.length} of {total} items failed"
  | .step name source => s!"Step '{name}' failed: " ++ text source
  | .incomplete terminal => s!"Terminal nodes did not succeed: {Text.quotedList terminal}"
  | .loopCapExceeded cap => s!"Loop condition still true after {cap} iterations"
  | .recovery _ source => "Recovery failed: " ++ text source
  | .always source => "Always block failed: " ++ text source
  | .internal message => s!"Internal executor error: {message}"
  | .cancelled => "Cancelled"

/-- A cancelled node is not attempted again. -/
def isRetryable : Failure → Bool
  | .cancelled => false
  | _ => true

/-- The steps that a failure came through, from the outside in, and the failure it started with. -/
def rootCause : Failure → List String × Failure
  | .step name source => let (path,root) := rootCause source; (name::path,root)
  | f => ([],f)

/-- What a recovery or a failure handler sees of a failure of a node. -/
def binding (f : Failure) (node : String) : Value :=
  let (path,root) := f.rootCause
  Value.ofPairs [("node",.string node),("origin",.string ("/".intercalate (node::path))),
    ("kind",.string root.kind),("message",.string root.text),("detail",.string f.text)]

end Failure

end TaskGraph
