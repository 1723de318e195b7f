/-!
The states a node goes through. A node waits, runs, and ends in one of four ways.
-/

namespace TaskGraph

inductive Status where
  | pending
  | running
  | success
  | failed
  | skipped
  | cancelled
  deriving DecidableEq, Inhabited, Repr

namespace Status

/-- Whether a node in this state has ended. -/
def isTerminal : Status → Bool
  | .pending | .running => false
  | _ => true

def text : Status → String
  | .pending => "pending"
  | .running => "running"
  | .success => "success"
  | .failed => "failed"
  | .skipped => "skipped"
  | .cancelled => "cancelled"

def all : List Status := [.pending,.running,.success,.failed,.skipped,.cancelled]

def parse? (s : String) : Option Status := all.find? fun t => t.text == s

theorem parse?_text (s : Status) : parse? s.text = some s := by cases s <;> decide

end Status

end TaskGraph
