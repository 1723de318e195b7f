import TaskGraph.Action.Command
import TaskGraph.Text.Number

/-!
Actions for watching a run: they log their use, wait, fail, break down or give up as they are told.
-/

namespace TaskGraph.Action

/-- A number, or a text that reads as one, else zero. -/
def number (v : Option Value) : Nat :=
  match v with
  | some (.int n) => if 0 ≤ n ∧ n < Nat.pow 2 64 then n.toNat else 0
  | some (.string s) => (Text.unsigned? (Text.trim s)).getD 0
  | _ => 0

def isYes : Option Value → Bool
  | some (.bool b) => b
  | some (.string s) => Text.trim s == "true"
  | _ => false

def track : Action where
  name := "track"
  logged := true
  check _ := .ok ()
  start use :=
    let wait := number (use.params.field? "ms")
    let outcome : Outcome :=
      if isYes (use.params.field? "fail") then .fault (.failed s!"{use.node} was told to fail")
      else .done ((use.params.field? "return").getD
        (.ofPairs [("node",.string use.node),("params",use.params)]))
    ⟨min wait Duration.longestWait,0 < wait,outcome⟩

def flaky : Action where
  name := "flaky"
  logged := true
  check _ := .ok ()
  start use :=
    if use.uses ≤ number (use.params.field? "failures") then
      .ended (.fault (.failed s!"transient failure {use.uses}"))
    else .ended (.done (.ofPairs [("attempt",.int use.attempt),("call",.int use.uses)]))

def collapse : Action where
  name := "panic"
  logged := false
  check _ := .ok ()
  start use := .ended (.fault <| .collapse (match use.params.field? "message" with
    | some (.string s) => s
    | _ => "no message"))

def giveUp : Action where
  name := "give_up"
  logged := false
  check _ := .ok ()
  start _ := .ended (.fault .cancelled)

def double : Action where
  name := "double"
  logged := false
  check _ := .ok ()
  start use := .ofExcept (match (use.params.field? "n").bind Value.asSigned? with
    | some n => .ok (.int (Int.bmod (2*n) (Nat.pow 2 64)))
    | none => .error (.badParams "double" "n must be an integer"))

def probes : Actions := [track,flaky,collapse,giveUp,double]

end TaskGraph.Action
