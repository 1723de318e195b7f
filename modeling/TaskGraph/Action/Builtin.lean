import TaskGraph.Action
import TaskGraph.Action.Params

/-!
Small actions for wiring and testing: one returns its parameters, one fails, one waits.
-/

namespace TaskGraph.Action

/-- A fault in the parameters of an action. The action breaks down on a span beyond counting. -/
def Fault.ofParams (action : String) : Params.Fault → Fault
  | .overflow => .collapse Params.Fault.overflow.message
  | f => .badParams action f.message

def echo : Action where
  name := "echo"
  logged := false
  check _ := .ok ()
  start use := .ended (.done use.params)

def failMessage : Params.Read String
  | .null => .ok "action failed"
  | v => Params.record "FailParams" ["message"] "action failed" (fun _ _ v => Params.text v) v

def fail : Action where
  name := "fail"
  logged := false
  check _ := .ok ()
  start use := .ended (.fault (match failMessage use.params with
    | .ok message => .failed message
    | .error f => .ofParams "fail" f))

structure SleepParams where
  duration : Option Duration
  ms : Option Nat

namespace SleepParams

def read : Params.Read SleepParams :=
  Params.record "SleepParams" ["duration","ms"] ⟨none,none⟩ fun r name v =>
    if name = "duration" then
      (Params.optional Params.duration v).map fun d => {r with duration := d}
    else (Params.optional Params.count v).map fun n => {r with ms := n}

/-- The named duration, else the milliseconds. -/
def delay? (p : SleepParams) : Option Duration :=
  match p.duration with
  | some d => some d
  | none => p.ms.map Duration.ofMillis

def read? (v : Value) : Except Fault Duration := do
  let p ← (read v).mapError (Fault.ofParams "sleep")
  match p.delay? with
  | some d => .ok d
  | none => .error (.badParams "sleep" "either 'duration' or 'ms' is required")

end SleepParams

def sleep : Action where
  name := "sleep"
  logged := false
  check v := (SleepParams.read? v).map fun _ => ()
  start use :=
    match SleepParams.read? use.params with
    | .ok d => ⟨d.wait,true,.done (.ofPairs [("slept_ms",.int (d.millis%Nat.pow 2 64))])⟩
    | .error f => .ended (.fault f)

end TaskGraph.Action
