import TaskGraph.Graph
import TaskGraph.Graph.Fault
import TaskGraph.RunResult

/-!
What the program prints about graphs and runs.
-/

namespace TaskGraph.CommandLine.Report

def version : String := "trellis 0.1.0"

def recordLine (r : Record) : String :=
  let detail := match r.status with
    | .failed => (r.failure.map fun f => " - " ++ f.text).getD ""
    | .skipped => (r.skipReason.map fun s => s!" ({s.word})").getD ""
    | _ => ""
  let attempts := if 1 < r.attempts then s!" after {r.attempts} attempts" else ""
  s!"{r.node} [{r.kind}]: {r.status.text}" ++ detail ++ attempts

/-- Seconds with one decimal place. -/
def seconds (millis : Nat) : String :=
  let tenths := (millis+50)/100
  s!"{tenths/10}.{tenths%10}s"

def summaryLine (s : Summary) : String :=
  s!"  {s.succeeded} succeeded, {s.failed} failed, {s.skipped} skipped, {s.blocked} blocked, "
    ++ s!"{s.cancelled} cancelled"

/-- The outcome of a run that took some milliseconds. -/
def run (r : RunResult) (millis : Nat) : List String :=
  [s!"Run '{r.name}' completed with status: {r.status.text} ({seconds millis})"]
    ++ r.records.map (fun rec => "  " ++ recordLine rec)
    ++ [summaryLine r.summary]

def dryRun (name : String) (g : Graph) : List String :=
  [s!"✓ Dry run: '{name}' is valid ({g.total} nodes, terminal: "
    ++ ", ".intercalate g.terminal ++ ")"]

def valid (name : String) (g : Graph) (bindings : Nat) : List String :=
  [s!"✓ Task definition '{name}' is valid", s!"  Nodes: {g.total}",
    "  Terminal nodes: " ++ ", ".intercalate g.terminal, s!"  Variables: {bindings}"]

def invalid (name : String) (faults : List Graph.Fault) : List String :=
  s!"✗ Task definition '{name}' is invalid"::faults.map fun f => "  - " ++ f.text

end TaskGraph.CommandLine.Report
