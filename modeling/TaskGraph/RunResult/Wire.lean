import TaskGraph.Data.Json.Pretty
import TaskGraph.Data.Json.Reader
import TaskGraph.Record.Wire
import TaskGraph.RunResult

/-!
The written form of the outcome of a run. The nodes keep their order.
-/

namespace TaskGraph

def Summary.toValue (s : Summary) : Value :=
  .ofPairs [("total_nodes",.int s.total),("succeeded",.int s.succeeded),("failed",.int s.failed),
    ("skipped",.int s.skipped),("blocked",.int s.blocked),("cancelled",.int s.cancelled),
    ("success_rate",.float s.successRate)]

namespace RunResult

/-- The text that is written for a run with an id of its own, between two times. -/
def pretty (r : RunResult) (runId : String) (start finish : Instant) : String :=
  Json.prettyObject 0 [
    ("run_id",Json.quotedText runId),
    ("name",Json.quotedText r.name),
    ("status",Json.quotedText r.status.text),
    ("started_at",Json.quotedText start.text),
    ("finished_at",Json.quotedText finish.text),
    ("nodes",Json.prettyObject 1 (r.records.map fun rec => (rec.node,Json.pretty 2 rec.toValue))),
    ("terminal_nodes",Json.pretty 1 (.ofStrings r.terminal)),
    ("summary",Json.pretty 1 r.summary.toValue)]

/-- A record after it was written and read again. Two brackets are open around the records, and what
is nested too deep is written but not read. -/
def rereadRecord? (rec : Record) : Option Record :=
  let v := rec.toValue
  if v.height+2 < Json.depthLimit then Record.ofValue? v else none

/-- The outcome after its records were written and read again. -/
def reread? (r : RunResult) : Option RunResult := do
  let records ← r.records.mapM rereadRecord?
  some { r with records }

end RunResult

end TaskGraph
