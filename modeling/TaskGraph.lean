import TaskGraph.Action.Probe
import TaskGraph.Admission
import TaskGraph.CommandLine.Session
import TaskGraph.Data.Truth
import TaskGraph.Definition.Wire
import TaskGraph.Engine
import TaskGraph.Graph.Build
import TaskGraph.Main
import TaskGraph.Record.Wire
import TaskGraph.RunResult.Wire
import TaskGraph.Scope
import TaskGraph.Template
import TaskGraph.Proofs.Dependency
import TaskGraph.Proofs.Graph.Acyclic
import TaskGraph.Proofs.Graph.Sound
import TaskGraph.Proofs.Graph.Built
import TaskGraph.Proofs.Schedule.Table
import TaskGraph.Proofs.Schedule.Pass
import TaskGraph.Proofs.Schedule.Run
import TaskGraph.Proofs.Schedule.Completion
import TaskGraph.Proofs.Graph.Evaluation
import TaskGraph.Proofs.Graph.Knots
import TaskGraph.Proofs.Graph.Nesting
import TaskGraph.Proofs.Schedule.Dispatch
import TaskGraph.Proofs.Schedule.Verdict
import TaskGraph.Proofs.Admission.Ledger
import TaskGraph.Proofs.Admission.Balance
import TaskGraph.Proofs.Admission.Turns
import TaskGraph.Proofs.Admission.Settling
import TaskGraph.Proofs.Admission.Scan
import TaskGraph.Proofs.Admission.Standing
import TaskGraph.Proofs.Engine.World
import TaskGraph.Proofs.Engine.Deed
import TaskGraph.Proofs.Engine.Task
import TaskGraph.Proofs.Engine.Coherent
import TaskGraph.Proofs.Engine.RunTurn
import TaskGraph.Proofs.Engine.TaskTurn
import TaskGraph.Proofs.Engine.Reach
import TaskGraph.Proofs.Engine.Fading
import TaskGraph.Proofs.Engine.Share
import TaskGraph.Proofs.Engine.Effort
import TaskGraph.Proofs.Engine.Aftermath
import TaskGraph.Proofs.Engine.Progress
import TaskGraph.Proofs.Engine.Cancellation
import TaskGraph.Proofs.Engine.Playing
import TaskGraph.Proofs.Engine.Enclosed
import TaskGraph.Proofs.Engine.Holding
import TaskGraph.Proofs.Engine.Scene
import TaskGraph.Proofs.Engine.Waiting
import TaskGraph.Proofs.Engine.Crossing
import TaskGraph.Proofs.Graph.Grounded
import TaskGraph.Proofs.Graph.Intact
import TaskGraph.Proofs.Schedule.Routing
import TaskGraph.Proofs.Schedule.Skipping
import TaskGraph.Proofs.Admission.Slots
import TaskGraph.Proofs.Admission.Bystanders
import TaskGraph.Proofs.Admission.Lasting
import TaskGraph.Proofs.Engine.Dealing
import TaskGraph.Proofs.Engine.Returning
import TaskGraph.Proofs.Engine.Manning
import TaskGraph.Proofs.Engine.Capacity
import TaskGraph.Proofs.Engine.Courses
import TaskGraph.Proofs.Engine.Letters
import TaskGraph.Proofs.Engine.Knowing
import TaskGraph.Proofs.Engine.Correspondence
import TaskGraph.Proofs.Schedule.Stamps
import TaskGraph.Proofs.Engine.Traces
import TaskGraph.Proofs.Engine.Exclusion
import TaskGraph.Proofs.Engine.Watching
import TaskGraph.Proofs.Schedule.Scopes
import TaskGraph.Proofs.Engine.Views
import TaskGraph.Proofs.Graph.Causes
import TaskGraph.Proofs.Schedule.Agreement
import TaskGraph.Proofs.Graph.CycleSearch
import TaskGraph.Proofs.Definition.Places
import TaskGraph.Proofs.Graph.TagOrder
import TaskGraph.Proofs.Data.Ordered
import TaskGraph.Proofs.Text.Digits
import TaskGraph.Proofs.Data.Json.Reading
import TaskGraph.Proofs.Time.Duration
import TaskGraph.Proofs.Failure
import TaskGraph.Proofs.Record
import TaskGraph.Proofs.RunResult
import TaskGraph.Proofs.Yaml.Written
import TaskGraph.Proofs.Yaml.Parts
import TaskGraph.Proofs.Definition.Legible
import TaskGraph.Proofs.Definition.Written
import TaskGraph.Proofs.Definition.Lineup
import TaskGraph.Proofs.Graph.Origin
import TaskGraph.Proofs.Graph.Terminal
import TaskGraph.Proofs.Graph.Conditions
import TaskGraph.Proofs.Graph.Order
import TaskGraph.Proofs.Graph.Chart
import TaskGraph.Proofs.Definition.EmptyGroups
import TaskGraph.Proofs.Dependency.Outlook
import TaskGraph.Proofs.Dependency.Reading
import TaskGraph.Proofs.Engine.Sequel
import TaskGraph.Proofs.Engine.Enacting
import TaskGraph.Proofs.Engine.Diary
import TaskGraph.Proofs.Engine.Life
import TaskGraph.Proofs.Engine.Story
import TaskGraph.Proofs.Engine.Retrying
import TaskGraph.Proofs.Engine.Results
import TaskGraph.Proofs.Engine.Lifetime
import TaskGraph.Proofs.Engine.Handling
import TaskGraph.Proofs.Engine.Guarding
import TaskGraph.Proofs.Engine.Apart
import TaskGraph.Proofs.Engine.Fanning
import TaskGraph.Proofs.Engine.Looping
import TaskGraph.Proofs.Engine.Stopping
import TaskGraph.Proofs.Engine.Heeding
import TaskGraph.Proofs.Graph.Row
import TaskGraph.Proofs.Schedule.Walk
import TaskGraph.Proofs.Schedule.Sequence
import TaskGraph.Proofs.Schedule.Cascade
import TaskGraph.Proofs.Record.Lifecycle
import TaskGraph.Proofs.Template.Naming
import TaskGraph.Proofs.Template.Shape
import TaskGraph.Proofs.Template.Items
