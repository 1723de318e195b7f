import TaskGraph.Engine.Player
import TaskGraph.Graph.Build

/-!
Engines: limits that are checked once, and definitions that are checked and started.
-/

namespace TaskGraph

namespace Engine

structure Config where
  /-- How many actions may be at work at once. -/
  maxConcurrent : Nat := 4
  standardPool : Nat := 1
  pools : List (String × Nat) := []
  /-- How often a loop may run if it does not say. -/
  maxIterations : Nat := standardCap
  runTimeout : Option Duration := none
  deriving DecidableEq, Repr

/-- Why a run cannot start. -/
inductive Fault where
  | noSlots
  | noIterations
  | noTime
  | pool (f : Pools.Fault)
  | invalid (faults : List Graph.Fault)
  | missing (bindings : List String)
  deriving Repr

namespace Config

/-- The first limit that leaves no room. -/
def check (c : Config) : Except Fault Unit :=
  if c.maxConcurrent = 0 then .error .noSlots
  else if c.maxIterations = 0 then .error .noIterations
  else if c.runTimeout = some .zero then .error .noTime
  else .ok ()

end Config

/-- What went wrong, as the configuration, the plan or the definition has it. -/
def Fault.detail : Fault → String
  | .noSlots => "max_concurrent must be at least 1"
  | .noIterations => "default_max_iterations must be at least 1"
  | .noTime => "run_timeout must be greater than zero"
  | .pool f => f.text
  | .invalid faults => Graph.Fault.texts faults
  | .missing bindings => "missing required bindings: " ++ ", ".intercalate bindings

def Fault.text : Fault → String
  | .missing bindings => s!"Planner error: {(Fault.missing bindings).detail}"
  | .invalid faults => s!"Validation failed: {(Fault.invalid faults).detail}"
  | f => s!"Configuration error: {f.detail}"

end Engine

/-- An engine that has room for its runs. -/
structure Engine where
  config : Engine.Config
  pools : Pools
  setting : Engine.Setting
  /-- The bindings that every run has to have. -/
  required : List String := []

namespace Engine

/-- An engine from its limits. -/
def make (config : Config) (setting : Setting) : Except Fault Engine := do
  config.check
  let pools ← (Pools.make config.standardPool config.pools).mapError .pool
  .ok { config, pools, setting }

/-- The graph of a definition, if it can be run. -/
def validate (e : Engine) (d : Definition) : Except Fault Graph :=
  (d.build e.config.maxIterations).mapError .invalid

/-- The bindings that a run starts with: given ones come before those of the definition. -/
def bindings (e : Engine) (d : Definition) (given : Fields) : Except Fault Fields :=
  let all := Fields.union d.bindings given
  match e.required.filter fun name => !all.contains name with
  | [] => .ok all
  | missing => .error (.missing missing)

/-- The world of an engine without runs. -/
def world (e : Engine) : World := { admission := .start e.pools e.config.maxConcurrent }

/-- Starts a run of a definition, and perhaps a plan to cancel it. -/
def start (e : Engine) (w : World) (d : Definition) (given : Fields) (number : Nat)
    (cancelAt : Option Duration) : Except Fault World := do
  let graph ← e.validate d
  let bindings ← e.bindings d given
  let schedule := Schedule.start graph { bindings }
  let (w,expiry) := match e.config.runTimeout with
    | none => (w,none)
    | some d => let (w,timer) := w.startTimer d; (w,some timer)
  let run : Run := {
    id := ⟨number,[]⟩, name := d.name, path := "", schedule, expiry,
    published := [(w.clock,⟨⟨number,[]⟩,schedule.statuses,false⟩)] }
  let w := { w with runs := w.runs ++ [run] }.wake (.root number)
  .ok (match cancelAt with
    | none => w
    | some d =>
      let (w,timer) := w.startTimer d
      { w with plans := w.plans ++ [(number,timer)] }.wake (.plan number))

/-- How many steps a play may take. -/
def playLimit : Nat := Nat.pow 2 62

/-- Plays a world until its runs are over. -/
def play (e : Engine) (w : World) : Play := Play.run e.setting playLimit ⟨w,[]⟩

end Engine

end TaskGraph
