import TaskGraph.Engine
import TaskGraph.Text.Number
import TaskGraph.Yaml.Typed

/-!
The configuration of the program: limits for its engine, bindings for every run, and how it logs. It
is read from a document, and variables of the environment override parts of it.
-/

namespace TaskGraph

structure Logging where
  level : String := "info"
  format : String := "pretty"
  deriving DecidableEq, Repr

structure Config where
  maxConcurrent : Nat := 4
  standardPool : Nat := 1
  pools : List (String × Nat) := []
  maxIterations : Nat := standardCap
  runTimeout : Option Duration := none
  bindings : Fields := []
  logging : Logging := {}
  deriving DecidableEq, Repr

namespace Config

open Yaml

def readLogging? (node : Node) : Option Logging := do
  let parts ← node.entries?
  some {
    level := ← parts.required? ["level"] Node.asText?
    format := ← parts.required? ["format"] Node.asText? }

/-- Reads pool sizes; of two for one tag the later counts. -/
def readPools? (node : Node) : Option (List (String × Nat)) := do
  let sizes ← (← node.entries?).mapM fun e => (e.2.asNat? (Nat.pow 2 64-1)).map fun n => (e.1,n)
  some (sizes.foldl (fun pools p => (pools.filter fun q => q.1 != p.1) ++ [p]) [])

def readVariables? (node : Node) : Option Fields := do
  let fields ← (← node.entries?).mapM fun e => e.2.value?.map fun v => (e.1,v)
  some (Fields.ofList fields)

/-- Reads a configuration; what is absent keeps its default. -/
def ofNode? (node : Node) : Option Config := do
  let parts ← node.entries?
  let standard : Config := {}
  some {
    maxConcurrent := ← parts.defaulted? ["max_concurrent_tasks"] standard.maxConcurrent
      (Node.asNat? (Nat.pow 2 64-1))
    standardPool := ← parts.defaulted? ["default_pool_size"] standard.standardPool
      (Node.asNat? (Nat.pow 2 64-1))
    pools := ← parts.defaulted? ["resource_pools"] standard.pools readPools?
    maxIterations := ← parts.defaulted? ["max_iterations"] standard.maxIterations
      (Node.asNat? (Nat.pow 2 32-1))
    runTimeout := ← parts.defaulted? ["run_timeout"] standard.runTimeout
      (Node.asOption? Node.asDuration?)
    bindings := ← parts.defaulted? ["variables"] standard.bindings readVariables?
    logging := ← parts.defaulted? ["logging"] standard.logging readLogging? }

/-- What is looked at of a document. -/
def shape : Shape :=
  .record (("logging",.ofNames ["level","format"])::["max_concurrent_tasks","default_pool_size",
    "resource_pools","max_iterations","run_timeout","variables"].map (·,.whole)) none

def parse? (text : String) : Option Config := (Node.parse? shape text).bind ofNode?

/-- A variable of the environment with a text that cannot be used. -/
structure OverrideFault where
  name : String
  text : String
  deriving DecidableEq, Repr

def OverrideFault.message (f : OverrideFault) : String := s!"Invalid {f.name} '{f.text}'"

def overrideSlots (c : Config) : Option String → Except OverrideFault Config
  | none => .ok c
  | some s =>
    match Text.unsigned? s with
    | some n => .ok { c with maxConcurrent := n }
    | none => .error ⟨"TRELLIS_MAX_CONCURRENT",s⟩

def overrideTimeout (c : Config) : Option String → Except OverrideFault Config
  | none => .ok c
  | some s =>
    match Duration.parse? s with
    | some d => .ok { c with runTimeout := some d }
    | none => .error ⟨"TRELLIS_RUN_TIMEOUT",s⟩

/-- Overrides parts by variables of the environment. -/
def override (c : Config) (lookup : String → Option String) : Except OverrideFault Config := do
  let c ← c.overrideSlots (lookup "TRELLIS_MAX_CONCURRENT")
  let logging : Logging := {
    level := (lookup "TRELLIS_LOG_LEVEL").getD c.logging.level
    format := (lookup "TRELLIS_LOG_FORMAT").getD c.logging.format }
  { c with logging }.overrideTimeout (lookup "TRELLIS_RUN_TIMEOUT")

def engine (c : Config) : Engine.Config where
  maxConcurrent := c.maxConcurrent
  standardPool := c.standardPool
  pools := c.pools
  maxIterations := c.maxIterations
  runTimeout := c.runTimeout

end Config

end TaskGraph
