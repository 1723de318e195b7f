import TaskGraph.Failure
import TaskGraph.Status
import TaskGraph.Time.Instant

/-!
What is known of a node in a run: its state, and its result, its failure or the reason why it was
skipped. A record ends once; what comes later leaves it as it is.
-/

namespace TaskGraph

/-- Why a node was skipped: a branch chose other targets, its dependency became false without any
failure, or something it depends on failed, was cancelled or was itself blocked. -/
inductive SkipReason where
  | branchNotTaken (branch : String)
  | deadPath (dependencies : List String)
  | blocked (dependencies : List String)
  deriving DecidableEq, Repr

/-- Skips that belong to the routing and do not follow from a failure. -/
def SkipReason.isByDesign : SkipReason → Bool
  | .blocked _ => false
  | _ => true

/-- The word for a reason. -/
def SkipReason.word : SkipReason → String
  | .branchNotTaken _ => "branch_not_taken"
  | .deadPath _ => "dead_path"
  | .blocked _ => "blocked"

structure Record where
  node : String
  kind : String
  status : Status := .pending
  result : Option Value := none
  failure : Option Failure := none
  skipReason : Option SkipReason := none
  attempts : Nat := 0
  started : Option Instant := none
  finished : Option Instant := none
  deriving Inhabited, Repr

namespace Record

/-- A waiting record runs from a time on. The second part tells whether the record has changed. -/
def start (r : Record) (time : Instant) : Record × Bool :=
  if r.status = .pending then ({ r with status := .running, started := some time },true)
  else (r,false)

/-- Ends a record that has not ended, and changes it further. -/
def finish (r : Record) (status : Status) (now : Instant) (change : Record → Record) :
    Record × Bool :=
  if r.status.isTerminal then (r,false)
  else (change { r with status, finished := some now },true)

def succeed (r : Record) (now : Instant) (result : Value) (attempts : Nat) : Record × Bool :=
  r.finish .success now fun r => { r with result := some result, attempts }

def fail (r : Record) (now : Instant) (failure : Failure) (attempts : Nat) : Record × Bool :=
  r.finish .failed now fun r => { r with failure := some failure, attempts }

def skip (r : Record) (now : Instant) (reason : SkipReason) : Record × Bool :=
  r.finish .skipped now fun r => { r with skipReason := some reason }

def cancel (r : Record) (now : Instant) (attempts : Nat) : Record × Bool :=
  r.finish .cancelled now fun r => { r with failure := some .cancelled, attempts }

/-- Sets the time of the end, which is never before the start. -/
def stampFinished (r : Record) (time : Instant) : Record :=
  let ended := match r.started with
    | some start => if time.isBefore start then start else time
    | none => time
  { r with finished := some ended }

def duration? (r : Record) : Option Duration := do (← r.started).since? (← r.finished)

def isSuccessful (r : Record) : Bool := r.status == .success

def isBlocked (r : Record) : Bool :=
  match r.skipReason with
  | some (.blocked _) => true
  | _ => false

/-- Success, or skipped by design. -/
def isAcceptable (r : Record) : Bool :=
  match r.status with
  | .success => true
  | .skipped => (r.skipReason.map SkipReason.isByDesign).getD false
  | _ => false

end Record

end TaskGraph
