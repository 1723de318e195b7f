import TaskGraph.Data.Double
import TaskGraph.Time.Duration

/-!
How often a node is attempted, and how long it waits in between.
-/

namespace TaskGraph

structure RetryPolicy where
  maxAttempts : Nat
  initialDelay : Duration
  multiplier : Double
  maxDelay : Duration
  deriving DecidableEq, Repr

namespace RetryPolicy

def standardMaxDelay : Duration := .ofSecs 300

/-- A single attempt. -/
def once : RetryPolicy := ⟨1,.zero,.one,standardMaxDelay⟩

instance : Inhabited RetryPolicy := ⟨once⟩

def fixedDelay (maxAttempts : Nat) (delay : Duration) : RetryPolicy :=
  ⟨maxAttempts,delay,.one,delay⟩

/-- The wait after a failed attempt, the first being 1: whole milliseconds that grow by the
multiplier with each attempt, up to the greatest delay. -/
def delayAfter (policy : RetryPolicy) (attempt : Nat) : Duration :=
  let growth := policy.multiplier.powNat (Nat.min (attempt-1) (Nat.pow 2 31-1))
  let millis := (Double.ofNat policy.initialDelay.millis).mul growth
  if !millis.isFinite || (Double.ofNat policy.maxDelay.millis).toFloat ≤ millis.toFloat then
    policy.maxDelay
  else .ofMillis millis.toFloat.toUInt64.toNat

def shouldRetry (policy : RetryPolicy) (attempt : Nat) : Bool := attempt < policy.maxAttempts

end RetryPolicy

end TaskGraph
