import Mathlib.Data.Nat.Basic
/-!
# Backoff — the retry driver shared by the reconnecting tasks

`backoff.rs`: `run_with_backoff` runs attempts until one is done, its failure asks for no retry, or the wait before the next
attempt is aborted.  Durations are in seconds.
-/
namespace Ferrowl.Backoff

structure BackoffPolicy where
  initial : Nat
  max : Nat

def BackoffPolicy.default : BackoffPolicy := ⟨1, 30⟩

/-- How an attempt ended.  `reset` tells that something useful happened before it failed. -/
inductive AttemptOutcome (E : Type) where
  | done
  | failed (error : E) (reconnect reset : Bool)

def BackoffPolicy.afterAttempt {E : Type} (policy : BackoffPolicy) (backoff : Nat) :
    AttemptOutcome E → Except E Unit ⊕ Nat
  | .done => .inl (.ok ())
  | .failed error reconnect reset =>
    if !reconnect then .inl (.error error)
    else .inr (if reset then policy.initial else backoff)

def BackoffPolicy.afterWait (policy : BackoffPolicy) (backoff : Nat) : Nat := min (backoff * 2) policy.max

end Ferrowl.Backoff
