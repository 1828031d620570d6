import Mathlib.Algebra.Order.Ring.Nat
import Ferrowl.Backoff
/-!
# BackoffWaits — the waits of the retry driver

The delay is a state that doubles up to a cap and falls back on a failure flagged `reset`; in closed form the failure that is the
`j`th after the start or the last flagged one waits `min max (initial * 2 ^ j)` (`BackoffPolicy.expected`).

Durations are counted in nanoseconds here.
-/
namespace Ferrowl.Backoff

def durationMax : Nat := (2 ^ 64 - 1) * 10 ^ 9 + 999999999

inductive End (E : Type) where
  | returned (result : Except E Unit)
  | panicked

/-- The waits the driver asked for, and its end; without one the next attempt is under way. -/
@[ext]
structure Driven (E : Type) where
  waits : List Nat
  ended : Option (End E)

section
variable {E : Type}

namespace BackoffPolicy

/-- The loop of `run_with_backoff`, fed with the outcome of each attempt and whether the wait after it is aborted. -/
def drive (policy : BackoffPolicy) : Nat → List (AttemptOutcome E × Bool) → Driven E
  | _, [] => ⟨[], none⟩
  | backoff, (outcome, aborted) :: steps =>
    match policy.afterAttempt backoff outcome with
    | .inl result => ⟨[], some (.returned result)⟩
    | .inr wait =>
      if aborted then ⟨[wait], some (.returned (.ok ()))⟩
      -- the doubling of a `Duration`
      else if durationMax < wait * 2 then ⟨[wait], some .panicked⟩
      else
        let rest := policy.drive (policy.afterWait wait) steps
        ⟨wait :: rest.waits, rest.ended⟩

def runWithBackoff (policy : BackoffPolicy) (steps : List (AttemptOutcome E × Bool)) : Driven E :=
  policy.drive policy.initial steps

def waitAfter (policy : BackoffPolicy) (j : Nat) : Nat := min policy.max (policy.initial * 2 ^ j)

/-- **What the driver is for**: the waits in closed form, success after `done` or an aborted wait, and the error of a failure
that asks for no retry. -/
def expected (policy : BackoffPolicy) : Nat → List (AttemptOutcome E × Bool) → Driven E
  | _, [] => ⟨[], none⟩
  | _, (.done, _) :: _ => ⟨[], some (.returned (.ok ()))⟩
  | j, (.failed error reconnect reset, aborted) :: steps =>
    let j := if reset then 0 else j
    if !reconnect then ⟨[], some (.returned (.error error))⟩
    else if aborted then ⟨[policy.waitAfter j], some (.returned (.ok ()))⟩
    else
      let rest := policy.expected (j + 1) steps
      ⟨policy.waitAfter j :: rest.waits, rest.ended⟩

end BackoffPolicy

end

section
variable {policy : BackoffPolicy}

theorem waitAfter_zero (hle : policy.initial ≤ policy.max) : policy.waitAfter 0 = policy.initial := by
  rw [BackoffPolicy.waitAfter, pow_zero, Nat.mul_one, Nat.min_eq_right hle]

theorem afterWait_waitAfter (j : Nat) : policy.afterWait (policy.waitAfter j) = policy.waitAfter (j + 1) := by
  unfold BackoffPolicy.afterWait BackoffPolicy.waitAfter
  rw [pow_succ, ← Nat.mul_assoc]
  omega

/-- **As long as every wait can be doubled the driver keeps to the closed form.** -/
theorem drive_eq_expected {E : Type} (hle : policy.initial ≤ policy.max)
    (hfit : ∀ j, policy.waitAfter j * 2 ≤ durationMax) : ∀ (steps : List (AttemptOutcome E × Bool)) (j : Nat),
    policy.drive (policy.waitAfter j) steps = policy.expected j steps
  | [], _ => rfl
  | (.done, _) :: _, _ => rfl
  | (.failed error reconnect reset, aborted) :: steps, j => by
    have hwait : (if reset = true then policy.initial else policy.waitAfter j) =
        policy.waitAfter (if reset = true then 0 else j) := by
      cases reset with
      | true => exact (waitAfter_zero hle).symm
      | false => rfl
    unfold BackoffPolicy.drive BackoffPolicy.expected BackoffPolicy.afterAttempt
    cases reconnect with
    | false => rfl
    | true =>
      simp only [Bool.not_true, Bool.false_eq_true, if_false]
      rw [hwait]
      cases aborted with
      | true => rfl
      | false =>
        simp only [Bool.false_eq_true, if_false]
        rw [if_neg (Nat.not_lt.2 (hfit _)), afterWait_waitAfter, drive_eq_expected hle hfit steps]

def retried : AttemptOutcome Unit × Bool := (.failed () true false, false)

theorem drive_retried (j : Nat) (steps : List (AttemptOutcome Unit × Bool)) :
    policy.drive (policy.waitAfter j) (retried :: steps) =
      if durationMax < policy.waitAfter j * 2 then ⟨[policy.waitAfter j], some .panicked⟩
      else ⟨policy.waitAfter j :: (policy.drive (policy.waitAfter (j + 1)) steps).waits,
        (policy.drive (policy.waitAfter (j + 1)) steps).ended⟩ := by
  rw [← afterWait_waitAfter]
  rfl

theorem expected_retried (j : Nat) (steps : List (AttemptOutcome Unit × Bool)) : policy.expected j (retried :: steps) =
      ⟨policy.waitAfter j :: (policy.expected (j + 1) steps).waits, (policy.expected (j + 1) steps).ended⟩ := rfl

theorem expected_ended : ∀ (n j : Nat), (policy.expected j (List.replicate n retried)).ended = none
  | 0, _ => rfl
  | n + 1, j => by
    rw [List.replicate_succ, expected_retried]
    exact expected_ended n (j + 1)

theorem waits_fit_of_eq : ∀ (n j : Nat), policy.drive (policy.waitAfter j) (List.replicate (n + 1) retried) =
      policy.expected j (List.replicate (n + 1) retried) → policy.waitAfter (j + n) * 2 ≤ durationMax
  | n, j, h => by
    rw [List.replicate_succ, drive_retried, expected_retried] at h
    by_cases hover : durationMax < policy.waitAfter j * 2
    · rw [if_pos hover] at h
      have hended := congrArg Driven.ended h
      rw [expected_ended] at hended
      cases hended
    rw [if_neg hover] at h
    obtain ⟨hwaits, hended⟩ := Driven.mk.inj h
    cases n with
    | zero => exact Nat.not_lt.1 hover
    | succ n =>
      rw [Nat.add_succ, ← Nat.succ_add]
      refine waits_fit_of_eq n (j + 1) ?_
      exact Driven.ext (List.cons.inj hwaits).2 hended

end

/-- **The reconnect backoff** keeps to its closed form, for all sequences of outcomes and waits, exactly when the initial delay
is zero or twice the cap is still a `Duration`. -/
theorem backoff_exact_iff (policy : BackoffPolicy) (hle : policy.initial ≤ policy.max) :
    (∀ (E : Type) (steps : List (AttemptOutcome E × Bool)), policy.runWithBackoff steps = policy.expected 0 steps) ↔
      policy.initial = 0 ∨ 2 * policy.max ≤ durationMax := by
  have hstart : ∀ (E : Type) (steps : List (AttemptOutcome E × Bool)),
      policy.runWithBackoff steps = policy.drive (policy.waitAfter 0) steps := by
    intro E steps
    rw [waitAfter_zero hle]
    rfl
  constructor
  · intro h
    by_contra hno
    obtain ⟨hpos, hbig⟩ := not_or.1 hno
    -- after enough failures the wait is the cap
    have hcap : policy.waitAfter policy.max = policy.max := by
      refine Nat.min_eq_left ?_
      calc policy.max ≤ 2 ^ policy.max := Nat.le_of_lt Nat.lt_two_pow_self
        _ = 1 * 2 ^ policy.max := (Nat.one_mul _).symm
        _ ≤ policy.initial * 2 ^ policy.max := Nat.mul_le_mul_right _ (Nat.pos_of_ne_zero hpos)
    have hfit := waits_fit_of_eq policy.max 0 ((hstart Unit _).symm.trans (h Unit _))
    rw [Nat.zero_add, hcap] at hfit
    omega
  · intro hcond E steps
    rw [hstart]
    refine drive_eq_expected hle (fun j => ?_) steps 0
    rcases hcond with hzero | hmax
    · rw [BackoffPolicy.waitAfter, hzero, Nat.zero_mul, Nat.min_zero]
      decide
    · have hwait : policy.waitAfter j ≤ policy.max := Nat.min_le_left _ _
      omega

/-- The default policy, one second to thirty. -/
theorem default_backoff_exact : (∀ (E : Type) (steps : List (AttemptOutcome E × Bool)),
      BackoffPolicy.runWithBackoff ⟨10 ^ 9, 30 * 10 ^ 9⟩ steps = BackoffPolicy.expected ⟨10 ^ 9, 30 * 10 ^ 9⟩ 0 steps) ↔
      10 ^ 9 = 0 ∨ 2 * (30 * 10 ^ 9) ≤ durationMax :=
  backoff_exact_iff ⟨10 ^ 9, 30 * 10 ^ 9⟩ (by decide)

/-- **A policy the driver panics on**: the longest delay there is, which goes by once. -/
theorem longest_delay_panics : (BackoffPolicy.runWithBackoff ⟨durationMax, durationMax⟩ [retried]).ended = some .panicked ∧
      (BackoffPolicy.expected ⟨durationMax, durationMax⟩ 0 [retried]).ended = none := by
  constructor
  · rfl
  · rfl

end Ferrowl.Backoff
