import Ferrowl.CodecText
import Ferrowl.DiffNav
/-!
# DiffCounts — counts before `j` and `k`

A count is summed up digit by digit, and `j` and `k` take it for the number of their steps.  Only `1` to `9` are digits here: a
`0`, also one within a count, scrolls to the left edge and leaves the count as it is.
-/
namespace Ferrowl.Ui.DiffView.DiffViewState

open List

open Codec (decimal)
open Modbus (hexChar numeral digitsOf numeral_digitsOf)

def typed (text : List Char) : List (KeyModifiers × KeyCode) := text.map fun c => (.NONE, .char c)

def stepKey (down : Bool) : KeyModifiers × KeyCode := (.NONE, .char (if down then 'j' else 'k'))

theorem press_digit (s : DiffViewState) {d : Nat} (hpos : 0 < d) (hlt : d < 10) : s.press (.NONE, .char (hexChar d)) =
      { s with pending := none, pendingCount := some ((s.pendingCount.getD 0 * 10 + d) % 2 ^ 64) } := by
  interval_cases d <;> rfl

theorem press_stepKey (s : DiffViewState) (down : Bool) :
    s.press (stepKey down) = (fun t => stepDisplayOrLogical t down)^[max (s.pendingCount.getD 1) 1]
      { s with pending := none, pendingCount := none } := by
  cases down <;> rfl

theorem foldl_digits_mod (bound : Nat) : ∀ (ds : List Nat) (a : Nat),
    ds.foldl (fun a d => a * 10 + d) (a % bound) % bound = ds.foldl (fun a d => a * 10 + d) a % bound
  | [], a => Nat.mod_mod a bound
  | d :: ds, a => by
    rw [foldl_cons, foldl_cons, ← foldl_digits_mod bound ds (a % bound * 10 + d), ← foldl_digits_mod bound ds (a * 10 + d)]
    have hstep : (a % bound * 10 + d) % bound = (a * 10 + d) % bound := ((Nat.mod_modEq a bound).mul_right 10).add_right d
    rw [hstep]

theorem type_digits : ∀ {ds : List Nat}, ds ≠ [] → (∀ d ∈ ds, 0 < d ∧ d < 10) → ∀ s : DiffViewState,
    (typed (ds.map hexChar)).foldl press s =
      { s with pending := none, pendingCount := some (ds.foldl (fun a d => a * 10 + d) (s.pendingCount.getD 0) % 2 ^ 64) }
  | [], hne, _, _ => absurd rfl hne
  | [d], _, hd, s => s.press_digit (hd d mem_cons_self).1 (hd d mem_cons_self).2
  | d :: e :: ds, _, hd, s => by
    have ih := type_digits (cons_ne_nil e ds) (fun x hx => hd x (mem_cons_of_mem d hx))
      (s.press (.NONE, .char (hexChar d)))
    have hcons : (typed ((d :: e :: ds).map hexChar)).foldl press s =
        (typed ((e :: ds).map hexChar)).foldl press (s.press (.NONE, .char (hexChar d))) := rfl
    rw [hcons, ih, s.press_digit (hd d mem_cons_self).1 (hd d mem_cons_self).2, Option.getD_some, foldl_digits_mod]
    rfl

theorem iterate_step_eq (down : Bool) : ∀ (n : Nat) (s : DiffViewState),
    ∃ row offset, (fun t => stepDisplayOrLogical t down)^[n] s = { s with activeRow := row, scrollOffset := offset }
  | 0, s => ⟨s.activeRow, s.scrollOffset, rfl⟩
  | n + 1, s => by
    obtain ⟨row, offset, hstep⟩ := s.stepDisplayOrLogical_eq down
    obtain ⟨row', offset', hrest⟩ := iterate_step_eq down n { s with activeRow := row, scrollOffset := offset }
    refine ⟨row', offset', ?_⟩
    rw [Function.iterate_succ_apply, hstep, hrest]

theorem press_replicate (down : Bool) {s : DiffViewState} (hcount : s.pendingCount = none) : ∀ n : Nat,
    (List.replicate (n + 1) (stepKey down)).foldl press s =
      (fun t => stepDisplayOrLogical t down)^[n + 1] { s with pending := none, pendingCount := none }
  | 0 => by
    rw [replicate_one, foldl_cons, foldl_nil, press_stepKey, hcount]
    rfl
  | n + 1 => by
    obtain ⟨row, offset, hsteps⟩ := iterate_step_eq down (n + 1) { s with pending := none, pendingCount := none }
    rw [replicate_succ', foldl_append, press_replicate down hcount n, foldl_cons, foldl_nil,
      Function.iterate_succ_apply' _ (n + 1), hsteps, press_stepKey]
    rfl

def tenLines : DiffViewState :=
  (buildWithDiff {} "@@ -1,10 +1,10 @@\n a\n a\n a\n a\n a\n a\n a\n a\n a\n a\n".toList).rendered ⟨20, 10, 10, 20, []⟩

end Ferrowl.Ui.DiffView.DiffViewState
