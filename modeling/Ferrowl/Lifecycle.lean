import Ferrowl.Client
import Mathlib.Logic.Relation
/-!
# Lifecycle — pending operations and the tasks they wait for

A command that has to stop a network task signals it, leaves what is to follow in the view's pending slot and lets a later refresh
settle it.  Seen from outside (`Standing`) a view has a pending operation or not and its backend stands in one of three phases.
-/
namespace Ferrowl.Lifecycle

open Modbus (Level)

structure Task where
  finished : Bool
  told : Bool
  deriving DecidableEq, Repr

def Task.fresh : Task := ⟨false, false⟩

structure ToldTask extends Task where
  isTold : told = true
  deriving DecidableEq, Repr

def Task.tell (t : Task) : ToldTask := ⟨{ t with told := true }, rfl⟩

def Task.ended (t : Task) : Task := { t with finished := true }

def ToldTask.ended (t : ToldTask) : ToldTask := ⟨t.toTask.ended, t.isTold⟩

inductive Joined (E : Type) where
  | ended (result : Except E Unit)
  | cancelled
  | panicked

def Joined.result {E : Type} (cancelFailed : E) : Joined E → Except E Unit
  | .ended result => result
  | .cancelled => .ok ()
  | .panicked => .error cancelFailed

/-- What the environment decides during a call: the clock, whether a task can be spawned and how an aborted task ends. -/
structure Ambient (E : Type) where
  now : Nat
  spawned : Except E Unit
  joined : Joined E

inductive MergedCommand where
  | start
  | stop
  | restart
  deriving DecidableEq, Repr

/-- What follows once the stop in flight has ended.  `R` is what a reload carries, `E` a confirmed edit. -/
inductive PendingLifecycle (R E : Type) where
  | stop
  | restart
  | reload (what : R)
  | applySetup (edit : E) (next : Option MergedCommand)
  deriving DecidableEq, Repr

inductive StopOutcome where
  | clean
  | failed (text : String)
  deriving DecidableEq, Repr

abbrev Line := Level × String

def StopOutcome.of : Line → StopOutcome
  | (.error, text) => .failed text
  | _ => .clean

inductive Phase where
  | idle
  | running
  | stopping
  deriving DecidableEq, Repr

structure Standing where
  pending : Bool
  phase : Phase
  deriving DecidableEq, Repr

def Standing.Backed (s : Standing) : Prop := s.pending = true → s.phase = .stopping

def Standing.Awaited (s : Standing) : Prop := s.phase = .stopping → s.pending = true

/-- The proper moves of a view and its backend: a stop is requested together with an operation and ends together with it;
other changes happen while nothing is pending. -/
inductive Move : Standing → Standing → Prop where
  | begin : Move ⟨false, .running⟩ ⟨true, .stopping⟩
  | settle {q : Phase} (hq : q ≠ .stopping) : Move ⟨true, .stopping⟩ ⟨false, q⟩
  | turn {p q : Phase} (hp : p ≠ .stopping) (hq : q ≠ .stopping) : Move ⟨false, p⟩ ⟨false, q⟩

abbrev Moves := Relation.ReflTransGen Move

variable {s t : Standing}

theorem Move.awaited (h : Move s t) : t.Awaited := by
  cases h with
  | begin => exact fun _ => rfl
  | settle hq | turn _ hq => exact fun h => absurd h hq

theorem Move.backed_iff (h : Move s t) : t.Backed ↔ s.Backed := by
  cases h with
  | begin => exact iff_of_true (fun _ => rfl) nofun
  | settle => exact iff_of_true nofun (fun _ => rfl)
  | turn => exact iff_of_true nofun nofun

theorem Moves.awaited (h : Moves s t) (hs : s.Awaited) : t.Awaited := by
  cases h with
  | refl => exact hs
  | tail _ h => exact h.awaited

/-- **Proper moves keep the agreement of slot and backend, and do not mend it.** -/
theorem Moves.backed_iff (h : Moves s t) : t.Backed ↔ s.Backed := by
  induction h with
  | refl => exact Iff.rfl
  | tail _ h ih => exact h.backed_iff.trans ih

def Standing.Quiet (s : Standing) : Prop := s.pending = false ∧ s.phase ≠ .stopping

theorem Standing.Awaited.quiet (h : s.Awaited) (hp : s.pending = false) : s.Quiet :=
  ⟨hp, fun ht => nomatch (h ht).symm.trans hp⟩

theorem Standing.Quiet.moves : {s t : Standing} → s.Quiet → t.Quiet → Moves s t
  | ⟨_, _⟩, ⟨_, _⟩, ⟨rfl, hs⟩, ⟨rfl, ht⟩ => Relation.ReflTransGen.single (Move.turn hs ht)

theorem Standing.Quiet.settled : {t : Standing} → t.Quiet → Moves ⟨true, .stopping⟩ t
  | ⟨_, _⟩, ⟨rfl, ht⟩ => Relation.ReflTransGen.single (Move.settle ht)

/-- The one improper move: the stop goes and the operation stays pending. -/
def Standing.Stranded (t : Standing) : Prop := t.pending = true ∧ t.phase ≠ .stopping

theorem Standing.Stranded.not_backed (h : t.Stranded) : ¬ t.Backed := fun hb => h.2 (hb h.1)

theorem Standing.Stranded.awaited (h : t.Stranded) : t.Awaited := fun _ => h.1

/-- **A pending operation is backed after a run exactly when all its steps were clear**, where clear steps are made of
proper moves and the others strand what is pending. -/
theorem run_backed_iff {S A : Type} {step : S → A → S} (standing : S → Standing) (Clear : S → A → Prop)
    (hmoves : ∀ s e, (standing s).Awaited → Clear s e → Moves (standing s) (standing (step s e)))
    (hstranded : ∀ s e, ¬ Clear s e → (standing (step s e)).Stranded) {s t : S} {es : List A}
    (h : Run (fun s e t => t = step s e) s es t) (hs : (standing s).Quiet) :
    (standing t).Backed ↔ ∀ pre e u, pre ++ [e] <+: es → Run (fun s e t => t = step s e) s pre u → Clear u e := by
  refine h.iff_forall_prefix (I := fun s => (standing s).Awaited) (P := fun s => (standing s).Backed)
    (fun _ _ _ _ hu hu' => hu.trans hu'.symm) ?_ ?_ (fun ht => absurd ht hs.2) (fun hp => nomatch hs.1.symm.trans hp)
  · rintro t e u ht rfl
    by_cases hc : Clear t e
    · exact (hmoves t e ht hc).awaited ht
    · exact (hstranded t e hc).awaited
  rintro t e u ht rfl
  by_cases hc : Clear t e
  · rw [(hmoves t e ht hc).backed_iff]
    exact (and_iff_left hc).symm
  · exact iff_of_false (hstranded t e hc).not_backed (fun h => hc h.2)

end Ferrowl.Lifecycle
