import Ferrowl.Client
import Ferrowl.Ring
import Mathlib.Data.List.Forall2
/-!
# HeadlessLog — the log of a module and how a headless run prints it

`LogRing` (`app/mod.rs`) keeps the last lines of a module and counts all it was ever given.  A headless run prints what is new on
each tick (`drain_log` in `cli/headless.rs`): it tells what is new by the difference of two readings of the count, and says how
many lines were gone already.  The file a log may be mirrored to is left out; `formatTimestamp` is a parameter.
-/
namespace Ferrowl.Headless

open List

open Modbus (Level)

def label : Level → String
  | .info => "INFO"
  | .warning => "WARNING"
  | .error => "ERROR"

structure LogEntry where
  ts : Nat
  level : Level
  text : String
  deriving DecidableEq, Repr

def logSize : Nat := 80

def logPeek : Nat := 80

def logMaxLine : Nat := 256

def cut (msg : String) : String := String.ofList (msg.toList.take logMaxLine)

structure LogRing where
  ring : Ring LogEntry logSize
  written : Nat

namespace LogRing

def init : LogRing := ⟨.new LogEntry logSize, 0⟩

def write (log : LogRing) (ts : Nat) (level : Level) (msg : String) : LogRing :=
  ⟨log.ring.push ⟨ts, level, cut msg⟩, log.written + 1⟩

def peekN (log : LogRing) (n : Nat) : List LogEntry := log.ring.peekN n

end LogRing

structure DrainCall where
  name : String
  exitOnError : Bool
  now : Nat

section
variable (formatTimestamp : Nat → String)

def logLine (name : String) (e : LogEntry) : String :=
  "[" ++ formatTimestamp e.ts ++ "] [" ++ label e.level ++ "] " ++ name ++ " | " ++ e.text

def droppedLine (call : DrainCall) (dropped : Nat) : String :=
  "[" ++ formatTimestamp call.now ++ "] [" ++ label .error ++ "] " ++ call.name ++ " | (" ++ toString dropped ++
    " lines dropped: ring overflowed between ticks)"

/-- The lines to print and whether the run is to end; with the new `last_written`. -/
def drainLog (log : LogRing) (lastWritten : Nat) (call : DrainCall) : (List String × Bool) × Nat :=
  let window := log.peekN logPeek
  let newCount := log.written - lastWritten
  if newCount = 0 then (([], false), log.written)
  else
    let dropped :=
      if window.length < newCount then [droppedLine formatTimestamp call (newCount - window.length)] else []
    let start := window.length - min newCount window.length
    ((dropped ++ (window.drop start).map (logLine formatTimestamp call.name),
        (window.drop start).any fun e => call.exitOnError && decide (e.level = .error)), log.written)

/-! ## Runs -/

inductive LogOp where
  | write (ts : Nat) (level : Level) (msg : String)
  | drain (call : DrainCall)

structure Tail where
  log : LogRing
  lastWritten : Nat
  drains : List (DrainCall × (List String × Bool))

def Tail.init : Tail := ⟨.init, 0, []⟩

def Tail.step (t : Tail) : LogOp → Tail
  | .write ts level msg => { t with log := t.log.write ts level msg }
  | .drain call =>
    let (out, lastWritten) := drainLog formatTimestamp t.log t.lastWritten call
    { t with lastWritten := lastWritten, drains := t.drains ++ [(call, out)] }

def tailOf (ops : List LogOp) : Tail := ops.foldl (Tail.step formatTimestamp) .init

def written (ops : List LogOp) : List LogEntry :=
  ops.filterMap fun
    | .write ts level msg => some ⟨ts, level, cut msg⟩
    | .drain _ => none

/-- What was written before each drain and after the one before it, and what was written since the last. -/
def betweenDrains (ops : List LogOp) : List (List LogEntry) × List LogEntry :=
  ops.foldl (fun acc op =>
    match op with
    | .write ts level msg => (acc.1, acc.2 ++ [⟨ts, level, cut msg⟩])
    | .drain _ => (acc.1 ++ [acc.2], [])) ([], [])

def record (log : ReadLog LogEntry) : LogOp → ReadLog LogEntry
  | .write ts level msg => log.append ⟨ts, level, cut msg⟩
  | .drain _ => log.drain

def history (ops : List LogOp) : ReadLog LogEntry := ops.foldl record .empty

/-- **What a drain returns accounts for the entries**: the last of them are printed in order, as many as the ring holds, and
the ones before them are counted in a line at the head; the flag is about the lines printed. -/
structure Accounts (entries : List LogEntry) (call : DrainCall) (out : List String × Bool) : Prop where
  lines : ∃ lost kept, entries = lost ++ kept ∧ lost.length = entries.length - logSize ∧
    out.1 = (if lost = [] then [] else [droppedLine formatTimestamp call lost.length]) ++
      kept.map (logLine formatTimestamp call.name) ∧
    (out.2 = true ↔ call.exitOnError = true ∧ ∃ e ∈ kept, e.level = .error)

/-- The log and the reader's count are those of the history. -/
structure Tail.Holds (t : Tail) (h : ReadLog LogEntry) : Prop where
  ring : t.log.ring.Lays (h.all.rtake logSize)
  written : t.log.written = h.all.length
  seen : t.lastWritten = h.read

variable {formatTimestamp}

variable {h : ReadLog LogEntry}

theorem drainLog_eq {t : Tail} (ht : t.Holds h) (call : DrainCall) : drainLog formatTimestamp t.log t.lastWritten call =
      (((if h.lost logSize = [] then [] else [droppedLine formatTimestamp call (h.lost logSize).length]) ++
          (h.window logSize).map (logLine formatTimestamp call.name),
        (h.window logSize).any fun e => call.exitOnError && decide (e.level = .error)), h.all.length) := by
  have hpeek : t.log.peekN logPeek = h.all.rtake logSize := by
    rw [LogRing.peekN, Ring.peekN, ht.ring.iter]
    exact take_of_length_le (ReadLog.length_rtake_le _ _)
  have hlen : (h.all.rtake logSize).length = min logSize h.all.length := by
    rw [List.rtake, length_drop]
    omega
  have hnew : h.all.length - h.read = h.unread.length := length_drop.symm
  have hkept : (h.all.rtake logSize).drop ((h.all.rtake logSize).length -
      min h.unread.length (h.all.rtake logSize).length) = h.window logSize := by
    rw [← h.rtake_unread logSize, hnew]
    simp only [List.rtake]
    congr 1
    omega
  have hread : h.unread.length ≤ h.all.length := hnew ▸ Nat.sub_le _ _
  have hlost := h.length_lost logSize
  have hsplit := h.lost_append_window logSize
  unfold drainLog
  simp only [hpeek, ht.written, ht.seen, hnew, hkept]
  by_cases hzero : h.unread.length = 0
  · rw [eq_nil_of_length_eq_zero hzero, append_eq_nil_iff] at hsplit
    simp [hzero, hsplit.1, hsplit.2]
  rw [if_neg hzero, hlen]
  by_cases hover : logSize < h.unread.length
  · -- the window is full, and all but as many of the new lines are gone
    have hne : h.lost logSize ≠ [] := ne_nil_of_length_pos (by omega)
    have hfull : h.unread.length - min logSize h.all.length = (h.lost logSize).length := by omega
    rw [if_pos (by omega), if_neg hne, hfull]
  · have hnil : h.lost logSize = [] := eq_nil_of_length_eq_zero (by omega)
    rw [if_neg (by omega), if_pos hnil]

theorem accounts_drainLog {t : Tail} (ht : t.Holds h) (call : DrainCall) :
    Accounts formatTimestamp h.unread call (drainLog formatTimestamp t.log t.lastWritten call).1 := by
  rw [drainLog_eq ht]
  refine ⟨h.lost logSize, h.window logSize, (h.lost_append_window logSize).symm, h.length_lost logSize, rfl, ?_⟩
  simp only [any_eq_true, Bool.and_eq_true, decide_eq_true_eq]
  constructor
  · rintro ⟨e, he, hexit, herr⟩
    exact ⟨hexit, e, he, herr⟩
  · rintro ⟨hexit, e, he, herr⟩
    exact ⟨e, he, hexit, herr⟩

theorem holds_init : Tail.init.Holds .empty :=
  ⟨Ring.lays_new, rfl, rfl⟩

theorem Tail.Holds.step {t : Tail} (ht : t.Holds h) (op : LogOp) : (t.step formatTimestamp op).Holds (record h op) := by
  cases op with
  | write ts level msg =>
    refine ⟨?_, ?_, ht.seen⟩
    · rw [record, ReadLog.append, ReadLog.rtake_append_singleton]
      exact ht.ring.push _
    · simp [Tail.step, LogRing.write, record, ReadLog.append, ht.written]
  | drain call =>
    refine ⟨ht.ring, ht.written, ?_⟩
    simp only [Tail.step, drainLog_eq ht, record, ReadLog.drain]

theorem tailOf_holds (ops : List LogOp) : (tailOf formatTimestamp ops).Holds (history ops) := by
  induction ops using List.reverseRecOn with
  | nil => exact holds_init
  | append_singleton ops op ih =>
    rw [tailOf, history, foldl_append, foldl_append]
    exact ih.step op

theorem unread_history (ops : List LogOp) : (history ops).unread = (betweenDrains ops).2 := by
  induction ops using List.reverseRecOn with
  | nil => rfl
  | append_singleton ops op ih =>
    rw [history, betweenDrains, foldl_append, foldl_append, ← betweenDrains, ← history]
    cases op with
    | write ts level msg =>
      simp only [foldl_cons, foldl_nil, ← ih]
      exact drop_append_of_le_length (history ops).read_le
    | drain call => exact drop_length

variable (formatTimestamp)

/-- **Draining is exact**: what is written falls into stretches, one before each drain and the rest after the last, and each
drain accounts for its own stretch. -/
theorem drains_account (ops : List LogOp) : (betweenDrains ops).1.flatten ++ (betweenDrains ops).2 = written ops ∧
      List.Forall₂ (fun entries d => Accounts formatTimestamp entries d.1 d.2) (betweenDrains ops).1
        (tailOf formatTimestamp ops).drains := by
  refine ⟨?_, ?_⟩
  · induction ops using List.reverseRecOn with
    | nil => rfl
    | append_singleton ops op ih =>
      rw [betweenDrains, foldl_append, written, filterMap_append, ← written, ← ih, ← betweenDrains]
      cases op <;> simp
  induction ops using List.reverseRecOn with
  | nil => exact .nil
  | append_singleton ops op ih =>
    rw [betweenDrains, tailOf, foldl_append, foldl_append, ← betweenDrains]
    cases op with
    | write ts level msg => exact ih
    | drain call =>
      -- what was written since the last drain is what this one has not seen
      have htail : (tailOf formatTimestamp ops).Holds (history ops) := tailOf_holds ops
      have hsince : Accounts formatTimestamp (history ops).unread call _ := accounts_drainLog htail call
      rw [unread_history] at hsince
      exact rel_append ih (.cons hsince .nil)

end

end Ferrowl.Headless
