import Mathlib.Data.List.DropRight
/-!
# ReadLog — a log that is read through a bounded window

Entries are only ever appended, and they are read in order.  A reader that keeps at most `cap` entries has the window before it:
the last at most `cap` of the entries behind the last one it read.
-/
namespace Ferrowl

open List

structure ReadLog (α : Type) where
  all : List α
  read : Nat
  read_le : read ≤ all.length

namespace ReadLog

variable {α : Type}

def ofList (l : List α) : ReadLog α := ⟨l, 0, Nat.zero_le _⟩

def empty : ReadLog α := ofList []

def append (l : ReadLog α) (x : α) : ReadLog α :=
  ⟨l.all ++ [x], l.read, by rw [length_append]; exact Nat.le_add_right_of_le l.read_le⟩

def window (cap : Nat) (l : ReadLog α) : List α := (l.all.drop l.read).rtake cap

/-- The log once the first entry of the window has been read. -/
def pop (cap : Nat) (l : ReadLog α) : ReadLog α :=
  match l.window cap with
  | [] => l
  | _ :: rest => ⟨l.all, l.all.length - rest.length, Nat.sub_le _ _⟩

def popN (cap : Nat) : Nat → ReadLog α → ReadLog α
  | 0, l => l
  | n + 1, l => popN cap n (l.pop cap)

theorem length_rtake_le (n : Nat) (l : List α) : (l.rtake n).length ≤ n := by
  rw [List.rtake, length_drop]
  omega

theorem rtake_of_length_le {n : Nat} {l : List α} (h : l.length ≤ n) : l.rtake n = l := by
  rw [List.rtake, Nat.sub_eq_zero_of_le h, drop_zero]

theorem rtake_append_singleton (n : Nat) (l : List α) (x : α) : (l ++ [x]).rtake n = (l.rtake n ++ [x]).rtake n := by
  cases n with
  | zero => simp [List.rtake]
  | succ n =>
    simp only [List.rtake, length_append, length_singleton, length_drop]
    rw [drop_append_of_le_length (by omega), drop_append_of_le_length (by rw [length_drop]; omega), drop_drop]
    congr 2
    omega

variable (cap : Nat)

theorem length_window_le (l : ReadLog α) : (l.window cap).length ≤ cap := length_rtake_le cap _

theorem window_suffix (l : ReadLog α) : l.window cap <:+ l.all :=
  (drop_suffix _ _).trans (drop_suffix _ _)

theorem window_ofList (l : List α) : (ofList l).window cap = l.rtake cap := by
  simp [window, ofList]

theorem window_append (l : ReadLog α) (x : α) : (l.append x).window cap = (l.window cap ++ [x]).rtake cap := by
  have hdrop : (l.append x).all.drop (l.append x).read = l.all.drop l.read ++ [x] :=
    drop_append_of_le_length l.read_le
  rw [window, hdrop, rtake_append_singleton]
  rfl

theorem window_pop (l : ReadLog α) : (l.pop cap).window cap = (l.window cap).tail := by
  cases h : l.window cap with
  | nil => rw [pop, h, tail_nil]; exact h
  | cons a rest =>
    have hlen : rest.length ≤ cap := by
      have := l.length_window_le cap
      rw [h, length_cons] at this
      omega
    -- the entries behind the first of the window are the rest of it
    obtain ⟨pre, hpre⟩ : rest <:+ l.all := (suffix_cons a rest).trans (h ▸ l.window_suffix cap)
    have hrest : l.all.drop (l.all.length - rest.length) = rest := by
      rw [← hpre, length_append, Nat.add_sub_cancel, drop_left]
    rw [pop, h, tail_cons, window]
    simp only [hrest]
    exact rtake_of_length_le hlen

theorem window_popN (n : Nat) (l : ReadLog α) : (l.popN cap n).window cap = (l.window cap).drop n := by
  induction n generalizing l with
  | zero => rfl
  | succ n ih => rw [popN, ih, window_pop, drop_tail]

/-! ## Draining -/

def drain (l : ReadLog α) : ReadLog α := ⟨l.all, l.all.length, Nat.le_refl _⟩

def unread (l : ReadLog α) : List α := l.all.drop l.read

def lost (cap : Nat) (l : ReadLog α) : List α := l.unread.rdrop cap

theorem lost_append_window (l : ReadLog α) : l.lost cap ++ l.window cap = l.unread :=
  take_append_drop _ _

theorem length_lost (l : ReadLog α) : (l.lost cap).length = l.unread.length - cap := by
  rw [lost, List.rdrop, length_take]
  omega

theorem rtake_rtake (m n : Nat) (l : List α) : (l.rtake m).rtake n = l.rtake (min m n) := by
  simp only [List.rtake, length_drop, drop_drop]
  congr 1
  omega

theorem rtake_append_of_le {n : Nat} (a : List α) {b : List α} (h : b.length ≤ n) :
    (a ++ b).rtake n = a.rtake (n - b.length) ++ b := by
  rw [List.rtake, List.rtake, length_append, drop_append_of_le_length (by omega)]
  congr 2
  omega

theorem drop_eq_rtake {n : Nat} {l : List α} (h : n ≤ l.length) : l.drop n = l.rtake (l.length - n) := by
  rw [List.rtake, Nat.sub_sub_self h]

/-- **The window is the end of what a reader of the last `cap` entries still has**, as many as are unread. -/
theorem rtake_unread (l : ReadLog α) : (l.all.rtake cap).rtake (l.all.length - l.read) = l.window cap := by
  rw [window, drop_eq_rtake l.read_le, rtake_rtake, rtake_rtake, Nat.min_comm]

end ReadLog

end Ferrowl
