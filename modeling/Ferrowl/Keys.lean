import Mathlib.Data.Nat.Notation
/-!
# Keys — what the terminal reports of a key press

The codes and modifiers the dialogs, the tab bar and the editors match on.  A widget answers a key by consuming it or by handing
it back.
-/
namespace Ferrowl.Ui

structure KeyModifiers where
  bits : BitVec 8
  deriving DecidableEq, Repr

namespace KeyModifiers

def NONE : KeyModifiers := ⟨0⟩
def SHIFT : KeyModifiers := ⟨1⟩
def CONTROL : KeyModifiers := ⟨2⟩

end KeyModifiers

/-- `KeyCode`; the keys no widget of the program names are in `other`. -/
inductive KeyCode where
  | backspace
  | enter
  | left
  | right
  | up
  | down
  | home
  | endKey
  | pageUp
  | pageDown
  | tab
  | backTab
  | delete
  | esc
  | char (c : Char)
  | other (n : ℕ)
  deriving DecidableEq, Repr

inductive EventResult where
  | consumed
  | unhandled (modifiers : KeyModifiers) (code : KeyCode)
  deriving DecidableEq, Repr

end Ferrowl.Ui
