import Ferrowl.CodeInputSafety
/-!
# MarkdownInput — the markdown editor

`markdown_input_field.rs`.  The markdown editor is the code editor with a layout: the display rows each line took at the last
render.  `gj`, `gk`, Ctrl+D and Ctrl+U step by display rows and set the active line from that layout; they leave the column
alone, and an edit since the render leaves them an old layout.  A count before `yy` and `dd` is summed up in `usize`.
-/
namespace Ferrowl.Ui

structure MarkdownInputFieldState where
  inner : CodeInputFieldState
  rowsPerLine : List Nat
  visibleRows : Nat
  rowScroll : Nat
  pendingCount : Option Nat
  pendingG : Bool
  lineRow : Nat
  pendingYankCount : Option Nat
  pendingDeleteCount : Option Nat
  deriving DecidableEq, Repr

/-- The settings of the composed editor; the builder turns its navigation of a read-only view off. -/
def markdownSettings {R : TextRules} (disabled vim : Bool) (spaceIndent : Option Nat) (language : Option R.Language) :
    CodeSettings R where
  readonlyNav := false
  disabled := disabled
  vim := vim
  spaceIndent := spaceIndent
  language := language

def findRow (target : Nat) : List Nat → Nat → Nat → Option (Nat × Nat)
  | [], _, _ => none
  | n :: rest, i, acc => if target < acc + n then some (i, target - acc) else findRow target rest (i + 1) (acc + n)

namespace MarkdownInputFieldState

def ofInner (inner : CodeInputFieldState) : MarkdownInputFieldState where
  inner := inner
  rowsPerLine := []
  visibleRows := 0
  rowScroll := 0
  pendingCount := none
  pendingG := false
  lineRow := 0
  pendingYankCount := none
  pendingDeleteCount := none

/-! ## The layout -/

def cursorDisplayRow (s : MarkdownInputFieldState) : Option Nat :=
  if s.rowsPerLine.isEmpty then some 0
  else
    (slice? s.rowsPerLine 0 (min s.inner.activeLine (s.rowsPerLine.length - 1))).map fun above => above.sum + s.lineRow

def totalDisplayRows (s : MarkdownInputFieldState) : Nat := s.rowsPerLine.sum

def clampScroll (s : MarkdownInputFieldState) : Option MarkdownInputFieldState :=
  if s.visibleRows = 0 then some s
  else
    s.cursorDisplayRow.map fun row =>
      { s with rowScroll :=
          if row < s.rowScroll then row
          else if s.rowScroll + s.visibleRows ≤ row then row + 1 - s.visibleRows
          else s.rowScroll }

def syncLayout (s : MarkdownInputFieldState) (rowsPerLine : List Nat) (visibleRows : Nat) : Option MarkdownInputFieldState :=
  let s := { s with rowsPerLine, visibleRows }
  let s :=
    if s.inner.activeLine ≤ rowsPerLine.length - 1 then
      { s with lineRow := min s.lineRow (rowsPerLine[s.inner.activeLine]?.getD 1 - 1) }
    else s
  s.clampScroll

def syncCursorRow (s : MarkdownInputFieldState) (row : Nat) : MarkdownInputFieldState := { s with lineRow := row }

def clampRow (row : Int) (total : Nat) : Nat := (max 0 (min row (total - 1))).toNat

def placeOn (s : MarkdownInputFieldState) : Option (Nat × Nat) → MarkdownInputFieldState
  | some (line, row) => { s with inner := { s.inner with activeLine := line }, lineRow := row }
  | none => s

def stepDisplayRow (s : MarkdownInputFieldState) (delta : Int) : Option MarkdownInputFieldState :=
  if s.totalDisplayRows = 0 then some s
  else
    s.cursorDisplayRow.bind fun current =>
      (s.placeOn (findRow (clampRow (current + delta) s.totalDisplayRows) s.rowsPerLine 0 0)).clampScroll

end MarkdownInputFieldState

section
variable {R : TextRules} (cfg : CodeSettings R)

namespace MarkdownInputFieldState

def setContent (s : MarkdownInputFieldState) (text : Line) : Option MarkdownInputFieldState :=
  (s.inner.setContent cfg text).map fun inner =>
    { s with inner := inner.moveTo 0 0, rowsPerLine := [], visibleRows := 0, rowScroll := 0, lineRow := 0 }

def setFocused (s : MarkdownInputFieldState) (focus : Bool) : Option MarkdownInputFieldState :=
  (s.inner.setFocused cfg focus).map fun inner => { s with inner }

/-! ## The keys -/

def passOn (now : Nat) (s : MarkdownInputFieldState) (m : KeyModifiers) (code : KeyCode) :
    Option (EventResult × MarkdownInputFieldState) :=
  (s.inner.handleEvents cfg now m code).bind fun r =>
    (clampScroll { s with inner := r.2, lineRow := 0 }).map fun s => (r.1, s)

def passThrough (now : Nat) (s : MarkdownInputFieldState) (m : KeyModifiers) (code : KeyCode) :
    Option (EventResult × MarkdownInputFieldState) :=
  (s.inner.handleEvents cfg now m code).map fun r => (r.1, { s with inner := r.2 })

/-- A digit of a count, in `usize`; `0` only continues one. -/
def countDigit (s : MarkdownInputFieldState) (m : KeyModifiers) (code : KeyCode) : Option MarkdownInputFieldState :=
  match code with
  | .char c =>
    if m ≠ .NONE then none
    else if '1' ≤ c ∧ c ≤ '9' then
      let digit := c.toNat - '0'.toNat
      some { s with pendingCount := some ((s.pendingCount.getD 0 * 10 + digit) % 2 ^ 64), pendingG := false }
    else if c = '0' then s.pendingCount.map fun n => { s with pendingCount := some (n * 10 % 2 ^ 64), pendingG := false }
    else none
  | _ => none

/-- What a read-only field does not hand on: motions along the line it swallows, edits it gives back. -/
def filterReadOnly (m : KeyModifiers) (code : KeyCode) : Option EventResult :=
  if !plain m then none
  else
    match code with
    | .char c =>
      if c ∈ ['h', 'l', '0', '$', 'w', 'b', 'e'] then some .consumed
      else if c ∈ ['x', 'p', 'P', 'u', 'd', 'i', 'a', 'I', 'A', 'o', 'O', 'v', 'V'] then some (.unhandled m code)
      else none
    | .enter => some (.unhandled m code)
    | .backspace => some (.unhandled m code)
    | .delete => some (.unhandled m code)
    | _ => none

/-- The count of a first `y` or `d` is lost at any other key. -/
def dropCounts (s : MarkdownInputFieldState) (code : KeyCode) : MarkdownInputFieldState :=
  { s with
    pendingYankCount := if code = .char 'y' then s.pendingYankCount else none
    pendingDeleteCount := if code = .char 'd' then s.pendingDeleteCount else none }

/-- `gj` and `gk`; before the first render they are the editor's `j` and `k`. -/
def displayMove (now : Nat) (s : MarkdownInputFieldState) (code : KeyCode) (delta : Int) :
    Option (EventResult × MarkdownInputFieldState) :=
  if s.rowsPerLine.isEmpty then passThrough cfg now s .NONE code
  else (s.stepDisplayRow delta).map (Prod.mk .consumed)

def goToTop (now : Nat) (s : MarkdownInputFieldState) : Option (EventResult × MarkdownInputFieldState) :=
  (s.inner.handleEvents cfg now .NONE (.char 'g')).bind fun r =>
    passOn cfg now { s with inner := r.2 } .NONE (.char 'g')

def halfHeight (s : MarkdownInputFieldState) : Nat := max (s.visibleRows / 2) 1

def halfPage (s : MarkdownInputFieldState) (dir : Int) : Option MarkdownInputFieldState :=
  if s.rowsPerLine.isEmpty || s.visibleRows = 0 then some s
  else
    let maxScroll : Nat := s.totalDisplayRows - s.visibleRows
    let scrolled : Int := max 0 (min (s.rowScroll + dir * s.halfHeight) maxScroll)
    stepDisplayRow { s with rowScroll := scrolled.toNat } (dir * s.halfHeight)

def repeatKey (now : Nat) (m : KeyModifiers) (code : KeyCode) :
    Nat → EventResult × CodeInputFieldState → Option (EventResult × CodeInputFieldState)
  | 0, r => some r
  | count + 1, r => (r.2.handleEvents cfg now m code).bind (repeatKey now m code count)

def countedMove (now : Nat) (s : MarkdownInputFieldState) (m : KeyModifiers) (code : KeyCode) :
    Option (EventResult × MarkdownInputFieldState) :=
  (repeatKey cfg now m code (max (s.pendingCount.getD 1) 1) (.consumed, s.inner)).bind fun r =>
    (clampScroll { s with pendingCount := none, inner := r.2, lineRow := 0 }).map fun s => (r.1, s)

def yank (now : Nat) (s : MarkdownInputFieldState) : Option (EventResult × MarkdownInputFieldState) :=
  match s.pendingYankCount with
  | some count =>
    (s.inner.handleEvents cfg now .NONE (.char 'y')).bind fun r => (r.2.yankLines (max count 1)).map fun inner =>
      (r.1, { s with pendingYankCount := none, inner })
  | none =>
    match s.pendingCount with
    | some count =>
      passThrough cfg now { s with pendingCount := none, pendingYankCount := some count } .NONE (.char 'y')
    | none => passOn cfg now s .NONE (.char 'y')

def delete (now : Nat) (s : MarkdownInputFieldState) : Option (EventResult × MarkdownInputFieldState) :=
  match s.pendingDeleteCount with
  | some count =>
    (s.inner.cancelPendingChord.deleteLines cfg (max count 1)).bind fun inner =>
      (clampScroll { s with pendingDeleteCount := none, inner, lineRow := 0 }).map (Prod.mk .consumed)
  | none =>
    match s.pendingCount with
    | some count =>
      passThrough cfg now { s with pendingCount := none, pendingDeleteCount := some count } .NONE (.char 'd')
    | none => passOn cfg now s .NONE (.char 'd')

def plainKey (now : Nat) (s : MarkdownInputFieldState) (m : KeyModifiers) (code : KeyCode) :
    Option (EventResult × MarkdownInputFieldState) :=
  if m = .NONE ∧ code = .char 'g' then some (.consumed, { s with pendingG := true })
  else if m = .CONTROL ∧ code = .char 'd' then (halfPage { s with pendingCount := none } 1).map (Prod.mk .consumed)
  else if m = .CONTROL ∧ code = .char 'u' then (halfPage { s with pendingCount := none } (-1)).map (Prod.mk .consumed)
  else if m = .NONE ∧ (code = .char 'j' ∨ code = .char 'k') then countedMove cfg now s m code
  else if m = .NONE ∧ code = .char 'y' then yank cfg now s
  else if m = .NONE ∧ code = .char 'd' then delete cfg now s
  else passOn cfg now { s with pendingCount := none } m code

def normalKey (now : Nat) (s : MarkdownInputFieldState) (m : KeyModifiers) (code : KeyCode) :
    Option (EventResult × MarkdownInputFieldState) :=
  let t := { s with pendingG := false }
  if s.pendingG ∧ m = .NONE ∧ code = .char 'j' then displayMove cfg now { t with pendingCount := none } code 1
  else if s.pendingG ∧ m = .NONE ∧ code = .char 'k' then displayMove cfg now { t with pendingCount := none } code (-1)
  else if s.pendingG ∧ m = .NONE ∧ code = .char 'g' then goToTop cfg now { t with pendingCount := none }
  else plainKey cfg now t m code

def handleEvents (now : Nat) (s : MarkdownInputFieldState) (m : KeyModifiers) (code : KeyCode) :
    Option (EventResult × MarkdownInputFieldState) :=
  if s.inner.mode = .insert then
    passOn cfg now { s with pendingCount := none, pendingG := false, pendingYankCount := none, pendingDeleteCount := none } m code
  else
    match s.countDigit m code with
    | some t => some (.consumed, t)
    | none =>
      match if cfg.disabled then filterReadOnly m code else none with
      | some r => some (r, { s with pendingCount := none })
      | none => normalKey cfg now (s.dropCounts code) m code

end MarkdownInputFieldState

/-- What happens to a markdown field; a render of its text syncs the row of the cursor, if the active line is shown as source,
and the rows of every line. -/
inductive MarkdownEvent where
  | key (now : Nat) (m : KeyModifiers) (code : KeyCode)
  | rendered (rowsOf : Nat → Nat) (visibleRows : Nat) (cursorRow : Option Nat)
  | setContent (text : Line)
  | setFocused (focus : Bool)

def markdownStep (s : MarkdownInputFieldState) : MarkdownEvent → Option MarkdownInputFieldState
  | .key now m code => (s.handleEvents cfg now m code).map (·.2)
  | .rendered rowsOf visibleRows cursorRow =>
    (match cursorRow with
      | some row => s.syncCursorRow row
      | none => s).syncLayout ((List.range s.inner.lines.length).map rowsOf) visibleRows
  | .setContent text => s.setContent cfg text
  | .setFocused focus => s.setFocused cfg focus

end

end Ferrowl.Ui
