import Mathlib
import Ferrowl.Keys
import Ferrowl.VimMotions
/-!
# CodeInput — the multi-line editor

`code_input_field.rs`.  The editor holds its lines and a cursor by line and column.  It is a plain editor or, with `vim`, a modal
one; a disabled editor only navigates, and then its column may stay past the end of a shorter line.  Every index is checked as
`std` checks it, so a step that would panic returns nothing.

The formatter and the block balance of a language are parameters, and so is the clock, which a key event carries.
-/
namespace Ferrowl.Ui

inductive VimMode where
  | normal
  | insert
  | visual (linewise : Bool)
  deriving DecidableEq, Repr

inductive RegisterKind where
  | linewise
  | charwise
  deriving DecidableEq, Repr

structure CodeSettings (R : TextRules) where
  readonlyNav : Bool
  disabled : Bool
  vim : Bool
  /-- Milliseconds within which a second space indents. -/
  spaceIndent : Option Nat
  language : Option R.Language

structure CodeInputFieldState where
  lines : List Line
  activeLine : Nat
  cursorCol : Nat
  scrollOffset : Nat
  hScroll : Nat
  visibleHeight : Nat
  contentWidth : Nat
  focused : Bool
  lastSpace : Option (Nat × Nat × Nat)
  mode : VimMode
  visualAnchor : Option (Nat × Nat)
  register : Option (Line × RegisterKind)
  undo : Option (List Line × Nat × Nat)
  pending : Option Char
  deriving DecidableEq, Repr

def joinLines (lines : List Line) : Line := List.intercalate ['\n'] lines

def plain (m : KeyModifiers) : Bool := m = .NONE || m = .SHIFT

def posLe (p q : Nat × Nat) : Bool := decide (p.1 < q.1) || (p.1 == q.1 && decide (p.2 ≤ q.2))

def leadingSpaces (line : Line) : Nat := (line.takeWhile (· == ' ')).length

def autoIndent (R : TextRules) (language : Option R.Language) (line : Line) : Nat :=
  match language with
  | some lang => (((leadingSpaces line : Int) + 4 * R.indentDelta lang line).bmod (2 ^ 32)).toNat
  | none => 0

namespace CodeInputFieldState

def default : CodeInputFieldState where
  lines := [[]]
  activeLine := 0
  cursorCol := 0
  scrollOffset := 0
  hScroll := 0
  visibleHeight := 1
  contentWidth := 1
  focused := true
  lastSpace := none
  mode := .normal
  visualAnchor := none
  register := none
  undo := none
  pending := none

def ofLines (first : Line) (rest : List Line) : CodeInputFieldState := { default with lines := first :: rest }

def content (s : CodeInputFieldState) : Line := joinLines s.lines

def activeText? (s : CodeInputFieldState) : Option Line := s.lines[s.activeLine]?

def moveTo (s : CodeInputFieldState) (line col : Nat) : CodeInputFieldState := { s with activeLine := line, cursorCol := col }

def clampCursor (s : CodeInputFieldState) : Option CodeInputFieldState :=
  s.activeText?.map fun line => { s with cursorCol := min s.cursorCol line.length }

def clampNormal (s : CodeInputFieldState) : Option CodeInputFieldState :=
  s.activeText?.map fun line => { s with cursorCol := min s.cursorCol (line.length - 1) }

def enterNormal (s : CodeInputFieldState) : CodeInputFieldState := { s with mode := .normal, visualAnchor := none }

def insertAt (s : CodeInputFieldState) (line idx : Nat) (text : Line) : Option CodeInputFieldState :=
  s.lines[line]?.bind fun target =>
    (set? s.lines line (target.take idx ++ text ++ target.drop idx)).map fun lines => { s with lines }

/-- The removed text with the state; bounds out of range are clamped. -/
def removeRange (s : CodeInputFieldState) (line start stop : Nat) : Option (Line × CodeInputFieldState) :=
  s.lines[line]?.bind fun target =>
    let stop := min stop target.length
    let start := min start stop
    (set? s.lines line (target.take start ++ target.drop stop)).map fun lines =>
      ((target.take stop).drop start, { s with lines })

def snapshotUndo (s : CodeInputFieldState) : CodeInputFieldState :=
  { s with undo := some (s.lines, s.activeLine, s.cursorCol) }

def setRegister (s : CodeInputFieldState) (text : Line) (kind : RegisterKind) : CodeInputFieldState :=
  { s with register := some (text, kind) }

end CodeInputFieldState

section
variable {R : TextRules} (cfg : CodeSettings R)

namespace CodeInputFieldState

def setContent (s : CodeInputFieldState) (text : Line) : Option CodeInputFieldState :=
  let split := text.splitOn '\n'
  let lines := if split.isEmpty then [[]] else split
  let last := lines.length - 1
  lines[last]?.bind fun line =>
    let s := { s with lines, activeLine := last, cursorCol := line.length, scrollOffset := 0, hScroll := 0 }
    if cfg.vim then clampNormal { s.enterNormal with undo := none, pending := none } else some s

/-! ## Navigation -/

def moveLine (s : CodeInputFieldState) (line : Nat) : Option CodeInputFieldState :=
  let s := { s with activeLine := line }
  if cfg.disabled then some s else s.clampNormal

def pageMove (s : CodeInputFieldState) (down : Bool) (rows : Nat) : Option CodeInputFieldState :=
  let rows := max rows 1
  moveLine cfg s (if down then min (s.activeLine + rows) (s.lines.length - 1) else s.activeLine - rows)

def maxHScroll (s : CodeInputFieldState) : Nat := ((s.lines.map List.length).max?.getD 0) - 1

def scrollTo (s : CodeInputFieldState) (h : Nat) : CodeInputFieldState := { s with hScroll := h, cursorCol := h }

def scrollToEnd (s : CodeInputFieldState) : Option CodeInputFieldState :=
  s.activeText?.map fun line =>
    { s with hScroll := line.length - 1 + 1 - s.contentWidth, cursorCol := line.length - 1 }

/-- Paging and, while disabled, horizontal scrolling; no state if the key is neither. -/
def handleReadonlyNav (s : CodeInputFieldState) (m : KeyModifiers) (code : KeyCode) : Option (Option CodeInputFieldState) :=
  if !cfg.readonlyNav then some none
  else
    match code with
    | .pageDown => if m = .NONE then (pageMove cfg s true s.visibleHeight).map some else some none
    | .pageUp => if m = .NONE then (pageMove cfg s false s.visibleHeight).map some else some none
    | .left => if m = .NONE && cfg.disabled then some (some (s.scrollTo (s.hScroll - 1))) else some none
    | .right => if m = .NONE && cfg.disabled then some (some (s.scrollTo (min (s.hScroll + 1) s.maxHScroll))) else some none
    | .char c =>
      if m = .CONTROL then
        match c with
        | 'd' => (pageMove cfg s true (max (s.visibleHeight / 2) 1)).map some
        | 'u' => (pageMove cfg s false (max (s.visibleHeight / 2) 1)).map some
        | _ => some none
      else if plain m && cfg.disabled then
        match c with
        | 'h' => some (some (s.scrollTo (s.hScroll - 1)))
        | 'l' => some (some (s.scrollTo (min (s.hScroll + 1) s.maxHScroll)))
        | '0' => some (some (s.scrollTo 0))
        | '$' => s.scrollToEnd.map some
        | _ => some none
      else some none
    | _ => some none

def lineBelow (s : CodeInputFieldState) : Nat :=
  if s.activeLine + 1 < s.lines.length then s.activeLine + 1 else s.activeLine

def stepLeft (s : CodeInputFieldState) : Option CodeInputFieldState :=
  if s.cursorCol > 0 then some { s with cursorCol := s.cursorCol - 1 }
  else if s.activeLine > 0 then s.lines[s.activeLine - 1]?.map fun line => s.moveTo (s.activeLine - 1) line.length
  else some s

def stepRight (s : CodeInputFieldState) : Option CodeInputFieldState :=
  s.activeText?.map fun line =>
    if s.cursorCol < line.length then { s with cursorCol := s.cursorCol + 1 }
    else if s.activeLine + 1 < s.lines.length then s.moveTo (s.activeLine + 1) 0
    else s

def charMotion (s : CodeInputFieldState) : Char → Option (Option CodeInputFieldState)
  | 'h' => some (some { s with cursorCol := s.cursorCol - 1 })
  | 'l' => (clampNormal { s with cursorCol := s.cursorCol + 1 }).map some
  | 'j' => (moveLine cfg s s.lineBelow).map some
  | 'k' => (moveLine cfg s (s.activeLine - 1)).map some
  | '0' => some (some { s with cursorCol := 0 })
  | '$' => s.activeText?.map fun line => some { s with cursorCol := line.length - 1 }
  | 'w' => (wordForward R s.lines s.activeLine s.cursorCol).bind fun p => (s.moveTo p.1 p.2).clampNormal.map some
  | 'e' => (wordEndForward R s.lines s.activeLine s.cursorCol).map fun p => some (s.moveTo p.1 p.2)
  | 'b' => (wordBackward R s.lines s.activeLine s.cursorCol).map fun p => some (s.moveTo p.1 p.2)
  | 'G' => some (some (s.moveTo (s.lines.length - 1) 0))
  | _ => some none

def applyMotion (s : CodeInputFieldState) (m : KeyModifiers) (code : KeyCode) : Option (Option CodeInputFieldState) :=
  match code with
  | .up => if m = .NONE then (moveLine cfg s (s.activeLine - 1)).map some else some none
  | .down => if m = .NONE then (moveLine cfg s s.lineBelow).map some else some none
  | .left => if m = .NONE then s.stepLeft.bind fun s => s.clampNormal.map some else some none
  | .right => if m = .NONE then s.stepRight.bind fun s => s.clampNormal.map some else some none
  | .char c => if plain m then charMotion cfg s c else some none
  | _ => some none

/-! ## Selections and the register -/

def selectionRange (s : CodeInputFieldState) : Option (Option ((Nat × Nat) × (Nat × Nat))) :=
  match s.visualAnchor, s.mode with
  | some anchor, .visual linewise =>
    let cursor := (s.activeLine, s.cursorCol)
    let span := if posLe anchor cursor then (anchor, cursor) else (cursor, anchor)
    if linewise then s.lines[span.2.1]?.map fun line => some ((span.1.1, 0), (span.2.1, line.length - 1)) else some (some span)
  | _, _ => some none

def extractCharwise (s : CodeInputFieldState) (start stop : Nat × Nat) : Option Line :=
  if start.1 = stop.1 then
    s.lines[start.1]?.bind fun chars =>
      let upTo := min (stop.2 + 1) chars.length
      slice? chars (min start.2 upTo) upTo
  else
    s.lines[start.1]?.bind fun first =>
      (slice? first (min start.2 first.length) first.length).bind fun head =>
        ((List.range' (start.1 + 1) (stop.1 - (start.1 + 1))).mapM fun l => s.lines[l]?).bind fun middle =>
          s.lines[stop.1]?.bind fun last =>
            (slice? last 0 (min (stop.2 + 1) last.length)).map fun tail => joinLines (head :: middle ++ [tail])

def linewise (s : CodeInputFieldState) : Bool := s.mode = .visual true

def yankSpan (s : CodeInputFieldState) (start stop : Nat × Nat) : Option CodeInputFieldState :=
  if s.linewise then (slice? s.lines start.1 (stop.1 + 1)).map fun ls => s.setRegister (joinLines ls) .linewise
  else (s.extractCharwise start stop).map fun text => s.setRegister text .charwise

def yankCurrentLine (s : CodeInputFieldState) : Option CodeInputFieldState :=
  s.activeText?.map fun text => s.setRegister text .linewise

def yankSelection (s : CodeInputFieldState) : Option CodeInputFieldState :=
  s.selectionRange.bind fun
    | some (start, stop) => s.yankSpan start stop
    | none => some s

/-- Lines `active..=end` for a count; the sum wraps in `usize`. -/
def countedEnd (s : CodeInputFieldState) (count : Nat) : Nat :=
  min ((s.activeLine + max count 1 + (2 ^ 64 - 1)) % 2 ^ 64) (s.lines.length - 1)

def yankLines (s : CodeInputFieldState) (count : Nat) : Option CodeInputFieldState :=
  (slice? s.lines s.activeLine (s.countedEnd count + 1)).map fun ls => s.setRegister (joinLines ls) .linewise

def cancelPendingChord (s : CodeInputFieldState) : CodeInputFieldState := { s with pending := none }

/-! ## Deleting and pasting -/

def dropLines (s : CodeInputFieldState) (first last : Nat) : Option CodeInputFieldState :=
  if first = 0 && last = s.lines.length - 1 then some { s with lines := [[]], activeLine := 0, cursorCol := 0 }
  else (splice? s.lines first last []).map fun lines =>
    { s with lines, activeLine := min first (lines.length - 1), cursorCol := 0 }

def deleteLines (s : CodeInputFieldState) (count : Nat) : Option CodeInputFieldState :=
  if cfg.disabled then some s
  else
    let last := s.countedEnd count
    let s := s.snapshotUndo
    (slice? s.lines s.activeLine (last + 1)).bind fun ls =>
      ((s.setRegister (joinLines ls) .linewise).dropLines s.activeLine last).bind clampNormal

def deleteCurrentLine (s : CodeInputFieldState) : Option CodeInputFieldState :=
  if cfg.disabled then some s
  else
    let s := s.snapshotUndo
    s.activeText?.bind fun text =>
      let s := s.setRegister text .linewise
      if s.lines.length = 1 then
        (set? s.lines 0 []).bind fun lines => clampNormal { s with lines, cursorCol := 0 }
      else
        (remove? s.lines s.activeLine).bind fun r =>
          clampNormal { s with lines := r.2, activeLine := min s.activeLine (r.2.length - 1), cursorCol := 0 }

def dropChars (s : CodeInputFieldState) (start stop : Nat × Nat) : Option CodeInputFieldState :=
  s.lines[start.1]?.bind fun first => s.lines[stop.1]?.bind fun last =>
    (slice? first 0 (min start.2 first.length)).bind fun head =>
      (slice? last (min (stop.2 + 1) last.length) last.length).bind fun tail =>
        (splice? s.lines start.1 stop.1 [head ++ tail]).map fun lines =>
          { s with lines, activeLine := start.1, cursorCol := start.2 }

def deleteSelection (s : CodeInputFieldState) : Option CodeInputFieldState :=
  if cfg.disabled then some s
  else
    s.selectionRange.bind fun
      | none => some s
      | some (start, stop) =>
        (s.snapshotUndo.yankSpan start stop).bind fun s =>
          (if s.linewise then s.dropLines start.1 stop.1 else s.dropChars start stop).bind fun s => s.enterNormal.clampNormal

def enterNormalAtSelectionStart (s : CodeInputFieldState) : Option CodeInputFieldState :=
  s.selectionRange.bind fun
    | some (start, _) => (s.moveTo start.1 start.2).enterNormal.clampNormal
    | none => s.enterNormal.clampNormal

def pasteLines (s : CodeInputFieldState) (insertAt : Nat) (newLines : List Line) : Option CodeInputFieldState :=
  (newLines.zipIdx.foldlM (fun lines p => insert? lines (insertAt + p.2) p.1) s.lines).map fun lines =>
    { s with lines, activeLine := insertAt, cursorCol := 0 }

def pasteChars (s : CodeInputFieldState) (insertCol : Nat) (parts : List Line) : Option CodeInputFieldState :=
  match parts with
  | [] => none
  | [part] => (s.insertAt s.activeLine insertCol part).map fun s => { s with cursorCol := insertCol + (part.length - 1) }
  | part :: next :: more =>
    s.activeText?.bind fun chars =>
      (slice? chars 0 insertCol).bind fun before => (slice? chars insertCol chars.length).bind fun tail =>
        let lastPart := (next :: more).getLast (List.cons_ne_nil next more)
        let newLines := (before ++ part) :: (next :: more).dropLast ++ [lastPart ++ tail]
        (splice? s.lines s.activeLine s.activeLine newLines).map fun lines =>
          { s with lines, activeLine := s.activeLine + newLines.length - 1, cursorCol := lastPart.length - 1 }

def paste (s : CodeInputFieldState) (after : Bool) : Option CodeInputFieldState :=
  match s.register with
  | none => some s
  | some (text, kind) =>
    let s := s.snapshotUndo
    match kind with
    | .linewise =>
      (s.pasteLines (if after then s.activeLine + 1 else s.activeLine) (text.splitOn '\n')).bind clampNormal
    | .charwise =>
      s.activeText?.bind fun line =>
        (s.pasteChars (if after then min (s.cursorCol + 1) line.length else s.cursorCol) (text.splitOn '\n')).bind clampNormal

/-! ## Editing -/

def openLineBelow (s : CodeInputFieldState) : Option CodeInputFieldState :=
  s.activeText?.bind fun line =>
    let indent := autoIndent R cfg.language line
    (insert? s.lines (s.activeLine + 1) (List.replicate indent ' ')).map fun lines =>
      { s with lines, activeLine := s.activeLine + 1, cursorCol := indent }

def openLineAbove (s : CodeInputFieldState) : Option CodeInputFieldState :=
  s.activeText?.bind fun line =>
    (insert? s.lines s.activeLine (List.replicate (leadingSpaces line) ' ')).map fun lines =>
      { s with lines, cursorCol := leadingSpaces line }

def splitLine (s : CodeInputFieldState) : Option CodeInputFieldState :=
  s.activeText?.bind fun chars =>
    (slice? chars 0 s.cursorCol).bind fun before => (slice? chars s.cursorCol chars.length).bind fun after =>
      let indent := autoIndent R cfg.language before
      (set? s.lines s.activeLine before).bind fun lines =>
        (insert? lines (s.activeLine + 1) (List.replicate indent ' ' ++ after)).map fun lines =>
          { s with lines, activeLine := s.activeLine + 1, cursorCol := indent }

def joinUp (s : CodeInputFieldState) (above : Nat) : Option (Line × CodeInputFieldState) :=
  (remove? s.lines (above + 1)).bind fun r => r.2[above]?.bind fun line =>
    (set? r.2 above (line ++ r.1)).map fun lines => (line, { s with lines })

def backspace (s : CodeInputFieldState) : Option CodeInputFieldState :=
  if s.cursorCol > 0 then
    (s.removeRange s.activeLine (s.cursorCol - 1) s.cursorCol).map fun r => { r.2 with cursorCol := s.cursorCol - 1 }
  else if s.activeLine > 0 then
    (s.joinUp (s.activeLine - 1)).map fun r => r.2.moveTo (s.activeLine - 1) r.1.length
  else some s

def deleteForward (s : CodeInputFieldState) : Option CodeInputFieldState :=
  s.activeText?.bind fun line =>
    if s.cursorCol < line.length then (s.removeRange s.activeLine s.cursorCol (s.cursorCol + 1)).map (·.2)
    else if s.activeLine + 1 < s.lines.length then (s.joinUp s.activeLine).map (·.2)
    else some s

def typeText (s : CodeInputFieldState) (text : Line) : Option CodeInputFieldState :=
  (s.insertAt s.activeLine s.cursorCol text).map fun s => { s with cursorCol := s.cursorCol + text.length }

/-- A second space soon enough after the first, at the place the first left the cursor, fills up an indent. -/
def spaceChord (now : Nat) (s : CodeInputFieldState) : Bool :=
  match cfg.spaceIndent, s.lastSpace with
  | some threshold, some (time, line, col) => line = s.activeLine && col = s.cursorCol && decide (now - time ≤ threshold)
  | _, _ => false

def typeSpace (now : Nat) (s : CodeInputFieldState) : Option CodeInputFieldState :=
  if spaceChord cfg now s then (s.typeText [' ', ' ', ' ']).map fun s => { s with lastSpace := none }
  else (s.typeText [' ']).map fun s =>
    if cfg.spaceIndent.isSome then { s with lastSpace := some (now, s.activeLine, s.cursorCol) } else s

def editLine (s : CodeInputFieldState) (line : Nat) : Option CodeInputFieldState :=
  let s := { s with activeLine := line }
  if cfg.disabled then some s else s.clampCursor

def consumed (x : Option CodeInputFieldState) : Option (EventResult × CodeInputFieldState) := x.map (Prod.mk .consumed)

/-- The keys of the plain editor, with no modifier unless they write a character; no state if the key is none of them. -/
def editKey (now : Nat) (s : CodeInputFieldState) (m : KeyModifiers) (code : KeyCode) :
    Option (Option CodeInputFieldState) :=
  match code with
  | .char c =>
    if plain m && !cfg.disabled then
      (if c = ' ' then typeSpace cfg now s else s.typeText [c]).map some
    else some none
  | code =>
    if m ≠ .NONE then some none
    else
      match code with
      | .up => (if s.activeLine > 0 then editLine cfg s (s.activeLine - 1) else some s).map some
      | .down => (if s.activeLine + 1 < s.lines.length then editLine cfg s (s.activeLine + 1) else some s).map some
      | .left => s.stepLeft.map some
      | .right => s.stepRight.map some
      | .enter => if cfg.disabled then some none else (splitLine cfg s).map some
      | .backspace => if cfg.disabled then some none else s.backspace.map some
      | .delete => if cfg.disabled then some none else s.deleteForward.map some
      | _ => some none

def handleEditKey (now : Nat) (s : CodeInputFieldState) (m : KeyModifiers) (code : KeyCode) :
    Option (EventResult × CodeInputFieldState) :=
  let s := if plain m && code = .char ' ' then s else { s with lastSpace := none }
  (editKey cfg now s m code).map fun
    | some t => (.consumed, t)
    | none => (.unhandled m code, s)

/-! ## The modes -/

def insertEsc (s : CodeInputFieldState) : Option CodeInputFieldState :=
  s.activeText?.map fun line =>
    { s with lastSpace := none, mode := .normal, cursorCol := min (s.cursorCol - 1) (line.length - 1) }

def insertTab (s : CodeInputFieldState) : Option CodeInputFieldState :=
  typeText { s with lastSpace := none } [' ', ' ', ' ', ' ']

def insertBackTab (s : CodeInputFieldState) : Option CodeInputFieldState :=
  let s := { s with lastSpace := none }
  s.activeText?.bind fun line =>
    let leading := min (leadingSpaces line) 4
    if leading > 0 then
      (s.removeRange s.activeLine 0 leading).map fun r => { r.2 with cursorCol := s.cursorCol - leading }
    else some s

def handleInsertKey (now : Nat) (s : CodeInputFieldState) (m : KeyModifiers) (code : KeyCode) :
    Option (EventResult × CodeInputFieldState) :=
  if m = .NONE ∧ code = .esc then consumed s.insertEsc
  else if m = .NONE ∧ code = .tab then consumed s.insertTab
  else if plain m ∧ code = .backTab then consumed s.insertBackTab
  else handleEditKey cfg now s m code

def deleteChar (s : CodeInputFieldState) : Option CodeInputFieldState :=
  s.activeText?.bind fun line =>
    if line.length > 0 then
      (s.snapshotUndo.removeRange s.activeLine s.cursorCol (s.cursorCol + 1)).bind fun r =>
        (r.2.setRegister r.1 .charwise).clampNormal
    else some s

def undoOnce (s : CodeInputFieldState) : Option CodeInputFieldState :=
  match s.undo with
  | some (lines, line, col) => clampNormal { s.snapshotUndo with lines, activeLine := line, cursorCol := col }
  | none => some s

def enterInsert (s : CodeInputFieldState) : CodeInputFieldState := { s with mode := .insert }

def startVisual (s : CodeInputFieldState) (linewise : Bool) : CodeInputFieldState :=
  { s with visualAnchor := some (s.activeLine, s.cursorCol), mode := .visual linewise }

def editCommand (s : CodeInputFieldState) : Char → Option CodeInputFieldState
  | 'x' => s.deleteChar
  | 'p' => s.paste true
  | 'P' => s.paste false
  | 'u' => s.undoOnce
  | 'i' => some s.snapshotUndo.enterInsert
  | 'a' =>
    s.activeText?.map fun line => { s.snapshotUndo with cursorCol := min (s.cursorCol + 1) line.length, mode := .insert }
  | 'I' =>
    s.activeText?.map fun line =>
      { s.snapshotUndo with cursorCol := (line.takeWhile R.isWhitespace).length, mode := .insert }
  | 'A' => s.activeText?.map fun line => { s.snapshotUndo with cursorCol := line.length, mode := .insert }
  | 'o' => (openLineBelow cfg s.snapshotUndo).map enterInsert
  | 'O' => s.snapshotUndo.openLineAbove.map enterInsert
  | _ => some s

def normalCommand (s : CodeInputFieldState) (m : KeyModifiers) (c : Char) : Option CodeInputFieldState :=
  if m = .NONE ∧ c = 'v' then some (s.startVisual false)
  else if c = 'V' then some (s.startVisual true)
  else if !cfg.disabled ∧ (m = .NONE ∨ c ∈ ['P', 'I', 'A', 'O']) then editCommand cfg s c
  else some s

def runChord (s : CodeInputFieldState) (c : Char) : Option CodeInputFieldState :=
  if c = 'g' then (s.moveTo 0 0).clampNormal else if c = 'd' then deleteCurrentLine cfg s else s.yankCurrentLine

def handleNormalKey (s : CodeInputFieldState) (m : KeyModifiers) (code : KeyCode) :
    Option (EventResult × CodeInputFieldState) :=
  match code with
  | .char c =>
    if m = .NONE ∧ c ∈ ['g', 'd', 'y'] then
      consumed (if s.pending = some c then runChord cfg s.cancelPendingChord c else some { s with pending := some c })
    else
      (applyMotion cfg s.cancelPendingChord m (.char c)).bind fun
        | some t => some (.consumed, t)
        | none =>
          if plain m then consumed (normalCommand cfg s.cancelPendingChord m c)
          else some (.unhandled m (.char c), s.cancelPendingChord)
  | code =>
    (applyMotion cfg s.cancelPendingChord m code).map fun
      | some t => (.consumed, t)
      | none => (.unhandled m code, s.cancelPendingChord)

def visualCommand (s : CodeInputFieldState) (m : KeyModifiers) (code : KeyCode) : Option (Option CodeInputFieldState) :=
  match code with
  | .esc => if m = .NONE then s.enterNormal.clampNormal.map some else some none
  | .char c =>
    if m = .NONE ∧ c = 'v' then s.enterNormal.clampNormal.map some
    else if plain m ∧ c = 'V' then some (some { s with mode := .visual true })
    else if m = .NONE ∧ c = 'y' then s.yankSelection.bind fun s => s.enterNormalAtSelectionStart.map some
    else if m = .NONE ∧ c ∈ ['d', 'x'] then (deleteSelection cfg s).map some
    else some none
  | _ => some none

def isChar : KeyCode → Bool
  | .char _ => true
  | _ => false

def handleVisualKey (s : CodeInputFieldState) (m : KeyModifiers) (code : KeyCode) :
    Option (EventResult × CodeInputFieldState) :=
  if m = .NONE ∧ code = .char 'g' then
    consumed (if s.pending = some 'g' then (s.cancelPendingChord.moveTo 0 0).clampNormal else some { s with pending := some 'g' })
  else
    let s := s.cancelPendingChord
    (visualCommand cfg s m code).bind fun
      | some t => some (.consumed, t)
      | none =>
        (applyMotion cfg s m code).map fun
          | some t => (.consumed, t)
          | none => if plain m && isChar code then (.consumed, s) else (.unhandled m code, s)

/-! ## The editor -/

def handleKey (now : Nat) (s : CodeInputFieldState) (m : KeyModifiers) (code : KeyCode) :
    Option (EventResult × CodeInputFieldState) :=
  if !cfg.vim then handleEditKey cfg now s m code
  else
    match s.mode with
    | .insert => handleInsertKey cfg now s m code
    | .normal => handleNormalKey cfg s m code
    | .visual _ => handleVisualKey cfg s m code

def handleEvents (now : Nat) (s : CodeInputFieldState) (m : KeyModifiers) (code : KeyCode) :
    Option (EventResult × CodeInputFieldState) :=
  if s.mode = .insert then handleKey cfg now s m code
  else
    (handleReadonlyNav cfg s m code).bind fun
      | some t => some (.consumed, t)
      | none => handleKey cfg now s m code

def reformatted (s : CodeInputFieldState) : Option Line :=
  if cfg.disabled then none
  else (cfg.language.bind fun lang => R.format lang s.content).filter (· ≠ s.content)

def formatOnBlur (s : CodeInputFieldState) (focus : Bool) : Option CodeInputFieldState :=
  match if s.focused && !focus then reformatted cfg s else none with
  | some text => setContent cfg s text
  | none => some s

def setFocused (s : CodeInputFieldState) (focus : Bool) : Option CodeInputFieldState :=
  (formatOnBlur cfg s focus).map fun s =>
    if focus then { s with focused := true } else { s.enterNormal with pending := none, focused := false }

def rendered (s : CodeInputFieldState) (height width : UInt16) : CodeInputFieldState :=
  if height = 0 then s
  else
    let height := height.toNat
    let width := width.toNat
    let s := { s with visibleHeight := height }
    if s.lines = [[]] && !s.focused then s
    else
      let scroll :=
        if !s.focused then min s.scrollOffset (s.lines.length - 1)
        else if s.activeLine < s.scrollOffset then s.activeLine
        else if s.scrollOffset + height ≤ s.activeLine then s.activeLine + 1 - height
        else s.scrollOffset
      let hScroll :=
        if width = 0 then 0
        else if !s.focused then s.hScroll
        else if s.cursorCol < s.hScroll then s.cursorCol
        else if s.hScroll + width ≤ s.cursorCol then s.cursorCol + 1 - width
        else s.hScroll
      { s with scrollOffset := scroll, contentWidth := max width 1, hScroll }

end CodeInputFieldState

inductive EditorEvent where
  | key (now : Nat) (m : KeyModifiers) (code : KeyCode)
  | setContent (text : Line)
  | setFocused (focus : Bool)
  | rendered (height width : UInt16)
  deriving DecidableEq

def editorStep (s : CodeInputFieldState) : EditorEvent → Option CodeInputFieldState
  | .key now m code => (CodeInputFieldState.handleEvents cfg now s m code).map (·.2)
  | .setContent text => s.setContent cfg text
  | .setFocused focus => s.setFocused cfg focus
  | .rendered height width => some (s.rendered height width)

end

end Ferrowl.Ui
