import Ferrowl.DiffView
/-!
# DiffNav — moving around in a diff

`state/diff_view.rs`: the cursor, the selection and the scroll offsets of the diff widget, and its keys.  A row is drawn as one
or more display rows: wrapped lines, a changed pair of the unified layout, and the annotations below it.  The vertical scroll
offset counts display rows, the active row and the folds count rows.

A count is summed up in `usize`.  The clipboard sequence of a yank, and the styles, which do not influence where a line wraps,
are left out.
-/
namespace Ferrowl.Ui.DiffView

/-! ## Wrapping -/

structure Tokens where
  tokens : List Line
  cur : Line
  curIsSpace : Option Bool

def Tokens.push (t : Tokens) (c : Char) : Tokens :=
  let isSpace := c == ' '
  if t.curIsSpace = none ∨ t.curIsSpace = some isSpace then { t with cur := t.cur ++ [c], curIsSpace := some isSpace }
  else { tokens := t.tokens ++ [t.cur], cur := [c], curIsSpace := some isSpace }

def tokenize (chars : Line) : List Line :=
  let t := chars.foldl Tokens.push ⟨[], [], none⟩
  if t.cur.isEmpty then t.tokens else t.tokens ++ [t.cur]

structure Wrapping where
  rows : List Line
  cur : Line

namespace Wrapping

def capFor (width indent rowIndex : Nat) : Nat := max (if rowIndex = 0 then width else width - indent) 1

theorem capFor_pos (width indent rowIndex : Nat) : 0 < capFor width indent rowIndex := Nat.le_max_right _ _

def cut (width indent : Nat) (w : Wrapping) (remaining : Line) : Wrapping :=
  let cap := capFor width indent w.rows.length
  if remaining.length ≤ cap then { w with cur := w.cur ++ remaining }
  else cut width indent { w with rows := w.rows ++ [remaining.take cap] } (remaining.drop cap)
termination_by remaining.length
decreasing_by
  have := capFor_pos width indent w.rows.length
  rw [List.length_drop]
  omega

def push (width indent : Nat) (w : Wrapping) (token : Line) : Wrapping :=
  let isSpaceToken := token.head? = some ' '
  if w.cur.length + token.length ≤ capFor width indent w.rows.length then { w with cur := w.cur ++ token }
  else if isSpaceToken ∧ !w.cur.isEmpty then { rows := w.rows ++ [w.cur], cur := [] }
  else if isSpaceToken then w.cut width indent token
  else
    let w := if w.cur.isEmpty then w else { rows := w.rows ++ [w.cur.rdropWhile (· == ' ')], cur := [] }
    w.cut width indent token

end Wrapping

def wordWrap (chars : Line) (width indent : Nat) : List Line :=
  let w := (tokenize chars).foldl (Wrapping.push width indent) ⟨[], []⟩
  let rows := if w.cur.isEmpty then w.rows else w.rows ++ [w.cur]
  rows.mapIdx fun i row => if 0 < i ∧ 0 < indent then List.replicate indent ' ' ++ row else row

/-! ## The view -/

inductive Side where
  | old
  | new
  deriving DecidableEq, Repr

inductive DiffLayout where
  | split
  | unified
  deriving DecidableEq, Repr

def DiffLayout.toggle : DiffLayout → DiffLayout
  | .split => .unified
  | .unified => .split

inductive DiffMode where
  | normal
  | visual
  deriving DecidableEq, Repr

inductive DiffDisplay where
  | hunkOnly
  | fullFile
  deriving DecidableEq, Repr

def DiffDisplay.toggle : DiffDisplay → DiffDisplay
  | .hunkOnly => .fullFile
  | .fullFile => .hunkOnly

/-- A block of text below the last row of a range of lines, both ends included. -/
structure Annotation where
  side : Side
  lines : Nat × Nat
  deriving DecidableEq, Repr

inductive RowPart where
  | metaRow (subRow : Nat)
  | pair (oldSub newSub : Option Nat)
  | annotationRow (index subRow : Nat)
  deriving DecidableEq, Repr

def RowPart.isAnnotationRow : RowPart → Bool
  | .annotationRow _ _ => true
  | _ => false

structure DisplayRow where
  logical : Nat
  part : RowPart
  deriving DecidableEq, Repr

structure DiffViewState where
  rows : List DiffRow
  activeRow : Nat
  anchor : Option Nat
  mode : DiffMode
  pending : Option Char
  pendingCount : Option Nat
  register : Option Line
  scrollOffset : Nat
  hScroll : Nat
  layout : DiffLayout
  focusedSide : Side
  visibleHeight : Nat
  contentWidth : Nat
  contentWidthOld : Nat
  contentWidthNew : Nat
  contentWidthMeta : Nat
  wrap : Bool
  display : DiffDisplay
  folds : List (Nat × Nat)
  hasFullFile : Bool
  annotations : List Annotation
  annotationsShown : Bool
  annotationHeights : List Nat
  deriving DecidableEq

structure DiffSettings where
  layout : DiffLayout := .split
  focusedSide : Side := .old
  wrap : Bool := false
  display : DiffDisplay := .hunkOnly
  annotations : List Annotation := []

structure Measures where
  height : Nat
  widthOld : Nat
  widthNew : Nat
  widthMeta : Nat
  annotationHeights : List Nat

namespace DiffViewState

def build (cfg : DiffSettings) : DiffViewState where
  rows := []
  activeRow := 0
  anchor := none
  mode := .normal
  pending := none
  pendingCount := none
  register := none
  scrollOffset := 0
  hScroll := 0
  layout := cfg.layout
  focusedSide := cfg.focusedSide
  visibleHeight := 1
  contentWidth := 1
  contentWidthOld := 1
  contentWidthNew := 1
  contentWidthMeta := 1
  wrap := cfg.wrap
  display := cfg.display
  folds := []
  hasFullFile := false
  annotations := cfg.annotations
  annotationsShown := true
  annotationHeights := []

def setDiff (s : DiffViewState) (text : List Char) : DiffViewState :=
  { s with
    rows := parse text
    activeRow := 0
    anchor := none
    mode := .normal
    scrollOffset := 0
    hScroll := 0
    pending := none
    pendingCount := none
    register := none
    display := .hunkOnly
    folds := []
    hasFullFile := false }

def setDiffAndFile (s : DiffViewState) (diff newText : List Char) : Option DiffViewState :=
  (parseFullFile diff newText).map fun (rows, folds) =>
    { s with
      rows := rows
      folds := folds
      hasFullFile := true
      activeRow := 0
      anchor := none
      mode := .normal
      scrollOffset := 0
      hScroll := 0
      pending := none
      pendingCount := none
      register := none }

def buildWithDiff (cfg : DiffSettings) (text : List Char) : DiffViewState := (build cfg).setDiff text

def buildWithDiffAndFile (cfg : DiffSettings) (diff newText : List Char) : Option DiffViewState :=
  (build cfg).setDiffAndFile diff newText

def setContentWidths (s : DiffViewState) (old new : Nat) : DiffViewState :=
  { s with contentWidthOld := max old 1, contentWidthNew := max new 1, contentWidth := max (max old 1) (max new 1) }

def rendered (s : DiffViewState) (m : Measures) : DiffViewState :=
  let s := { s with visibleHeight := m.height }
  let s := s.setContentWidths m.widthOld m.widthNew
  { s with contentWidthMeta := max m.widthMeta 1, annotationHeights := m.annotationHeights }

def isFolded (s : DiffViewState) (index : Nat) : Bool :=
  s.display == .hunkOnly && s.folds.any (fun f => decide (f.1 ≤ index) && decide (index ≤ f.2))

def nearestUnfolded (s : DiffViewState) (start : Nat) : Nat :=
  if s.rows.isEmpty || !s.isFolded start then min start (s.rows.length - 1)
  else
    match (List.range' start (s.rows.length - start)).find? (fun i => !s.isFolded i) with
    | some i => i
    | none => ((List.range start).reverse.find? (fun i => !s.isFolded i)).getD start

def selectedRows (s : DiffViewState) : Option (Nat × Nat) :=
  if s.rows.isEmpty then none
  else
    match s.mode with
    | .normal => some (s.activeRow, s.activeRow)
    | .visual =>
      let anchor := s.anchor.getD s.activeRow
      some (if anchor ≤ s.activeRow then (anchor, s.activeRow) else (s.activeRow, anchor))

def clampActiveRow (s : DiffViewState) : DiffViewState :=
  { s with activeRow := if s.rows.isEmpty then 0 else min s.activeRow (s.rows.length - 1) }

/-! ## Display rows -/

def sideSubRows (s : DiffViewState) (text : Line) (width : Nat) : Nat :=
  if !s.wrap then 1 else max (wordWrap text (max width 1) 0).length 1

def rowDisplayParts (s : DiffViewState) : DiffRow → List RowPart
  | .metaRow text => (List.range (s.sideSubRows text s.contentWidthMeta)).map .metaRow
  | .pair _ old new =>
    let oldText := (old.map DiffEntry.text).getD []
    let newText := (new.map DiffEntry.text).getD []
    match s.layout with
    | .split =>
      let o := s.sideSubRows oldText s.contentWidthOld
      let n := s.sideSubRows newText s.contentWidthNew
      (List.range (max o n)).map fun i => .pair (if i < o then some i else none) (if i < n then some i else none)
    | .unified =>
      if old.isSome ∧ new.isSome ∧ oldText ≠ newText then
        let o := s.sideSubRows oldText s.contentWidth
        let n := s.sideSubRows newText s.contentWidth
        (List.range o).map (fun i => .pair (some i) none) ++ (List.range n).map (fun i => .pair none (some i))
      else if old.isSome then (List.range (s.sideSubRows oldText s.contentWidth)).map fun i => .pair (some i) none
      else (List.range (s.sideSubRows newText s.contentWidth)).map fun i => .pair none (some i)

def annotationAnchorRow (s : DiffViewState) (ann : Annotation) : Option Nat :=
  s.rows.zipIdx.reverse.findSome? fun (row, i) =>
    let entry := match ann.side with
      | .old => row.old
      | .new => row.new
    (entry.filter fun e => decide (ann.lines.1 ≤ e.lineNo) && decide (e.lineNo ≤ ann.lines.2)).map fun _ => i

def annotationAnchorsByRow (s : DiffViewState) (row : Nat) : List Nat :=
  if !s.annotationsShown then []
  else (s.annotations.zipIdx.filter fun a => s.annotationAnchorRow a.1 == some row).map Prod.snd

/-- The display rows of an annotation: its text and two of border, none before it is measured. -/
def annotationRows (s : DiffViewState) (logical index : Nat) : List DisplayRow :=
  let measured := s.annotationHeights[index]?.getD 0
  let total := if measured = 0 then 0 else measured + 2
  (List.range total).map fun subRow => ⟨logical, .annotationRow index subRow⟩

def displayRows (s : DiffViewState) : List DisplayRow :=
  s.rows.zipIdx.flatMap fun (row, logical) =>
    if s.isFolded logical then []
    else
      (s.rowDisplayParts row).map (fun part => ⟨logical, part⟩) ++
        (s.annotationAnchorsByRow logical).flatMap (s.annotationRows logical)

def activeDisplayRows (s : DiffViewState) : List Nat :=
  (s.displayRows.zipIdx.filter fun d => d.1.logical == s.activeRow && !d.1.part.isAnnotationRow).map Prod.snd

def activeRowDisplaySpan (s : DiffViewState) : Nat × Nat := (s.activeDisplayRows.headD 0, s.activeDisplayRows.getLastD 0)

def ensureVisible (s : DiffViewState) : DiffViewState :=
  let (start, stop) := s.activeRowDisplaySpan
  if start < s.scrollOffset then { s with scrollOffset := start }
  else
    let visible := max s.visibleHeight 1
    if visible < stop - start + 1 then { s with scrollOffset := start }
    -- one by one until the last display row is in view
    else { s with scrollOffset := max s.scrollOffset (stop + 1 - visible) }

/-! ## Motions -/

/-- Over folded rows, as far as there are rows `left` in the direction of travel. -/
def skipFolded (s : DiffViewState) (down : Bool) : Nat → Nat → Nat
  | 0, next => next
  | left + 1, next => if s.isFolded next then s.skipFolded down left (if down then next + 1 else next - 1) else next

/-- The row a step comes to, over folded rows as far as the edge. -/
def stepTarget (s : DiffViewState) (down : Bool) : Nat :=
  let last := s.rows.length - 1
  let next := if down then min (s.activeRow + 1) last else s.activeRow - 1
  s.skipFolded down (if down then last - next else next) next

def landing (s : DiffViewState) (row : Nat) : Nat := if s.isFolded row then s.nearestUnfolded row else row

/-- `j` and `k`: a row taller than the window scrolls first. -/
def stepDisplayOrLogical (s : DiffViewState) (down : Bool) : DiffViewState :=
  if s.rows.isEmpty then s
  else
    let (start, stop) := s.activeRowDisplaySpan
    let visible := max s.visibleHeight 1
    if down ∧ s.scrollOffset + visible ≤ stop then { s with scrollOffset := s.scrollOffset + 1 }
    else if ¬ down ∧ start < s.scrollOffset then { s with scrollOffset := s.scrollOffset - 1 }
    else ({ s with activeRow := s.landing (s.stepTarget down) }).clampActiveRow.ensureVisible

def moveActiveRowTo (s : DiffViewState) (row : Nat) : DiffViewState :=
  let s := ({ s with activeRow := row }).clampActiveRow
  ({ s with activeRow := s.landing s.activeRow }).ensureVisible

def clampIndex (i : Int) (len : Nat) : Nat := (max 0 (min i ((len : Int) - 1))).toNat

theorem clampIndex_lt {len : Nat} (h : 0 < len) (i : Int) : clampIndex i len < len := by
  unfold clampIndex
  omega

def pageMove (s : DiffViewState) (down : Bool) (rows : Nat) : DiffViewState :=
  if h : 0 < s.displayRows.length then
    let start := s.activeRowDisplaySpan.1
    let rows := max rows 1
    let target := clampIndex ((start : Int) + if down then (rows : Int) else -(rows : Int)) s.displayRows.length
    let logical := (s.displayRows.get ⟨target, clampIndex_lt h _⟩).logical
    let logical :=
      if logical = s.activeRow then (if down then min (logical + 1) (s.rows.length - 1) else logical - 1) else logical
    s.moveActiveRowTo logical
  else s

def maxHScroll (s : DiffViewState) : Nat :=
  ((s.rows.map fun
      | .metaRow text => text.length
      | .pair _ old new => max ((old.map fun e => e.text.length).getD 0) ((new.map fun e => e.text.length).getD 0)).max?.getD 0) - 1

def activeRowTextLen (s : DiffViewState) (side : Side) : Nat :=
  match s.rows[s.activeRow]? with
  | some (.pair _ old new) =>
    let entry := match side with
      | .old => old
      | .new => new
    (entry.map fun e => e.text.length).getD 0
  | _ => 0

def hunkHeaderRows (s : DiffViewState) : List Nat :=
  (s.rows.zipIdx.filter fun
    | (.metaRow text, _) => startsHunk text
    | _ => false).map Prod.snd

def jumpToNextHunk (s : DiffViewState) : DiffViewState :=
  match s.hunkHeaderRows.find? (fun h => decide (s.activeRow < h + 1)) with
  | some h => s.moveActiveRowTo (h + 1)
  | none =>
    match s.hunkHeaderRows.getLast? with
    | some last => s.moveActiveRowTo (last + 1)
    | none => s

def jumpToPrevHunk (s : DiffViewState) : DiffViewState :=
  match s.hunkHeaderRows.reverse.find? (fun h => decide (h + 1 < s.activeRow)) with
  | some h => s.moveActiveRowTo (h + 1)
  | none =>
    match s.hunkHeaderRows.head? with
    | some first => s.moveActiveRowTo (first + 1)
    | none => s

def yank (s : DiffViewState) : DiffViewState :=
  match s.selectedRows with
  | none => s
  | some (lo, hi) =>
    let lines := (List.range' lo (hi + 1 - lo)).filterMap fun i =>
      s.rows[i]?.bind fun row =>
        (match s.focusedSide with
          | .old => row.old
          | .new => row.new).map DiffEntry.text
    { s with register := some (List.intercalate ['\n'] lines) }

def toggleDisplay (s : DiffViewState) : DiffViewState :=
  let s := { s with display := s.display.toggle }
  let s :=
    if s.display = .hunkOnly then
      { s with activeRow := s.nearestUnfolded s.activeRow, anchor := s.anchor.map s.nearestUnfolded }
    else s
  ({ s with scrollOffset := 0 }).ensureVisible

/-! ## The keys -/

/-- A digit of a count; `0` is none. -/
def countDigit (m : KeyModifiers) : KeyCode → Option Nat
  | .char c => if m = .NONE ∧ '1' ≤ c ∧ c ≤ '9' then some (c.toNat - '0'.toNat) else none
  | _ => none

def steps (s : DiffViewState) (down : Bool) : DiffViewState :=
  (fun t => stepDisplayOrLogical t down)^[max (s.pendingCount.getD 1) 1] { s with pendingCount := none }

def handleKey (s : DiffViewState) (m : KeyModifiers) (code : KeyCode) : EventResult × DiffViewState :=
  match countDigit m code with
  | some digit => (.consumed, { s with pendingCount := some ((s.pendingCount.getD 0 * 10 + digit) % 2 ^ 64) })
  | none =>
    if m = .NONE ∧ (code = .char 'j' ∨ code = .down) then (.consumed, s.steps true)
    else if m = .NONE ∧ (code = .char 'k' ∨ code = .up) then (.consumed, s.steps false)
    else if (m = .NONE ∨ m = .SHIFT) ∧ code = .char 'G' then
      (.consumed, ({ s with pendingCount := none }).moveActiveRowTo (s.rows.length - 1))
    else if m = .NONE ∧ code = .pageDown then (.consumed, s.pageMove true s.visibleHeight)
    else if m = .NONE ∧ code = .pageUp then (.consumed, s.pageMove false s.visibleHeight)
    else if m = .CONTROL ∧ code = .char 'd' then (.consumed, s.pageMove true (max (s.visibleHeight / 2) 1))
    else if m = .CONTROL ∧ code = .char 'u' then (.consumed, s.pageMove false (max (s.visibleHeight / 2) 1))
    else if (m = .NONE ∨ m = .SHIFT) ∧ code = .char 'h' ∨ m = .NONE ∧ code = .left then
      (.consumed, if s.wrap then s else { s with hScroll := s.hScroll - 1 })
    else if (m = .NONE ∨ m = .SHIFT) ∧ code = .char 'l' ∨ m = .NONE ∧ code = .right then
      (.consumed, if s.wrap then s else { s with hScroll := min (s.hScroll + 1) s.maxHScroll })
    else if (m = .NONE ∨ m = .SHIFT) ∧ code = .char '0' then (.consumed, if s.wrap then s else { s with hScroll := 0 })
    else if (m = .NONE ∨ m = .SHIFT) ∧ code = .char '$' then
      (.consumed, if s.wrap then s
        else { s with hScroll := s.activeRowTextLen s.focusedSide - 1 + 1 - s.contentWidth })
    else if m = .NONE ∧ code = .char 'v' ∧ s.mode = .normal then
      (.consumed, { s with mode := .visual, anchor := some s.activeRow })
    else if (m = .NONE ∨ m = .SHIFT) ∧ code = .char 'V' ∧ s.mode = .normal then
      (.consumed, { s with mode := .visual, anchor := some s.activeRow })
    else if m = .NONE ∧ code = .esc ∧ s.mode = .visual then (.consumed, { s with mode := .normal, anchor := none })
    else if m = .CONTROL ∧ code = .char 't' then
      (.consumed, { s with layout := s.layout.toggle })
    else if m = .CONTROL ∧ code = .char 'a' then
      (.consumed, ({ s with annotationsShown := !s.annotationsShown }).ensureVisible)
    else if m = .CONTROL ∧ code = .char 'f' then (.consumed, if s.hasFullFile then s.toggleDisplay else s)
    else (.unhandled m code, s)

def handleEvents (s : DiffViewState) (m : KeyModifiers) (code : KeyCode) : EventResult × DiffViewState :=
  if m = .NONE ∧ code = .char 'c' ∧ (s.pending = some '[' ∨ s.pending = some ']') then
    (.consumed,
      if s.pending = some ']' then ({ s with pending := none }).jumpToNextHunk
      else ({ s with pending := none }).jumpToPrevHunk)
  else if m = .NONE ∧ (code = .char '[' ∨ code = .char ']') then
    (.consumed, { s with pending := some (if code = .char ']' then ']' else '[') })
  else if m = .NONE ∧ code = .char 'g' then
    (.consumed,
      if s.pending = some 'g' then ({ s with pending := none, pendingCount := none }).moveActiveRowTo 0
      else { s with pending := some 'g' })
  else if m = .NONE ∧ code = .char 'y' then
    (.consumed,
      if s.mode = .visual then { s.yank with mode := .normal, anchor := none }
      else if s.pending = some 'y' then ({ s with pending := none }).yank
      else { s with pending := some 'y' })
  else handleKey { s with pending := none } m code

def press (s : DiffViewState) (key : KeyModifiers × KeyCode) : DiffViewState := (s.handleEvents key.1 key.2).2

/-! ## What a key does -/

variable (s : DiffViewState)

theorem ensureVisible_eq : ∃ offset, s.ensureVisible = { s with scrollOffset := offset } := by
  unfold ensureVisible
  dsimp only
  split
  · exact ⟨_, rfl⟩
  · split
    · exact ⟨_, rfl⟩
    · exact ⟨_, rfl⟩

theorem stepDisplayOrLogical_cases (down : Bool) : s.stepDisplayOrLogical down = s ∨
    s.scrollOffset + max s.visibleHeight 1 ≤ s.activeRowDisplaySpan.2 ∧
      s.stepDisplayOrLogical down = { s with scrollOffset := s.scrollOffset + 1 } ∨
    s.activeRowDisplaySpan.1 < s.scrollOffset ∧
      s.stepDisplayOrLogical down = { s with scrollOffset := s.scrollOffset - 1 } ∨
    ∃ row, s.stepDisplayOrLogical down = ({ s with activeRow := row }).ensureVisible := by
  unfold stepDisplayOrLogical
  dsimp only
  split
  · exact .inl rfl
  split
  · rename_i h
    exact .inr (.inl ⟨h.2, rfl⟩)
  split
  · rename_i h
    exact .inr (.inr (.inl ⟨h.2, rfl⟩))
  · exact .inr (.inr (.inr ⟨_, rfl⟩))

theorem stepDisplayOrLogical_eq (down : Bool) :
    ∃ row offset, s.stepDisplayOrLogical down = { s with activeRow := row, scrollOffset := offset } := by
  rcases s.stepDisplayOrLogical_cases down with h | ⟨-, h⟩ | ⟨-, h⟩ | ⟨row, h⟩
  · exact ⟨s.activeRow, s.scrollOffset, h⟩
  · exact ⟨s.activeRow, _, h⟩
  · exact ⟨s.activeRow, _, h⟩
  · obtain ⟨offset, hoffset⟩ := ensureVisible_eq { s with activeRow := row }
    exact ⟨row, offset, h.trans hoffset⟩

theorem toggleDisplay_eq : ∃ t : DiffViewState, s.toggleDisplay = t.ensureVisible ∧ t.visibleHeight = s.visibleHeight := by
  unfold toggleDisplay
  refine ⟨_, rfl, ?_⟩
  dsimp only
  split
  · rfl
  · rfl

/-- What a key other than the layout key does to the view. -/
inductive Motion : DiffViewState → DiffViewState → Prop where
  | quiet (s : DiffViewState) (pending : Option Char) (count : Option Nat) (register : Option Line) (hScroll : Nat) :
      Motion s { s with pending := pending, pendingCount := count, register := register, hScroll := hScroll }
  | step (s : DiffViewState) (down : Bool) : Motion s (s.stepDisplayOrLogical down)
  | move (s : DiffViewState) (row : Nat) : Motion s (s.moveActiveRowTo row)
  | select (s : DiffViewState) : Motion s { s with mode := .visual, anchor := some s.activeRow }
  | deselect (s : DiffViewState) : Motion s { s with mode := .normal, anchor := none }
  | annotations (s : DiffViewState) : Motion s ({ s with annotationsShown := !s.annotationsShown }).ensureVisible
  | display (s : DiffViewState) : Motion s s.toggleDisplay

abbrev Motions : DiffViewState → DiffViewState → Prop := Relation.ReflTransGen Motion

theorem motions_steps (down : Bool) : Motions s (s.steps down) := by
  have hsteps : ∀ (n : Nat) (t : DiffViewState), Motions t ((fun u => stepDisplayOrLogical u down)^[n] t) := by
    intro n
    induction n with
    | zero => exact fun t => .refl
    | succ n ih => exact fun t => .head (.step t down) (ih _)
  exact .head (.quiet s s.pending none s.register s.hScroll) (hsteps _ _)

theorem motions_pageMove (down : Bool) (rows : Nat) : Motions s (s.pageMove down rows) := by
  unfold pageMove
  split
  · exact .single (.move s _)
  · exact .refl

theorem motions_jumpToNextHunk : Motions s s.jumpToNextHunk := by
  unfold jumpToNextHunk
  split
  · exact .single (.move s _)
  · split
    · exact .single (.move s _)
    · exact .refl

theorem motions_jumpToPrevHunk : Motions s s.jumpToPrevHunk := by
  unfold jumpToPrevHunk
  split
  · exact .single (.move s _)
  · split
    · exact .single (.move s _)
    · exact .refl

theorem motions_yank : Motions s s.yank := by
  unfold yank
  split
  · exact .refl
  · exact .single (.quiet s s.pending s.pendingCount _ s.hScroll)

theorem motions_hScroll (hScroll : Nat) : Motions s (if s.wrap then s else { s with hScroll := hScroll }) := by
  split
  · exact .refl
  · exact .single (.quiet s s.pending s.pendingCount s.register hScroll)

theorem motions_ite {s : DiffViewState} {p : Prop} [Decidable p] {a b : EventResult × DiffViewState}
    (ha : p → Motions s a.2) (hb : ¬ p → Motions s b.2) : Motions s (if p then a else b).2 := by
  split
  · exact ha ‹p›
  · exact hb ‹¬ p›

theorem motions_handleKey {m : KeyModifiers} {code : KeyCode}
    (hkey : ¬ (m = .CONTROL ∧ code = .char 't')) : Motions s (s.handleKey m code).2 := by
  unfold handleKey
  cases countDigit m code with
  | some digit => exact .single (.quiet s s.pending _ s.register s.hScroll)
  | none =>
    refine motions_ite (fun _ => motions_steps s true) fun _ => ?_
    refine motions_ite (fun _ => motions_steps s false) fun _ => ?_
    refine motions_ite (fun _ => .head (.quiet s s.pending none s.register s.hScroll) (.single (.move _ _))) fun _ => ?_
    refine motions_ite (fun _ => motions_pageMove s true _) fun _ => ?_
    refine motions_ite (fun _ => motions_pageMove s false _) fun _ => ?_
    refine motions_ite (fun _ => motions_pageMove s true _) fun _ => ?_
    refine motions_ite (fun _ => motions_pageMove s false _) fun _ => ?_
    refine motions_ite (fun _ => motions_hScroll s _) fun _ => ?_
    refine motions_ite (fun _ => motions_hScroll s _) fun _ => ?_
    refine motions_ite (fun _ => motions_hScroll s _) fun _ => ?_
    refine motions_ite (fun _ => motions_hScroll s _) fun _ => ?_
    refine motions_ite (fun _ => .single (.select s)) fun _ => ?_
    refine motions_ite (fun _ => .single (.select s)) fun _ => ?_
    refine motions_ite (fun _ => .single (.deselect s)) fun _ => ?_
    refine motions_ite (fun h => absurd h hkey) fun _ => ?_
    refine motions_ite (fun _ => .single (.annotations s)) fun _ => ?_
    refine motions_ite (fun _ => ?_) fun _ => .refl
    dsimp only
    split
    · exact .single (.display s)
    · exact .refl

theorem motions_handleEvents {m : KeyModifiers} {code : KeyCode}
    (hkey : ¬ (m = .CONTROL ∧ code = .char 't')) : Motions s (s.handleEvents m code).2 := by
  have hquiet : ∀ pending count, Motion s { s with pending := pending, pendingCount := count } :=
    fun pending count => .quiet s pending count s.register s.hScroll
  unfold handleEvents
  refine motions_ite (fun _ => ?_) fun _ => ?_
  · dsimp only
    split
    · exact .head (hquiet none s.pendingCount) (motions_jumpToNextHunk _)
    · exact .head (hquiet none s.pendingCount) (motions_jumpToPrevHunk _)
  refine motions_ite (fun _ => .single (hquiet _ s.pendingCount)) fun _ => ?_
  refine motions_ite (fun _ => ?_) fun _ => ?_
  · dsimp only
    split
    · exact .head (hquiet none none) (.single (.move _ 0))
    · exact .single (hquiet _ s.pendingCount)
  refine motions_ite (fun _ => ?_) fun _ => ?_
  · dsimp only
    split
    · exact (motions_yank s).tail (.deselect s.yank)
    · split
      · exact .head (hquiet none s.pendingCount) (motions_yank _)
      · exact .single (hquiet _ s.pendingCount)
  · exact .head (hquiet none s.pendingCount) (motions_handleKey _ hkey)

theorem handleEvents_layout :
    (s.handleEvents .CONTROL (.char 't')).2 = { s with pending := none, layout := s.layout.toggle } := rfl

end DiffViewState

end Ferrowl.Ui.DiffView
