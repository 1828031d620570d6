import Ferrowl.VimMotions
import Ferrowl.App
/-!
# DiffView — the rows of a unified diff

`state/diff_view.rs`: `parse` turns a unified diff into rows, each an aligned pair of an old and a new entry or a meta line, and
`parse_full_file` fills in the lines of the new file that no hunk covers, with the old line numbers that follow from the hunks
before them.  Filled-in rows are reported as folds.

Indexing past the new file's lines panics in the source and is `none` here.  Line numbers are unbounded once they are read from a
header, where a number of more than 64 bits counts as 1.
-/
namespace Ferrowl.Ui.DiffView

open List

open Tui (splitWhitespace parseUsize)

inductive DiffKind where
  | context
  | added
  | removed
  deriving DecidableEq, Repr

structure DiffEntry where
  text : Line
  lineNo : Nat
  deriving DecidableEq, Repr

inductive DiffRow where
  | pair (kind : DiffKind) (old new : Option DiffEntry)
  | metaRow (text : Line)
  deriving DecidableEq, Repr

/-! ## Headers -/

def startsHunk (line : Line) : Bool := ['@', '@'].isPrefixOf line

def untilMark : Line → Line
  | '@' :: '@' :: _ => []
  | c :: rest => c :: untilMark rest
  | [] => []

/-- The words between the two `@@` of a header; a section heading behind them is not looked at. -/
def counters (header : Line) : List Line :=
  match header with
  | '@' :: '@' :: rest => splitWhitespace (untilMark rest)
  | _ => []

def rangeStart (range : Line) : Nat := (parseUsize (range.takeWhile (· != ','))).getD 1

def rangeCount (range : Line) : Nat :=
  match range.dropWhile (· != ',') with
  | [] => 1
  | _ :: count => (parseUsize count).getD 1

/-- The old and the new starting line of a header, as `parse` reads them. -/
def hunkStarts (header : Line) : Nat × Nat :=
  (counters header).foldl
    (fun starts word =>
      match word with
      | '-' :: range => (rangeStart range, starts.2)
      | '+' :: range => (starts.1, rangeStart range)
      | _ => starts)
    (1, 1)

structure HunkHeader where
  oldStart : Nat
  oldCount : Nat
  newStart : Nat
  newCount : Nat
  deriving DecidableEq, Repr

def hunkHeader (header : Line) : HunkHeader :=
  (counters header).foldl
    (fun h word =>
      match word with
      | '-' :: range => { h with oldStart := rangeStart range, oldCount := rangeCount range }
      | '+' :: range => { h with newStart := rangeStart range, newCount := rangeCount range }
      | _ => h)
    ⟨1, 1, 1, 1⟩

/-! ## Rows of a diff -/

def splitLines (text : List Char) : List Line :=
  let text := if text.getLast? = some '\n' then text.dropLast else text
  if text.isEmpty then [] else text.splitOn '\n'

/-- What `parse` keeps while it goes over the lines: the run of removed and added lines that is not yet paired, and the
meta lines inside it, each with the row it follows. -/
structure ParseState where
  rows : List DiffRow
  inHunk : Bool
  oldLine : Nat
  newLine : Nat
  removed : List DiffEntry
  added : List DiffEntry
  lastRunLen : Nat
  pendingMetas : List (Nat × Line)

/-- The rows of a run from the `i`th on: removed and added lines paired by position, a meta line behind its row. -/
def flushFrom (removed added : List DiffEntry) : Nat → Nat → List (Nat × Line) → List DiffRow
  | 0, _, metas => metas.map (fun m => .metaRow m.2)
  | count + 1, i, metas =>
    .pair (if removed[i]?.isSome then .removed else .added) removed[i]? added[i]? ::
      ((metas.takeWhile (fun m => m.1 == i + 1)).map (fun m => DiffRow.metaRow m.2) ++
        flushFrom removed added count (i + 1) (metas.dropWhile (fun m => m.1 == i + 1)))

namespace ParseState

def flush (s : ParseState) : ParseState :=
  { s with
    rows := s.rows ++ flushFrom s.removed s.added (max s.removed.length s.added.length) 0
      (s.pendingMetas.insertionSort (fun m n => m.1 ≤ n.1))
    removed := []
    added := []
    pendingMetas := [] }

def openHunk (s : ParseState) (line : Line) : ParseState :=
  { s.flush with
    rows := s.flush.rows ++ [.metaRow line]
    oldLine := (hunkStarts line).1
    newLine := (hunkStarts line).2
    inHunk := true }

def pushContext (s : ParseState) (text : Line) : ParseState :=
  { s.flush with
    rows := s.flush.rows ++ [.pair .context (some ⟨text, s.oldLine⟩) (some ⟨text, s.newLine⟩)]
    oldLine := s.oldLine + 1
    newLine := s.newLine + 1 }

def pushAdded (s : ParseState) (text : Line) : ParseState :=
  { s with
    added := s.added ++ [⟨text, s.newLine⟩]
    newLine := s.newLine + 1
    lastRunLen := s.added.length + 1 }

def pushRemoved (s : ParseState) (text : Line) : ParseState :=
  let s := if s.added.isEmpty then s else s.flush
  { s with
    removed := s.removed ++ [⟨text, s.oldLine⟩]
    oldLine := s.oldLine + 1
    lastRunLen := s.removed.length + 1 }

def pushMeta (s : ParseState) (line : Line) : ParseState :=
  if s.inHunk && (!s.removed.isEmpty || !s.added.isEmpty) then
    { s with pendingMetas := s.pendingMetas ++ [(s.lastRunLen, line)] }
  else { s.flush with rows := s.flush.rows ++ [.metaRow line] }

def parseLine (s : ParseState) (line : Line) : ParseState :=
  if startsHunk line then s.openHunk line
  else
    match s.inHunk, line with
    | true, ' ' :: text => s.pushContext text
    | true, [] => s.pushContext []
    | true, '+' :: text => s.pushAdded text
    | true, '-' :: text => s.pushRemoved text
    | _, _ => s.pushMeta line

end ParseState

def parse (text : List Char) : List DiffRow :=
  ((splitLines text).foldl ParseState.parseLine ⟨[], false, 1, 1, [], [], 0, []⟩).flush.rows

/-! ## Rows of the full file -/

/-- One row of a diff put to the rows before the first header or to the last hunk. -/
def addRow (split : List DiffRow × List (HunkHeader × List DiffRow)) (row : DiffRow) :
    List DiffRow × List (HunkHeader × List DiffRow) :=
  let within := if split.2.isEmpty then (split.1 ++ [row], [])
    else (split.1, split.2.modifyLast (fun h => (h.1, h.2 ++ [row])))
  match row with
  | .metaRow text => if startsHunk text then (split.1, split.2 ++ [(hunkHeader text, [row])]) else within
  | .pair .. => within

def splitHunks (rows : List DiffRow) : List DiffRow × List (HunkHeader × List DiffRow) := rows.foldl addRow ([], [])

def lineAt (lines : List Line) (lineNo : Nat) : Option Line := if lineNo = 0 then none else lines[lineNo - 1]?

def unchangedRow (newLines : List Line) (delta : Int) (lineNo : Nat) : Option DiffRow :=
  (lineAt newLines lineNo).map (fun text =>
    .pair .context (some ⟨text, (max ((lineNo : Int) - delta) 1).toNat⟩) (some ⟨text, lineNo⟩))

def supplied (newLines : List Line) : DiffRow → DiffRow
  | .pair kind old (some new) => .pair kind old (some { new with text := (lineAt newLines new.lineNo).getD new.text })
  | row => row

/-- The rows so far with the folds among them, the next line of the new file and by how much it is ahead of the old one. -/
structure FullState where
  out : List DiffRow
  folds : List (Nat × Nat)
  nextLine : Nat
  delta : Int

namespace FullState

/-- Fills in the lines before a line number, as one fold. -/
def fillTo (newLines : List Line) (s : FullState) (stop : Nat) : Option FullState :=
  if s.nextLine < stop then
    ((List.range' s.nextLine (stop - s.nextLine)).mapM (unchangedRow newLines s.delta)).map (fun rows =>
      { s with
        out := s.out ++ rows
        folds := s.folds ++ [(s.out.length, (s.out ++ rows).length - 1)]
        nextLine := stop })
  else some s

def walkHunk (newLines : List Line) (s : FullState) (hunk : HunkHeader × List DiffRow) : Option FullState :=
  let h := hunk.1
  let boundary := if h.newCount = 0 then h.newStart + 1 else h.newStart
  (s.fillTo newLines (min boundary (newLines.length + 1))).map (fun s =>
    { s with
      out := s.out ++ hunk.2.map (supplied newLines)
      nextLine := max (if h.newCount = 0 then boundary else h.newStart + h.newCount) 1
      delta := s.delta + ((h.newCount : Int) - (h.oldCount : Int)) })

end FullState

def parseFullFile (diff newText : List Char) : Option (List DiffRow × List (Nat × Nat)) :=
  let newLines := splitLines newText
  let split := splitHunks (parse diff)
  ((split.2.foldlM (FullState.walkHunk newLines) ⟨split.1, [], 1, 0⟩).bind (fun s =>
    s.fillTo newLines (newLines.length + 1))).map (fun s => (s.out, s.folds))

/-! ## The sides of rows -/

def DiffRow.old : DiffRow → Option DiffEntry
  | .pair _ old _ => old
  | .metaRow _ => none

def DiffRow.new : DiffRow → Option DiffEntry
  | .pair _ _ new => new
  | .metaRow _ => none

def oldSide (rows : List DiffRow) : List DiffEntry := rows.filterMap DiffRow.old

def newSide (rows : List DiffRow) : List DiffEntry := rows.filterMap DiffRow.new

@[simp] theorem oldSide_append (rows rows' : List DiffRow) : oldSide (rows ++ rows') = oldSide rows ++ oldSide rows' :=
  filterMap_append

@[simp] theorem newSide_append (rows rows' : List DiffRow) : newSide (rows ++ rows') = newSide rows ++ newSide rows' :=
  filterMap_append

theorem side_metas (side : DiffRow → Option DiffEntry) (hmeta : ∀ text, side (.metaRow text) = none)
    (metas : List (Nat × Line)) : (metas.map (fun m => DiffRow.metaRow m.2)).filterMap side = [] := by
  rw [filterMap_map, filterMap_eq_nil_iff]
  exact fun m _ => hmeta m.2

theorem side_flushFrom (side : DiffRow → Option DiffEntry) (hmeta : ∀ text, side (.metaRow text) = none)
    {entries removed added : List DiffEntry}
    (hpair : ∀ (kind : DiffKind) (i : Nat), side (.pair kind removed[i]? added[i]?) = entries[i]?) :
    ∀ (count i : Nat) (metas : List (Nat × Line)),
      (flushFrom removed added count i metas).filterMap side = (entries.drop i).take count
  | 0, i, metas => by
    rw [flushFrom, side_metas side hmeta, take_zero]
  | count + 1, i, metas => by
    rw [flushFrom, filterMap_cons, hpair, filterMap_append, side_metas side hmeta, nil_append,
      side_flushFrom side hmeta hpair count]
    cases hi : entries[i]? with
    | none =>
      rw [List.getElem?_eq_none_iff] at hi
      rw [drop_eq_nil_of_le (by omega), drop_eq_nil_of_le (by omega), take_nil, take_nil]
    | some e =>
      obtain ⟨hlt, rfl⟩ := List.getElem?_eq_some_iff.1 hi
      rw [drop_eq_getElem_cons hlt, take_succ_cons]

namespace ParseState

def olds (s : ParseState) : List DiffEntry := oldSide s.rows ++ s.removed

def news (s : ParseState) : List DiffEntry := newSide s.rows ++ s.added

theorem oldSide_flush (s : ParseState) : oldSide s.flush.rows = s.olds := by
  unfold flush olds
  simp only [oldSide_append]
  congr 1
  calc oldSide (flushFrom s.removed s.added (max s.removed.length s.added.length) 0 _)
      = (s.removed.drop 0).take (max s.removed.length s.added.length) :=
        side_flushFrom DiffRow.old (fun _ => rfl) (fun _ _ => rfl) _ _ _
    _ = s.removed := by rw [drop_zero, take_of_length_le (Nat.le_max_left _ _)]

theorem newSide_flush (s : ParseState) : newSide s.flush.rows = s.news := by
  unfold flush news
  simp only [newSide_append]
  congr 1
  calc newSide (flushFrom s.removed s.added (max s.removed.length s.added.length) 0 _)
      = (s.added.drop 0).take (max s.removed.length s.added.length) :=
        side_flushFrom DiffRow.new (fun _ => rfl) (fun _ _ => rfl) _ _ _
    _ = s.added := by rw [drop_zero, take_of_length_le (Nat.le_max_right _ _)]

@[simp] theorem flush_removed (s : ParseState) : s.flush.removed = [] := rfl

@[simp] theorem flush_added (s : ParseState) : s.flush.added = [] := rfl

def under (rows : List DiffRow) (s : ParseState) : ParseState := { s with rows := rows ++ s.rows }

variable (rows : List DiffRow)

theorem flush_under (s : ParseState) : (s.under rows).flush = s.flush.under rows := by
  simp [flush, under, append_assoc]

theorem openHunk_under (s : ParseState) (line : Line) : (s.under rows).openHunk line = (s.openHunk line).under rows := by
  unfold openHunk
  rw [flush_under]
  simp [under]

theorem pushContext_under (s : ParseState) (text : Line) : (s.under rows).pushContext text = (s.pushContext text).under rows := by
  unfold pushContext
  rw [flush_under]
  simp [under]

theorem pushRemoved_under (s : ParseState) (text : Line) : (s.under rows).pushRemoved text = (s.pushRemoved text).under rows := by
  have hrun : (if (s.under rows).added.isEmpty then s.under rows else (s.under rows).flush) =
      (if s.added.isEmpty then s else s.flush).under rows := by
    rw [flush_under, show (s.under rows).added = s.added from rfl]
    split <;> rfl
  unfold pushRemoved
  rw [hrun]
  rfl

theorem pushMeta_under (s : ParseState) (line : Line) : (s.under rows).pushMeta line = (s.pushMeta line).under rows := by
  unfold pushMeta
  rw [flush_under, show (s.under rows).inHunk = s.inHunk from rfl, show (s.under rows).removed = s.removed from rfl,
    show (s.under rows).added = s.added from rfl]
  split
  · rfl
  · simp [under]

theorem parseLine_under (s : ParseState) (line : Line) : (s.under rows).parseLine line = (s.parseLine line).under rows := by
  unfold parseLine
  split
  · exact openHunk_under rows s line
  rw [show (s.under rows).inHunk = s.inHunk from rfl]
  split
  · exact pushContext_under rows s _
  · exact pushContext_under rows s []
  · rfl
  · exact pushRemoved_under rows s _
  · exact pushMeta_under rows s _

theorem foldl_under : ∀ (lines : List Line) (s : ParseState),
    lines.foldl parseLine (s.under rows) = (lines.foldl parseLine s).under rows
  | [], _ => rfl
  | line :: lines, s => by
    rw [foldl_cons, foldl_cons, parseLine_under, foldl_under lines]

end ParseState

end Ferrowl.Ui.DiffView
