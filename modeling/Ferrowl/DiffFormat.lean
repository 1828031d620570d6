import Ferrowl.CodecText
import Ferrowl.DiffView
/-!
# DiffFormat — unified diffs of one file

What a well-formed unified diff between two files is: metadata lines, then hunks in ascending order whose headers count the lines
of their bodies.  The lines between two hunks are the same in both files.  A hunk of no lines on one side names the line of that
side it follows.
-/
namespace Ferrowl.Ui.DiffView

open List

open Tui (splitWhitespace parseUsize)
open Modbus (hexChar isWhitespace digitsOf numeral_digitsOf fromStrRadix fromStrRadix_map_hexChar)
open Codec (decimal)

/-! ## Files -/

def trimNewline (text : List Char) : List Char := if text.getLast? = some '\n' then text.dropLast else text

/-- The lines of a file: a newline ends a line, which the last line may lack. -/
def fileLines (text : List Char) : List Line := if text.isEmpty then [] else (trimNewline text).splitOn '\n'

/-- A file as the program can hold it: of fewer than 2⁶³ lines, since a `str` has fewer bytes. -/
structure TextFile where
  text : List Char
  short : (fileLines text).length < 2 ^ 63

def TextFile.lines (f : TextFile) : List Line := fileLines f.text

theorem splitLines_eq (text : List Char) : splitLines text = if text = ['\n'] then [] else fileLines text := by
  have hsplit : splitLines text = if (trimNewline text).isEmpty then [] else (trimNewline text).splitOn '\n' := rfl
  rw [hsplit, fileLines]
  by_cases hnl : text = ['\n']
  · rw [if_pos hnl, hnl]
    rfl
  rw [if_neg hnl]
  cases text with
  | nil => rfl
  | cons c rest =>
    have hne : (trimNewline (c :: rest)).isEmpty = false := by
      unfold trimNewline
      split
      · rename_i hlast
        cases rest with
        | nil =>
          obtain rfl : c = '\n' := by simpa using hlast
          exact absurd rfl hnl
        | cons d rest => rfl
      · rfl
    rw [hne]
    rfl

def numbered : Nat → List Line → List DiffEntry
  | _, [] => []
  | n, line :: lines => ⟨line, n⟩ :: numbered (n + 1) lines

@[simp] theorem numbered_nil (n : Nat) : numbered n [] = [] := rfl

theorem numbered_append : ∀ (n : Nat) (a b : List Line), numbered n (a ++ b) = numbered n a ++ numbered (n + a.length) b
  | _, [], _ => rfl
  | n, line :: a, b => by
    rw [cons_append, numbered, numbered, numbered_append (n + 1) a b, length_cons, Nat.add_right_comm, Nat.add_assoc]
    rfl

/-! ## Hunks -/

def isNote (line : Line) : Bool :=
  match line with
  | [] => false
  | c :: _ => c != ' ' && c != '+' && c != '-' && !startsHunk line

structure Note where
  text : Line
  valid : isNote text = true

/-- A line of a hunk; `blank` is a context line of no text whose marker was trimmed. -/
inductive BodyLine where
  | context (text : Line)
  | blank
  | removed (text : Line)
  | added (text : Line)
  | note (n : Note)

namespace BodyLine

def line : BodyLine → Line
  | context text => ' ' :: text
  | blank => []
  | removed text => '-' :: text
  | added text => '+' :: text
  | note n => n.text

def old : BodyLine → List Line
  | context text | removed text => [text]
  | blank => [[]]
  | added _ | note _ => []

def new : BodyLine → List Line
  | context text | added text => [text]
  | blank => [[]]
  | removed _ | note _ => []

end BodyLine

/-- A hunk with the numbers of its header, of which a count of 1 may be left out. -/
structure Hunk where
  oldStart : Nat
  oldCount : Nat
  newStart : Nat
  newCount : Nat
  shortOld : Bool
  shortNew : Bool
  heading : Line
  body : List BodyLine

def rangeText (start count : Nat) (short : Bool) : Line :=
  decimal start ++ if short && count == 1 then [] else ',' :: decimal count

namespace Hunk

def header (h : Hunk) : Line :=
  '@' :: '@' :: ' ' :: '-' :: (rangeText h.oldStart h.oldCount h.shortOld ++
    ' ' :: '+' :: (rangeText h.newStart h.newCount h.shortNew ++ ' ' :: '@' :: '@' :: h.heading))

def lines (h : Hunk) : List Line := h.header :: h.body.map BodyLine.line

def olds (h : Hunk) : List Line := h.body.flatMap BodyLine.old

def news (h : Hunk) : List Line := h.body.flatMap BodyLine.new

def Fits (h : Hunk) : Prop := h.oldStart < 2 ^ 64 ∧ h.oldCount < 2 ^ 64 ∧ h.newStart < 2 ^ 64 ∧ h.newCount < 2 ^ 64

end Hunk

/-- The start a header gives a hunk of `count` lines behind `pos` lines. -/
def startOf (pos count : Nat) : Nat := if count = 0 then pos else pos + 1

/-- Hunks that lead from the old lines to the new ones, with `oldPos` and `newPos` lines before them. -/
inductive Between : List Hunk → Nat → Nat → List Line → List Line → Prop
  | done {oldPos newPos : Nat} {rest : List Line} : Between [] oldPos newPos rest rest
  | hunk {oldPos newPos : Nat} {gap old new : List Line} {h : Hunk} {hunks : List Hunk}
      (oldCount : h.oldCount = h.olds.length) (newCount : h.newCount = h.news.length)
      (oldStart : h.oldStart = startOf (oldPos + gap.length) h.oldCount)
      (newStart : h.newStart = startOf (newPos + gap.length) h.newCount)
      (rest : Between hunks (oldPos + gap.length + h.olds.length) (newPos + gap.length + h.news.length) old new) :
      Between (h :: hunks) oldPos newPos (gap ++ h.olds ++ old) (gap ++ h.news ++ new)

/-- **A well-formed unified diff** between two files: metadata lines, then the hunks. -/
structure UnifiedDiff (diff : List Char) (old new : TextFile) (leading : List Line) (hunks : List Hunk) : Prop where
  text : fileLines diff = leading ++ hunks.flatMap Hunk.lines
  leading : ∀ line ∈ leading, startsHunk line = false
  between : Between hunks 0 0 old.lines new.lines

/-! ## Headers -/

theorem digit_spec (d : Fin 10) : hexChar d ≠ ',' ∧ hexChar d ≠ '@' ∧ isWhitespace (hexChar d) = false := by
  revert d
  decide

theorem decimal_char {n : Nat} {c : Char} (h : c ∈ decimal n) : c ≠ ',' ∧ c ≠ '@' ∧ isWhitespace c = false := by
  obtain ⟨d, hd, rfl⟩ := mem_map.1 h
  exact digit_spec ⟨d, (numeral_digitsOf (show 1 < 10 by decide) n).2.2 d hd⟩

theorem parseUsize_decimal {n : Nat} (h : n < 2 ^ 64) : parseUsize (decimal n) = some n := by
  obtain ⟨hval, hne, hd⟩ := numeral_digitsOf (show 1 < 10 by decide) n
  have hlt : n < 2 ^ 128 := Nat.lt_trans h (by decide)
  have hread : fromStrRadix 10 (decimal n) = some (BitVec.ofNat 128 n) := by
    have := fromStrRadix_map_hexChar (show 0 < 10 by decide) (show 10 ≤ 16 by decide) hne hd (by rw [hval]; exact hlt)
    rw [hval] at this
    exact this
  rw [parseUsize, hread, Option.map_some, BitVec.toNat_ofNat, Nat.mod_eq_of_lt hlt]
  exact if_pos (decide_eq_true h)

theorem rangeText_char {start count : Nat} {short : Bool} {c : Char} (h : c ∈ rangeText start count short) :
    c ≠ '@' ∧ isWhitespace c = false := by
  unfold rangeText at h
  rcases mem_append.1 h with h | h
  · exact (decimal_char h).2
  split at h
  · cases h
  · rcases mem_cons.1 h with rfl | h
    · decide
    · exact (decimal_char h).2

theorem rangeStart_rangeText {start : Nat} (h : start < 2 ^ 64) (count : Nat) (short : Bool) :
    rangeStart (rangeText start count short) = start := by
  have htake : (rangeText start count short).takeWhile (· != ',') = decimal start := by
    unfold rangeText
    have hall : ∀ c ∈ decimal start, (c != ',') = true := fun c hc => bne_iff_ne.2 (decimal_char hc).1
    rw [takeWhile_append_of_pos hall]
    split <;> simp
  rw [rangeStart, htake, parseUsize_decimal h]
  rfl

theorem rangeCount_rangeText (start : Nat) {count : Nat} (h : count < 2 ^ 64) (short : Bool) :
    rangeCount (rangeText start count short) = count := by
  have hall : ∀ c ∈ decimal start, (c != ',') = true := fun c hc => bne_iff_ne.2 (decimal_char hc).1
  unfold rangeCount rangeText
  rw [dropWhile_append_of_pos hall]
  cases hshort : short && count == 1 with
  | true =>
    rw [Bool.and_eq_true, beq_iff_eq] at hshort
    exact hshort.2.symm
  | false =>
    show (parseUsize (decimal count)).getD 1 = count
    rw [parseUsize_decimal h]
    rfl

theorem untilMark_append {xs : Line} (h : ∀ c ∈ xs, c ≠ '@') (rest : Line) : untilMark (xs ++ '@' :: '@' :: rest) = xs := by
  induction xs with
  | nil => rfl
  | cons c xs ih =>
    have hc := h c mem_cons_self
    rw [cons_append, untilMark, ih (fun d hd => h d (mem_cons_of_mem c hd))]
    rintro rest' rfl
    exact absurd rfl hc

theorem counters_header (h : Hunk) : counters h.header =
    ['-' :: rangeText h.oldStart h.oldCount h.shortOld, '+' :: rangeText h.newStart h.newCount h.shortNew] := by
  have hold : ∀ c ∈ '-' :: rangeText h.oldStart h.oldCount h.shortOld, c ≠ '@' ∧ isWhitespace c = false := by
    intro c hc
    rcases mem_cons.1 hc with rfl | hc
    · decide
    · exact rangeText_char hc
  have hnew : ∀ c ∈ '+' :: rangeText h.newStart h.newCount h.shortNew, c ≠ '@' ∧ isWhitespace c = false := by
    intro c hc
    rcases mem_cons.1 hc with rfl | hc
    · decide
    · exact rangeText_char hc
  have hmark : untilMark (' ' :: '-' :: (rangeText h.oldStart h.oldCount h.shortOld ++
      ' ' :: '+' :: (rangeText h.newStart h.newCount h.shortNew ++ ' ' :: '@' :: '@' :: h.heading))) =
      [] ++ ' ' :: (('-' :: rangeText h.oldStart h.oldCount h.shortOld) ++
        ' ' :: (('+' :: rangeText h.newStart h.newCount h.shortNew) ++ ' ' :: [])) := by
    have hfree : ∀ c ∈ [] ++ ' ' :: (('-' :: rangeText h.oldStart h.oldCount h.shortOld) ++
        ' ' :: (('+' :: rangeText h.newStart h.newCount h.shortNew) ++ ' ' :: [])), c ≠ '@' := by
      intro c hc
      simp only [nil_append, mem_cons, mem_append, not_mem_nil, or_false] at hc
      rcases hc with rfl | (rfl | hc) | rfl | (rfl | hc) | rfl
      · decide
      · decide
      · exact (rangeText_char hc).1
      · decide
      · decide
      · exact (rangeText_char hc).1
      · decide
    have h := untilMark_append hfree h.heading
    simpa using h
  unfold Hunk.header counters
  simp only
  rw [hmark, splitWhitespace, splitOnP_append_cons_of_forall_mem (forall_mem_nil _) ' ' (by decide),
    splitOnP_append_cons_of_forall_mem (fun c hc => (hold c hc).2) ' ' (by decide),
    splitOnP_append_cons_of_forall_mem (fun c hc => (hnew c hc).2) ' ' (by decide)]
  rfl

theorem hunkStarts_header {h : Hunk} (hf : h.Fits) : hunkStarts h.header = (h.oldStart, h.newStart) := by
  rw [hunkStarts, counters_header]
  simp [rangeStart_rangeText hf.1, rangeStart_rangeText hf.2.2.1]

theorem hunkHeader_header {h : Hunk} (hf : h.Fits) : hunkHeader h.header = ⟨h.oldStart, h.oldCount, h.newStart, h.newCount⟩ := by
  rw [hunkHeader, counters_header]
  simp [rangeStart_rangeText hf.1, rangeStart_rangeText hf.2.2.1, rangeCount_rangeText _ hf.2.1, rangeCount_rangeText _ hf.2.2.2]

end Ferrowl.Ui.DiffView
