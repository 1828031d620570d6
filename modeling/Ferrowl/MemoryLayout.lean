import Mathlib
import Ferrowl.Checked
import Ferrowl.Pdu
/-!
# MemoryLayout — the memory panel of a monitor

`memory_lines` (`monitor/view/mod.rs`) groups the observed words of a table into lines of cells: a register is a cell and eight
of them a line, eight coils are packed into a cell with the first in the highest bit, and sixteen cells are a line.  Addresses
are computed in 16 bits, where a sum or a product that does not fit stops the program.
-/
namespace Ferrowl.Modbus.Monitor

open BitVec List Option

open Store (Word)
open Codec (Kind)

def mulU16 (a b : Nat) : Option Nat := if a * b < 2 ^ 16 then some (a * b) else none

def addU16 (a b : Nat) : Option Nat := if a + b < 2 ^ 16 then some (a + b) else none

theorem mulU16_of_lt {a b : Nat} (h : a * b < 2 ^ 16) : mulU16 a b = some (a * b) := if_pos h

theorem addU16_of_lt {a b : Nat} (h : a + b < 2 ^ 16) : addU16 a b = some (a + b) := if_pos h

structure MemoryCell where
  observed : Bool
  value : Word
  deriving DecidableEq, Repr

def memoryCellShape : Kind → Nat × Nat
  | .coil | .discreteInput => (8, 16)
  | .holdingRegister | .inputRegister => (1, 8)

def observedIn (pairs : List (BitVec 16 × Word)) (address : Nat) : Option Word :=
  (pairs.reverse.find? fun p => decide (p.1.toNat = address)).map Prod.snd

def MemoryCell.putBit (cell : MemoryCell) (bit : Nat) : Option Word → MemoryCell
  | some w => ⟨true, if w ≠ 0 then cell.value ||| 1#16 <<< (7 - bit) else cell.value⟩
  | none => cell

def MemoryCell.ofWord : Option Word → MemoryCell
  | some v => ⟨true, v⟩
  | none => ⟨false, 0⟩

section
variable (shape : Nat × Nat) (observed : Nat → Option Word)

def memoryCell (cellAddr : Nat) : Option MemoryCell :=
  if shape.1 = 8 then
    (List.range 8).foldlM (fun cell bit => do
      let base ← mulU16 cellAddr 8
      let raw ← addU16 base bit
      some (cell.putBit bit (observed raw))) ⟨false, 0⟩
  else some (.ofWord (observed cellAddr))

def lineStart (address : Nat) : Option Nat := do
  let lineStartCell ← mulU16 (address / shape.1 / shape.2) shape.2
  mulU16 lineStartCell shape.1

def memoryLine (start : Nat) : Option (Nat × List MemoryCell) := do
  let cells ← (List.range shape.2).mapM fun i => do
    let cellAddr ← addU16 (start / shape.1) i
    memoryCell shape observed cellAddr
  some (start, cells)

end

def memoryLines (kind : Kind) (pairs : List (BitVec 16 × Word)) : Option (List (Nat × List MemoryCell)) := do
  let starts ← pairs.mapM fun p => lineStart (memoryCellShape kind) p.1.toNat
  (starts.dedup.insertionSort (· ≤ ·)).mapM (memoryLine (memoryCellShape kind) (observedIn pairs))

example : memoryLines .coil [(9, 1), (128, 1), (8, 5)] = some
    [(0, ⟨false, 0⟩ :: ⟨true, 0b11000000⟩ :: List.replicate 14 ⟨false, 0⟩),
      (128, ⟨true, 0b10000000⟩ :: List.replicate 15 ⟨false, 0⟩)] := by decide +kernel

/-! ## No overflow -/

structure Divides (shape : Nat × Nat) : Prop where
  unit_pos : 0 < shape.1
  cells_pos : 0 < shape.2
  dvd : shape.1 * shape.2 ∣ 2 ^ 16

theorem divides_memoryCellShape (kind : Kind) : Divides (memoryCellShape kind) := by
  cases kind <;> exact ⟨by decide, by decide, by decide⟩

def lineSize (kind : Kind) : Nat := (memoryCellShape kind).1 * (memoryCellShape kind).2

section
variable {shape : Nat × Nat} {observed : Nat → Option Word}

theorem lineStart_eq {address : Nat} (h : address < 2 ^ 16) :
    lineStart shape address = some (address / (shape.1 * shape.2) * (shape.1 * shape.2)) := by
  have hcell : address / shape.1 / shape.2 * shape.2 ≤ address / shape.1 := Nat.div_mul_le_self _ _
  have haddr : address / shape.1 * shape.1 ≤ address := Nat.div_mul_le_self _ _
  have hle : address / shape.1 / shape.2 * shape.2 * shape.1 ≤ address :=
    (Nat.mul_le_mul_right _ hcell).trans haddr
  have hfit : address / shape.1 / shape.2 * shape.2 < 2 ^ 16 :=
    (hcell.trans (Nat.div_le_self _ _)).trans_lt h
  have heq : address / shape.1 / shape.2 * shape.2 * shape.1 =
      address / (shape.1 * shape.2) * (shape.1 * shape.2) := by
    rw [Nat.div_div_eq_div_mul, Nat.mul_assoc, Nat.mul_comm shape.2 shape.1]
  have hstart : address / shape.1 / shape.2 * shape.2 * shape.1 < 2 ^ 16 := hle.trans_lt h
  simp [lineStart, mulU16_of_lt hfit, mulU16_of_lt hstart, heq]

def cellOf (shape : Nat × Nat) (observed : Nat → Option Word) (cellAddr : Nat) : MemoryCell :=
  if shape.1 = 8 then
    (List.range 8).foldl (fun cell bit => cell.putBit bit (observed (cellAddr * 8 + bit))) ⟨false, 0⟩
  else .ofWord (observed cellAddr)

theorem memoryCell_eq {cellAddr : Nat} (h : (cellAddr + 1) * shape.1 ≤ 2 ^ 16) :
    memoryCell shape observed cellAddr = some (cellOf shape observed cellAddr) := by
  unfold memoryCell cellOf
  by_cases hu : shape.1 = 8
  · rw [hu] at h
    rw [if_pos hu, if_pos hu]
    refine foldlM_eq_some (fun cell bit hbit => ?_) _
    have hlt : bit < 8 := mem_range.1 hbit
    have hbase : cellAddr * 8 < 2 ^ 16 := by omega
    have hraw : cellAddr * 8 + bit < 2 ^ 16 := by omega
    simp [mulU16_of_lt hbase, addU16_of_lt hraw]
  · rw [if_neg hu, if_neg hu]

theorem line_le (hs : Divides shape) {start : Nat} (hdvd : shape.1 * shape.2 ∣ start) (hlt : start < 2 ^ 16) :
    start + shape.1 * shape.2 ≤ 2 ^ 16 := by
  obtain ⟨k, rfl⟩ := hdvd
  obtain ⟨m, hm⟩ := hs.dvd
  have hkm : k < m := by
    rw [hm] at hlt
    exact Nat.lt_of_mul_lt_mul_left hlt
  calc shape.1 * shape.2 * k + shape.1 * shape.2 = shape.1 * shape.2 * (k + 1) := (Nat.mul_succ _ _).symm
    _ ≤ shape.1 * shape.2 * m := Nat.mul_le_mul_left _ hkm
    _ = 2 ^ 16 := hm.symm

theorem memoryLine_eq (hs : Divides shape) {start : Nat} (hdvd : shape.1 * shape.2 ∣ start) (hlt : start < 2 ^ 16) :
    memoryLine shape observed start =
      some (start, (List.range shape.2).map fun i => cellOf shape observed (start / shape.1 + i)) := by
  have hend := line_le hs hdvd hlt
  have hstart : start / shape.1 * shape.1 = start := Nat.div_mul_cancel (Nat.dvd_trans (Nat.dvd_mul_right _ _) hdvd)
  have hcells : ∀ i ∈ List.range shape.2, (do
      let cellAddr ← addU16 (start / shape.1) i
      memoryCell shape observed cellAddr) = some (cellOf shape observed (start / shape.1 + i)) := by
    intro i hi
    have hfit : (start / shape.1 + i + 1) * shape.1 ≤ 2 ^ 16 := by
      have hi' : (i + 1) * shape.1 ≤ shape.2 * shape.1 := Nat.mul_le_mul_right _ (mem_range.1 hi)
      rw [Nat.add_assoc, Nat.add_mul, hstart]
      rw [Nat.mul_comm shape.2] at hi'
      omega
    have hsum : start / shape.1 + i < 2 ^ 16 := by
      have := Nat.le_mul_of_pos_right (start / shape.1 + i + 1) hs.unit_pos
      omega
    simp [addU16_of_lt hsum, memoryCell_eq hfit]
  rw [memoryLine, mapM_eq_some hcells]
  rfl

end

def lineStarts (kind : Kind) (pairs : List (BitVec 16 × Word)) : List Nat :=
  (pairs.map fun p => p.1.toNat / lineSize kind * lineSize kind).dedup.insertionSort (· ≤ ·)

def plainLines (kind : Kind) (pairs : List (BitVec 16 × Word)) : List (Nat × List MemoryCell) :=
  (lineStarts kind pairs).map fun start => (start, (List.range (memoryCellShape kind).2).map fun i =>
    cellOf (memoryCellShape kind) (observedIn pairs) (start / (memoryCellShape kind).1 + i))

section
variable {kind : Kind} {pairs : List (BitVec 16 × Word)}

theorem mem_lineStarts {start : Nat} :
    start ∈ lineStarts kind pairs ↔ ∃ p ∈ pairs, p.1.toNat / lineSize kind * lineSize kind = start := by
  rw [lineStarts, (List.perm_insertionSort _ _).mem_iff, List.mem_dedup, List.mem_map]

theorem lineStarts_ascending : (lineStarts kind pairs).Pairwise (· < ·) := by
  have hle : (lineStarts kind pairs).Pairwise (· ≤ ·) := pairwise_insertionSort _ _
  have hne : (lineStarts kind pairs).Nodup := (perm_insertionSort _ _).nodup_iff.2 (nodup_dedup _)
  exact (hle.and hne).imp fun h => Nat.lt_of_le_of_ne h.1 h.2

theorem dvd_of_mem_lineStarts {start : Nat} (h : start ∈ lineStarts kind pairs) : lineSize kind ∣ start := by
  obtain ⟨p, -, rfl⟩ := mem_lineStarts.1 h
  exact Nat.dvd_mul_left _ _

theorem lt_of_mem_lineStarts {start : Nat} (h : start ∈ lineStarts kind pairs) : start < 2 ^ 16 := by
  obtain ⟨p, -, rfl⟩ := mem_lineStarts.1 h
  exact (Nat.div_mul_le_self _ _).trans_lt p.1.isLt

theorem memoryLines_eq : memoryLines kind pairs = some (plainLines kind pairs) := by
  have hstarts : pairs.mapM (fun p => lineStart (memoryCellShape kind) p.1.toNat) =
      some (pairs.map fun p => p.1.toNat / lineSize kind * lineSize kind) :=
    mapM_eq_some fun p _ => lineStart_eq p.1.isLt
  rw [memoryLines, hstarts]
  exact mapM_eq_some fun start hstart => memoryLine_eq (divides_memoryCellShape kind) (dvd_of_mem_lineStarts hstart)
    (lt_of_mem_lineStarts hstart)

/-! ## What the cells show -/

theorem observedIn_eq_some (hpairs : (pairs.map Prod.fst).Nodup) {address : Nat} {w : Word} :
    observedIn pairs address = some w ↔ ∃ a, a.toNat = address ∧ (a, w) ∈ pairs := by
  rw [observedIn, map_eq_some_iff]
  constructor
  · rintro ⟨⟨a, v⟩, hfind, rfl⟩
    have ha := List.find?_some hfind
    exact ⟨a, of_decide_eq_true ha, mem_reverse.1 (mem_of_find?_eq_some hfind)⟩
  rintro ⟨a, rfl, hmem⟩
  obtain ⟨q, hq⟩ : ∃ q, pairs.reverse.find? (fun p => decide (p.1.toNat = a.toNat)) = some q :=
    isSome_iff_exists.1 (List.find?_isSome.2 ⟨(a, w), mem_reverse.2 hmem, decide_eq_true rfl⟩)
  have ha := List.find?_some hq
  have hqa : q.1 = a := eq_of_toNat_eq (of_decide_eq_true ha)
  -- the address is given once
  have hqw : q = (a, w) :=
    inj_on_of_nodup_map hpairs (mem_reverse.1 (mem_of_find?_eq_some hq)) hmem hqa
  exact ⟨q, hq, congrArg Prod.snd hqw⟩

theorem getLsbD_one_shiftLeft {b n : Nat} (hb : b < 8) (hn : n < 8) : (1#16 <<< (7 - n)).getLsbD (7 - b) = true ↔ b = n := by
  rw [getLsbD_shiftLeft, getLsbD_one]
  simp only [Bool.and_eq_true, Bool.not_eq_true', decide_eq_true_eq, decide_eq_false_iff_not]
  omega

theorem putBit_observed (cell : MemoryCell) (n : Nat) (bit : Option Word) :
    (cell.putBit n bit).observed = true ↔ cell.observed = true ∨ bit.isSome := by
  cases bit with
  | none | some w => simp [MemoryCell.putBit]

theorem getLsbD_putBit (cell : MemoryCell) (bit : Option Word) {b n : Nat} (hb : b < 8) (hn : n < 8) :
    (cell.putBit n bit).value.getLsbD (7 - b) = true ↔ cell.value.getLsbD (7 - b) = true ∨ b = n ∧ ∃ w, bit = some w ∧ w ≠ 0 := by
  cases bit with
  | none => simp [MemoryCell.putBit]
  | some w =>
    have hset : (∃ v, some w = some v ∧ v ≠ 0) ↔ w ≠ 0 := by simp
    rw [hset]
    by_cases hw : w = 0
    · simp [MemoryCell.putBit, hw]
    · rw [MemoryCell.putBit, if_pos hw, getLsbD_or, Bool.or_eq_true, getLsbD_one_shiftLeft hb hn, and_iff_left hw]

theorem packed_bits (bits : Nat → Option Word) {n : Nat} (hn : n ≤ 8) :
    let cell := (List.range n).foldl (fun cell bit => MemoryCell.putBit cell bit (bits bit)) ⟨false, 0⟩
    (cell.observed = true ↔ ∃ b < n, (bits b).isSome) ∧
      ∀ b < 8, cell.value.getLsbD (7 - b) = true ↔ b < n ∧ ∃ w, bits b = some w ∧ w ≠ 0 := by
  induction n with
  | zero => exact ⟨by simp, by simp⟩
  | succ n ih =>
    obtain ⟨hobs, hval⟩ := ih (by omega)
    rw [range_succ, foldl_append, foldl_cons, foldl_nil]
    refine ⟨?_, fun b hb => ?_⟩
    · rw [putBit_observed, hobs, Nat.exists_lt_succ_right]
    · rw [getLsbD_putBit _ _ hb hn, hval b hb, Nat.lt_succ_iff_lt_or_eq, or_and_right]
      refine or_congr_right (and_congr_right fun hbn => ?_)
      rw [hbn]

end

def cellWords (lines : List (Nat × List MemoryCell)) : List (Nat × Word) :=
  lines.flatMap fun line => (List.range line.2.length).filterMap fun i =>
    line.2[i]?.bind fun cell => if cell.observed then some (line.1 + i, cell.value) else none

/-- **The lines lay out the given pairs.** -/
structure LaysOut (kind : Kind) (pairs : List (BitVec 16 × Word)) (lines : List (Nat × List MemoryCell)) : Prop where
  ascending : (lines.map Prod.fst).Pairwise (· < ·)
  aligned : ∀ line ∈ lines, lineSize kind ∣ line.1 ∧ line.2.length = (memoryCellShape kind).2
  needed : ∀ line ∈ lines, ∃ p ∈ pairs, line.1 ≤ p.1.toNat ∧ p.1.toNat < line.1 + lineSize kind
  complete : ∀ p ∈ pairs, ∃ line ∈ lines, line.1 ≤ p.1.toNat ∧ p.1.toNat < line.1 + lineSize kind
  registers : kind = .holdingRegister ∨ kind = .inputRegister → (cellWords lines).Perm (pairs.map fun p => (p.1.toNat, p.2))
  coils : kind = .coil ∨ kind = .discreteInput → ∀ line ∈ lines, ∀ c cell, line.2[c]? = some cell →
    (cell.observed = true ↔ ∃ b < 8, ∃ p ∈ pairs, p.1.toNat = line.1 + 8 * c + b) ∧
      ∀ b < 8, cell.value.getLsbD (7 - b) = true ↔ ∃ p ∈ pairs, p.1.toNat = line.1 + 8 * c + b ∧ p.2 ≠ 0

theorem mem_cellWords {lines : List (Nat × List MemoryCell)} {x : Nat × Word} : x ∈ cellWords lines ↔
    ∃ line ∈ lines, ∃ i cell, line.2[i]? = some cell ∧ cell.observed = true ∧ x = (line.1 + i, cell.value) := by
  simp only [cellWords, mem_flatMap, mem_filterMap, mem_range]
  constructor
  · rintro ⟨line, hline, i, -, h⟩
    obtain ⟨cell, hcell, h⟩ := bind_eq_some_iff.1 h
    split at h
    · rename_i hobs
      cases h
      exact ⟨line, hline, i, cell, hcell, hobs, rfl⟩
    · cases h
  · rintro ⟨line, hline, i, cell, hcell, hobs, rfl⟩
    refine ⟨line, hline, i, (List.getElem?_eq_some_iff.1 hcell).1, ?_⟩
    rw [hcell, bind_some, if_pos hobs]

theorem cellWords_ascending {lines : List (Nat × List MemoryCell)}
    (h : lines.Pairwise fun l l' => l.1 + l.2.length ≤ l'.1) : ((cellWords lines).map Prod.fst).Pairwise (· < ·) := by
  have hcell : ∀ (line : Nat × List MemoryCell) (i : Nat) (x : Nat × Word),
      (line.2[i]?.bind fun cell => if cell.observed then some (line.1 + i, cell.value) else none) = some x →
        i < line.2.length ∧ x.1 = line.1 + i := by
    intro line i x hx
    obtain ⟨cell, hcell, hx⟩ := bind_eq_some_iff.1 hx
    split at hx
    · cases hx
      exact ⟨(List.getElem?_eq_some_iff.1 hcell).1, rfl⟩
    · cases hx
  rw [pairwise_map, cellWords, pairwise_flatMap]
  refine ⟨fun line _ => ?_, h.imp fun {l l'} hle x hx y hy => ?_⟩
  · rw [pairwise_filterMap]
    refine pairwise_lt_range.imp fun {i j} hij x hx y hy => ?_
    rw [(hcell line i x hx).2, (hcell line j y hy).2]
    omega
  obtain ⟨i, -, hx⟩ := mem_filterMap.1 hx
  obtain ⟨j, -, hy⟩ := mem_filterMap.1 hy
  have hi := hcell l i x hx
  have hj := hcell l' j y hy
  omega

section
variable {kind : Kind} {pairs : List (BitVec 16 × Word)}

theorem mem_line_iff {start address size : Nat} (hpos : 0 < size) (h : size ∣ start) :
    start ≤ address ∧ address < start + size ↔ address / size * size = start := by
  obtain ⟨k, rfl⟩ := h
  have hdiv := Nat.div_add_mod address size
  have hmod := Nat.mod_lt address hpos
  rw [Nat.mul_comm (address / size)]
  constructor
  · rintro ⟨hle, hlt⟩
    congr 1
    refine Nat.div_eq_of_lt_le ?_ ?_
    · rwa [Nat.mul_comm]
    · rwa [Nat.mul_comm, Nat.mul_succ]
  · intro heq
    omega

theorem lineSize_pos (kind : Kind) : 0 < lineSize kind := by
  cases kind <;> decide

variable {line : Nat × List MemoryCell}

theorem fst_mem_lineStarts (h : line ∈ plainLines kind pairs) : line.1 ∈ lineStarts kind pairs := by
  obtain ⟨start, hstart, rfl⟩ := mem_map.1 h
  exact hstart

theorem cell_plainLines (h : line ∈ plainLines kind pairs) {i : Nat} {cell : MemoryCell} :
    line.2[i]? = some cell ↔ i < (memoryCellShape kind).2 ∧
      cell = cellOf (memoryCellShape kind) (observedIn pairs) (line.1 / (memoryCellShape kind).1 + i) := by
  obtain ⟨start, -, rfl⟩ := mem_map.1 h
  rw [List.getElem?_map, map_eq_some_iff]
  constructor
  · rintro ⟨j, hj, rfl⟩
    obtain ⟨hlt, heq⟩ := List.getElem?_eq_some_iff.1 hj
    rw [getElem_range] at heq
    exact ⟨by simpa using hlt, by rw [heq]⟩
  · rintro ⟨hlt, rfl⟩
    exact ⟨i, List.getElem?_range hlt, rfl⟩

theorem fst_plainLines : (plainLines kind pairs).map Prod.fst = lineStarts kind pairs := by
  rw [plainLines, List.map_map]
  exact List.map_id _

theorem length_plainLines (h : line ∈ plainLines kind pairs) : line.2.length = (memoryCellShape kind).2 := by
  obtain ⟨start, -, rfl⟩ := mem_map.1 h
  rw [length_map, length_range]

theorem plainLines_apart : (plainLines kind pairs).Pairwise fun l l' => l.1 + lineSize kind ≤ l'.1 := by
  rw [plainLines, pairwise_map]
  refine (List.Pairwise.and_mem.1 lineStarts_ascending).imp fun {s s'} h => ?_
  obtain ⟨hs, hs', hlt⟩ := h
  obtain ⟨k, rfl⟩ := dvd_of_mem_lineStarts hs
  obtain ⟨k', rfl⟩ := dvd_of_mem_lineStarts hs'
  calc lineSize kind * k + lineSize kind = lineSize kind * (k + 1) := (Nat.mul_succ _ _).symm
    _ ≤ lineSize kind * k' := Nat.mul_le_mul_left _ (Nat.lt_of_mul_lt_mul_left hlt)

theorem exists_line {p : BitVec 16 × Word} (hp : p ∈ pairs) :
    ∃ line ∈ plainLines kind pairs, line.1 ≤ p.1.toNat ∧ p.1.toNat < line.1 + lineSize kind := by
  have hstart : p.1.toNat / lineSize kind * lineSize kind ∈ lineStarts kind pairs := mem_lineStarts.2 ⟨p, hp, rfl⟩
  have hin := (mem_line_iff (lineSize_pos kind) (dvd_of_mem_lineStarts hstart)).2 rfl
  rw [← fst_plainLines] at hstart
  obtain ⟨line, hline, heq⟩ := mem_map.1 hstart
  exact ⟨line, hline, heq ▸ hin⟩

theorem nodup_cellWords (hshape : memoryCellShape kind = (1, 8)) : (cellWords (plainLines kind pairs)).Nodup := by
  have hcells : (plainLines kind pairs).Pairwise fun l l' => l.1 + l.2.length ≤ l'.1 := by
    refine (List.Pairwise.and_mem.1 plainLines_apart).imp fun {l l'} h => ?_
    obtain ⟨hl, -, hle⟩ := h
    rw [lineSize, hshape] at hle
    rw [length_plainLines hl, hshape]
    exact hle
  exact List.Nodup.of_map Prod.fst ((cellWords_ascending hcells).imp fun h => Nat.ne_of_lt h)

theorem mem_cellWords_plainLines (hshape : memoryCellShape kind = (1, 8)) (hpairs : (pairs.map Prod.fst).Nodup)
    {address : Nat} {w : Word} : (address, w) ∈ cellWords (plainLines kind pairs) ↔ observedIn pairs address = some w := by
  rw [mem_cellWords]
  constructor
  · rintro ⟨line, hline, i, cell, hcell, hobs, heq⟩
    obtain ⟨-, rfl⟩ := (cell_plainLines hline).1 hcell
    obtain ⟨rfl, rfl⟩ := Prod.mk.inj heq
    rw [hshape] at hobs ⊢
    simp only [cellOf, Nat.div_one] at hobs ⊢
    cases hw : observedIn pairs (line.1 + i) with
    | none =>
      rw [hw] at hobs
      cases hobs
    | some w => rfl
  intro hw
  obtain ⟨a, rfl, hmem⟩ := (observedIn_eq_some hpairs).1 hw
  obtain ⟨line, hline, hle, hlt⟩ : ∃ line ∈ plainLines kind pairs, line.1 ≤ a.toNat ∧ a.toNat < line.1 + lineSize kind :=
    exists_line hmem
  rw [lineSize, hshape] at hlt
  have hi : a.toNat - line.1 < (memoryCellShape kind).2 := by
    rw [hshape]
    exact Nat.sub_lt_left_of_lt_add hle hlt
  have hoffset : line.1 + (a.toNat - line.1) = a.toNat := Nat.add_sub_of_le hle
  refine ⟨line, hline, _, _, (cell_plainLines hline).2 ⟨hi, rfl⟩, ?_, ?_⟩
  all_goals
    simp only [hshape, cellOf, Nat.div_one, hoffset, hw]
    rfl

theorem cellWords_perm (hshape : memoryCellShape kind = (1, 8)) (hpairs : (pairs.map Prod.fst).Nodup) :
    (cellWords (plainLines kind pairs)).Perm (pairs.map fun p => (p.1.toNat, p.2)) := by
  have hpairs' : (pairs.map fun p => (p.1.toNat, p.2)).Nodup := by
    refine (List.Nodup.of_map Prod.fst hpairs).map fun p q hpq => ?_
    obtain ⟨h₁, h₂⟩ := Prod.mk.inj hpq
    exact Prod.ext (eq_of_toNat_eq h₁) h₂
  refine (List.perm_ext_iff_of_nodup (nodup_cellWords hshape) hpairs').2 fun x => ?_
  rw [mem_cellWords_plainLines hshape hpairs, observedIn_eq_some hpairs, List.mem_map]
  constructor
  · rintro ⟨a, ha, hmem⟩
    exact ⟨_, hmem, Prod.ext ha rfl⟩
  · rintro ⟨p, hp, rfl⟩
    exact ⟨p.1, rfl, hp⟩

theorem coils_shown (hshape : memoryCellShape kind = (8, 16))
    (hpairs : (pairs.map Prod.fst).Nodup) (hline : line ∈ plainLines kind pairs) {c : Nat}
    {cell : MemoryCell} (hcell : line.2[c]? = some cell) :
    (cell.observed = true ↔ ∃ b < 8, ∃ p ∈ pairs, p.1.toNat = line.1 + 8 * c + b) ∧
      ∀ b < 8, cell.value.getLsbD (7 - b) = true ↔ ∃ p ∈ pairs, p.1.toNat = line.1 + 8 * c + b ∧ p.2 ≠ 0 := by
  have hdvd : lineSize kind ∣ line.1 := dvd_of_mem_lineStarts (fst_mem_lineStarts hline)
  obtain ⟨-, rfl⟩ := (cell_plainLines hline).1 hcell
  have hsize : lineSize kind = 128 := by
    simp only [lineSize, hshape]
  rw [hsize] at hdvd
  have haddr : ∀ b, (line.1 / 8 + c) * 8 + b = line.1 + 8 * c + b := by omega
  have hsome : ∀ b w, observedIn pairs (line.1 + 8 * c + b) = some w ↔
      ∃ a, a.toNat = line.1 + 8 * c + b ∧ (a, w) ∈ pairs := fun b w => observedIn_eq_some hpairs
  obtain ⟨hobs, hval⟩ := packed_bits (fun b => observedIn pairs (line.1 + 8 * c + b)) (Nat.le_refl 8)
  simp only [hshape, cellOf, if_true, haddr]
  refine ⟨hobs.trans (exists_congr fun b => and_congr_right fun _ => ?_), fun b hb => (hval b hb).trans ?_⟩
  · rw [isSome_iff_exists]
    constructor
    · rintro ⟨w, hw⟩
      obtain ⟨a, ha, hmem⟩ := (hsome b w).1 hw
      exact ⟨(a, w), hmem, ha⟩
    · rintro ⟨p, hp, ha⟩
      exact ⟨p.2, (hsome b p.2).2 ⟨p.1, ha, hp⟩⟩
  · constructor
    · rintro ⟨-, w, hw, hne⟩
      obtain ⟨a, ha, hmem⟩ := (hsome b w).1 hw
      exact ⟨(a, w), hmem, ha, hne⟩
    · rintro ⟨p, hp, ha, hne⟩
      exact ⟨hb, p.2, (hsome b p.2).2 ⟨p.1, ha, hp⟩, hne⟩

/-- **The memory panel lays out what was observed**: the lines are computed without overflow, ascend, and are exactly those an
observed address needs; a coil cell is observed when one of its eight coils is. -/
theorem memory_laid_out (hpairs : (pairs.map Prod.fst).Nodup) : Returns (memoryLines kind pairs) (LaysOut kind pairs) := by
  refine ⟨_, memoryLines_eq, ?_⟩
  constructor
  case ascending => rw [fst_plainLines]; exact lineStarts_ascending
  case aligned => exact fun line hline => ⟨dvd_of_mem_lineStarts (fst_mem_lineStarts hline), length_plainLines hline⟩
  case needed =>
    intro line hline
    have hstart := fst_mem_lineStarts hline
    obtain ⟨p, hp, heq⟩ := mem_lineStarts.1 hstart
    exact ⟨p, hp, (mem_line_iff (lineSize_pos kind) (dvd_of_mem_lineStarts hstart)).2 heq⟩
  case complete => exact fun p hp => exists_line hp
  case registers =>
    rintro (rfl | rfl) <;> exact cellWords_perm rfl hpairs
  case coils =>
    rintro (rfl | rfl) line hline c cell hcell <;> exact coils_shown rfl hpairs hline hcell

theorem memory_laid_out_three_coils : Returns (memoryLines .coil [(9, 1), (65535, 1), (8, 0)])
    (LaysOut .coil [(9, 1), (65535, 1), (8, 0)]) := memory_laid_out (by decide)

end

end Ferrowl.Modbus.Monitor
