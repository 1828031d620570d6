import Mathlib.Data.List.Basic
/-!
# StoreCell — cells, address ranges and slices of the register store

`ferrowl-store`'s `cell.rs`, `range.rs` and `slice.rs`.  A slice is a contiguous run of cells; its buffer holds one cell per
address of its range, which the type carries (`Slice.sized`), as a range carries that its end is not before its start.  Addresses
are natural numbers: every range the code builds ends at or below an end it was given, so `Range::new`'s overflow check never
fires on a range that already exists.
-/
namespace Ferrowl.Store

abbrev Word := BitVec 16

inductive CellType where
  | coil
  | register
  deriving DecidableEq, Repr

inductive Access where
  | read
  | write
  | readWrite
  deriving DecidableEq, Repr

structure CellKind where
  ty : CellType
  access : Access
  deriving DecidableEq, Repr

def CellKind.read (ty : CellType) : CellKind := ⟨ty, .read⟩
def CellKind.write (ty : CellType) : CellKind := ⟨ty, .write⟩
def CellKind.readWrite (ty : CellType) : CellKind := ⟨ty, .readWrite⟩

structure Cell where
  kind : CellKind
  value : Word
  deriving DecidableEq, Repr

def Cell.fromU16 (kind : CellKind) (init : Word) : Cell := ⟨kind, init⟩

def Cell.zeroed (kind : CellKind) : Cell := Cell.fromU16 kind 0

def Cell.acceptsWrite (c : Cell) (ty : CellType) : Bool :=
  c.kind.ty == ty && (c.kind.access == .write || c.kind.access == .readWrite)

def Cell.acceptsRead (c : Cell) (ty : CellType) : Bool :=
  c.kind.ty == ty && (c.kind.access == .read || c.kind.access == .readWrite)

def Cell.trySetValue (c : Cell) (val : Word) : Cell :=
  if c.kind.access != .read then { c with value := val } else c

def Cell.tryValue (c : Cell) : Option Word :=
  if c.kind.access != .write then some c.value else none

theorem Cell.trySetValue_of_acceptsWrite {c : Cell} {ty : CellType} (h : c.acceptsWrite ty = true) (val : Word) :
    c.trySetValue val = { c with value := val } := by
  unfold Cell.acceptsWrite at h
  unfold Cell.trySetValue
  cases hc : c.kind.access <;> simp_all

theorem Cell.tryValue_of_acceptsRead {c : Cell} {ty : CellType} (h : c.acceptsRead ty = true) : c.tryValue = some c.value := by
  unfold Cell.acceptsRead at h
  unfold Cell.tryValue
  cases hc : c.kind.access <;> simp_all

/-! ## Ranges -/

structure Range where
  start : Nat
  stop : Nat
  le : start ≤ stop
  deriving DecidableEq, Repr

def Range.new (start size : Nat) : Range := ⟨start, start + size, Nat.le_add_right _ _⟩

def Range.length (r : Range) : Nat := r.stop - r.start

instance : Membership Nat Range := ⟨fun r a => r.start ≤ a ∧ a < r.stop⟩

variable {r : Range} {a : Nat}

namespace Range

theorem mem_def : a ∈ r ↔ r.start ≤ a ∧ a < r.stop := Iff.rfl

instance (r : Range) (a : Nat) : Decidable (a ∈ r) := inferInstanceAs (Decidable (r.start ≤ a ∧ a < r.stop))

def addrs (r : Range) : List Nat := List.range' r.start r.length

/-- The overlap of two ranges, `none` when they are disjoint or merely adjacent. -/
def intersect (r t : Range) : Option Range :=
  if h : max r.start t.start < min r.stop t.stop then some ⟨max r.start t.start, min r.stop t.stop, Nat.le_of_lt h⟩
  else none

/-- The derived order of `BTreeMap` keys: by start, then by end. -/
def lt (r t : Range) : Bool := decide (r.start < t.start) || (r.start == t.start && decide (r.stop < t.stop))

@[simp] theorem new_start (s n : Nat) : (new s n).start = s := rfl
@[simp] theorem new_stop (s n : Nat) : (new s n).stop = s + n := rfl
@[simp] theorem new_length (s n : Nat) : (new s n).length = n := by simp [length]

@[simp] theorem mem_addrs : a ∈ r.addrs ↔ a ∈ r := by
  have := r.le
  simp only [addrs, List.mem_range'_1, length, mem_def]
  omega

@[simp] theorem length_addrs (r : Range) : r.addrs.length = r.length := by simp [addrs]

theorem intersect_isSome {t : Range} : (r.intersect t).isSome = true ↔ ∃ a, a ∈ r ∧ a ∈ t := by
  unfold intersect
  split
  · rename_i h
    refine ⟨fun _ => ⟨max r.start t.start, ?_, ?_⟩, fun _ => rfl⟩ <;> rw [mem_def] <;> omega
  rename_i h
  refine ⟨fun hn => by simp at hn, ?_⟩
  rintro ⟨a, har, hat⟩
  rw [mem_def] at har hat
  omega

theorem mem_intersect {t i : Range} (h : r.intersect t = some i) (a : Nat) : a ∈ i ↔ a ∈ r ∧ a ∈ t := by
  unfold intersect at h
  split at h
  · cases h
    simp only [mem_def]
    omega
  · cases h

theorem intersect_eq_none {t : Range} : r.intersect t = none ↔ ∀ a, a ∈ r → a ∉ t := by
  have h := intersect_isSome (r := r) (t := t)
  cases hi : r.intersect t with
  | none =>
    rw [hi] at h
    simp only [true_iff]
    intro a har hat
    have := h.2 ⟨a, har, hat⟩
    cases this
  | some i =>
    rw [hi] at h
    obtain ⟨a, har, hat⟩ := h.1 rfl
    exact ⟨nofun, fun hn => absurd hat (hn a har)⟩

end Range

/-! ## Slices

`zipOnto g n xs vs` is the loop shape of every buffer update: from position `n` on, `g` folds the values `vs` into the
elements of `xs`, one by one. -/

def zipOnto {α β : Type} (g : α → β → α) : Nat → List α → List β → List α
  | _, [], _ => []
  | 0, x :: xs, [] => x :: xs
  | 0, x :: xs, v :: vs => g x v :: zipOnto g 0 xs vs
  | n + 1, x :: xs, vs => x :: zipOnto g n xs vs

@[simp] theorem length_zipOnto {α β : Type} (g : α → β → α) : ∀ (n : Nat) (xs : List α) (vs : List β),
    (zipOnto g n xs vs).length = xs.length
  | _, [], _ => by simp [zipOnto]
  | 0, x :: xs, [] => by simp [zipOnto]
  | 0, x :: xs, v :: vs => by simp [zipOnto, length_zipOnto g 0 xs vs]
  | n + 1, x :: xs, vs => by simp [zipOnto, length_zipOnto g n xs vs]

theorem getElem?_zipOnto {α β : Type} (g : α → β → α) : ∀ (n : Nat) (xs : List α) (vs : List β) (i : Nat),
    (zipOnto g n xs vs)[i]? = if n ≤ i ∧ i < n + vs.length then (xs[i]?).bind (fun x => (vs[i - n]?).map (g x)) else xs[i]?
  | n, [], vs, i => by simp [zipOnto]
  | 0, x :: xs, [], i => by simp [zipOnto]
  | 0, x :: xs, v :: vs, 0 => by simp [zipOnto]
  | 0, x :: xs, v :: vs, i + 1 => by
    simp only [zipOnto, List.getElem?_cons_succ, getElem?_zipOnto g 0 xs vs i, Nat.sub_zero, List.length_cons]
    congr 1
    simp only [Nat.zero_le, true_and, Nat.zero_add, eq_iff_iff]
    omega
  | n + 1, x :: xs, vs, 0 => by simp [zipOnto]
  | n + 1, x :: xs, vs, i + 1 => by
    simp only [zipOnto, List.getElem?_cons_succ, getElem?_zipOnto g n xs vs i, Nat.add_sub_add_right]
    congr 1
    simp only [eq_iff_iff]
    omega

/-- A contiguous run of cells; `buffer[i]` is the cell at address `range.start + i`. -/
structure Slice where
  range : Range
  buffer : List Cell
  sized : buffer.length = range.length
  deriving DecidableEq, Repr

namespace Slice

def fromRange (kind : CellKind) (range : Range) : Slice where
  range := range
  buffer := List.replicate range.length (Cell.zeroed kind)
  sized := List.length_replicate

def contains (s : Slice) (range : Range) : Bool :=
  decide (s.range.start ≤ range.start) && decide (range.stop ≤ s.range.stop)

def cellsIn (s : Slice) (range : Range) : List Cell :=
  (s.buffer.drop (range.start - s.range.start)).take range.length

def writable (s : Slice) (ty : CellType) (range : Range) : Bool :=
  s.contains range && (s.cellsIn range).all (·.acceptsWrite ty)

def readable (s : Slice) (ty : CellType) (range : Range) : Bool :=
  s.contains range && (s.cellsIn range).all (·.acceptsRead ty)

/-- The slice with `g` applied to the cells of `range` and the values given for them. -/
def update (g : Cell → Word → Cell) (s : Slice) (range : Range) (values : List Word) : Slice where
  range := s.range
  buffer := zipOnto g (range.start - s.range.start) s.buffer values
  sized := by rw [length_zipOnto]; exact s.sized

/-- Writes `values` into `range`, skipping read-only cells; `false` when out of bounds or of the wrong length. -/
def write (s : Slice) (range : Range) (values : List Word) : Bool × Slice :=
  let writable := s.contains range && range.length == values.length
  (writable, if writable then s.update Cell.trySetValue range values else s)

def writeUnchecked (s : Slice) (range : Range) (values : List Word) : Bool × Slice :=
  let ok := s.contains range && range.length == values.length
  (ok, if ok then s.update (fun c v => { c with value := v }) range values else s)

/-- The values in `range`, `none` when out of bounds or when a cell is write-only. -/
def read (s : Slice) (range : Range) : Option (List Word) :=
  if s.contains range then (s.cellsIn range).mapM Cell.tryValue else none

def readUnchecked (s : Slice) (range : Range) : Option (List Word) :=
  if s.contains range then some ((s.cellsIn range).map (·.value)) else none

def cellAt (s : Slice) (a : Nat) : Option Cell :=
  if s.range.start ≤ a then s.buffer[a - s.range.start]? else none

theorem cellAt_isSome {s : Slice} : (s.cellAt a).isSome = true ↔ a ∈ s.range := by
  have hs := s.sized
  have hr := s.range.le
  unfold cellAt Range.length at *
  rw [Range.mem_def]
  split
  · simp only [Option.isSome_iff_ne_none, ne_eq, List.getElem?_eq_none_iff]
    omega
  · simp only [Option.isSome_none, Bool.false_eq_true, false_iff]
    omega

theorem cellAt_eq_none {s : Slice} : s.cellAt a = none ↔ a ∉ s.range := by
  rw [← cellAt_isSome]
  cases s.cellAt a <;> simp

theorem cellAt_fromRange (kind : CellKind) (range : Range) (a : Nat) :
    (fromRange kind range).cellAt a = if a ∈ range then some (Cell.zeroed kind) else none := by
  have hr := range.le
  simp only [cellAt, fromRange, List.getElem?_replicate, Range.length, Range.mem_def, ← ite_and]
  congr 1
  simp only [eq_iff_iff]
  omega

end Slice

end Ferrowl.Store
