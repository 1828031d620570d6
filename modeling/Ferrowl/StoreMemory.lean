import Ferrowl.Checked
import Ferrowl.StoreWalk
import Mathlib.Data.List.Sort
/-!
# StoreMemory — the register store's operations

`Memory` of `ferrowl-store`: an operation that fails returns the memory it leaves behind next to its error.  A write tap is only
known by whether one is installed; each call it gets is returned by the sourced writes, with the memory it is shown.
-/
namespace Ferrowl.Store

open List Option

inductive MemoryError where
  | unknownKey
  | addressNotReadable
  | addressNotWritable
  | lengthMismatch (expected got : Nat)
  deriving DecidableEq, Repr

inductive WriteSource where
  | remote
  | poll
  | command
  | script
  deriving DecidableEq, Repr

structure StoreWrite (K : Type) where
  source : WriteSource
  id : K
  range : Range
  old : List Word
  new : List Word

structure Memory (K : Type) where
  slices : K → Option SliceMap
  /-- whether a write tap is installed -/
  tap : Bool

abbrev TapCall (K : Type) := StoreWrite K × Memory K

def Memory.empty (K : Type) : Memory K := ⟨fun _ => none, false⟩

section
variable {K : Type} [DecidableEq K]

def Memory.insert (m : Memory K) (id : K) (map : SliceMap) : Memory K :=
  { m with slices := fun k => if k = id then some map else m.slices k }

def Memory.containsKey (m : Memory K) (id : K) : Bool := (m.slices id).isSome

/-- The ranges of one call, declared one after the other on a copy of the device's map. -/
def declareRanges (kind : CellKind) (ranges : List Range) (map : SliceMap) : Option SliceMap :=
  (ranges.insertionSort (fun r t => r.start ≤ t.start)).foldlM (SliceMap.addRange kind) map

def Memory.addRanges (m : Memory K) (id : K) (kind : CellKind) (ranges : List Range) : Bool × Memory K :=
  match declareRanges kind ranges ((m.slices id).getD SliceMap.empty) with
  | none => (false, m)
  | some map => (true, if map.isEmpty then m else m.insert id map)

def Memory.writable (m : Memory K) (id : K) (ty : CellType) (range : Range) : Except MemoryError Unit :=
  match m.slices id with
  | some map =>
    if (walkSlices (fun slice sg st => (slice.writable ty sg, st)) map.slices range ()).1 then .ok ()
    else .error .addressNotWritable
  | none => .error .unknownKey

def Memory.readable (m : Memory K) (id : K) (ty : CellType) (range : Range) : Except MemoryError Unit :=
  match m.slices id with
  | some map =>
    if (walkSlices (fun slice sg st => (slice.readable ty sg, st)) map.slices range ()).1 then .ok ()
    else .error .addressNotReadable
  | none => .error .unknownKey

/-- `walk_slices_mut` on a slice map, with a closure that keeps each slice's range. -/
def SliceMap.walkMut {σ : Type} (f : Slice → Range → σ → Bool × Slice × σ)
    (hf : ∀ s sg st, (f s sg st).2.1.range = s.range) (map : SliceMap) (range : Range) (st : σ) : Bool × SliceMap :=
  ((walkSlicesMut f map.slices range st).1,
    ⟨(walkSlicesMut f map.slices range st).2.1, map.laid.of_ranges (walkSlicesMut_ranges hf _ _ _)⟩)

/-- The closure of `write`: the next values go into the slice, its read-only cells skipped. -/
def writeNext (values : List Word) (slice : Slice) (sg : Range) (idx : Nat) : Bool × Slice × Nat :=
  (true, (slice.write sg ((values.drop idx).take sg.length)).2, idx + sg.length)

def writeNextUnchecked (values : List Word) (slice : Slice) (sg : Range) (idx : Nat) : Bool × Slice × Nat :=
  (true, (slice.writeUnchecked sg ((values.drop idx).take sg.length)).2, idx + sg.length)

theorem writeNext_range (values : List Word) (s : Slice) (sg : Range) (idx : Nat) :
    (writeNext values s sg idx).2.1.range = s.range := by
  simp only [writeNext, Slice.write]
  split <;> rfl

theorem writeNextUnchecked_range (values : List Word) (s : Slice) (sg : Range) (idx : Nat) :
    (writeNextUnchecked values s sg idx).2.1.range = s.range := by
  simp only [writeNextUnchecked, Slice.writeUnchecked]
  split <;> rfl

namespace Memory

def write (m : Memory K) (id : K) (ty : CellType) (range : Range) (values : List Word) :
    Except MemoryError Unit × Memory K :=
  if range.length ≠ values.length then (.error (.lengthMismatch range.length values.length), m)
  else
    match m.writable id ty range, m.slices id with
    | .error e, _ => (.error e, m)
    | .ok (), some map =>
      (.ok (), m.insert id (map.walkMut (writeNext values) (writeNext_range values) range 0).2)
    -- `writable` has found the key
    | .ok (), none => (.ok (), m)

def writeUnchecked (m : Memory K) (id : K) (range : Range) (values : List Word) : Bool × Memory K :=
  if range.length ≠ values.length then (false, m)
  else
    match m.slices id with
    | some map =>
      let (covered, map') := map.walkMut (writeNextUnchecked values) (writeNextUnchecked_range values) range 0
      (covered, m.insert id map')
    | none => (false, m)

def read (m : Memory K) (id : K) (ty : CellType) (range : Range) : Except MemoryError (List Word) :=
  match m.readable id ty range, m.slices id with
  | .error e, _ => .error e
  | .ok (), some map =>
    .ok (walkSlices (fun slice sg output => (true, output ++ (slice.read sg).getD [])) map.slices range []).2
  -- `readable` has found the key
  | .ok (), none => .ok []

def readUnchecked (m : Memory K) (id : K) (range : Range) : Option (List Word) :=
  match m.slices id with
  | some map =>
    let (covered, output) :=
      walkSlices (fun slice sg output => (true, output ++ (slice.readUnchecked sg).getD [])) map.slices range []
    if covered then some output else none
  | none => none

def writeFrom (m : Memory K) (source : WriteSource) (id : K) (ty : CellType) (range : Range)
    (values : List Word) : Except MemoryError Unit × Memory K × List (TapCall K) :=
  if range.length ≠ values.length then (.error (.lengthMismatch range.length values.length), m, [])
  else
    match m.writable id ty range with
    | .error e => (.error e, m, [])
    | .ok () =>
      let old := if m.tap then m.readUnchecked id range else none
      match m.write id ty range values with
      | (.error e, m') => (.error e, m', [])
      | (.ok (), m') => (.ok (), m', (old.map (fun old => (⟨source, id, range, old, values⟩, m'))).toList)

def writeUncheckedFrom (m : Memory K) (source : WriteSource) (id : K) (range : Range) (values : List Word) :
    Bool × Memory K × List (TapCall K) :=
  let old := if m.tap then m.readUnchecked id range else none
  match m.writeUnchecked id range values with
  | (false, m') => (false, m', [])
  | (true, m') => (true, m', (old.map (fun old => (⟨source, id, range, old, values⟩, m'))).toList)

end Memory

/-! ## The cells of a memory -/

def Memory.cellAt (m : Memory K) (id : K) (a : Nat) : Option Cell := (m.slices id).bind (·.cellAt a)

/-- The value held under a key at an address, 0 where nothing is declared. -/
def Memory.valueAt (m : Memory K) (id : K) (a : Nat) : Word := ((m.cellAt id a).map (·.value)).getD 0

variable {m : Memory K} {id : K}

omit [DecidableEq K] in
theorem Memory.cellAt_of_slices {map : SliceMap} (h : m.slices id = some map) (a : Nat) :
    m.cellAt id a = lookup map.slices a := by
  rw [Memory.cellAt, h]
  rfl

theorem Memory.cellAt_insert (m : Memory K) (id : K) (map : SliceMap) (k : K) (a : Nat) :
    (m.insert id map).cellAt k a = if k = id then map.cellAt a else m.cellAt k a := by
  simp only [Memory.cellAt, Memory.insert]
  split <;> rfl

variable {ty : CellType} {range : Range}

omit [DecidableEq K] in
theorem Memory.writable_ok : m.writable id ty range = .ok () ↔
      m.containsKey id = true ∧ ∀ a ∈ range, ∃ c, m.cellAt id a = some c ∧ c.acceptsWrite ty = true := by
  unfold Memory.writable Memory.containsKey
  cases h : m.slices id with
  | none => simp
  | some map =>
    have hc : (walkSlices (fun slice sg st => (slice.writable ty sg, st)) map.slices range ()).1 = true ↔ _ :=
      walk_check map.laid range (·.acceptsWrite ty)
    simp only [Memory.cellAt_of_slices h, ← hc]
    cases (walkSlices (fun slice sg st => (slice.writable ty sg, st)) map.slices range ()).1 <;> simp

omit [DecidableEq K] in
theorem Memory.readable_ok : m.readable id ty range = .ok () ↔
      m.containsKey id = true ∧ ∀ a ∈ range, ∃ c, m.cellAt id a = some c ∧ c.acceptsRead ty = true := by
  unfold Memory.readable Memory.containsKey
  cases h : m.slices id with
  | none => simp
  | some map =>
    have hc : (walkSlices (fun slice sg st => (slice.readable ty sg, st)) map.slices range ()).1 = true ↔ _ :=
      walk_check map.laid range (·.acceptsRead ty)
    simp only [Memory.cellAt_of_slices h, ← hc]
    cases (walkSlices (fun slice sg st => (slice.readable ty sg, st)) map.slices range ()).1 <;> simp

omit [DecidableEq K] in
theorem values_of_map_some {out : List Word} (h : out.map some = range.addrs.map (fun a => (m.cellAt id a).map (·.value))) :
    out = range.addrs.map (m.valueAt id) := by
  have hd := congrArg (List.map (fun o : Option Word => o.getD 0)) h
  rw [List.map_map, List.map_map] at hd
  show out = range.addrs.map (fun a => ((m.cellAt id a).map (·.value)).getD 0)
  simpa [Function.comp_def] using hd

namespace Memory

omit [DecidableEq K] in
theorem read_of_readable (h : m.readable id ty range = .ok ()) :
    m.read id ty range = .ok (range.addrs.map (m.valueAt id)) := by
  obtain ⟨hk, hall⟩ := readable_ok.1 h
  obtain ⟨map, hmap⟩ := isSome_iff_exists.1 hk
  simp only [cellAt_of_slices hmap] at hall
  have hcov : reach map.slices range = range.stop := by
    refine (covered_iff map.laid).2 (fun a ha => ?_)
    obtain ⟨c, hc, -⟩ := hall a ha
    rw [hc]; rfl
  have hg : ∀ s x y, (s, x, y) ∈ pieces map.slices range →
      (s.read (seg x y)).getD [] = (s.cellsIn (seg x y)).map (·.value) := by
    intro s x y hm
    obtain ⟨hs, ⟨hw1, hw2⟩, hin⟩ := mem_pieces hm
    have hcont : s.contains (seg x y) = true := by simp [Slice.contains, hw1, hw2]
    have hval : ∀ c ∈ s.cellsIn (seg x y), c.tryValue = some c.value := by
      intro c hc
      have hmem := mem_map_of_mem (f := some) hc
      rw [map_cellsIn_piece map.laid hm, List.mem_map] at hmem
      obtain ⟨a, ha, hac⟩ := hmem
      obtain ⟨d, hd, hacc⟩ := hall a (hin a (Range.mem_addrs.1 ha)).2
      rw [hac] at hd
      cases hd
      exact Cell.tryValue_of_acceptsRead hacc
    rw [Slice.read, if_pos hcont, mapM_eq_some hval]
    rfl
  obtain ⟨out, hout, hvals⟩ := walk_collect map.laid range (fun s sg => (s.read sg).getD []) (·.value) hg
  simp only [read, h, hmap, hout]
  rw [hcov] at hvals
  refine congrArg Except.ok (values_of_map_some ?_)
  simp only [cellAt_of_slices hmap]
  exact hvals

omit [DecidableEq K] in
theorem read_ok {vs : List Word} :
    m.read id ty range = .ok vs ↔ m.readable id ty range = .ok () ∧ vs = range.addrs.map (m.valueAt id) := by
  constructor
  · intro h
    have hr : m.readable id ty range = .ok () := by
      unfold read at h
      cases hr : m.readable id ty range with
      | error e => rw [hr] at h; cases h
      | ok u => rfl
    rw [read_of_readable hr] at h
    exact ⟨hr, by cases h; rfl⟩
  · rintro ⟨hr, rfl⟩
    exact read_of_readable hr

omit [DecidableEq K] in
theorem readUnchecked_eq (m : Memory K) (id : K) (range : Range) :
    m.readUnchecked id range =
      if m.containsKey id = true ∧ ∀ a ∈ range.addrs, (m.cellAt id a).isSome = true
        then some (range.addrs.map (m.valueAt id)) else none := by
  unfold readUnchecked containsKey
  cases hmap : m.slices id with
  | none => simp
  | some map =>
    have hg : ∀ s x y, (s, x, y) ∈ pieces map.slices range →
        (s.readUnchecked (seg x y)).getD [] = (s.cellsIn (seg x y)).map (·.value) := by
      intro s x y hm
      obtain ⟨-, ⟨hw1, hw2⟩, -⟩ := mem_pieces hm
      have hcont : s.contains (seg x y) = true := by simp [Slice.contains, hw1, hw2]
      rw [Slice.readUnchecked, if_pos hcont]
      rfl
    obtain ⟨out, hout, hvals⟩ := walk_collect map.laid range (fun s sg => (s.readUnchecked sg).getD []) (·.value) hg
    have hcov := covered_iff (r := range) map.laid
    simp only [hout, cellAt_of_slices hmap, Range.mem_addrs, isSome_some, true_and, ← hcov, beq_iff_eq]
    split
    · rename_i h
      rw [h] at hvals
      refine congrArg some (values_of_map_some ?_)
      simp only [cellAt_of_slices hmap]
      exact hvals
    · rfl

omit [DecidableEq K] in
theorem containsKey_of_declared {a : Nat} (h : (m.cellAt id a).isSome = true) : m.containsKey id = true := by
  unfold cellAt at h
  unfold containsKey
  cases hs : m.slices id with
  | none =>
    rw [hs] at h
    cases h
  | some map => rfl

omit [DecidableEq K] in
theorem readUnchecked_of_declared {start width : Nat} (hw : 0 < width)
    (h : ∀ a ∈ Range.new start width, (m.cellAt id a).isSome = true) :
    m.readUnchecked id (Range.new start width) = some ((Range.new start width).addrs.map (m.valueAt id)) := by
  have hfirst : start ∈ Range.new start width := ⟨Nat.le_refl _, Nat.lt_add_of_pos_right hw⟩
  rw [readUnchecked_eq, if_pos ⟨containsKey_of_declared (h start hfirst), fun a ha => h a (Range.mem_addrs.1 ha)⟩]

end Memory

/-! ## Writes -/

variable {values : List Word}

theorem contains_next {s : Slice} {sg : Range} {idx : Nat} (hw : sg.within s.range) (hlen : idx + sg.length ≤ values.length) :
    (s.contains sg && sg.length == ((values.drop idx).take sg.length).length) = true := by
  simp only [Slice.contains, hw.1, hw.2, decide_true, Bool.and_self, Bool.true_and, beq_iff_eq, length_take, length_drop]
  omega

theorem writesNext_writeNext (values : List Word) : WritesNext Cell.trySetValue values (writeNext values) := by
  intro s sg idx hw hlen
  simp only [writeNext, Slice.write, contains_next hw hlen, if_true]

theorem writesNext_writeNextUnchecked (values : List Word) :
    WritesNext (fun c v => { c with value := v }) values (writeNextUnchecked values) := by
  intro s sg idx hw hlen
  simp only [writeNextUnchecked, Slice.writeUnchecked, contains_next hw hlen, if_true]

theorem SliceMap.walkMut_spec {g : Cell → Word → Cell} {f : Slice → Range → Nat → Bool × Slice × Nat} (hf : WritesNext g values f)
    (hr : ∀ s sg st, (f s sg st).2.1.range = s.range) (map : SliceMap) (hlen : range.length = values.length) :
    (map.walkMut f hr range 0).1 = (reach map.slices range == range.stop) ∧ ∀ a, (map.walkMut f hr range 0).2.cellAt a =
        (map.cellAt a).map (writeAt g values range.start 0 (reach map.slices range) a) :=
  walk_update hf map.slices range 0 map.laid.apart (by omega)

def setValues (cells : K → Nat → Option Cell) (id : K) (range : Range) (values : List Word) (k : K) (a : Nat) :
    Option Cell :=
  if k = id ∧ a ∈ range then (cells k a).map (fun c => { c with value := values.getD (a - range.start) 0 })
  else cells k a

namespace Memory

theorem write_error {e : MemoryError} (h : (m.write id ty range values).1 = .error e) :
    (m.write id ty range values).2 = m := by
  unfold write at h ⊢
  split
  · rfl
  · split <;> simp_all

theorem write_ok : (m.write id ty range values).1 = .ok () ↔
      range.length = values.length ∧ m.writable id ty range = .ok () := by
  unfold write
  split
  · simp_all
  rename_i hlen
  rw [ne_eq, not_not] at hlen
  cases hw : m.writable id ty range with
  | error e => simp
  | ok u =>
    cases m.slices id <;> simp [hlen]

theorem cellAt_write (h : (m.write id ty range values).1 = .ok ()) (k : K) (a : Nat) :
    (m.write id ty range values).2.cellAt k a = setValues m.cellAt id range values k a := by
  obtain ⟨hlen, hw⟩ := write_ok.1 h
  obtain ⟨hk, hall⟩ := writable_ok.1 hw
  obtain ⟨map, hmap⟩ := isSome_iff_exists.1 hk
  have hcov : reach map.slices range = range.stop := by
    refine (covered_iff map.laid).2 (fun a ha => ?_)
    obtain ⟨c, hc, -⟩ := hall a ha
    rw [← cellAt_of_slices hmap, hc]; rfl
  obtain ⟨-, hcells⟩ := SliceMap.walkMut_spec (writesNext_writeNext values) (writeNext_range values) map hlen
  have heq : (m.write id ty range values).2 =
      m.insert id (map.walkMut (writeNext values) (writeNext_range values) range 0).2 := by
    simp [write, hlen, hw, hmap]
  rw [heq, cellAt_insert, setValues]
  by_cases hki : k = id
  · subst hki
    rw [if_pos rfl, hcells a, hcov, SliceMap.cellAt, ← cellAt_of_slices hmap]
    by_cases ha : a ∈ range
    · obtain ⟨c, hc, hacc⟩ := hall a ha
      rw [if_pos ⟨rfl, ha⟩, hc, map_some, map_some, writeAt, if_pos (Range.mem_def.1 ha),
        Cell.trySetValue_of_acceptsWrite hacc, Nat.zero_add]
    rw [if_neg (fun h => ha h.2)]
    cases m.cellAt k a with
    | none => rfl
    | some c => rw [map_some, writeAt, if_neg (fun h => ha (Range.mem_def.2 h))]
  · rw [if_neg hki, if_neg (fun h => hki h.1)]

theorem containsKey_write (m : Memory K) (id : K) (ty : CellType) (range : Range) (values : List Word) (k : K) :
    (m.write id ty range values).2.containsKey k = m.containsKey k := by
  unfold write
  split
  · rfl
  split
  · rfl
  · rename_i map _ hmap
    simp only [containsKey, insert]
    split
    · rename_i hk; subst hk; simp_all
    · rfl
  · rfl

theorem writeUnchecked_ok : (m.writeUnchecked id range values).1 = true ↔
      range.length = values.length ∧ m.containsKey id = true ∧ ∀ a ∈ range, (m.cellAt id a).isSome = true := by
  unfold writeUnchecked
  split
  · simp_all
  rename_i hlen
  rw [ne_eq, not_not] at hlen
  cases hmap : m.slices id with
  | none => simp [containsKey, hmap]
  | some map =>
    obtain ⟨hc, -⟩ := SliceMap.walkMut_spec (writesNext_writeNextUnchecked values)
      (writeNextUnchecked_range values) map hlen
    simp [hc, hlen, containsKey, hmap, covered_iff map.laid, cellAt_of_slices hmap]

/-- The addresses of a range up to `a` are all declared: a walk over the range gets past `a`. -/
def Reaches (m : Memory K) (id : K) (range : Range) (a : Nat) : Prop :=
  ∀ b ∈ range.addrs, b ≤ a → (m.cellAt id b).isSome = true

instance (m : Memory K) (id : K) (range : Range) (a : Nat) : Decidable (m.Reaches id range a) :=
  inferInstanceAs (Decidable (∀ b ∈ range.addrs, b ≤ a → (m.cellAt id b).isSome = true))

omit [DecidableEq K] in
theorem reaches_iff {map : SliceMap} (h : m.slices id = some map) {a : Nat}
    (ha : a ∈ range) : m.Reaches id range a ↔ a < reach map.slices range := by
  rw [lt_reach_iff map.laid ha]
  simp only [Reaches, Range.mem_addrs, cellAt_of_slices h]

theorem cellAt_writeUnchecked (m : Memory K) (id : K) (range : Range) (values : List Word) (k : K) (a : Nat) :
    (m.writeUnchecked id range values).2.cellAt k a =
      if range.length = values.length ∧ k = id ∧ a ∈ range ∧ m.Reaches id range a then
        (m.cellAt k a).map (fun c => { c with value := values.getD (a - range.start) 0 })
      else m.cellAt k a := by
  unfold writeUnchecked
  split
  · rename_i hlen
    rw [if_neg (fun h => hlen h.1)]
  rename_i hlen
  rw [ne_eq, not_not] at hlen
  cases hmap : m.slices id with
  | none =>
    simp only
    split
    · rename_i h
      obtain ⟨-, rfl, -⟩ := h
      rw [cellAt, hmap]
      rfl
    · rfl
  | some map =>
    obtain ⟨-, hcells⟩ := SliceMap.walkMut_spec (writesNext_writeNextUnchecked values)
      (writeNextUnchecked_range values) map hlen
    have hb := reach_bounds map.slices range
    simp only
    rw [cellAt_insert]
    by_cases hki : k = id
    · subst hki
      rw [if_pos rfl, hcells a, SliceMap.cellAt, ← cellAt_of_slices hmap]
      by_cases ha : range.start ≤ a ∧ a < reach map.slices range
      · have har : a ∈ range := ⟨ha.1, Nat.lt_of_lt_of_le ha.2 hb.2⟩
        rw [if_pos ⟨hlen, rfl, har, (reaches_iff hmap har).2 ha.2⟩]
        congr 1
        funext c
        rw [writeAt, if_pos ha, Nat.zero_add]
      rw [if_neg (fun h => ha ⟨h.2.2.1.1, (reaches_iff hmap h.2.2.1).1 h.2.2.2⟩)]
      have hid : writeAt (fun c v => { c with value := v }) values range.start 0 (reach map.slices range) a = id := by
        funext c
        rw [writeAt, if_neg ha]
        rfl
      rw [hid, Option.map_id, id]
    · rw [if_neg hki, if_neg (fun h => hki h.2.1)]

theorem cellAt_writeUnchecked_ok (h : (m.writeUnchecked id range values).1 = true) (k : K) (a : Nat) :
    (m.writeUnchecked id range values).2.cellAt k a = setValues m.cellAt id range values k a := by
  obtain ⟨hlen, -, hdecl⟩ := writeUnchecked_ok.1 h
  rw [cellAt_writeUnchecked, setValues]
  have hreach : m.Reaches id range a := fun b hb _ => hdecl b (Range.mem_addrs.1 hb)
  by_cases hin : k = id ∧ a ∈ range
  · rw [if_pos hin, if_pos ⟨hlen, hin.1, hin.2, hreach⟩]
  · rw [if_neg hin, if_neg (fun h => hin ⟨h.2.1, h.2.2.1⟩)]

theorem valueAt_writeUnchecked (hlen : range.length = values.length)
    (hdecl : ∀ a ∈ range, (m.cellAt id a).isSome = true) (k : K) (a : Nat) :
    (m.writeUnchecked id range values).2.valueAt k a =
      if k = id ∧ a ∈ range then values.getD (a - range.start) 0 else m.valueAt k a := by
  unfold valueAt
  rw [cellAt_writeUnchecked]
  by_cases hin : k = id ∧ a ∈ range
  · obtain ⟨rfl, ha⟩ := hin
    obtain ⟨c, hc⟩ := isSome_iff_exists.1 (hdecl a ha)
    rw [if_pos ⟨hlen, rfl, ha, fun b hb _ => hdecl b (Range.mem_addrs.1 hb)⟩, if_pos ⟨rfl, ha⟩, hc]
    rfl
  · rw [if_neg (fun h => hin ⟨h.2.1, h.2.2.1⟩), if_neg hin]

theorem valueAt_writeUnchecked_ok (h : (m.writeUnchecked id range values).1 = true) (k : K)
    (a : Nat) :
    (m.writeUnchecked id range values).2.valueAt k a =
      if k = id ∧ a ∈ range then values.getD (a - range.start) 0 else m.valueAt k a := by
  obtain ⟨hlen, -, hdecl⟩ := writeUnchecked_ok.1 h
  exact valueAt_writeUnchecked hlen hdecl k a

theorem containsKey_writeUnchecked {k : K} (h : m.containsKey k = true) :
    (m.writeUnchecked id range values).2.containsKey k = true := by
  unfold writeUnchecked
  split
  · exact h
  cases hmap : m.slices id with
  | none => exact h
  | some map =>
    unfold containsKey insert
    simp only
    split
    · rfl
    · exact h

theorem readUnchecked_writeUnchecked_ok (h : (m.writeUnchecked id range values).1 = true)
    {k : K} {r : Range} {ws : List Word} (hws : m.readUnchecked k r = some ws) :
    (m.writeUnchecked id range values).2.readUnchecked k r =
      some (r.addrs.map ((m.writeUnchecked id range values).2.valueAt k)) := by
  rw [readUnchecked_eq] at hws ⊢
  split at hws
  · rename_i hread
    refine if_pos ⟨containsKey_writeUnchecked hread.1, fun a ha => ?_⟩
    rw [cellAt_writeUnchecked_ok h, setValues]
    split
    · rw [isSome_map]
      exact hread.2 a ha
    · exact hread.2 a ha
  · cases hws

omit [DecidableEq K] in
theorem readUnchecked_some {ws : List Word} (h : m.readUnchecked id range = some ws) :
    ws = range.addrs.map (m.valueAt id) := by
  rw [readUnchecked_eq] at h
  split at h
  · exact (Option.some.inj h).symm
  · cases h

theorem writeUnchecked_of_read {ws : List Word} (h : m.readUnchecked id range = some ws)
    (hlen : range.length = values.length) : (m.writeUnchecked id range values).1 = true := by
  rw [readUnchecked_eq] at h
  split at h
  · rename_i hread
    exact writeUnchecked_ok.2 ⟨hlen, hread.1, fun a ha => hread.2 a (Range.mem_addrs.2 ha)⟩
  · cases h

theorem writeFrom_eq (m : Memory K) (source : WriteSource) (id : K) (ty : CellType) (range : Range) (values : List Word) :
    ((m.writeFrom source id ty range values).1, (m.writeFrom source id ty range values).2.1) = m.write id ty range values := by
  unfold writeFrom
  split
  · rename_i hlen
    simp only [write, if_pos hlen]
  rename_i hlen
  cases hw : m.writable id ty range with
  | error e => simp only [write, if_neg hlen, hw]
  | ok u =>
    rcases m.write id ty range values with ⟨r, m'⟩
    cases r <;> rfl

theorem writeUncheckedFrom_eq (m : Memory K) (source : WriteSource) (id : K) (range : Range) (values : List Word) :
    ((m.writeUncheckedFrom source id range values).1, (m.writeUncheckedFrom source id range values).2.1) =
      m.writeUnchecked id range values := by
  unfold writeUncheckedFrom
  rcases m.writeUnchecked id range values with ⟨r, m'⟩
  cases r <;> rfl

end Memory

end

end Ferrowl.Store
