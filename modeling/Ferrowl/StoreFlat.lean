import Ferrowl.StoreMemory
import Mathlib.Logic.Function.Basic
/-!
# StoreFlat — the store as one partial map

What the register store is for, without slices: per device key one partial map from addresses to cells (`FlatStore`).
`Memory.abs` forgets how the cells are split over slices, and every history of calls is the flat one under it (`abs_runOps`).
-/
namespace Ferrowl.Store

open Memory List Option

abbrev FlatMap := Nat → Option Cell

/-- Every cell of the range can be declared as `kind`. -/
def FlatMap.Declarable (kind : CellKind) (f : FlatMap) (r : Range) : Prop :=
  ∀ a ∈ r.addrs, (declareCell kind (f a)).isSome = true

instance (kind : CellKind) (f : FlatMap) (r : Range) : Decidable (f.Declarable kind r) :=
  inferInstanceAs (Decidable (∀ a ∈ r.addrs, (declareCell kind (f a)).isSome = true))

def FlatMap.declare (kind : CellKind) (f : FlatMap) (r : Range) : FlatMap :=
  fun a => if a ∈ r then declareCell kind (f a) else f a

def FlatMap.addRange (kind : CellKind) (f : FlatMap) (r : Range) : Option FlatMap :=
  if f.Declarable kind r then some (f.declare kind r) else none

def FlatMap.addRanges (kind : CellKind) (ranges : List Range) (f : FlatMap) : Option FlatMap :=
  ranges.foldlM (FlatMap.addRange kind) f

theorem FlatMap.declare_comm (kind : CellKind) (f : FlatMap) (r t : Range) :
    (f.declare kind r).declare kind t = (f.declare kind t).declare kind r := by
  funext a
  by_cases hr : a ∈ r <;> by_cases ht : a ∈ t <;> simp [FlatMap.declare, hr, ht]

theorem FlatMap.Declarable.swap {kind : CellKind} {f : FlatMap} {r t : Range} (hr : f.Declarable kind r)
    (ht : (f.declare kind r).Declarable kind t) : f.Declarable kind t ∧ (f.declare kind t).Declarable kind r := by
  simp only [FlatMap.Declarable, Range.mem_addrs, FlatMap.declare] at *
  constructor
  · intro a ha
    by_cases har : a ∈ r
    · exact hr a har
    · simpa [har] using ht a ha
  intro a ha
  by_cases hat : a ∈ t
  · simpa [ha, hat] using ht a hat
  · simpa [hat] using hr a ha

theorem FlatMap.addRange_comm (kind : CellKind) (f : FlatMap) (r t : Range) :
    (f.addRange kind r).bind (FlatMap.addRange kind · t) = (f.addRange kind t).bind (FlatMap.addRange kind · r) := by
  by_cases h : f.Declarable kind r ∧ (f.declare kind r).Declarable kind t
  · obtain ⟨h1, h2⟩ := h
    obtain ⟨h3, h4⟩ := h1.swap h2
    simp [FlatMap.addRange, if_pos h1, if_pos h3, if_pos h2, if_pos h4, FlatMap.declare_comm]
  have h' : ¬ (f.Declarable kind t ∧ (f.declare kind t).Declarable kind r) := fun h' => h (h'.1.swap h'.2)
  have hnone : ∀ r t : Range, ¬ (f.Declarable kind r ∧ (f.declare kind r).Declarable kind t) →
      (f.addRange kind r).bind (FlatMap.addRange kind · t) = none := by
    intro r t h
    by_cases hr : f.Declarable kind r
    · rw [FlatMap.addRange, if_pos hr, bind_some, FlatMap.addRange, if_neg (fun ht => h ⟨hr, ht⟩)]
    · rw [FlatMap.addRange, if_neg hr, bind_none]
  rw [hnone r t h, hnone t r h']

theorem FlatMap.addRanges_perm (kind : CellKind) {l l' : List Range} (h : l.Perm l') (f : FlatMap) :
    f.addRanges kind l = f.addRanges kind l' := by
  induction h generalizing f with
  | nil => rfl
  | cons r _ ih =>
    simp only [FlatMap.addRanges, foldlM_cons] at ih ⊢
    exact congrArg _ (funext ih)
  | swap r t l =>
    simp only [FlatMap.addRanges, foldlM_cons]
    have hc := congrArg (fun o : Option FlatMap => o.bind (fun f => l.foldlM (FlatMap.addRange kind) f))
      (FlatMap.addRange_comm kind f t r)
    simpa [bind_assoc] using hc
  | trans _ _ ih ih' => exact (ih f).trans (ih' f)

abbrev FlatStore (K : Type) := K → Option FlatMap

section
variable {K : Type} [DecidableEq K]

namespace FlatStore

def cellAt (s : FlatStore K) (id : K) (a : Nat) : Option Cell := (s id).bind (· a)

def addRanges (s : FlatStore K) (id : K) (kind : CellKind) (ranges : List Range) : Bool × FlatStore K :=
  match ((s id).getD (fun _ => none)).addRanges kind ranges with
  | none => (false, s)
  | some f => (true, if ranges.isEmpty then s else Function.update s id (some f))

def setRange (s : FlatStore K) (id : K) (range : Range) (values : List Word) : FlatStore K :=
  fun k => (s k).map (fun _ => setValues s.cellAt id range values k)

def Writable (s : FlatStore K) (id : K) (ty : CellType) (range : Range) : Prop :=
  ∀ a ∈ range.addrs, (s.cellAt id a).any (·.acceptsWrite ty) = true

def Readable (s : FlatStore K) (id : K) (ty : CellType) (range : Range) : Prop :=
  ∀ a ∈ range.addrs, (s.cellAt id a).any (·.acceptsRead ty) = true

instance (s : FlatStore K) (id : K) (ty : CellType) (range : Range) : Decidable (s.Writable id ty range) :=
  inferInstanceAs (Decidable (∀ a ∈ range.addrs, (s.cellAt id a).any (·.acceptsWrite ty) = true))

instance (s : FlatStore K) (id : K) (ty : CellType) (range : Range) : Decidable (s.Readable id ty range) :=
  inferInstanceAs (Decidable (∀ a ∈ range.addrs, (s.cellAt id a).any (·.acceptsRead ty) = true))

def write (s : FlatStore K) (id : K) (ty : CellType) (range : Range) (values : List Word) :
    Bool × FlatStore K :=
  if (s id).isSome = true ∧ range.length = values.length ∧ s.Writable id ty range then
    (true, s.setRange id range values)
  else (false, s)

end FlatStore

/-! ## The memory refines the flat store -/

def Memory.abs (m : Memory K) : FlatStore K := fun k => (m.slices k).map SliceMap.cellAt

omit [DecidableEq K] in
theorem Memory.abs_isSome (m : Memory K) (k : K) : (m.abs k).isSome = m.containsKey k := by
  simp [abs, containsKey]

omit [DecidableEq K] in
theorem Memory.abs_cellAt (m : Memory K) (k : K) (a : Nat) : m.abs.cellAt k a = m.cellAt k a := by
  simp only [FlatStore.cellAt, abs, cellAt]
  cases m.slices k <;> rfl

omit [DecidableEq K] in
theorem FlatStore.ext {s s' : FlatStore K} (hk : ∀ k, (s k).isSome = (s' k).isSome)
    (hc : ∀ k a, s.cellAt k a = s'.cellAt k a) : s = s' := by
  funext k
  have h1 := hk k
  have h2 := hc k
  simp only [FlatStore.cellAt] at h2
  cases hs : s k with
  | none =>
    rw [hs] at h1
    exact (not_isSome_iff_eq_none.1 (by rw [← h1]; simp)).symm
  | some f =>
    rw [hs] at h1
    obtain ⟨f', hf'⟩ := isSome_iff_exists.1 h1.symm
    rw [hs, hf'] at h2
    rw [hf']
    exact congrArg some (funext h2)

theorem SliceMap.abs_addRange (kind : CellKind) (map : SliceMap) (r : Range) :
    (map.addRange kind r).map SliceMap.cellAt = FlatMap.addRange kind map.cellAt r := by
  cases h : map.addRange kind r with
  | none =>
    obtain ⟨a, ha, hn⟩ := SliceMap.addRange_none.1 h
    have hno : ¬ FlatMap.Declarable kind map.cellAt r := by
      intro hd
      have := hd a (Range.mem_addrs.2 ha)
      rw [hn] at this
      cases this
    rw [FlatMap.addRange, if_neg hno]
    rfl
  | some map' =>
    obtain ⟨-, hc⟩ := SliceMap.addRange_some h
    have hd : FlatMap.Declarable kind map.cellAt r := by
      intro a ha
      by_contra hn
      have hnone := SliceMap.addRange_none.2 ⟨a, Range.mem_addrs.1 ha, by simpa using hn⟩
      rw [h] at hnone
      cases hnone
    rw [FlatMap.addRange, if_pos hd, map_some]
    exact congrArg some (funext hc)

theorem foldlM_addRange (kind : CellKind) : ∀ (l : List Range) (map : SliceMap),
    (l.foldlM (SliceMap.addRange kind) map).map SliceMap.cellAt = FlatMap.addRanges kind l map.cellAt
  | [], _ => rfl
  | r :: l, map => by
    simp only [foldlM_cons, FlatMap.addRanges]
    rw [← SliceMap.abs_addRange]
    cases map.addRange kind r with
    | none => rfl
    | some map' => exact foldlM_addRange kind l map'

theorem isEmpty_of_foldlM (kind : CellKind) : ∀ (l : List Range) (map map' : SliceMap),
    l.foldlM (SliceMap.addRange kind) map = some map' → (l = [] ∧ map' = map) ∨ (l ≠ [] ∧ map'.isEmpty = false)
  | [], map, map', h => Or.inl ⟨rfl, by cases h; rfl⟩
  | r :: l, map, map', h => by
    rw [foldlM_cons, bind_eq_bind, bind_eq_some_iff] at h
    obtain ⟨map₁, h1, h2⟩ := h
    obtain ⟨hne, -⟩ := SliceMap.addRange_some h1
    rcases isEmpty_of_foldlM kind l map₁ map' h2 with ⟨-, rfl⟩ | ⟨-, h⟩
    · exact Or.inr ⟨cons_ne_nil _ _, hne⟩
    · exact Or.inr ⟨cons_ne_nil _ _, h⟩

theorem declareRanges_abs (kind : CellKind) (ranges : List Range) (map : SliceMap) :
    (declareRanges kind ranges map).map SliceMap.cellAt = FlatMap.addRanges kind ranges map.cellAt := by
  rw [declareRanges, foldlM_addRange]
  exact FlatMap.addRanges_perm kind (perm_insertionSort _ _) _

variable {kind : CellKind}

theorem declareRanges_isEmpty {ranges : List Range} {map map' : SliceMap} (h : declareRanges kind ranges map = some map') :
    (ranges = [] ∧ map' = map) ∨ (ranges ≠ [] ∧ map'.isEmpty = false) := by
  have hsort := perm_insertionSort (fun r t : Range => r.start ≤ t.start) ranges
  rcases isEmpty_of_foldlM kind _ _ _ h with ⟨hnil, heq⟩ | ⟨hnil, he⟩
  · rw [hnil] at hsort
    exact Or.inl ⟨nil_perm.1 hsort, heq⟩
  · refine Or.inr ⟨fun hr => hnil ?_, he⟩
    rw [hr]
    rfl

theorem Memory.abs_insert (m : Memory K) (id : K) (map : SliceMap) :
    (m.insert id map).abs = Function.update m.abs id (some map.cellAt) := by
  funext k
  by_cases hk : k = id
  · subst hk
    simp [abs, insert]
  · simp [abs, insert, hk]

theorem Memory.abs_addRanges (m : Memory K) (id : K) (kind : CellKind) (ranges : List Range) :
    (m.addRanges id kind ranges).1 = (m.abs.addRanges id kind ranges).1 ∧
      (m.addRanges id kind ranges).2.abs = (m.abs.addRanges id kind ranges).2 := by
  have hbase : ((m.slices id).getD SliceMap.empty).cellAt = (m.abs id).getD (fun _ => none) := by
    unfold abs
    cases m.slices id <;> rfl
  have habs := declareRanges_abs kind ranges ((m.slices id).getD SliceMap.empty)
  rw [hbase] at habs
  unfold addRanges FlatStore.addRanges
  rw [← habs]
  cases hd : declareRanges kind ranges ((m.slices id).getD SliceMap.empty) with
  | none => exact ⟨rfl, rfl⟩
  | some map =>
    refine ⟨rfl, ?_⟩
    simp only [map_some]
    rcases declareRanges_isEmpty hd with ⟨rfl, hmap⟩ | ⟨hne, he⟩
    · -- no range at all: the map is put back as it was, or not at all
      rw [if_pos isEmpty_nil]
      cases hs : m.slices id with
      | none =>
        rw [hs] at hmap
        rw [hmap]
        rfl
      | some map₀ =>
        rw [hs] at hmap
        split
        · rfl
        · rw [abs_insert, hmap]
          exact Function.update_eq_self_iff.2 (by rw [abs, hs]; rfl)
    · rw [if_neg (by simp [he]), if_neg (by simpa using hne), abs_insert]

variable {m : Memory K} {id : K} {ty : CellType} {range : Range}

omit [DecidableEq K] in
theorem Memory.writable_iff_abs : m.writable id ty range = .ok () ↔ (m.abs id).isSome = true ∧ m.abs.Writable id ty range := by
  rw [writable_ok, abs_isSome]
  simp only [FlatStore.Writable, Range.mem_addrs, abs_cellAt, Option.any_eq_true]

omit [DecidableEq K] in
theorem Memory.readable_iff_abs : m.readable id ty range = .ok () ↔ (m.abs id).isSome = true ∧ m.abs.Readable id ty range := by
  rw [readable_ok, abs_isSome]
  simp only [FlatStore.Readable, Range.mem_addrs, abs_cellAt, Option.any_eq_true]

theorem Memory.write_ok_iff_abs {values : List Word} : (m.write id ty range values).1 = .ok () ↔
      (m.abs id).isSome = true ∧ range.length = values.length ∧ m.abs.Writable id ty range := by
  rw [write_ok, writable_iff_abs]
  exact ⟨fun h => ⟨h.2.1, h.1, h.2.2⟩, fun h => ⟨h.2.1, h.1, h.2.2⟩⟩

theorem FlatStore.cellAt_setRange (s : FlatStore K) (id : K) (range : Range) (values : List Word) (k : K) (a : Nat) :
    (s.setRange id range values).cellAt k a = setValues s.cellAt id range values k a := by
  unfold FlatStore.setRange setValues
  simp only [FlatStore.cellAt]
  cases hs : s k <;> simp

theorem Memory.abs_write_of_ok {values : List Word} (h : (m.write id ty range values).1 = .ok ()) :
    (m.write id ty range values).2.abs = m.abs.setRange id range values := by
  refine FlatStore.ext (fun k => ?_) (fun k a => ?_)
  · rw [abs_isSome, containsKey_write, ← abs_isSome]
    simp [FlatStore.setRange]
  · rw [abs_cellAt, cellAt_write h, FlatStore.cellAt_setRange]
    unfold setValues
    simp only [abs_cellAt]

theorem Memory.abs_write (m : Memory K) (id : K) (ty : CellType) (range : Range) (values : List Word) :
    ((m.write id ty range values).1 = .ok () ↔ (m.abs.write id ty range values).1 = true) ∧
      (m.write id ty range values).2.abs = (m.abs.write id ty range values).2 := by
  have hiff : (m.write id ty range values).1 = .ok () ↔ _ := write_ok_iff_abs
  unfold FlatStore.write
  by_cases h : (m.abs id).isSome = true ∧ range.length = values.length ∧ m.abs.Writable id ty range
  · rw [if_pos h, hiff]
    exact ⟨iff_of_true h rfl, abs_write_of_ok (hiff.2 h)⟩
  rw [if_neg h, hiff]
  refine ⟨iff_of_false h (by simp), ?_⟩
  cases hw : (m.write id ty range values).1 with
  | ok u => exact absurd (hiff.1 hw) h
  | error e => rw [write_error hw]

/-! ## Declared addresses -/

theorem FlatStore.addRanges_singleton (s : FlatStore K) (id : K) (kind : CellKind) (r : Range) :
    s.addRanges id kind [r] =
      if ((s id).getD (fun _ => none)).Declarable kind r then
        (true, Function.update s id (some (FlatMap.declare kind ((s id).getD (fun _ => none)) r)))
      else (false, s) := by
  unfold FlatStore.addRanges
  simp only [FlatMap.addRanges, foldlM_cons, foldlM_nil, FlatMap.addRange]
  by_cases h : ((s id).getD (fun _ => none)).Declarable kind r
  · rw [if_pos h, if_pos h]
    rfl
  · rw [if_neg h, if_neg h]
    rfl

theorem Memory.cellAt_addRange (m : Memory K) (id : K) (kind : CellKind) (r : Range) (k : K) (a : Nat) :
    ((m.addRanges id kind [r]).1 = false → (m.addRanges id kind [r]).2.cellAt k a = m.cellAt k a) ∧
    ((m.addRanges id kind [r]).1 = true → (m.addRanges id kind [r]).2.cellAt k a =
        (if k = id ∧ a ∈ r then declareCell kind (m.cellAt k a) else m.cellAt k a) ∧
      (k = id → a ∈ r → ((m.addRanges id kind [r]).2.cellAt k a).isSome = true)) := by
  obtain ⟨h1, h2⟩ := m.abs_addRanges id kind [r]
  rw [h1, ← abs_cellAt (m.addRanges id kind [r]).2, h2, FlatStore.addRanges_singleton]
  have hbase : ((m.abs id).getD (fun _ => none)) a = m.cellAt id a := by
    rw [← abs_cellAt, FlatStore.cellAt]
    cases m.abs id <;> rfl
  by_cases hdecl : ((m.abs id).getD (fun _ => none)).Declarable kind r
  · rw [if_pos hdecl]
    refine ⟨nofun, fun _ => ?_⟩
    unfold FlatStore.cellAt
    simp only
    by_cases hk : k = id
    · subst hk
      simp only [Function.update_self, bind_some, FlatMap.declare, hbase, true_and, true_implies]
      intro ha
      rw [if_pos ha, ← hbase]
      exact hdecl a (Range.mem_addrs.2 ha)
    · rw [Function.update_of_ne hk, if_neg (fun h => hk h.1), ← abs_cellAt, FlatStore.cellAt]
      exact ⟨rfl, fun h => absurd h hk⟩
  · rw [if_neg hdecl]
    exact ⟨fun _ => m.abs_cellAt k a, nofun⟩

theorem Memory.declared_addRange_mono {r : Range} {k : K} {a : Nat} (h : (m.cellAt k a).isSome = true) :
    ((m.addRanges id kind [r]).2.cellAt k a).isSome = true := by
  cases hok : (m.addRanges id kind [r]).1 with
  | false =>
    rw [(m.cellAt_addRange id kind r k a).1 hok]
    exact h
  | true =>
    obtain ⟨hcell, hsome⟩ := (m.cellAt_addRange id kind r k a).2 hok
    by_cases hin : k = id ∧ a ∈ r
    · exact hsome hin.1 hin.2
    · rw [hcell, if_neg hin]
      exact h

theorem Memory.declared_writeUnchecked (m : Memory K) (id : K) (range : Range) (values : List Word) (k : K) (a : Nat) :
    ((m.writeUnchecked id range values).2.cellAt k a).isSome = (m.cellAt k a).isSome := by
  rw [m.cellAt_writeUnchecked]
  split
  · exact isSome_map
  · rfl

/-! ## Histories of calls -/

inductive StoreOp (K : Type) where
  | addRanges (id : K) (kind : CellKind) (ranges : List Range)
  | write (id : K) (ty : CellType) (range : Range) (values : List Word)

def StoreOp.run (m : Memory K) : StoreOp K → Memory K
  | .addRanges id kind ranges => (m.addRanges id kind ranges).2
  | .write id ty range values => (m.write id ty range values).2

def runOps (m : Memory K) (ops : List (StoreOp K)) : Memory K := ops.foldl StoreOp.run m

def StoreOp.runFlat (s : FlatStore K) : StoreOp K → FlatStore K
  | .addRanges id kind ranges => (s.addRanges id kind ranges).2
  | .write id ty range values => (s.write id ty range values).2

def runFlat (s : FlatStore K) (ops : List (StoreOp K)) : FlatStore K := ops.foldl StoreOp.runFlat s

theorem StoreOp.abs_run (m : Memory K) (op : StoreOp K) : (op.run m).abs = op.runFlat m.abs := by
  cases op with
  | addRanges id kind ranges => exact (m.abs_addRanges id kind ranges).2
  | write id ty range values => exact (m.abs_write id ty range values).2

theorem abs_runOps : ∀ (ops : List (StoreOp K)) (m : Memory K), (runOps m ops).abs = runFlat m.abs ops
  | [], _ => rfl
  | op :: ops, m => by
    have h := abs_runOps ops (op.run m)
    rw [StoreOp.abs_run] at h
    exact h

/-- The values each call leaves as the last successfully written ones. -/
def StoreOp.written (m : Memory K) (last : K → Nat → Word) : StoreOp K → K → Nat → Word
  | .addRanges _ _ _ => last
  | .write id ty range values =>
    match (m.write id ty range values).1 with
    | .ok () => fun k a => if k = id ∧ a ∈ range then values.getD (a - range.start) 0 else last k a
    | .error _ => last

/-- The value last written successfully to each address by a history of calls from `m`, `last` before it. -/
def lastWritten : List (StoreOp K) → Memory K → (K → Nat → Word) → K → Nat → Word
  | [], _, last => last
  | op :: ops, m, last => lastWritten ops (op.run m) (op.written m last)

theorem declareCell_value {o : Option Cell} (h : (declareCell kind o).isSome = true) :
    ((declareCell kind o).map (·.value)).getD 0 = (o.map (·.value)).getD 0 := by
  cases o with
  | none => rfl
  | some c =>
    obtain ⟨c', hc'⟩ := isSome_iff_exists.1 h
    have hv := widenCell_value hc'
    rw [hc', map_some, map_some, hv]

theorem FlatMap.addRanges_value : ∀ {ranges : List Range} {f f' : FlatMap},
    f.addRanges kind ranges = some f' → ∀ a, ((f' a).map (·.value)).getD 0 = ((f a).map (·.value)).getD 0
  | [], f, f', h, a => by cases h; rfl
  | r :: l, f, f', h, a => by
    rw [FlatMap.addRanges, foldlM_cons, bind_eq_bind, bind_eq_some_iff] at h
    obtain ⟨f₁, h1, h2⟩ := h
    rw [FlatMap.addRanges_value h2 a]
    unfold FlatMap.addRange at h1
    split at h1
    · rename_i hd
      cases h1
      unfold FlatMap.declare
      split
      · rename_i ha
        exact declareCell_value (hd a (Range.mem_addrs.2 ha))
      · rfl
    · cases h1

omit [DecidableEq K] in
theorem Memory.valueAt_abs (m : Memory K) (k : K) (a : Nat) : m.valueAt k a = ((m.abs.cellAt k a).map (·.value)).getD 0 := by
  rw [abs_cellAt, valueAt]

theorem Memory.valueAt_addRanges (m : Memory K) (id : K) (kind : CellKind) (ranges : List Range) (k : K) (a : Nat) :
    (m.addRanges id kind ranges).2.valueAt k a = m.valueAt k a := by
  rw [valueAt_abs, valueAt_abs, (m.abs_addRanges id kind ranges).2]
  unfold FlatStore.addRanges
  split
  · rfl
  rename_i f hf
  have hv := FlatMap.addRanges_value hf a
  simp only
  split
  · rfl
  by_cases hk : k = id
  · subst hk
    simp only [FlatStore.cellAt, Function.update_self, bind_some, hv]
    cases m.abs k <;> rfl
  · simp only [FlatStore.cellAt, Function.update_of_ne hk]

theorem StoreOp.valueAt_run (m : Memory K) (op : StoreOp K) : (op.run m).valueAt = op.written m m.valueAt := by
  funext k a
  cases op with
  | addRanges id kind ranges => exact m.valueAt_addRanges id kind ranges k a
  | write id ty range values =>
    simp only [StoreOp.run, StoreOp.written]
    cases hw : (m.write id ty range values).1 with
    | error e => simp only [write_error hw]
    | ok u =>
      obtain ⟨-, hall⟩ := writable_ok.1 (write_ok.1 hw).2
      simp only [valueAt, cellAt_write hw, setValues]
      split
      · rename_i h
        obtain ⟨rfl, ha⟩ := h
        obtain ⟨c, hc, -⟩ := hall a ha
        rw [hc]
        rfl
      · rfl

theorem valueAt_runOps : ∀ (ops : List (StoreOp K)) (m : Memory K), (runOps m ops).valueAt = lastWritten ops m m.valueAt
  | [], _ => rfl
  | op :: ops, m => by
    have h := valueAt_runOps ops (op.run m)
    rw [StoreOp.valueAt_run] at h
    exact h

end

/-- **The register store is one partial map**: after any history the memory is, slices forgotten, the flat store after that
history, and reads and writes on a known key are those of the map; a write that fails leaves the memory as it is. -/
theorem memory_is_one_partial_map {K : Type} [DecidableEq K] (ops : List (StoreOp K)) :
    let m := runOps (empty K) ops
    let s : FlatStore K := runFlat (fun _ => none) ops
    m.abs = s ∧
    (∀ id ty range, (s id).isSome = true → ((∃ vs, m.read id ty range = .ok vs) ↔ s.Readable id ty range) ∧
      ∀ vs, m.read id ty range = .ok vs → vs = range.addrs.map (lastWritten ops (empty K) (fun _ _ => 0) id)) ∧
    (∀ id ty range values, (s id).isSome = true → range.length = values.length →
      ((m.write id ty range values).1 = .ok () ↔ s.Writable id ty range) ∧
      ((m.write id ty range values).1 = .ok () → (m.write id ty range values).2.abs = s.setRange id range values)) ∧
    ∀ id ty range values e, (m.write id ty range values).1 = .error e → (m.write id ty range values).2 = m := by
  intro m s
  have habs : m.abs = s := abs_runOps ops (empty K)
  have hval : m.valueAt = lastWritten ops (empty K) (fun _ _ => 0) := valueAt_runOps ops (empty K)
  refine ⟨habs, fun id ty range hk => ⟨?_, fun vs h => ?_⟩, fun id ty range values hk hlen => ⟨?_, fun h => ?_⟩,
    fun id ty range values e h => write_error h⟩
  · rw [← habs] at hk ⊢
    constructor
    · rintro ⟨vs, h⟩
      exact (readable_iff_abs.1 (read_ok.1 h).1).2
    · intro h
      exact ⟨_, read_of_readable (readable_iff_abs.2 ⟨hk, h⟩)⟩
  · rw [(read_ok.1 h).2, hval]
  · rw [← habs] at hk ⊢
    rw [write_ok_iff_abs]
    exact ⟨fun h => h.2.2, fun h => ⟨hk, hlen, h⟩⟩
  · rw [abs_write_of_ok h, habs]

/-- A write of no values to a key that was never declared is refused, although no address of it is missing. -/
theorem empty_write_to_unknown_key_fails :
    let m := runOps (empty Nat) []
    m.write 0 .register (Range.new 0 0) [] = (.error .unknownKey, m) ∧
      (Range.new 0 0).length = ([] : List Word).length ∧ m.abs.Writable 0 .register (Range.new 0 0) :=
  ⟨rfl, rfl, nofun⟩

end Ferrowl.Store
