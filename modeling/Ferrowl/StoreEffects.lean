import Ferrowl.StoreFlat
/-!
# StoreEffects — what one call leaves behind

The contracts of the store's single calls, read cell by cell.
-/
namespace Ferrowl.Store

open FlatMap Memory List Option

/-! ## Declaring ranges -/

/-- Read and write, in either order: the two accesses that meet as `ReadWrite`. -/
def Access.Meet (a b : Access) : Prop := (a = .read ∧ b = .write) ∨ (a = .write ∧ b = .read)

instance (a b : Access) : Decidable (a.Meet b) :=
  inferInstanceAs (Decidable ((a = .read ∧ b = .write) ∨ (a = .write ∧ b = .read)))

/-- A cell that cannot be declared as `kind` again: another type, or another access that does not meet. -/
def Cell.Conflicts (kind : CellKind) (c : Cell) : Prop :=
  c.kind.ty ≠ kind.ty ∨ (c.kind.access ≠ kind.access ∧ ¬ c.kind.access.Meet kind.access)

/-- The cell with the access it has after it was declared as `kind`. -/
def Cell.widened (kind : CellKind) (c : Cell) : Cell :=
  if c.kind.access.Meet kind.access then { c with kind := { c.kind with access := .readWrite } } else c

def listed (ranges : List Range) (a : Nat) : Bool := ranges.any (fun r => decide (a ∈ r))

@[simp] theorem listed_nil (a : Nat) : listed [] a = false := rfl

theorem listed_cons (r : Range) (ranges : List Range) (a : Nat) :
    listed (r :: ranges) a = (decide (a ∈ r) || listed ranges a) := rfl

variable {kind : CellKind}

theorem widenCell_eq_none {c : Cell} : widenCell kind c = none ↔ c.Conflicts kind := by
  obtain ⟨⟨ty, access⟩, value⟩ := c
  obtain ⟨ty', access'⟩ := kind
  cases ty <;> cases ty' <;> cases access <;> cases access' <;>
    simp [widenCell, widenAccess, Cell.Conflicts, Access.Meet]

theorem widenCell_eq_some {c c' : Cell} (h : widenCell kind c = some c') : c' = c.widened kind := by
  obtain ⟨⟨ty, access⟩, value⟩ := c
  obtain ⟨ty', access'⟩ := kind
  cases ty <;> cases ty' <;> cases access <;> cases access' <;>
    simp_all [widenCell, widenAccess, Cell.widened, Access.Meet]

theorem widenCell_declared {o : Option Cell} {c c' : Cell} (h : declareCell kind o = some c)
    (h' : widenCell kind c = some c') : c' = c := by
  have hw := widenCell_eq_some h'
  cases o with
  | none =>
    obtain rfl : Cell.zeroed kind = c := by simpa [declareCell] using h
    obtain ⟨ty, access⟩ := kind
    cases access <;> simpa [Cell.widened, Access.Meet, Cell.zeroed, Cell.fromU16] using hw
  | some d =>
    obtain rfl := widenCell_eq_some (h : widenCell kind d = some c)
    obtain ⟨⟨ty, access⟩, value⟩ := d
    obtain ⟨ty', access'⟩ := kind
    cases access <;> cases access' <;> simpa [Cell.widened, Access.Meet] using hw

theorem FlatMap.addRanges_cell : ∀ {ranges : List Range} {f f' : FlatMap}, f.addRanges kind ranges = some f' → ∀ a,
      f' a = (if listed ranges a then declareCell kind (f a) else f a) ∧ (listed ranges a → (f' a).isSome = true)
  | [], f, f', h, a => by
    obtain rfl : f = f' := by simpa [FlatMap.addRanges] using h
    simp
  | r :: ranges, f, f', h, a => by
    rw [FlatMap.addRanges, foldlM_cons, bind_eq_bind, bind_eq_some_iff] at h
    obtain ⟨g, hg, hrest⟩ := h
    have hd : f.Declarable kind r := by
      by_contra hn
      rw [FlatMap.addRange, if_neg hn] at hg
      cases hg
    obtain rfl : f.declare kind r = g := by simpa [FlatMap.addRange, hd] using hg
    obtain ⟨ih, hsome⟩ := addRanges_cell (f := f.declare kind r) hrest a
    rw [listed_cons]
    by_cases har : a ∈ r
    · have hg : f.declare kind r a = declareCell kind (f a) := if_pos har
      obtain ⟨c, hc⟩ := isSome_iff_exists.1 (hd a (Range.mem_addrs.2 har))
      rw [hg, hc] at ih
      simp only [har, decide_true, Bool.true_or, if_true, hc, true_implies]
      by_cases hl : listed ranges a = true
      · -- listed again: what the first declaration left is declared once more
        obtain ⟨c', hc'⟩ := isSome_iff_exists.1 (hsome hl)
        rw [hc', if_pos hl] at ih
        rw [hc', widenCell_declared hc ih.symm]
        exact ⟨rfl, rfl⟩
      · rw [ih, if_neg hl]
        exact ⟨rfl, rfl⟩
    · have hg : f.declare kind r a = f a := if_neg har
      rw [hg] at ih
      simp only [har, decide_false, Bool.false_or]
      exact ⟨ih, hsome⟩

theorem FlatMap.addRanges_eq_none : ∀ {ranges : List Range} {f : FlatMap},
    f.addRanges kind ranges = none ↔ ∃ before r after g, ranges = before ++ r :: after ∧
      f.addRanges kind before = some g ∧ ∃ a ∈ r, ∃ c, g a = some c ∧ c.Conflicts kind
  | [], f => by simp [FlatMap.addRanges]
  | r :: ranges, f => by
    have hcons : ∀ l : List Range, f.addRanges kind (r :: l) = (f.addRange kind r).bind (FlatMap.addRanges kind l) :=
      fun l => rfl
    rw [hcons]
    by_cases hd : f.Declarable kind r
    · rw [FlatMap.addRange, if_pos hd, bind_some, addRanges_eq_none]
      constructor
      · rintro ⟨before, t, after, g, rfl, hg, hc⟩
        refine ⟨r :: before, t, after, g, rfl, ?_, hc⟩
        rw [hcons, FlatMap.addRange, if_pos hd, bind_some, hg]
      rintro ⟨before, t, after, g, hl, hg, a, ha, c, hgc, hc⟩
      cases before with
      | nil =>
        obtain ⟨rfl, rfl⟩ : r = t ∧ ranges = after := by simpa using hl
        obtain rfl : f = g := by simpa [FlatMap.addRanges] using hg
        have hdecl := hd a (Range.mem_addrs.2 ha)
        rw [hgc, declareCell, widenCell_eq_none.2 hc] at hdecl
        cases hdecl
      | cons u before =>
        obtain ⟨rfl, rfl⟩ : r = u ∧ ranges = before ++ t :: after := by simpa using hl
        rw [hcons, FlatMap.addRange, if_pos hd, bind_some] at hg
        exact ⟨before, t, after, g, rfl, hg, a, ha, c, hgc, hc⟩
    · rw [FlatMap.addRange, if_neg hd, bind_none]
      refine ⟨fun _ => ⟨[], r, ranges, f, rfl, rfl, ?_⟩, fun _ => rfl⟩
      simp only [FlatMap.Declarable, Range.mem_addrs, not_forall] at hd
      obtain ⟨a, ha, hn⟩ := hd
      rw [Bool.not_eq_true, isSome_eq_false_iff, isNone_iff_eq_none] at hn
      cases hfa : f a with
      | none => rw [hfa] at hn; cases hn
      | some c =>
        rw [hfa] at hn
        exact ⟨a, ha, c, hfa, widenCell_eq_none.1 hn⟩

section
variable {K : Type} [DecidableEq K]

omit [DecidableEq K] in
theorem Memory.abs_getD (m : Memory K) (id : K) : (m.abs id).getD (fun _ => none) = m.cellAt id := by
  funext a
  rw [← abs_cellAt, FlatStore.cellAt]
  cases m.abs id <;> rfl

/-- **A call of `add_ranges` on the cells**: the flat declaration of the ranges on the device's own cells decides it. -/
theorem Memory.addRanges_cases (m : Memory K) (id : K) (kind : CellKind) (ranges : List Range) :
    (FlatMap.addRanges kind ranges (m.cellAt id) = none ∧ m.addRanges id kind ranges = (false, m)) ∨
    ∃ f, FlatMap.addRanges kind ranges (m.cellAt id) = some f ∧ (m.addRanges id kind ranges).1 = true ∧
      ∀ k a, (m.addRanges id kind ranges).2.cellAt k a = if k = id then f a else m.cellAt k a := by
  obtain ⟨h1, h2⟩ := m.abs_addRanges id kind ranges
  rw [FlatStore.addRanges, abs_getD] at h1 h2
  cases hf : FlatMap.addRanges kind ranges (m.cellAt id) with
  | none =>
    rw [hf] at h1
    refine Or.inl ⟨rfl, ?_⟩
    unfold Memory.addRanges at h1 ⊢
    cases hd : declareRanges kind ranges ((m.slices id).getD SliceMap.empty) with
    | none => rfl
    | some map => rw [hd] at h1; cases h1
  | some f =>
    rw [hf] at h1 h2
    refine Or.inr ⟨f, rfl, h1, fun k a => ?_⟩
    rw [← abs_cellAt, h2]
    simp only
    by_cases he : ranges.isEmpty = true
    · obtain rfl : ranges = [] := isEmpty_iff.1 he
      obtain rfl : m.cellAt id = f := by simpa [FlatMap.addRanges] using hf
      rw [if_pos he, abs_cellAt]
      split
      · rename_i hk; rw [hk]
      · rfl
    · rw [if_neg he, FlatStore.cellAt]
      by_cases hk : k = id
      · rw [hk, Function.update_self, if_pos rfl]
        rfl
      · rw [Function.update_of_ne hk, if_neg hk, ← FlatStore.cellAt, abs_cellAt]

def byStart (ranges : List Range) : List Range := ranges.insertionSort (fun r t => r.start ≤ t.start)

omit [DecidableEq K] in
theorem Memory.addRanges_byStart (m : Memory K) (id : K) (kind : CellKind) (ranges : List Range) :
    FlatMap.addRanges kind (byStart ranges) (m.cellAt id) = FlatMap.addRanges kind ranges (m.cellAt id) :=
  addRanges_perm kind (perm_insertionSort _ _) _

/-- **Declaring ranges is all-or-nothing, cell by cell.** A rejected call leaves the store as it is; an accepted one keeps
declared cells, the access apart where read meets write, and adds zero cells at the free addresses listed. A call is rejected
exactly when, in the order of the starts, a cell conflicts with the given kind. -/
theorem add_ranges_all_or_nothing {K : Type} [DecidableEq K] (m : Memory K) (id : K) (kind : CellKind)
    (ranges : List Range) :
    ((m.addRanges id kind ranges).1 = false → (m.addRanges id kind ranges).2 = m) ∧
    ((m.addRanges id kind ranges).1 = true → ∀ k a, (m.addRanges id kind ranges).2.cellAt k a =
      if k = id ∧ listed ranges a = true then
        some (match m.cellAt k a with
          | some c => c.widened kind
          | none => Cell.zeroed kind)
      else m.cellAt k a) ∧
    ((m.addRanges id kind ranges).1 = false ↔ ∃ before r after, byStart ranges = before ++ r :: after ∧
      (m.addRanges id kind before).1 = true ∧
      ∃ a ∈ r, ∃ c, (m.addRanges id kind before).2.cellAt id a = some c ∧ c.Conflicts kind) := by
  refine ⟨fun h => ?_, fun h k a => ?_, ?_⟩
  · rcases m.addRanges_cases id kind ranges with ⟨-, he⟩ | ⟨f, -, hok, -⟩
    · rw [he]
    · rw [hok] at h
      cases h
  · rcases m.addRanges_cases id kind ranges with ⟨-, he⟩ | ⟨f, hf, -, hcell⟩
    · rw [he] at h
      cases h
    obtain ⟨hfa, hsome⟩ := addRanges_cell hf a
    rw [hcell]
    by_cases hk : k = id
    · subst hk
      by_cases hl : listed ranges a = true
      · rw [if_pos rfl, if_pos ⟨rfl, hl⟩]
        rw [if_pos hl] at hfa
        obtain ⟨c', hc'⟩ := isSome_iff_exists.1 (hsome hl)
        cases hc : m.cellAt k a with
        | none => rw [hfa, hc]; rfl
        | some c =>
          rw [hc, hc'] at hfa
          rw [hc', widenCell_eq_some hfa.symm]
      · rw [if_pos rfl, if_neg (fun h => hl h.2), hfa, if_neg hl]
    · rw [if_neg hk, if_neg (fun h => hk h.1)]
  have hnone : (m.addRanges id kind ranges).1 = false ↔
      FlatMap.addRanges kind (byStart ranges) (m.cellAt id) = none := by
    rw [m.addRanges_byStart]
    rcases m.addRanges_cases id kind ranges with ⟨hf, he⟩ | ⟨f, hf, hok, -⟩
    · simp [he, hf]
    · simp [hok, hf]
  rw [hnone, addRanges_eq_none]
  constructor
  · rintro ⟨before, r, after, g, hl, hg, a, ha, c, hc, hconf⟩
    rcases m.addRanges_cases id kind before with ⟨hf, -⟩ | ⟨f, hf, hok, hcell⟩
    · rw [hg] at hf
      cases hf
    · obtain rfl : g = f := Option.some.inj (hg.symm.trans hf)
      refine ⟨before, r, after, hl, hok, a, ha, c, ?_, hconf⟩
      rw [hcell, if_pos rfl, hc]
  · rintro ⟨before, r, after, hl, hok, a, ha, c, hc, hconf⟩
    rcases m.addRanges_cases id kind before with ⟨-, he⟩ | ⟨f, hf, -, hcell⟩
    · rw [he] at hok
      cases hok
    · refine ⟨before, r, after, f, hl, hf, a, ha, c, ?_, hconf⟩
      rw [← hc, hcell, if_pos rfl]

/-! ## Rejected writes -/

def Memory.SameCells (m m' : Memory K) : Prop := ∀ k a, m'.cellAt k a = m.cellAt k a

variable {m : Memory K} {range : Range} {values : List Word}

theorem Memory.sameCells_writeUnchecked {id : K} :
    m.SameCells (m.writeUnchecked id range values).2 ↔ (range.length = values.length →
      ∀ a ∈ range.addrs, m.Reaches id range a → m.valueAt id a = values.getD (a - range.start) 0) := by
  simp only [Memory.SameCells, cellAt_writeUnchecked]
  constructor
  · intro h hlen a ha hreach
    have hsame := h id a
    rw [if_pos ⟨hlen, rfl, Range.mem_addrs.1 ha, hreach⟩] at hsame
    obtain ⟨c, hc⟩ := isSome_iff_exists.1 (hreach a ha (Nat.le_refl a))
    rw [hc, map_some, Option.some.injEq] at hsame
    rw [Memory.valueAt, hc, map_some, getD_some, ← hsame]
  intro h k a
  split
  · rename_i hin
    obtain ⟨hlen, rfl, ha, hreach⟩ := hin
    have hv := h hlen a (Range.mem_addrs.2 ha) hreach
    obtain ⟨c, hc⟩ := isSome_iff_exists.1 (hreach a (Range.mem_addrs.2 ha) (Nat.le_refl a))
    rw [Memory.valueAt, hc, map_some, getD_some] at hv
    rw [hc, map_some, ← hv]
  · rfl

/-! ## The tap -/

/-- The words stored under a key at the addresses of a range, all of which are declared. -/
def Memory.Holds (m : Memory K) (id : K) (range : Range) (words : List Word) : Prop :=
  range.addrs.map (fun a => (m.cellAt id a).map (·.value)) = words.map some

/-- What the tap is told of a write from `m` to `m'`. -/
structure Reports (m m' : Memory K) (source : WriteSource) (id : K) (range : Range) (call : TapCall K) : Prop where
  write : call.1.source = source ∧ call.1.id = id ∧ call.1.range = range
  old : m.Holds id range call.1.old
  new : m'.Holds id range call.1.new
  shown : call.2 = m'

omit [DecidableEq K] in
theorem Memory.holds_valueAt {id : K} (h : ∀ a ∈ range, (m.cellAt id a).isSome = true) :
    m.Holds id range (range.addrs.map (m.valueAt id)) := by
  rw [Memory.Holds, List.map_map]
  refine List.map_congr_left (fun a ha => ?_)
  obtain ⟨c, hc⟩ := Option.isSome_iff_exists.1 (h a (Range.mem_addrs.1 ha))
  simp [Memory.valueAt, hc]

theorem Memory.holds_setValues {m' : Memory K} {id : K} (hlen : range.length = values.length)
    (h : ∀ a ∈ range, (m.cellAt id a).isSome = true) (hcell : ∀ k a, m'.cellAt k a = setValues m.cellAt id range values k a) :
    m'.Holds id range values := by
  rw [Memory.Holds]
  apply ext_getElem?
  intro i
  rw [List.getElem?_map, List.getElem?_map]
  by_cases hi : i < values.length
  · have hin : range.start + i ∈ range := by
      rw [Range.mem_def]
      simp only [Range.length] at hlen
      omega
    obtain ⟨c, hc⟩ := isSome_iff_exists.1 (h _ hin)
    have haddr : range.addrs[i]? = some (range.start + i) := by
      rw [Range.addrs, List.getElem?_range' (by omega)]
      simp
    rw [haddr, map_some, hcell, setValues, if_pos ⟨rfl, hin⟩, hc, Nat.add_sub_cancel_left, List.getElem?_eq_getElem hi]
    simp [hi]
  · have haddr : range.addrs.length ≤ i := by
      rw [Range.addrs, length_range']
      omega
    rw [List.getElem?_eq_none haddr, List.getElem?_eq_none (by omega)]
    rfl

/-- What a sourced write tells a tap: one report when it succeeds, nothing when it fails. -/
def Told (m m' : Memory K) (source : WriteSource) (id : K) (range : Range) (accepted : Prop) (calls : List (TapCall K)) :
    Prop :=
  (accepted → ∃ call, calls = [call] ∧ Reports m m' source id range call) ∧ (¬ accepted → calls = [])

theorem told_of_accepted {m' : Memory K} {source : WriteSource} {id : K} {accepted : Prop}
    (hkey : m.containsKey id = true) (ha : accepted) (hlen : range.length = values.length)
    (hdecl : ∀ a ∈ range, (m.cellAt id a).isSome = true) (hcell : ∀ k a, m'.cellAt k a = setValues m.cellAt id range values k a) :
    Told m m' source id range accepted
      (((m.readUnchecked id range).map (fun old => ((⟨source, id, range, old, values⟩, m') : TapCall K))).toList) := by
  refine ⟨fun _ => ?_, fun h => absurd ha h⟩
  rw [readUnchecked_eq, if_pos ⟨hkey, fun a ha => hdecl a (Range.mem_addrs.1 ha)⟩]
  exact ⟨_, rfl, ⟨rfl, rfl, rfl⟩, holds_valueAt hdecl, holds_setValues hlen hdecl hcell, rfl⟩

theorem told_writeFrom (htap : m.tap = true) (source : WriteSource) (id : K) (ty : CellType)
    (range : Range) (values : List Word) : Told m (m.writeFrom source id ty range values).2.1 source id range
      ((m.writeFrom source id ty range values).1 = .ok ()) (m.writeFrom source id ty range values).2.2 := by
  have hrejected : ∀ (m' : Memory K) (e : MemoryError), Told m m' source id range (Except.error e = Except.ok ()) [] :=
    fun m' e => ⟨nofun, fun _ => rfl⟩
  simp only [Memory.writeFrom, htap, if_true]
  split
  · exact hrejected _ _
  rename_i hlen
  rw [ne_eq, not_not] at hlen
  cases hw : m.writable id ty range with
  | error e => exact hrejected _ e
  | ok u =>
    obtain ⟨hkey, hall⟩ := writable_ok.1 hw
    have hdecl : ∀ a ∈ range, (m.cellAt id a).isSome = true := by
      intro a ha
      obtain ⟨c, hc, -⟩ := hall a ha
      rw [hc]
      rfl
    have hok := write_ok.2 ⟨hlen, hw⟩
    have hcell := cellAt_write hok
    rcases hres : m.write id ty range values with ⟨r, m'⟩
    rw [hres] at hok hcell
    obtain rfl : r = .ok () := hok
    exact told_of_accepted hkey rfl hlen hdecl hcell

theorem told_writeUncheckedFrom (htap : m.tap = true) (source : WriteSource) (id : K) (range : Range) (values : List Word) :
    Told m (m.writeUncheckedFrom source id range values).2.1 source id range
      ((m.writeUncheckedFrom source id range values).1 = true) (m.writeUncheckedFrom source id range values).2.2 := by
  simp only [Memory.writeUncheckedFrom, htap, if_true]
  rcases hres : m.writeUnchecked id range values with ⟨_ | _, m'⟩
  · exact ⟨nofun, fun _ => rfl⟩
  have hok : (m.writeUnchecked id range values).1 = true := by rw [hres]
  obtain ⟨hlen, hkey, hdecl⟩ := writeUnchecked_ok.1 hok
  have hcell := cellAt_writeUnchecked_ok hok
  rw [hres] at hcell
  exact told_of_accepted hkey rfl hlen hdecl hcell

/-- **The tap sees exactly the successful sourced writes**, each once, with the words stored in the range before and after it.
-/
theorem tap_sees_successful_writes {K : Type} [DecidableEq K] (slices : K → Option SliceMap) (source : WriteSource)
    (id : K) (range : Range) (values : List Word) :
    let m : Memory K := ⟨slices, true⟩
    (∀ ty, Told m (m.writeFrom source id ty range values).2.1 source id range
      ((m.writeFrom source id ty range values).1 = .ok ()) (m.writeFrom source id ty range values).2.2) ∧
    Told m (m.writeUncheckedFrom source id range values).2.1 source id range
      ((m.writeUncheckedFrom source id range values).1 = true) (m.writeUncheckedFrom source id range values).2.2 :=
  ⟨fun ty => told_writeFrom rfl source id ty range values, told_writeUncheckedFrom rfl source id range values⟩

end

end Ferrowl.Store
