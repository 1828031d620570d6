import Mathlib.Data.List.Pairwise
import Ferrowl.StoreCell
/-!
# StoreSlices — a device's slice map, and declaring a range in it

One device's `BTreeMap<Range, Slice>`: every slice the code inserts is keyed by its own range, so the map is the list of its
slices in key order (`SliceMap`), no two of which overlap.  A zero-length range overlaps nothing, so an empty slice may stand at
an address inside another one.
-/
namespace Ferrowl.Store

open Range List Option

/-- The access a cell gets when a range of another access is declared over it, `none` when they are incompatible. -/
def widenAccess (a b : Access) : Option Access :=
  if a = b then some a
  else match a, b with
    | .read, .write => some .readWrite
    | .write, .read => some .readWrite
    | _, _ => none

/-- A cell under a declaration of `kind`: the same register type, the access widened. -/
def widenCell (kind : CellKind) (cell : Cell) : Option Cell :=
  if cell.kind.ty ≠ kind.ty then none
  else (widenAccess cell.kind.access kind.access).map
    (fun access => { cell with kind := { cell.kind with access := access } })

variable {kind : CellKind}

theorem widenCell_value {c c' : Cell} (h : widenCell kind c = some c') : c'.value = c.value := by
  unfold widenCell at h
  split at h
  · cases h
  · obtain ⟨a, -, rfl⟩ := map_eq_some_iff.1 h
    rfl

def widenRun (kind : CellKind) : Nat → Nat → List Cell → Option (List Cell)
  | _, 0, buf => some buf
  | _, _ + 1, [] => some []
  | 0, n + 1, c :: buf => (widenCell kind c).bind (fun c' => (widenRun kind 0 n buf).map (c' :: ·))
  | k + 1, n + 1, c :: buf => (widenRun kind k (n + 1) buf).map (c :: ·)

theorem length_widenRun (kind : CellKind) : ∀ (k n : Nat) (buf b : List Cell), widenRun kind k n buf = some b →
    b.length = buf.length
  | _, 0, buf, b, h => by simp only [widenRun, Option.some.injEq] at h; rw [h]
  | 0, _ + 1, [], b, h => by simp only [widenRun, Option.some.injEq] at h; rw [← h]
  | _ + 1, _ + 1, [], b, h => by simp only [widenRun, Option.some.injEq] at h; rw [← h]
  | 0, n + 1, c :: buf, b, h => by
    simp only [widenRun, bind_eq_some_iff, map_eq_some_iff] at h
    obtain ⟨c', -, b', hb', rfl⟩ := h
    simp [length_widenRun kind 0 n buf b' hb']
  | k + 1, n + 1, c :: buf, b, h => by
    simp only [widenRun, map_eq_some_iff] at h
    obtain ⟨b', hb', rfl⟩ := h
    simp [length_widenRun kind k (n + 1) buf b' hb']

theorem widenRun_none (kind : CellKind) : ∀ (k n : Nat) (buf : List Cell),
    widenRun kind k n buf = none ↔ ∃ i c, k ≤ i ∧ i < k + n ∧ buf[i]? = some c ∧ widenCell kind c = none
  | k, 0, buf => by
    simp only [widenRun, reduceCtorEq, false_iff, not_exists]
    rintro i c ⟨h1, h2, -⟩
    omega
  | 0, _ + 1, [] => by simp [widenRun]
  | _ + 1, _ + 1, [] => by simp [widenRun]
  | 0, n + 1, c :: buf => by
    simp only [widenRun, bind_eq_none_iff, map_eq_none_iff, widenRun_none kind 0 n buf]
    constructor
    · intro h
      cases hc : widenCell kind c with
      | none => exact ⟨0, c, by omega, by omega, rfl, hc⟩
      | some c' =>
        obtain ⟨i, d, -, h2, h3, h4⟩ := h c' hc
        exact ⟨i + 1, d, by omega, by omega, h3, h4⟩
    rintro ⟨i, d, -, h2, h3, h4⟩ c' hc
    cases i with
    | zero =>
      obtain rfl : c = d := by simpa using h3
      rw [h4] at hc; cases hc
    | succ i => exact ⟨i, d, by omega, by omega, h3, h4⟩
  | k + 1, n + 1, c :: buf => by
    simp only [widenRun, map_eq_none_iff, widenRun_none kind k (n + 1) buf]
    constructor
    · rintro ⟨i, d, h1, h2, h3, h4⟩
      exact ⟨i + 1, d, by omega, by omega, h3, h4⟩
    rintro ⟨i, d, h1, h2, h3, h4⟩
    cases i with
    | zero => omega
    | succ i => exact ⟨i, d, by omega, by omega, h3, h4⟩

theorem getElem?_widenRun (kind : CellKind) : ∀ (k n : Nat) (buf b : List Cell), widenRun kind k n buf = some b →
    ∀ i, b[i]? = if k ≤ i ∧ i < k + n then (buf[i]?).bind (widenCell kind) else buf[i]?
  | k, 0, buf, b, h, i => by
    simp only [widenRun, Option.some.injEq] at h
    rw [if_neg (by omega), h]
  | 0, _ + 1, [], b, h, i => by simp only [widenRun, Option.some.injEq] at h; simp [← h]
  | _ + 1, _ + 1, [], b, h, i => by simp only [widenRun, Option.some.injEq] at h; simp [← h]
  | 0, n + 1, c :: buf, b, h, i => by
    simp only [widenRun, bind_eq_some_iff, map_eq_some_iff] at h
    obtain ⟨c', hc', b', hb', rfl⟩ := h
    cases i with
    | zero => simp [hc']
    | succ i =>
      simp only [List.getElem?_cons_succ, getElem?_widenRun kind 0 n buf b' hb' i]
      congr 1
      simp only [eq_iff_iff]
      omega
  | k + 1, n + 1, c :: buf, b, h, i => by
    simp only [widenRun, map_eq_some_iff] at h
    obtain ⟨b', hb', rfl⟩ := h
    cases i with
    | zero => simp
    | succ i =>
      simp only [List.getElem?_cons_succ, getElem?_widenRun kind k (n + 1) buf b' hb' i]
      congr 1
      simp only [eq_iff_iff]
      omega

/-! ## Merging slices -/

/-- The merged slice with another slice's cells written back at their own addresses. -/
def Slice.absorb (merged t : Slice) : Slice where
  range := merged.range
  buffer := zipOnto (fun _ c => c) (t.range.start - merged.range.start) merged.buffer t.buffer
  sized := by rw [length_zipOnto]; exact merged.sized

/-- The merged slice with the cells of `rg` widened, `none` when one of them cannot be. -/
def Slice.widen (kind : CellKind) (merged : Slice) (rg : Range) : Option Slice :=
  match h : widenRun kind (rg.start - merged.range.start) rg.length merged.buffer with
  | none => none
  | some buffer => some ⟨merged.range, buffer, by rw [length_widenRun kind _ _ _ _ h]; exact merged.sized⟩

def Range.within (t s : Range) : Prop := s.start ≤ t.start ∧ t.stop ≤ s.stop

variable {r : Range}

theorem Range.within_of_intersect {t i s : Range} (h : r.intersect t = some i) (ht : t.within s) : i.within s := by
  obtain ⟨h1, h2⟩ := ht
  unfold Range.intersect at h
  split at h
  · cases h
    constructor <;> dsimp only <;> omega
  · cases h

variable {merged : Slice}

theorem Slice.cellAt_absorb {t : Slice} (h : t.range.within merged.range) (a : Nat) :
    (merged.absorb t).cellAt a = if a ∈ t.range then t.cellAt a else merged.cellAt a := by
  obtain ⟨h1, h2⟩ := h
  have hm := merged.sized
  have ht := t.sized
  have hr := t.range.le
  have hr' := merged.range.le
  unfold Range.length at hm ht
  simp only [Slice.cellAt, Slice.absorb, getElem?_zipOnto, Range.mem_def]
  by_cases hs : merged.range.start ≤ a
  · rw [if_pos hs]
    by_cases hin : t.range.start ≤ a ∧ a < t.range.stop
    · rw [if_pos (by omega), if_pos hin, if_pos hin.1]
      have hlt : a - merged.range.start < merged.buffer.length := by omega
      have hlt' : a - t.range.start < t.buffer.length := by omega
      have hix : a - merged.range.start - (t.range.start - merged.range.start) = a - t.range.start := by omega
      rw [hix, List.getElem?_eq_getElem hlt, List.getElem?_eq_getElem hlt']
      rfl
    · rw [if_neg (by omega), if_neg hin, if_pos hs]
  · rw [if_neg hs, if_neg (by omega), if_neg hs]

/-- What widening the cells of `dom` comes to: a cell of them that cannot be widened, or the slice with those cells
widened and no other cell changed. -/
def Widened (kind : CellKind) (merged : Slice) (dom : Nat → Prop) : Option Slice → Prop
  | none => ∃ a c, dom a ∧ merged.cellAt a = some c ∧ widenCell kind c = none
  | some s => s.range = merged.range ∧ ∀ a, (dom a → s.cellAt a = (merged.cellAt a).bind (widenCell kind)) ∧
      (¬ dom a → s.cellAt a = merged.cellAt a)

theorem Slice.widen_spec (kind : CellKind) {rg : Range} (h : rg.within merged.range) :
    Widened kind merged (· ∈ rg) (merged.widen kind rg) := by
  obtain ⟨h1, h2⟩ := h
  have hr := rg.le
  unfold Slice.widen
  split
  · rename_i hn
    obtain ⟨i, c, hk, hi, hc, hw⟩ := (widenRun_none kind _ _ _).1 hn
    unfold Range.length at hi
    refine ⟨merged.range.start + i, c, ?_, ?_, hw⟩
    · constructor <;> omega
    · rw [Slice.cellAt, if_pos (by omega), Nat.add_sub_cancel_left, hc]
  rename_i buffer hb
  have hg := getElem?_widenRun kind _ _ _ _ hb
  unfold Range.length at hg
  refine ⟨rfl, fun a => ?_⟩
  simp only [Slice.cellAt, Range.mem_def]
  refine ⟨fun ha => ?_, fun ha => ?_⟩
  · rw [if_pos (by omega), if_pos (by omega), hg, if_pos (by omega)]
  · by_cases hs : merged.range.start ≤ a
    · rw [if_pos hs, if_pos hs, hg, if_neg (by omega)]
    · rw [if_neg hs, if_neg hs]

variable {s : Slice}

theorem Widened.comp {p q : Nat → Prop} {o : Option Slice} (hp : Widened kind merged p (some s))
    (hq : Widened kind s q o) (hpq : ∀ a, p a → ¬ q a) : Widened kind merged (fun a => p a ∨ q a) o := by
  obtain ⟨hr, hc⟩ := hp
  have hsame : ∀ a, q a → s.cellAt a = merged.cellAt a := fun a ha => (hc a).2 (fun hpa => hpq a hpa ha)
  cases o with
  | none =>
    obtain ⟨a, c, ha, hac, hw⟩ := hq
    exact ⟨a, c, Or.inr ha, by rw [← hsame a ha]; exact hac, hw⟩
  | some s' =>
    obtain ⟨hr', hc'⟩ := hq
    refine ⟨hr'.trans hr, fun a => ⟨?_, fun hn => ?_⟩⟩
    · rintro (ha | ha)
      · rw [(hc' a).2 (hpq a ha), (hc a).1 ha]
      · rw [(hc' a).1 ha, hsame a ha]
    · rw [(hc' a).2 (fun h => hn (Or.inr h)), (hc a).2 (fun h => hn (Or.inl h))]

theorem Widened.congr {p q : Nat → Prop} {o : Option Slice} (h : Widened kind merged p o)
    (hpq : ∀ a, p a ↔ q a) : Widened kind merged q o := by
  rwa [← funext (fun a => propext (hpq a))]

def Slice.apart (s t : Slice) : Prop := s.range.intersect t.range = none

theorem Slice.apart_iff {t : Slice} : s.apart t ↔ ∀ a, a ∈ s.range → a ∉ t.range := intersect_eq_none

theorem Slice.apart.symm {t : Slice} (h : s.apart t) : t.apart s := by
  rw [Slice.apart_iff] at *
  exact fun a ht hs => h a hs ht

instance : Std.Symm Slice.apart := ⟨fun _ _ h => h.symm⟩

theorem absorb_fold : ∀ (ts : List Slice) (base : Slice), (∀ t ∈ ts, t.range.within base.range) → ts.Pairwise Slice.apart →
    (ts.foldl Slice.absorb base).range = base.range ∧ ∀ a,
      (∀ t ∈ ts, a ∈ t.range → (ts.foldl Slice.absorb base).cellAt a = t.cellAt a) ∧
      ((∀ t ∈ ts, a ∉ t.range) → (ts.foldl Slice.absorb base).cellAt a = base.cellAt a)
  | [], base, _, _ => ⟨rfl, fun a => ⟨by simp, fun _ => rfl⟩⟩
  | t :: ts, base, hw, hp => by
    obtain ⟨hpt, hp⟩ := pairwise_cons.1 hp
    have hwt := hw t mem_cons_self
    obtain ⟨hr, hc⟩ := absorb_fold ts (base.absorb t) (fun u hu => hw u (mem_cons_of_mem _ hu)) hp
    rw [foldl_cons]
    refine ⟨hr, fun a => ⟨fun u hu hau => ?_, fun hno => ?_⟩⟩
    · rcases mem_cons.1 hu with rfl | hu
      · rw [(hc a).2 (fun v hv => Slice.apart_iff.1 (hpt v hv) a hau), Slice.cellAt_absorb hwt, if_pos hau]
      · exact (hc a).1 u hu hau
    · rw [(hc a).2 (fun v hv => hno v (mem_cons_of_mem _ hv)), Slice.cellAt_absorb hwt,
        if_neg (hno t mem_cons_self)]

/-- The loop over the absorbed slices that widens the cells each of them shares with the declared range. -/
def widenTargets (kind : CellKind) (r : Range) : List Slice → Slice → Option Slice
  | [], merged => some merged
  | t :: ts, merged =>
    match r.intersect t.range with
    | none => widenTargets kind r ts merged
    | some rg => (merged.widen kind rg).bind (widenTargets kind r ts)

theorem widenTargets_spec (kind : CellKind) (r : Range) : ∀ (ts : List Slice) (merged : Slice),
    (∀ t ∈ ts, t.range.within merged.range) → ts.Pairwise Slice.apart →
    Widened kind merged (fun a => a ∈ r ∧ ∃ t ∈ ts, a ∈ t.range) (widenTargets kind r ts merged)
  | [], merged, _, _ => ⟨rfl, fun a => ⟨fun h => absurd h.2 (by simp), fun _ => rfl⟩⟩
  | t :: ts, merged, hw, hp => by
    obtain ⟨hpt, hp⟩ := pairwise_cons.1 hp
    have hwts : ∀ u ∈ ts, u.range.within merged.range := fun u hu => hw u (mem_cons_of_mem _ hu)
    have hcons : ∀ a, ((a ∈ r ∧ a ∈ t.range) ∨ a ∈ r ∧ ∃ u ∈ ts, a ∈ u.range) ↔
        a ∈ r ∧ ∃ u ∈ t :: ts, a ∈ u.range := by
      intro a
      simp [exists_eq_or_imp, ← and_or_left]
    rw [widenTargets]
    cases hi : r.intersect t.range with
    | none =>
      have hno := intersect_eq_none.1 hi
      refine (widenTargets_spec kind r ts merged hwts hp).congr (fun a => ?_)
      rw [← hcons a, or_iff_right (fun h => hno a h.1 h.2)]
    | some rg =>
      have hrg := mem_intersect hi
      have hwid := Slice.widen_spec kind (within_of_intersect hi (hw t mem_cons_self))
      show Widened kind merged _ ((merged.widen kind rg).bind (widenTargets kind r ts))
      cases hm : merged.widen kind rg with
      | none =>
        rw [hm] at hwid
        obtain ⟨a, c, ha, h⟩ := hwid
        exact ⟨a, c, ⟨((hrg a).1 ha).1, t, mem_cons_self, ((hrg a).1 ha).2⟩, h⟩
      | some s =>
        rw [hm] at hwid
        have hrest := widenTargets_spec kind r ts s (by rw [hwid.1]; exact hwts) hp
        refine (hwid.comp hrest ?_).congr (fun a => ?_)
        · rintro a ha ⟨-, u, hu, hau⟩
          exact Slice.apart_iff.1 (hpt u hu) a ((hrg a).1 ha).2 hau
        · rw [← hcons a, hrg a]

/-! ## The slice map -/

/-- `BTreeMap::insert` under the slice's own range, which replaces a slice of the same range. -/
def insertSlice (s : Slice) : List Slice → List Slice
  | [] => [s]
  | t :: l =>
    if s.range.lt t.range then s :: t :: l
    else if t.range.lt s.range then t :: insertSlice s l
    else s :: l

theorem Range.lt_iff {t : Range} : r.lt t = true ↔ r.start < t.start ∨ (r.start = t.start ∧ r.stop < t.stop) := by
  simp [Range.lt]

theorem Range.lt_trans {s t : Range} (h : r.lt s = true) (h' : s.lt t = true) : r.lt t = true := by
  rw [lt_iff] at *
  omega

theorem Range.eq_of_not_lt {t : Range} (h : ¬ r.lt t = true) (h' : ¬ t.lt r = true) : r = t := by
  obtain ⟨a, b, hab⟩ := r
  obtain ⟨c, d, hcd⟩ := t
  rw [lt_iff] at h h'
  dsimp only at h h'
  obtain rfl : a = c := by omega
  obtain rfl : b = d := by omega
  rfl

theorem mem_of_mem_insertSlice : ∀ {l : List Slice} {x : Slice}, x ∈ insertSlice s l → x = s ∨ x ∈ l
  | [], x, h => Or.inl (mem_singleton.1 h)
  | t :: l, x, h => by
    unfold insertSlice at h
    split at h
    · exact mem_cons.1 h
    split at h
    · rcases mem_cons.1 h with rfl | h
      · exact Or.inr mem_cons_self
      · exact (mem_of_mem_insertSlice h).imp_right (mem_cons_of_mem _)
    · exact (mem_cons.1 h).imp_right (mem_cons_of_mem _)

theorem self_mem_insertSlice (s : Slice) : ∀ l : List Slice, s ∈ insertSlice s l
  | [] => mem_singleton.2 rfl
  | t :: l => by
    unfold insertSlice
    split
    · exact mem_cons_self
    · split
      · exact mem_cons_of_mem _ (self_mem_insertSlice s l)
      · exact mem_cons_self

theorem mem_insertSlice_of_ne {x : Slice} : ∀ {l : List Slice}, x ∈ l → x.range ≠ s.range → x ∈ insertSlice s l
  | t :: l, hx, hne => by
    unfold insertSlice
    split
    · exact mem_cons_of_mem _ hx
    rename_i h1
    split
    · rcases mem_cons.1 hx with rfl | hx
      · exact mem_cons_self
      · exact mem_cons_of_mem _ (mem_insertSlice_of_ne hx hne)
    rename_i h2
    rcases mem_cons.1 hx with rfl | hx
    · exact absurd (eq_of_not_lt h2 h1) hne
    · exact mem_cons_of_mem _ hx

theorem sorted_insertSlice (s : Slice) : ∀ {l : List Slice}, l.Pairwise (fun s t => s.range.lt t.range = true) →
    (insertSlice s l).Pairwise (fun s t => s.range.lt t.range = true)
  | [], _ => pairwise_singleton _ _
  | t :: l, hl => by
    obtain ⟨ht, hl'⟩ := pairwise_cons.1 hl
    unfold insertSlice
    split
    · rename_i h
      refine pairwise_cons.2 ⟨fun u hu => ?_, hl⟩
      rcases mem_cons.1 hu with rfl | hu
      · exact h
      · exact lt_trans h (ht u hu)
    rename_i h1
    split
    · rename_i h
      refine pairwise_cons.2 ⟨fun u hu => ?_, sorted_insertSlice s hl'⟩
      rcases mem_of_mem_insertSlice hu with rfl | hu
      · exact h
      · exact ht u hu
    · rename_i h2
      rw [eq_of_not_lt h2 h1] at ht
      exact pairwise_cons.2 ⟨ht, hl'⟩

theorem apart_insertSlice : ∀ {l : List Slice}, l.Pairwise Slice.apart → (∀ t ∈ l, s.apart t) →
    (insertSlice s l).Pairwise Slice.apart
  | [], _, _ => pairwise_singleton _ _
  | t :: l, hl, hs => by
    obtain ⟨ht, hl'⟩ := pairwise_cons.1 hl
    unfold insertSlice
    split
    · exact pairwise_cons.2 ⟨hs, hl⟩
    split
    · refine pairwise_cons.2 ⟨fun u hu => ?_, apart_insertSlice hl' (fun u hu => hs u (mem_cons_of_mem _ hu))⟩
      rcases mem_of_mem_insertSlice hu with rfl | hu
      · exact (hs t mem_cons_self).symm
      · exact ht u hu
    · exact pairwise_cons.2 ⟨fun u hu => hs u (mem_cons_of_mem _ hu), hl'⟩

def lookup (l : List Slice) (a : Nat) : Option Cell := l.findSome? (·.cellAt a)

variable {l : List Slice}

theorem lookup_eq_none {a : Nat} : lookup l a = none ↔ ∀ s ∈ l, a ∉ s.range := by
  simp [lookup, Slice.cellAt_eq_none]

theorem exists_mem_of_lookup {a : Nat} {c : Cell} (h : lookup l a = some c) : ∃ s ∈ l, a ∈ s.range ∧ s.cellAt a = some c := by
  obtain ⟨s, hs, hc⟩ := exists_of_findSome?_eq_some h
  exact ⟨s, hs, Slice.cellAt_isSome.1 (by rw [hc]; rfl), hc⟩

theorem lookup_of_mem : ∀ {l : List Slice} {s : Slice} {a : Nat}, l.Pairwise Slice.apart → s ∈ l → a ∈ s.range →
    lookup l a = s.cellAt a
  | t :: l, s, a, hp, hs, ha => by
    obtain ⟨ht, hp⟩ := pairwise_cons.1 hp
    rcases mem_cons.1 hs with rfl | hs
    · obtain ⟨c, hc⟩ := isSome_iff_exists.1 (Slice.cellAt_isSome.2 ha)
      rw [lookup, List.findSome?_cons, hc]
    · have hn : t.cellAt a = none := Slice.cellAt_eq_none.2 (fun hat => Slice.apart_iff.1 (ht s hs) a hat ha)
      rw [lookup, List.findSome?_cons, hn]
      exact lookup_of_mem hp hs ha

theorem lookup_congr {l' : List Slice} {a : Nat} (hl' : l'.Pairwise Slice.apart)
    (h : ∀ s, a ∈ s.range → (s ∈ l ↔ s ∈ l')) : lookup l a = lookup l' a := by
  cases hc : lookup l a with
  | none =>
    rw [eq_comm, lookup_eq_none]
    exact fun s hs ha => lookup_eq_none.1 hc s ((h s ha).2 hs) ha
  | some c =>
    obtain ⟨s, hs, ha, hsc⟩ := exists_mem_of_lookup hc
    rw [lookup_of_mem hl' ((h s ha).1 hs) ha, hsc]

/-! ## Declaring a range -/

section
variable (kind : CellKind) (r : Range) (l : List Slice)

def targets : List Slice := l.filter (fun s => (r.intersect s.range).isSome)

def others : List Slice := l.filter (fun s => !(r.intersect s.range).isSome)

/-- The union of a range and the first and last of the slices it intersects. -/
def spanUnion (first last : Slice) : Range :=
  ⟨min r.start first.range.start, max r.stop last.range.stop, by have := r.le; omega⟩

def mergeTargets (first last : Slice) : Slice :=
  (targets r l).foldl Slice.absorb (Slice.fromRange kind (spanUnion r first last))

/-- One turn of the loop of `Memory::add_ranges`: `none` when an overlapped cell cannot be widened. -/
def addRange : Option (List Slice) :=
  match (targets r l).head?, (targets r l).getLast? with
  | some first, some last =>
    (widenTargets kind r (targets r l) (mergeTargets kind r l first last)).map (insertSlice · (others r l))
  | _, _ => some (insertSlice (Slice.fromRange kind r) l)

end

theorem mem_targets : s ∈ targets r l ↔ s ∈ l ∧ ∃ a, a ∈ r ∧ a ∈ s.range := by
  simp [targets, intersect_isSome]

theorem mem_others : s ∈ others r l ↔ s ∈ l ∧ ∀ a, a ∈ r → a ∉ s.range := by
  simp [others, intersect_eq_none]

structure Laid (l : List Slice) : Prop where
  sorted : l.Pairwise (fun s t => s.range.lt t.range = true)
  apart : l.Pairwise Slice.apart

theorem Laid.filter (h : Laid l) (p : Slice → Bool) : Laid (l.filter p) :=
  ⟨h.sorted.filter p, h.apart.filter p⟩

theorem Laid.apart_of_ne (h : Laid l) {t : Slice} (hs : s ∈ l) (ht : t ∈ l) (hne : s ≠ t) : s.apart t :=
  h.apart.forall hs ht hne

theorem Laid.within_ends {first last : Slice} (hl : Laid l)
    (hne : ∀ s ∈ l, s.range.start < s.range.stop) (hf : l.head? = some first) (hlast : l.getLast? = some last) (hs : s ∈ l) :
    first.range.start ≤ s.range.start ∧ s.range.stop ≤ last.range.stop := by
  constructor
  · obtain ⟨l', rfl⟩ := List.head?_eq_some_iff.1 hf
    rcases mem_cons.1 hs with rfl | hs
    · exact Nat.le_refl _
    · have := lt_iff.1 ((pairwise_cons.1 hl.sorted).1 s hs)
      omega
  obtain ⟨l', rfl⟩ := List.getLast?_eq_some_iff.1 hlast
  rcases mem_append.1 hs with hs' | hs'
  · have hlt := lt_iff.1 ((pairwise_append.1 hl.sorted).2.2 s hs' last (mem_singleton.2 rfl))
    have hap := Slice.apart_iff.1 ((pairwise_append.1 hl.apart).2.2 s hs' last (mem_singleton.2 rfl))
    have h1 := hne s hs
    have h2 := hne last (by simp)
    have := hap last.range.start
    simp only [Range.mem_def] at this
    omega
  · obtain rfl := mem_singleton.1 hs'
    exact Nat.le_refl _

section
variable {kind : CellKind} {r : Range} {l : List Slice} {first last : Slice}

theorem target_within (hl : Laid l) (hf : (targets r l).head? = some first) (hg : (targets r l).getLast? = some last)
    {t : Slice} (ht : t ∈ targets r l) : t.range.within (spanUnion r first last) := by
  have hne : ∀ s ∈ targets r l, s.range.start < s.range.stop := by
    intro s hs
    obtain ⟨-, a, -, ha⟩ := mem_targets.1 hs
    rw [Range.mem_def] at ha
    omega
  have := (hl.filter (fun s => (r.intersect s.range).isSome)).within_ends hne hf hg ht
  constructor <;> simp only [spanUnion] <;> omega

theorem mem_spanUnion (hf : (targets r l).head? = some first) (hg : (targets r l).getLast? = some last)
    {a : Nat} (ha : a ∈ spanUnion r first last) : a ∈ r ∨ ∃ t ∈ targets r l, a ∈ t.range := by
  have hfm := mem_of_head? hf
  have hgm := mem_of_getLast? hg
  obtain ⟨-, x, hxr, hxf⟩ := mem_targets.1 hfm
  obtain ⟨-, y, hyr, hyl⟩ := mem_targets.1 hgm
  simp only [Range.mem_def, spanUnion] at *
  by_cases h1 : a < r.start
  · exact Or.inr ⟨first, hfm, by omega⟩
  · by_cases h2 : a < r.stop
    · exact Or.inl (by omega)
    · exact Or.inr ⟨last, hgm, by omega⟩

theorem spanUnion_apart_others (hl : Laid l) (hf : (targets r l).head? = some first)
    (hg : (targets r l).getLast? = some last) {o : Slice} (ho : o ∈ others r l) {a : Nat}
    (ha : a ∈ spanUnion r first last) : a ∉ o.range := by
  obtain ⟨hol, hor⟩ := mem_others.1 ho
  rcases mem_spanUnion hf hg ha with har | ⟨t, ht, hat⟩
  · exact hor a har
  · obtain ⟨htl, x, hxr, hxt⟩ := mem_targets.1 ht
    have hne : t ≠ o := fun h => hor x hxr (h ▸ hxt)
    exact Slice.apart_iff.1 (hl.apart_of_ne htl hol hne) a hat

theorem cellAt_mergeTargets (kind : CellKind) (hl : Laid l) (hf : (targets r l).head? = some first)
    (hg : (targets r l).getLast? = some last) : (mergeTargets kind r l first last).range = spanUnion r first last ∧
      ∀ a ∈ spanUnion r first last,
        (mergeTargets kind r l first last).cellAt a = some ((lookup l a).getD (Cell.zeroed kind)) := by
  obtain ⟨hr, hc⟩ := absorb_fold (targets r l) (Slice.fromRange kind (spanUnion r first last))
    (fun t ht => target_within hl hf hg ht) (hl.filter _).apart
  refine ⟨hr, fun a ha => ?_⟩
  by_cases hex : ∃ t ∈ targets r l, a ∈ t.range
  · obtain ⟨t, ht, hat⟩ := hex
    have hlk := lookup_of_mem hl.apart (mem_targets.1 ht).1 hat
    obtain ⟨c, hca⟩ := isSome_iff_exists.1 (Slice.cellAt_isSome.2 hat)
    rw [mergeTargets, (hc a).1 t ht hat, hlk, hca, getD_some]
  have har : a ∈ r := (mem_spanUnion hf hg ha).resolve_right hex
  have hnone : lookup l a = none := lookup_eq_none.2 (fun s hs has => hex ⟨s, mem_targets.2 ⟨hs, a, har, has⟩, has⟩)
  rw [mergeTargets, (hc a).2 (fun t ht hat => hex ⟨t, ht, hat⟩), Slice.cellAt_fromRange, if_pos ha, hnone,
    getD_none]

/-- The cell a declaration of `kind` leaves at an address of its range. -/
def declareCell (kind : CellKind) : Option Cell → Option Cell
  | none => some (Cell.zeroed kind)
  | some c => widenCell kind c

/-- **What declaring a range comes to, cell by cell.** -/
def Declared (kind : CellKind) (r : Range) (l : List Slice) : Option (List Slice) → Prop
  | none => ∃ a ∈ r, declareCell kind (lookup l a) = none
  | some l' => Laid l' ∧ l' ≠ [] ∧ ∀ a,
      (a ∈ r → lookup l' a = declareCell kind (lookup l a) ∧ (lookup l' a).isSome = true) ∧
      (a ∉ r → lookup l' a = lookup l a)

theorem insertSlice_spec {s : Slice} (hl : Laid l) (hs : ∀ t ∈ l, s.apart t) : Laid (insertSlice s l) ∧
      ∀ a, (a ∈ s.range → lookup (insertSlice s l) a = s.cellAt a) ∧ (a ∉ s.range → lookup (insertSlice s l) a = lookup l a) := by
  have hap := apart_insertSlice hl.apart hs
  refine ⟨⟨sorted_insertSlice s hl.sorted, hap⟩, fun a => ⟨fun ha => ?_, fun ha => ?_⟩⟩
  · exact lookup_of_mem hap (self_mem_insertSlice s l) ha
  refine lookup_congr hl.apart (fun t hat => ⟨fun ht => ?_, fun ht => ?_⟩)
  · rcases mem_of_mem_insertSlice ht with rfl | ht
    · exact absurd hat ha
    · exact ht
  · exact mem_insertSlice_of_ne ht (fun heq => ha (heq ▸ hat))

theorem insertSlice_ne_nil (s : Slice) (l : List Slice) : insertSlice s l ≠ [] :=
  ne_nil_of_mem (self_mem_insertSlice s l)

theorem lookup_others (hl : Laid l) {a : Nat} (ha : ∀ t ∈ targets r l, a ∉ t.range) : lookup (others r l) a = lookup l a := by
  refine lookup_congr hl.apart (fun s has => ⟨fun hs => (mem_others.1 hs).1, fun hs => mem_others.2 ⟨hs, ?_⟩⟩)
  intro x hxr hxs
  exact ha s (mem_targets.2 ⟨hs, x, hxr, hxs⟩) has

theorem addRange_fresh (hl : Laid l) (hn : targets r l = []) :
    Declared kind r l (some (insertSlice (Slice.fromRange kind r) l)) := by
  have hno : ∀ s ∈ l, ∀ a, a ∈ r → a ∉ s.range := by
    intro s hs a har has
    have : s ∈ targets r l := mem_targets.2 ⟨hs, a, har, has⟩
    rw [hn] at this
    cases this
  obtain ⟨hlaid, hc⟩ := insertSlice_spec (s := Slice.fromRange kind r) hl
    (fun t ht => Slice.apart_iff.2 (fun a har => hno t ht a har))
  refine ⟨hlaid, insertSlice_ne_nil _ _, fun a => ⟨fun ha => ?_, fun ha => (hc a).2 ha⟩⟩
  rw [(hc a).1 ha, Slice.cellAt_fromRange, if_pos ha, lookup_eq_none.2 (fun s hs => hno s hs a ha)]
  exact ⟨rfl, rfl⟩

theorem addRange_merge (hl : Laid l) (hf : (targets r l).head? = some first) (hg : (targets r l).getLast? = some last) :
    Declared kind r l
      ((widenTargets kind r (targets r l) (mergeTargets kind r l first last)).map (insertSlice · (others r l))) := by
  obtain ⟨hmr, hmc⟩ := cellAt_mergeTargets kind hl hf hg
  have hw := widenTargets_spec kind r (targets r l) (mergeTargets kind r l first last)
    (fun t ht => by rw [hmr]; exact target_within hl hf hg ht) (hl.filter _).apart
  have hsub : ∀ a ∈ r, a ∈ spanUnion r first last := by
    intro a ha
    simp only [Range.mem_def, spanUnion] at *
    omega
  cases hres : widenTargets kind r (targets r l) (mergeTargets kind r l first last) with
  | none =>
    rw [hres] at hw
    obtain ⟨a, c, ⟨har, t, ht, hat⟩, hc, hn⟩ := hw
    obtain ⟨d, hd⟩ := isSome_iff_exists.1 (Slice.cellAt_isSome.2 hat)
    have hlk : lookup l a = some d := (lookup_of_mem hl.apart (mem_targets.1 ht).1 hat).trans hd
    rw [hmc a (hsub a har), hlk, getD_some, Option.some.injEq] at hc
    exact ⟨a, har, by rw [hlk, hc]; exact hn⟩
  | some s =>
    rw [hres] at hw
    obtain ⟨hsr, hsc⟩ := hw
    have hrange : s.range = spanUnion r first last := hsr.trans hmr
    obtain ⟨hlaid, hc⟩ := insertSlice_spec (l := others r l) (s := s) (hl.filter _)
      (fun o ho => Slice.apart_iff.2 (fun a ha => spanUnion_apart_others hl hf hg ho (hrange ▸ ha)))
    refine ⟨hlaid, insertSlice_ne_nil _ _, fun a => ⟨fun ha => ?_, fun ha => ?_⟩⟩
    · have has : a ∈ s.range := hrange ▸ hsub a ha
      rw [(hc a).1 has]
      refine ⟨?_, Slice.cellAt_isSome.2 has⟩
      cases hlk : lookup l a with
      | none =>
        have hnt : ¬ ∃ t ∈ targets r l, a ∈ t.range := by
          rintro ⟨t, ht, hat⟩
          exact lookup_eq_none.1 hlk t (mem_targets.1 ht).1 hat
        rw [(hsc a).2 (fun h => hnt h.2), hmc a (hsub a ha), hlk]
        rfl
      | some c =>
        obtain ⟨t, ht, hat, -⟩ := exists_mem_of_lookup hlk
        rw [(hsc a).1 ⟨ha, t, mem_targets.2 ⟨ht, a, ha, hat⟩, hat⟩, hmc a (hsub a ha), hlk]
        rfl
    · by_cases has : a ∈ s.range
      · have hspan : a ∈ spanUnion r first last := hrange ▸ has
        obtain ⟨t, ht, hat⟩ := (mem_spanUnion hf hg hspan).resolve_left ha
        obtain ⟨c, hca⟩ := isSome_iff_exists.1 (Slice.cellAt_isSome.2 hat)
        have hlk : lookup l a = some c := (lookup_of_mem hl.apart (mem_targets.1 ht).1 hat).trans hca
        rw [(hc a).1 has, (hsc a).2 (fun h => ha h.1), hmc a hspan, hlk, getD_some]
      rw [(hc a).2 has]
      refine lookup_others hl (fun t ht hat => has ?_)
      obtain ⟨h1, h2⟩ := target_within hl hf hg ht
      rw [hrange]
      rw [Range.mem_def] at *
      omega

/-- **Declaring a range is the cell-by-cell declaration.** -/
theorem addRange_spec (kind : CellKind) (r : Range) (hl : Laid l) : Declared kind r l (addRange kind r l) := by
  unfold addRange
  split
  · rename_i first last hf hg
    exact addRange_merge hl hf hg
  rename_i hno
  refine addRange_fresh hl ?_
  cases ht : targets r l with
  | nil => rfl
  | cons t ts =>
    have hf : (targets r l).head? = some t := by rw [ht]; rfl
    have hg : (targets r l).getLast? = some (ts.getLast?.getD t) := by rw [ht, List.getLast?_cons]
    exact absurd hg (hno t _ hf)

end

/-- One device's slices: a `BTreeMap` keyed by range, whose slices do not overlap. -/
structure SliceMap where
  slices : List Slice
  laid : Laid slices

namespace SliceMap

def empty : SliceMap := ⟨[], List.Pairwise.nil, List.Pairwise.nil⟩

def isEmpty (m : SliceMap) : Bool := m.slices.isEmpty

def cellAt (m : SliceMap) (a : Nat) : Option Cell := lookup m.slices a

def addRange (kind : CellKind) (m : SliceMap) (r : Range) : Option SliceMap :=
  match h : Store.addRange kind r m.slices with
  | none => none
  | some l => some ⟨l, by have := addRange_spec kind r m.laid; rw [h] at this; exact this.1⟩

theorem addRange_none {m : SliceMap} : m.addRange kind r = none ↔ ∃ a ∈ r, declareCell kind (m.cellAt a) = none := by
  have hs := addRange_spec kind r m.laid
  unfold addRange
  split
  · rename_i h
    rw [h] at hs
    exact ⟨fun _ => hs, fun _ => rfl⟩
  rename_i l h
  rw [h] at hs
  refine ⟨nofun, fun ⟨a, ha, hn⟩ => ?_⟩
  have h1 := (hs.2.2 a).1 ha
  have h2 : lookup l a = none := h1.1.trans hn
  rw [h2] at h1
  cases h1.2

theorem addRange_some {m m' : SliceMap} (h : m.addRange kind r = some m') :
    m'.isEmpty = false ∧ ∀ a, m'.cellAt a = if a ∈ r then declareCell kind (m.cellAt a) else m.cellAt a := by
  have hs := addRange_spec kind r m.laid
  unfold addRange at h
  split at h
  · cases h
  rename_i l hl
  cases h
  rw [hl] at hs
  obtain ⟨-, hne, hc⟩ := hs
  refine ⟨by simpa [isEmpty] using hne, fun a => ?_⟩
  by_cases ha : a ∈ r
  · rw [if_pos ha]; exact ((hc a).1 ha).1
  · rw [if_neg ha]; exact (hc a).2 ha

end SliceMap

end Ferrowl.Store
