import Ferrowl.RunWalk
import Ferrowl.StoreSlices
/-!
# StoreWalk — walking a range over the slices of a device

`walk_slices` and `walk_slices_mut` of `ferrowl-store`'s `memory.rs`, and what each closure the store passes to them comes to: a
check of every cell (`walk_check`), the values in address order (`walk_collect`), an update of every cell (`walk_update`).
-/
namespace Ferrowl.Store

open Range List Option

/-- `walk_slices_mut`: the closure gets each slice that holds the cursor with the part of the range inside it, and
returns whether to go on, the slice and its captured state. -/
def walkSlicesMut {σ : Type} (f : Slice → Range → σ → Bool × Slice × σ) :
    List Slice → Range → σ → Bool × List Slice × σ
  | [], range, st => (range.length == 0, [], st)
  | slice :: map, range, st =>
    let count := min range.stop slice.range.stop - range.start
    if slice.range.start ≤ range.start ∧ range.start < slice.range.stop ∧ count ≠ 0 then
      match f slice (Range.new range.start count) st with
      | (false, slice', st') => (false, slice' :: map, st')
      | (true, slice', st') =>
        let (covered, map', st'') :=
          walkSlicesMut f map (Range.new (range.start + count) (range.length - count)) st'
        (covered, slice' :: map', st'')
    else
      let (covered, map', st') := walkSlicesMut f map range st
      (covered, slice :: map', st')

/-- `walk_slices`: the same walk with a closure that only looks at the slices. -/
def walkSlices {σ : Type} (f : Slice → Range → σ → Bool × σ) (map : List Slice) (range : Range) (st : σ) : Bool × σ :=
  let (covered, _, st') := walkSlicesMut (fun slice seg st => let (ok, st') := f slice seg st; (ok, slice, st')) map range st
  (covered, st')

def seg (x y : Nat) : Range := Range.new x (y - x)

abbrev Slice.lo (s : Slice) : Nat := s.range.start
abbrev Slice.hi (s : Slice) : Nat := s.range.stop

/-- The pieces of a range, slice by slice, and the address the walk stops at. -/
def pieces (l : List Slice) (r : Range) : List (Slice × Nat × Nat) :=
  walkSegs Slice.lo Slice.hi l r.start r.stop

def reach (l : List Slice) (r : Range) : Nat := walkEnd Slice.lo Slice.hi l r.start r.stop

section
variable {s : Slice} {l : List Slice} {r : Range}

def rest (s : Slice) (r : Range) : Range := ⟨min r.stop s.range.stop, r.stop, Nat.min_le_left _ _⟩

def Holds (s : Slice) (r : Range) : Prop := s.range.start ≤ r.start ∧ r.start < s.range.stop ∧ r.start < r.stop

instance (s : Slice) (r : Range) : Decidable (Holds s r) :=
  inferInstanceAs (Decidable (s.range.start ≤ r.start ∧ r.start < s.range.stop ∧ r.start < r.stop))

theorem pieces_of_holds (h : Holds s r) :
    pieces (s :: l) r = (s, r.start, min r.stop s.range.stop) :: pieces l (rest s r) := if_pos h

theorem pieces_of_not (h : ¬ Holds s r) : pieces (s :: l) r = pieces l r := if_neg h

theorem reach_of_holds (h : Holds s r) : reach (s :: l) r = reach l (rest s r) := if_pos h

theorem reach_of_not (h : ¬ Holds s r) : reach (s :: l) r = reach l r := if_neg h

theorem reach_bounds (l : List Slice) (r : Range) : r.start ≤ reach l r ∧ reach l r ≤ r.stop :=
  walkEnd_bounds _ _ l r.start r.stop r.le

theorem walkSlicesMut_cons {σ : Type} (f : Slice → Range → σ → Bool × Slice × σ) (s : Slice) (l : List Slice)
    (r : Range) (st : σ) :
    walkSlicesMut f (s :: l) r st =
      if Holds s r then
        match f s (seg r.start (min r.stop s.range.stop)) st with
        | (false, s', st') => (false, s' :: l, st')
        | (true, s', st') => ((walkSlicesMut f l (rest s r) st').1, s' :: (walkSlicesMut f l (rest s r) st').2.1,
            (walkSlicesMut f l (rest s r) st').2.2)
      else ((walkSlicesMut f l r st).1, s :: (walkSlicesMut f l r st).2.1, (walkSlicesMut f l r st).2.2) := by
  have hcond : (s.range.start ≤ r.start ∧ r.start < s.range.stop ∧ min r.stop s.range.stop - r.start ≠ 0) ↔
      Holds s r := by
    unfold Holds
    omega
  have hle := r.le
  rw [walkSlicesMut]
  simp only [hcond]
  by_cases h : Holds s r
  · have hrest : Range.new (r.start + (min r.stop s.range.stop - r.start))
        (r.length - (min r.stop s.range.stop - r.start)) = rest s r := by
      obtain ⟨h1, h2, h3⟩ := h
      simp only [Range.new, rest, Range.length, Range.mk.injEq]
      omega
    rw [if_pos h, if_pos h, hrest]
    rfl
  · rw [if_neg h, if_neg h]

theorem mem_pieces {x y : Nat} (h : (s, x, y) ∈ pieces l r) :
    s ∈ l ∧ (seg x y).within s.range ∧ ∀ a ∈ seg x y, a ∈ s.range ∧ a ∈ r := by
  obtain ⟨hm, h1, h2, h3, h4, h5⟩ := walkSegs_mem Slice.lo Slice.hi l r.start r.stop s x y h
  refine ⟨hm, ⟨?_, ?_⟩, fun a ha => ⟨?_, ?_⟩⟩ <;>
    simp only [seg, Range.mem_def, Range.new_start, Range.new_stop, Slice.lo, Slice.hi] at * <;> omega

theorem exists_piece {a : Nat} (h : r.start ≤ a ∧ a < reach l r) : ∃ s x y, (s, x, y) ∈ pieces l r ∧ a ∈ seg x y := by
  obtain ⟨s, x, y, hm, h1, h2⟩ := exists_walkSegs Slice.lo Slice.hi r.le h
  refine ⟨s, x, y, hm, ?_⟩
  simp only [seg, Range.mem_def, Range.new_start, Range.new_stop]
  omega

theorem declared_of_lt_reach (hl : Laid l) {a : Nat} (h : r.start ≤ a ∧ a < reach l r) : (lookup l a).isSome = true := by
  obtain ⟨s, x, y, hm, has⟩ := exists_piece h
  obtain ⟨hs, -, hin⟩ := mem_pieces hm
  rw [lookup_of_mem hl.apart hs (hin a has).1]
  exact Slice.cellAt_isSome.2 (hin a has).1

theorem lookup_reach (hl : Laid l) (h : reach l r ≠ r.stop) : lookup l (reach l r) = none := by
  have hsorted : l.Pairwise (fun s t => s.range.start ≤ t.range.start) :=
    hl.sorted.imp (fun h => by rw [lt_iff] at h; omega)
  rcases walkEnd_stuck Slice.lo Slice.hi l r.start r.stop hsorted r.le with heq | hstuck
  · exact absurd heq h
  · exact lookup_eq_none.2 (fun s hs has => hstuck s hs has)

theorem covered_iff (hl : Laid l) : reach l r = r.stop ↔ ∀ a ∈ r, (lookup l a).isSome = true := by
  constructor
  · intro h a ha
    exact declared_of_lt_reach hl (h ▸ ha : r.start ≤ a ∧ a < reach l r)
  intro h
  by_contra hne
  have hb := reach_bounds l r
  have hdecl := h (reach l r) ⟨hb.1, Nat.lt_of_le_of_ne hb.2 hne⟩
  rw [lookup_reach hl hne] at hdecl
  cases hdecl

/-- **The walk gets past an address exactly when every address of the range up to it is declared.** -/
theorem lt_reach_iff (hl : Laid l) {a : Nat} (ha : a ∈ r) : a < reach l r ↔ ∀ b ∈ r, b ≤ a → (lookup l b).isSome = true := by
  have hb := reach_bounds l r
  constructor
  · intro h b hbr hba
    exact declared_of_lt_reach hl ⟨hbr.1, Nat.lt_of_le_of_lt hba h⟩
  intro h
  by_contra hge
  have hstop : reach l r < r.stop := Nat.lt_of_le_of_lt (Nat.le_of_not_lt hge) ha.2
  have hdecl := h (reach l r) ⟨hb.1, hstop⟩ (Nat.le_of_not_lt hge)
  rw [lookup_reach hl (Nat.ne_of_lt hstop)] at hdecl
  cases hdecl

theorem Slice.map_cellsIn (h : r.within s.range) : (s.cellsIn r).map some = r.addrs.map s.cellAt := by
  obtain ⟨h1, h2⟩ := h
  have hr := r.le
  have hs := s.sized
  apply ext_getElem?
  intro i
  simp only [Slice.cellsIn, List.getElem?_map, List.getElem?_take, List.getElem?_drop, Range.addrs, Range.length] at *
  by_cases hi : i < r.stop - r.start
  · have hlt : r.start - s.range.start + i < s.buffer.length := by omega
    have hix : r.start + i - s.range.start = r.start - s.range.start + i := by omega
    rw [if_pos hi, List.getElem?_range' hi, map_some, Nat.one_mul, Slice.cellAt, if_pos (by omega), hix,
      List.getElem?_eq_getElem hlt]
    rfl
  have hnone : (List.range' r.start (r.stop - r.start))[i]? = none := by
    rw [List.getElem?_eq_none_iff, length_range']
    omega
  rw [if_neg hi, hnone]
  rfl

theorem map_cellsIn_piece (hl : Laid l) {x y : Nat} (h : (s, x, y) ∈ pieces l r) :
    (s.cellsIn (seg x y)).map some = (seg x y).addrs.map (lookup l) := by
  obtain ⟨hs, hw, hin⟩ := mem_pieces h
  rw [Slice.map_cellsIn hw]
  apply map_congr_left
  intro a ha
  rw [lookup_of_mem hl.apart hs (hin a (mem_addrs.1 ha)).1]

/-! ## What the closures come to -/

theorem length_beq_zero (r : Range) : (r.length == 0) = (r.start == r.stop) := by
  have := r.le
  rw [Bool.eq_iff_iff, beq_iff_eq, beq_iff_eq, Range.length]
  omega

theorem walkSlices_check (p : Slice → Range → Bool) : ∀ (l : List Slice) (r : Range),
    (walkSlices (fun s sg st => (p s sg, st)) l r ()).1 = true ↔
      reach l r = r.stop ∧ ∀ q ∈ pieces l r, p q.1 (seg q.2.1 q.2.2) = true
  | [], r => by
    have := r.le
    simp only [walkSlices, walkSlicesMut, reach, pieces, walkEnd, walkSegs, Range.length, beq_iff_eq, not_mem_nil,
      false_imp_iff, implies_true, and_true]
    omega
  | s :: l, r => by
    have ih := walkSlices_check p l
    simp only [walkSlices] at ih ⊢
    rw [walkSlicesMut_cons]
    by_cases h : Holds s r
    · rw [if_pos h, reach_of_holds h, pieces_of_holds h]
      have hstop : (rest s r).stop = r.stop := rfl
      cases hp : p s (seg r.start (min r.stop s.range.stop)) with
      | false => simp [hp]
      | true => simp [ih, hp, hstop]
    · rw [if_neg h, reach_of_not h, pieces_of_not h]
      exact ih r

theorem walkSlices_collect {α : Type} (g : Slice → Range → List α) : ∀ (l : List Slice) (r : Range) (out : List α),
    walkSlices (fun s sg out => (true, out ++ g s sg)) l r out =
      (reach l r == r.stop, out ++ (pieces l r).flatMap (fun q => g q.1 (seg q.2.1 q.2.2)))
  | [], r, out => by
    simp [walkSlices, walkSlicesMut, reach, pieces, walkEnd, walkSegs, length_beq_zero]
  | s :: l, r, out => by
    have ih := walkSlices_collect g l
    simp only [walkSlices, Prod.mk.injEq] at ih ⊢
    rw [walkSlicesMut_cons]
    by_cases h : Holds s r
    · rw [if_pos h, reach_of_holds h, pieces_of_holds h]
      have hstop : (rest s r).stop = r.stop := rfl
      simp [ih, hstop]
    · rw [if_neg h, reach_of_not h, pieces_of_not h]
      exact ih r out

theorem pieces_tile (l : List Slice) (r : Range) :
    (pieces l r).flatMap (fun q => (seg q.2.1 q.2.2).addrs) = List.range' r.start (reach l r - r.start) := by
  have h := walkSegs_tile Slice.lo Slice.hi l r.start r.stop r.le
  unfold pieces reach
  rw [← h]
  simp only [seg, Range.addrs, new_start, new_length]

theorem walk_check (hl : Laid l) (r : Range) (q : Cell → Bool) :
    (walkSlices (fun s sg st => (s.contains sg && (s.cellsIn sg).all q, st)) l r ()).1 = true ↔
      ∀ a ∈ r, ∃ c, lookup l a = some c ∧ q c = true := by
  rw [walkSlices_check, covered_iff hl]
  constructor
  · rintro ⟨hcov, hall⟩ a ha
    have hreach := (covered_iff hl).2 hcov
    obtain ⟨s, x, y, hm, has⟩ := exists_piece (l := l) (hreach ▸ ha : r.start ≤ a ∧ a < reach l r)
    obtain ⟨c, hc⟩ := Option.isSome_iff_exists.1 (hcov a ha)
    have hmem : some c ∈ (s.cellsIn (seg x y)).map some := by
      rw [map_cellsIn_piece hl hm, ← hc]
      exact List.mem_map_of_mem (mem_addrs.2 has)
    have hq := hall _ hm
    rw [Bool.and_eq_true, List.all_eq_true] at hq
    exact ⟨c, hc, hq.2 c (by simpa using hmem)⟩
  intro h
  refine ⟨fun a ha => ?_, ?_⟩
  · obtain ⟨c, hc, -⟩ := h a ha
    rw [hc]; rfl
  rintro ⟨s, x, y⟩ hm
  obtain ⟨hs, ⟨hw1, hw2⟩, hin⟩ := mem_pieces hm
  simp only [Slice.contains, Bool.and_eq_true, decide_eq_true_eq, List.all_eq_true]
  refine ⟨⟨hw1, hw2⟩, fun c hc => ?_⟩
  have hmem := List.mem_map_of_mem (f := some) hc
  rw [map_cellsIn_piece hl hm, List.mem_map] at hmem
  obtain ⟨a, ha, hac⟩ := hmem
  obtain ⟨d, hd, hqd⟩ := h a (hin a (mem_addrs.1 ha)).2
  rw [hac] at hd
  cases hd
  exact hqd

theorem walk_collect {α : Type} (hl : Laid l) (r : Range) (g : Slice → Range → List α) (v : Cell → α)
    (hg : ∀ s x y, (s, x, y) ∈ pieces l r → g s (seg x y) = (s.cellsIn (seg x y)).map v) :
    ∃ out, walkSlices (fun s sg out => (true, out ++ g s sg)) l r [] = (reach l r == r.stop, out) ∧
      out.map some = (List.range' r.start (reach l r - r.start)).map (fun a => (lookup l a).map v) := by
  refine ⟨(pieces l r).flatMap (fun q => g q.1 (seg q.2.1 q.2.2)), ?_, ?_⟩
  · rw [walkSlices_collect, nil_append]
  rw [← pieces_tile, map_flatMap, map_flatMap]
  apply flatMap_congr
  rintro ⟨s, x, y⟩ hm
  have hc := map_cellsIn_piece hl hm
  have hmap := congrArg (List.map (Option.map v)) hc
  rw [hg s x y hm, List.map_map]
  simpa [List.map_map, Function.comp_def] using hmap

theorem Slice.cellAt_update (g : Cell → Word → Cell) {sg : Range} {values : List Word} (hw : sg.within s.range)
    (hv : values.length = sg.length) (a : Nat) : (s.update g sg values).cellAt a =
      (s.cellAt a).map (fun c => if a ∈ sg then g c (values.getD (a - sg.start) 0) else c) := by
  obtain ⟨h1, h2⟩ := hw
  have hsg := sg.le
  unfold Range.length at hv
  simp only [Slice.cellAt, Slice.update, getElem?_zipOnto, Range.mem_def]
  by_cases hs : s.range.start ≤ a
  · rw [if_pos hs, if_pos hs]
    by_cases hin : sg.start ≤ a ∧ a < sg.stop
    · have hlt : a - sg.start < values.length := by omega
      have hix : a - s.range.start - (sg.start - s.range.start) = a - sg.start := by omega
      rw [if_pos (by omega), hix, List.getElem?_eq_getElem hlt]
      simp only [hin, and_self, if_true, List.getD_eq_getElem?_getD, List.getElem?_eq_getElem hlt, Option.getD_some,
        Option.map_some]
      cases s.buffer[a - s.range.start]? <;> rfl
    · rw [if_neg (by omega)]
      simp [hin]
  · rw [if_neg hs, if_neg hs]
    rfl

theorem walkSlicesMut_ranges {σ : Type} {f : Slice → Range → σ → Bool × Slice × σ}
    (hf : ∀ s sg st, (f s sg st).2.1.range = s.range) : ∀ (l : List Slice) (r : Range) (st : σ),
    (walkSlicesMut f l r st).2.1.map (·.range) = l.map (·.range)
  | [], _, _ => rfl
  | s :: l, r, st => by
    rw [walkSlicesMut_cons]
    split
    · have hs := hf s (seg r.start (min r.stop s.range.stop)) st
      split
      · rename_i s' st' h
        rw [h] at hs
        rw [map_cons, map_cons, hs]
      · rename_i s' st' h
        rw [h] at hs
        rw [map_cons, map_cons, hs, walkSlicesMut_ranges hf l]
    · rw [map_cons, map_cons, walkSlicesMut_ranges hf l]

theorem Laid.of_ranges {l' : List Slice} (hl : Laid l) (h : l'.map (·.range) = l.map (·.range)) : Laid l' := by
  have h1 : (l.map (·.range)).Pairwise (fun s t => s.lt t = true) := pairwise_map.2 hl.sorted
  have h2 : (l.map (·.range)).Pairwise (fun s t => s.intersect t = none) := pairwise_map.2 hl.apart
  rw [← h, pairwise_map] at h1 h2
  exact ⟨h1, h2⟩

/-- `f` writes the next values of a list into the part of the range each slice holds. -/
def WritesNext (g : Cell → Word → Cell) (values : List Word) (f : Slice → Range → Nat → Bool × Slice × Nat) : Prop :=
  ∀ s sg idx, sg.within s.range → idx + sg.length ≤ values.length →
    f s sg idx = (true, s.update g sg ((values.drop idx).take sg.length), idx + sg.length)

/-- The value for address `a` of a range that starts at `start`, the values for it starting at position `idx`. -/
def writeAt (g : Cell → Word → Cell) (values : List Word) (start idx stop a : Nat) (c : Cell) : Cell :=
  if start ≤ a ∧ a < stop then g c (values.getD (idx + (a - start)) 0) else c

/-- **A closure that writes goes through the range in step with its values**: the cells up to the address the walk stops
at take theirs, and the others stay. -/
theorem walk_update {g : Cell → Word → Cell} {values : List Word} {f : Slice → Range → Nat → Bool × Slice × Nat}
    (hf : WritesNext g values f) : ∀ (l : List Slice) (r : Range) (idx : Nat),
    l.Pairwise Slice.apart → idx + r.length ≤ values.length → (walkSlicesMut f l r idx).1 = (reach l r == r.stop) ∧
    ∀ a, lookup (walkSlicesMut f l r idx).2.1 a = (lookup l a).map (writeAt g values r.start idx (reach l r) a)
  | [], r, idx, _, _ => by
    exact ⟨by simp [walkSlicesMut, reach, walkEnd, length_beq_zero], fun a => rfl⟩
  | s :: l, r, idx, hp, hlen => by
    obtain ⟨hps, hp⟩ := pairwise_cons.1 hp
    have hcons : ∀ (t : Slice) (m : List Slice) (a : Nat), lookup (t :: m) a = (t.cellAt a).or (lookup m a) := by
      intro t m a
      rw [lookup, List.findSome?_cons]
      cases t.cellAt a <;> rfl
    -- an address the rest of the walk passes over lies in a later slice, so not in `s`
    have hout : ∀ (q : Range) (a : Nat), q.start ≤ a → a < reach l q → a ∉ s.range := by
      intro q a h1 h2 has
      obtain ⟨t, x, y, hm, hat⟩ := exists_piece ⟨h1, h2⟩
      obtain ⟨ht, -, hin⟩ := mem_pieces hm
      exact Slice.apart_iff.1 (hps t ht) a has (hin a hat).1
    have hle := r.le
    rw [walkSlicesMut_cons]
    by_cases h : Holds s r
    · obtain ⟨h1, h2, h3⟩ := id h
      have hsg : (seg r.start (min r.stop s.range.stop)).length = min r.stop s.range.stop - r.start :=
        Range.new_length _ _
      have hwithin : (seg r.start (min r.stop s.range.stop)).within s.range := by
        refine ⟨h1, ?_⟩
        simp only [seg, Range.new_stop]
        omega
      have hrest : (rest s r).length = r.stop - min r.stop s.range.stop := rfl
      have hrs : (rest s r).start = min r.stop s.range.stop := rfl
      unfold Range.length at hlen
      obtain ⟨ihc, iha⟩ := walk_update hf l (rest s r) (idx + (min r.stop s.range.stop - r.start)) hp
        (by rw [hrest]; omega)
      have hb := reach_bounds l (rest s r)
      rw [if_pos h, reach_of_holds h]
      rw [hf s _ idx hwithin (by rw [hsg]; omega), hsg]
      refine ⟨ihc, fun a => ?_⟩
      rw [hcons, hcons, iha a, Slice.cellAt_update g hwithin (by rw [hsg, length_take, length_drop]; omega)]
      by_cases has : a ∈ s.range
      · obtain ⟨c, hc⟩ := isSome_iff_exists.1 (Slice.cellAt_isSome.2 has)
        rw [Range.mem_def] at has
        have hno : ¬ ((rest s r).start ≤ a ∧ a < reach l (rest s r)) := fun hh => hout _ a hh.1 hh.2 has
        rw [hc]
        simp only [map_some, some_or, Option.some.injEq, writeAt, seg, Range.mem_def, Range.new_start, Range.new_stop]
        by_cases hin : r.start ≤ a ∧ a < min r.stop s.range.stop
        · have hget : ((values.drop idx).take (min r.stop s.range.stop - r.start)).getD (a - r.start) 0
              = values.getD (idx + (a - r.start)) 0 := by
            simp only [getD_eq_getElem?_getD, List.getElem?_take, List.getElem?_drop]
            rw [if_pos (by omega)]
          rw [if_pos (by omega), if_pos (by omega), hget]
        · rw [if_neg (by omega), if_neg (by rw [hrs] at hb hno; omega)]
      · rw [Slice.cellAt_eq_none.2 has, map_none, none_or, none_or]
        rw [Range.mem_def] at has
        congr 1
        funext c
        unfold writeAt
        rw [hrs] at hb ⊢
        by_cases hin : min r.stop s.range.stop ≤ a ∧ a < reach l (rest s r)
        · rw [if_pos hin, if_pos (by omega)]
          congr 2
          omega
        · rw [if_neg hin, if_neg (by omega)]
    · obtain ⟨ihc, iha⟩ := walk_update hf l r idx hp hlen
      rw [if_neg h, reach_of_not h]
      refine ⟨ihc, fun a => ?_⟩
      rw [hcons, hcons, iha a]
      cases hc : s.cellAt a with
      | none => rfl
      | some c =>
        have has : a ∈ s.range := Slice.cellAt_isSome.1 (by rw [hc]; rfl)
        have hno : ¬ (r.start ≤ a ∧ a < reach l r) := fun hh => hout r a hh.1 hh.2 has
        simp [writeAt, hno]

end

end Ferrowl.Store
