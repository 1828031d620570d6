import Mathlib.Data.List.Nodup
import Mathlib.Data.List.Perm.Basic
import Mathlib.Logic.Function.Basic
/-!
# ListMap — lists of named values that spell a partial map

A list of pairs with distinct names lists a partial map when its pairs are the map's graph.

A `Table` is such a list with its names distinct, as a hash map is walked.
-/
namespace Ferrowl

open Function List

section
variable {K V : Type}

/-- The pairs of the list are the graph of the map, each name standing once. -/
structure Lists (l : List (K × V)) (f : K → Option V) : Prop where
  nodup : (l.map Prod.fst).Nodup
  mem : ∀ k v, (k, v) ∈ l ↔ f k = some v

variable {l : List (K × V)} {f : K → Option V}

theorem Lists.perm {l' : List (K × V)} (h : Lists l f) (hp : l'.Perm l) : Lists l' f :=
  ⟨(hp.map Prod.fst).nodup_iff.2 h.nodup, fun k v => (hp.mem_iff).trans (h.mem k v)⟩

theorem Lists.mem_keys (h : Lists l f) (k : K) : k ∈ l.map Prod.fst ↔ (f k).isSome = true := by
  rw [Option.isSome_iff_exists, mem_map]
  constructor
  · rintro ⟨⟨k', v⟩, hm, rfl⟩
    exact ⟨v, (h.mem k' v).1 hm⟩
  · rintro ⟨v, hv⟩
    exact ⟨(k, v), (h.mem k v).2 hv, rfl⟩

theorem Lists.perm_of {l' : List (K × V)} (h : Lists l f) (h' : Lists l' f) : l.Perm l' := by
  rw [perm_ext_iff_of_nodup h.nodup.of_map h'.nodup.of_map]
  exact fun ⟨k, v⟩ => (h.mem k v).trans (h'.mem k v).symm

variable [DecidableEq K]

variable {k : K}

theorem Lists.cons_iff {v : V} : Lists ((k, v) :: l) f ↔ f k = some v ∧ Lists l (update f k none) := by
  constructor
  · intro h
    obtain ⟨hfresh, hnd⟩ := nodup_cons.1 h.nodup
    refine ⟨(h.mem k v).1 mem_cons_self, hnd, fun k' v' => ?_⟩
    by_cases hkk : k' = k
    · subst hkk
      rw [update_self]
      exact iff_of_false (fun hm => hfresh (mem_map.2 ⟨_, hm, rfl⟩)) nofun
    · rw [update_of_ne hkk, ← h.mem, mem_cons, Prod.mk.injEq]
      simp [hkk]
  rintro ⟨hk, h⟩
  have hfresh : k ∉ l.map Prod.fst := by
    rw [h.mem_keys, update_self]
    exact Bool.false_ne_true
  refine ⟨nodup_cons.2 ⟨hfresh, h.nodup⟩, fun k' v' => ?_⟩
  rw [mem_cons, h.mem, Prod.mk.injEq]
  by_cases hkk : k' = k
  · subst hkk
    rw [update_self, hk]
    simp [eq_comm]
  · rw [update_of_ne hkk]
    simp [hkk]

theorem Lists.append (h : Lists l f) (hk : f k = none) (v : V) : Lists (l ++ [(k, v)]) (update f k (some v)) := by
  refine Lists.perm (Lists.cons_iff.2 ⟨update_self .., ?_⟩) (perm_append_singleton (k, v) l)
  rw [update_idem, ← hk, update_eq_self]
  exact h

theorem Lists.erase (h : Lists l f) (k : K) : Lists (l.filter (fun p => decide (p.1 ≠ k))) (update f k none) := by
  refine ⟨h.nodup.sublist (filter_sublist.map Prod.fst), fun k' v => ?_⟩
  rw [mem_filter, h.mem, decide_eq_true_eq]
  by_cases hkk : k' = k
  · subst hkk
    simp
  · rw [update_of_ne hkk]
    simp [hkk]

def rename (f : K → Option V) (old new : K) (v : V) : K → Option V :=
  update (update f old none) new (some v)

theorem Lists.set_iff (h : Lists l f) {i : Nat} {w : V} (hi : l[i]? = some (k, w)) {old new : K}
    {v : V} (hnew : new = old ∨ f new = none) : Lists (l.set i (new, v)) (rename f old new v) ↔ k = old := by
  obtain ⟨hlt, hget⟩ := List.getElem?_eq_some_iff.1 hi
  -- both lists are the rest of the list with one pair in front
  have hset : Lists (l.set i (new, v)) (rename f old new v) ↔ Lists ((new, v) :: l.eraseIdx i) (rename f old new v) :=
    ⟨fun h' => h'.perm (set_perm_cons_eraseIdx hlt _).symm, fun h' => h'.perm (set_perm_cons_eraseIdx hlt _)⟩
  have hrest : Lists ((k, w) :: l.eraseIdx i) f := h.perm (hget ▸ getElem_cons_eraseIdx_perm hlt)
  rw [hset]
  constructor
  · intro h'
    by_contra hne
    have hk := (Lists.cons_iff.1 hrest).1
    have hkn : k ≠ new := by
      rintro rfl
      rcases hnew with rfl | hnone
      · exact hne rfl
      · rw [hk] at hnone
        cases hnone
    -- the replaced name stays in the map but stands in the list no more
    have hmem : (k, w) ∈ (new, v) :: l.eraseIdx i := by
      rw [h'.mem, rename, update_of_ne hkn, update_of_ne hne]
      exact hk
    rcases mem_cons.1 hmem with heq | hmem
    · exact hkn (Prod.mk.inj heq).1
    · exact (nodup_cons.1 hrest.nodup).1 (mem_map_of_mem hmem)
  · rintro rfl
    refine Lists.cons_iff.2 ⟨update_self .., ?_⟩
    have hnone : update f k none new = none := by
      by_cases hkn : new = k
      · rw [hkn, update_self]
      · rw [update_of_ne hkn]
        exact hnew.resolve_left hkn
    rw [rename, update_idem, update_eq_self_iff.2 hnone.symm]
    exact (Lists.cons_iff.1 hrest).2

/-! ## Tables -/

def insertPair : List (K × V) → K → V → List (K × V)
  | [], k, v => [(k, v)]
  | p :: l, k, v => if p.1 = k then (k, v) :: l else p :: insertPair l k v

theorem mem_insertPair_keys {k' : K} {v : V} : k' ∈ (insertPair l k v).map Prod.fst ↔ k' = k ∨ k' ∈ l.map Prod.fst := by
  induction l with
  | nil => simp [insertPair]
  | cons p l ih =>
    unfold insertPair
    split
    · rename_i hp
      simp [hp]
    · rw [map_cons, mem_cons, ih, map_cons, mem_cons]
      exact or_left_comm

theorem nodup_insertPair (h : (l.map Prod.fst).Nodup) (k : K) (v : V) : ((insertPair l k v).map Prod.fst).Nodup := by
  induction l with
  | nil => simp [insertPair]
  | cons p l ih =>
    obtain ⟨hp, hl⟩ := nodup_cons.1 h
    unfold insertPair
    split
    · rename_i hk
      exact nodup_cons.2 ⟨hk ▸ hp, hl⟩
    rename_i hk
    refine nodup_cons.2 ⟨fun hmem => ?_, ih hl⟩
    rcases mem_insertPair_keys.1 hmem with heq | hmem
    · exact hk heq
    · exact hp hmem

theorem lookup_cons_if (k q : K) (w : V) (l : List (K × V)) : ((q, w) :: l).lookup k = if k = q then some w else l.lookup k := by
  rw [lookup_cons]
  split
  · rename_i hk
    rw [if_pos (beq_iff_eq.1 hk)]
  · rename_i hk
    rw [if_neg (beq_eq_false_iff_ne.1 hk)]

theorem lookup_of_not_mem (h : k ∉ l.map Prod.fst) : l.lookup k = none :=
  lookup_eq_none_iff.2 fun p hp => bne_iff_ne.2 fun hk => h (mem_map.2 ⟨p, hp, hk.symm⟩)

theorem lookup_insertPair (l : List (K × V)) (k k' : K) (v : V) :
    (insertPair l k v).lookup k' = if k' = k then some v else l.lookup k' := by
  induction l with
  | nil => rw [insertPair, lookup_cons_if]
  | cons p l ih =>
    obtain ⟨q, w⟩ := p
    rw [insertPair]
    by_cases hq : q = k
    · subst hq
      rw [if_pos rfl, lookup_cons_if, lookup_cons_if]
      by_cases hk : k' = q <;> simp [hk]
    rw [if_neg hq, lookup_cons_if, lookup_cons_if, ih]
    by_cases hk : k' = q
    · subst hk
      simp [hq]
    · simp [hk]

theorem mem_iff_lookup (h : (l.map Prod.fst).Nodup) {v : V} : (k, v) ∈ l ↔ l.lookup k = some v := by
  induction l with
  | nil => simp
  | cons p l ih =>
    obtain ⟨q, w⟩ := p
    obtain ⟨hq, hl⟩ := nodup_cons.1 h
    rw [mem_cons, lookup_cons_if, ih hl]
    by_cases hk : k = q
    · subst hk
      simp [lookup_of_not_mem hq, eq_comm]
    · simp [hk]

structure Table (K V : Type) where
  pairs : List (K × V)
  nodup : (pairs.map Prod.fst).Nodup

namespace Table

def empty : Table K V := ⟨[], nodup_nil⟩

def get? (t : Table K V) (k : K) : Option V := t.pairs.lookup k

def insert (t : Table K V) (k : K) (v : V) : Table K V := ⟨insertPair t.pairs k v, nodup_insertPair t.nodup k v⟩

theorem get?_insert (t : Table K V) (k k' : K) (v : V) : (t.insert k v).get? k' = if k' = k then some v else t.get? k' :=
  lookup_insertPair t.pairs k k' v

theorem mem_pairs_iff (t : Table K V) {k : K} {v : V} : (k, v) ∈ t.pairs ↔ t.get? k = some v := mem_iff_lookup t.nodup

def ofList (l : List (K × V)) : Table K V := l.foldl (fun t p => t.insert p.1 p.2) empty

theorem get?_ofList {l : List (K × V)} (h : (l.map Prod.fst).Nodup) (k : K) : (ofList l).get? k = l.lookup k := by
  have hfold : ∀ (l : List (K × V)) (t : Table K V), (l.map Prod.fst).Nodup →
      (l.foldl (fun t p => t.insert p.1 p.2) t).get? k = (l.lookup k).or (t.get? k) := by
    intro l
    induction l with
    | nil => exact fun t _ => rfl
    | cons p l ih =>
      obtain ⟨q, w⟩ := p
      intro t hnd
      obtain ⟨hq, hl⟩ := nodup_cons.1 hnd
      rw [foldl_cons, ih _ hl, get?_insert, lookup_cons_if]
      by_cases hk : k = q
      · subst hk
        simp [lookup_of_not_mem hq]
      · simp [hk]
  rw [ofList, hfold l empty h]
  exact Option.or_none

end Table

end

end Ferrowl
