import Mathlib.Data.List.Basic
/-!
# RunWalk — walking a cursor over sorted runs

A list of runs `s`, each the half-open interval `[lo s, hi s)`, is walked once from left to right with a cursor that starts at
`a` and must not pass `b`: a run that holds the cursor moves it to the run's end (or to `b`), any other run is passed over. 
`walkSegs` lists the pieces visited, `walkEnd` is where the cursor stops.
-/
namespace Ferrowl

open List

section
variable {σ : Type} (lo hi : σ → Nat)

def walkSegs : List σ → Nat → Nat → List (σ × Nat × Nat)
  | [], _, _ => []
  | s :: l, a, b =>
    if lo s ≤ a ∧ a < hi s ∧ a < b then (s, a, min b (hi s)) :: walkSegs l (min b (hi s)) b else walkSegs l a b

def walkEnd : List σ → Nat → Nat → Nat
  | [], a, _ => a
  | s :: l, a, b => if lo s ≤ a ∧ a < hi s ∧ a < b then walkEnd l (min b (hi s)) b else walkEnd l a b

theorem walkEnd_bounds : ∀ (l : List σ) (a b : Nat), a ≤ b → a ≤ walkEnd lo hi l a b ∧ walkEnd lo hi l a b ≤ b
  | [], a, b, h => by simp [walkEnd, h]
  | s :: l, a, b, h => by
    unfold walkEnd
    split
    · have := walkEnd_bounds l (min b (hi s)) b (Nat.min_le_left _ _)
      omega
    · exact walkEnd_bounds l a b h

theorem walkEnd_of_past : ∀ (l : List σ) (a b : Nat), (∀ s ∈ l, a < lo s) → walkEnd lo hi l a b = a
  | [], _, _, _ => rfl
  | s :: l, a, b, h => by
    have hs : a < lo s := h s mem_cons_self
    rw [walkEnd, if_neg (by omega)]
    exact walkEnd_of_past l a b (fun t ht => h t (mem_cons_of_mem _ ht))

theorem walkEnd_stuck : ∀ (l : List σ) (a b : Nat), l.Pairwise (fun s t => lo s ≤ lo t) → a ≤ b →
    walkEnd lo hi l a b = b ∨ ∀ s ∈ l, ¬ (lo s ≤ walkEnd lo hi l a b ∧ walkEnd lo hi l a b < hi s)
  | [], _, _, _, _ => Or.inr (by simp)
  | s :: l, a, b, hs, hab => by
    obtain ⟨hsl, hl⟩ := pairwise_cons.1 hs
    unfold walkEnd
    split
    · rename_i hc
      have hb := walkEnd_bounds lo hi l (min b (hi s)) b (Nat.min_le_left _ _)
      rcases walkEnd_stuck l (min b (hi s)) b hl (Nat.min_le_left _ _) with h | h
      · exact Or.inl h
      by_cases he : walkEnd lo hi l (min b (hi s)) b = b
      · exact Or.inl he
      refine Or.inr (fun t ht => ?_)
      rcases mem_cons.1 ht with rfl | ht
      · omega
      · exact h t ht
    rename_i hc
    have hb := walkEnd_bounds lo hi l a b hab
    rcases walkEnd_stuck l a b hl hab with h | h
    · exact Or.inl h
    by_cases hlo : a < lo s
    · -- sorted runs: nothing after `s` can hold the cursor either
      have hp := walkEnd_of_past lo hi l a b (fun t ht => Nat.lt_of_lt_of_le hlo (hsl t ht))
      refine Or.inr (fun t ht => ?_)
      rcases mem_cons.1 ht with rfl | ht
      · omega
      · exact h t ht
    by_cases he : walkEnd lo hi l a b = b
    · exact Or.inl he
    refine Or.inr (fun t ht => ?_)
    rcases mem_cons.1 ht with rfl | ht
    · omega
    · exact h t ht

theorem walkSegs_mem : ∀ (l : List σ) (a b : Nat) (s : σ) (x y : Nat), (s, x, y) ∈ walkSegs lo hi l a b →
    s ∈ l ∧ lo s ≤ x ∧ x < y ∧ y ≤ hi s ∧ a ≤ x ∧ y ≤ b
  | [], _, _, _, _, _, h => by simp [walkSegs] at h
  | t :: l, a, b, s, x, y, h => by
    unfold walkSegs at h
    split at h
    · rename_i hc
      rcases mem_cons.1 h with h | h
      · obtain ⟨rfl, rfl, rfl⟩ : s = t ∧ x = a ∧ y = min b (hi t) := by simpa using h
        refine ⟨mem_cons_self, ?_⟩
        omega
      · obtain ⟨hm, h⟩ := walkSegs_mem l (min b (hi t)) b s x y h
        refine ⟨mem_cons_of_mem _ hm, ?_⟩
        omega
    · obtain ⟨hm, h⟩ := walkSegs_mem l a b s x y h
      exact ⟨mem_cons_of_mem _ hm, h⟩

theorem walkSegs_tile : ∀ (l : List σ) (a b : Nat), a ≤ b →
    (walkSegs lo hi l a b).flatMap (fun q => List.range' q.2.1 (q.2.2 - q.2.1)) = List.range' a (walkEnd lo hi l a b - a)
  | [], a, b, _ => by simp [walkSegs, walkEnd]
  | s :: l, a, b, hab => by
    unfold walkSegs walkEnd
    split
    · rename_i hc
      have hb := walkEnd_bounds lo hi l (min b (hi s)) b (Nat.min_le_left _ _)
      rw [flatMap_cons, walkSegs_tile l (min b (hi s)) b (Nat.min_le_left _ _)]
      generalize walkEnd lo hi l (min b (hi s)) b = e at hb ⊢
      have hmid : a + (min b (hi s) - a) = min b (hi s) := by omega
      have happ := List.range'_append_1 (s := a) (m := min b (hi s) - a) (n := e - min b (hi s))
      rw [hmid] at happ
      show List.range' a (min b (hi s) - a) ++ List.range' (min b (hi s)) (e - min b (hi s)) = List.range' a (e - a)
      rw [happ]
      congr 1
      omega
    · exact walkSegs_tile l a b hab

theorem exists_walkSegs {l : List σ} {a b p : Nat} (hab : a ≤ b) (h : a ≤ p ∧ p < walkEnd lo hi l a b) :
    ∃ s x y, (s, x, y) ∈ walkSegs lo hi l a b ∧ x ≤ p ∧ p < y := by
  have hm : p ∈ List.range' a (walkEnd lo hi l a b - a) := by
    rw [mem_range'_1]; omega
  rw [← walkSegs_tile lo hi l a b hab, mem_flatMap] at hm
  obtain ⟨⟨s, x, y⟩, hq, hp⟩ := hm
  rw [mem_range'_1] at hp
  dsimp only at hp
  exact ⟨s, x, y, hq, by omega, by omega⟩

end

end Ferrowl
