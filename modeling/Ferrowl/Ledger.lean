import Mathlib.Data.List.Perm.Basic
/-!
# Ledger — items that arrive in order and are each disposed of once

Items are numbered by their arrival.  At any time an item is sent, reported, waiting, or lost, and those sent or waiting stand in
the order of arrival (`Tracks`).
-/
namespace Ferrowl

open List

section
variable {α : Type}

/-- Every arrival is in exactly one of the four lists, and those sent or still to be sent are in order. -/
structure Tracks (arrivals : List α) (sent reported waiting lost : List (α × Nat)) : Prop where
  once : (sent ++ reported ++ waiting ++ lost).Perm arrivals.zipIdx
  inOrder : (sent ++ waiting).Pairwise (fun a b => a.2 < b.2)

namespace Tracks
variable {arrivals : List α} {sent reported waiting lost : List (α × Nat)}

theorem nil : Tracks ([] : List α) [] [] [] [] := ⟨List.Perm.refl _, List.Pairwise.nil⟩

theorem lt_length (h : Tracks arrivals sent reported waiting lost) {p : α × Nat} (hp : p ∈ sent ++ waiting) :
    p.2 < arrivals.length := by
  have hmem : p ∈ arrivals.zipIdx := h.once.mem_iff.1 (by simp only [mem_append] at hp ⊢; tauto)
  exact snd_lt_of_mem_zipIdx hmem

theorem park (h : Tracks arrivals sent reported waiting lost) (x : α) :
    Tracks (arrivals ++ [x]) sent reported (waiting ++ [(x, arrivals.length)]) lost where
  once := by
    rw [zipIdx_append, ← append_assoc, append_assoc _ _ lost]
    refine List.Perm.trans (List.Perm.append_left _ perm_append_comm) ?_
    rw [← append_assoc]
    simpa using h.once.append_right [(x, arrivals.length)]
  inOrder := by
    rw [← append_assoc]
    refine pairwise_append.2 ⟨h.inOrder, pairwise_singleton _ _, fun p hp q hq => ?_⟩
    rw [mem_singleton.1 hq]
    exact h.lt_length hp

theorem send {p : α × Nat} (h : Tracks arrivals sent reported (p :: waiting) lost) :
    Tracks arrivals (sent ++ [p]) reported waiting lost where
  once := by
    refine List.Perm.trans (List.Perm.append_right lost ?_) h.once
    rw [append_assoc, append_assoc, append_assoc, singleton_append]
    exact List.Perm.append_left _ perm_middle.symm
  inOrder := by
    rw [append_assoc]
    exact h.inOrder

theorem report (h : Tracks arrivals sent reported waiting lost) : Tracks arrivals sent (reported ++ waiting) [] lost where
  once := by
    rw [append_nil, ← append_assoc]
    exact h.once
  inOrder := by
    rw [append_nil]
    exact (pairwise_append.1 h.inOrder).1

theorem lose (h : Tracks arrivals sent reported waiting lost) : Tracks arrivals sent reported [] (waiting ++ lost) where
  once := by
    rw [append_nil, ← append_assoc]
    exact h.once
  inOrder := by
    rw [append_nil]
    exact (pairwise_append.1 h.inOrder).1

theorem lost_nil (h : Tracks arrivals sent reported waiting lost) (h' : Tracks arrivals sent reported waiting []) :
    lost = [] := by
  have hlen := (h.once.trans h'.once.symm).length_eq
  simp only [length_append, length_nil] at hlen
  exact length_eq_zero_iff.1 (by omega)

end Tracks

end

end Ferrowl
