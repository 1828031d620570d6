import Mathlib.Logic.ExistsUnique
/-!
# Ownership — a duty in one place, a lock with one holder

Two patterns of concurrent code.  `Baton`: a duty exists exactly while some condition holds, and then one place has it; the
lemmas are the ways a step may pass it on.  `Exclusive`: whoever is inside a critical section holds the lock.
-/
namespace Ferrowl

section
variable {D : Type} {H H' : D → Prop} {live live' : Prop} {a b : D}

/-- At most one place has the duty, and one has it exactly while it is live. -/
def Baton (H : D → Prop) (live : Prop) : Prop :=
  ∃ d : Option D, (∀ e, H e ↔ d = some e) ∧ (live ↔ d.isSome = true)

namespace Baton

theorem is_live (h : Baton H live) (ha : H a) : live := by
  obtain ⟨d, hd, hl⟩ := h
  rw [hl, (hd a).1 ha]
  rfl

theorem existsUnique (h : Baton H live) (hlive : live) : ∃! e, H e := by
  obtain ⟨d, hd, hl⟩ := h
  obtain ⟨e, rfl⟩ := Option.isSome_iff_exists.1 (hl.1 hlive)
  exact ⟨e, (hd e).2 rfl, fun e' he' => (Option.some.inj ((hd e').1 he')).symm⟩

theorem same (h : Baton H live) (hH : ∀ e, H' e ↔ H e) (hl : live' ↔ live) : Baton H' live' := by
  obtain ⟨d, hd, hlive⟩ := h
  exact ⟨d, fun e => (hH e).trans (hd e), hl.trans hlive⟩

theorem move (h : Baton H live) (ha : H a) (hH : ∀ e, H' e ↔ H e ∧ e ≠ a ∨ e = b) (hl : live' ↔ live) : Baton H' live' := by
  have hlive := h.is_live ha
  obtain ⟨d, hd, -⟩ := h
  refine ⟨some b, fun e => ?_, by simp [hl, hlive]⟩
  rw [hH, hd, (hd a).1 ha, Option.some.injEq, Option.some.injEq]
  exact ⟨fun h => h.elim (fun h => absurd h.1.symm h.2) Eq.symm, fun h => Or.inr h.symm⟩

theorem begin (h : Baton H live) (hn : ¬ live) (hH : ∀ e, H' e ↔ H e ∨ e = b) (hl : live') : Baton H' live' := by
  refine ⟨some b, fun e => ?_, by simp [hl]⟩
  rw [hH, Option.some.injEq]
  exact ⟨fun h' => h'.elim (fun he => absurd (h.is_live he) hn) Eq.symm, fun h' => Or.inr h'.symm⟩

theorem finish (h : Baton H live) (ha : H a) (hH : ∀ e, H' e ↔ H e ∧ e ≠ a) (hl : ¬ live') : Baton H' live' := by
  obtain ⟨d, hd, -⟩ := h
  refine ⟨none, fun e => ?_, by simp [hl]⟩
  rw [hH, hd, (hd a).1 ha, Option.some.injEq]
  exact ⟨fun h => absurd h.1.symm h.2, fun h => nomatch h⟩

end Baton

end

section
variable {P : Type} {G G' : P → Prop} {lock : Option P} {p q : P}

def Exclusive (G : P → Prop) (lock : Option P) : Prop := ∀ p, G p → lock = some p

namespace Exclusive

theorem eq (h : Exclusive G lock) (hp : G p) (hq : G q) : p = q := Option.some.inj ((h p hp).symm.trans (h q hq))

theorem mono (h : Exclusive G lock) (hG : ∀ q, G' q → G q) : Exclusive G' lock := fun q hq => h q (hG q hq)

theorem acquire (h : Exclusive G none) (hG : ∀ q, G' q → G q ∨ q = p) : Exclusive G' (some p) := fun q hq =>
  (hG q hq).elim (fun hq => nomatch h q hq) (fun hq => congrArg some hq.symm)

theorem release (h : Exclusive G lock) (hp : G p) (hG : ∀ q, G' q → G q ∧ q ≠ p) : Exclusive G' none := fun q hq =>
  absurd (h.eq (hG q hq).1 hp) (hG q hq).2

end Exclusive

end

end Ferrowl
