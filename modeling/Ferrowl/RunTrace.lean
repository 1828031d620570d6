import Mathlib.Data.List.Induction
/-!
# RunTrace — runs of a labelled transition relation

A run of `step` is a list of labels with the states it starts and ends in.  What every step keeps, a run keeps (`Run.invariant`);
a relation that allows at most one successor has at most one run for a list of labels (`Run.det`).
-/
namespace Ferrowl

open List

section
variable {S A : Type} {step : S → A → S → Prop}

inductive Run (step : S → A → S → Prop) (s : S) : List A → S → Prop where
  | nil : Run step s [] s
  | snoc {as : List A} {t u : S} {a : A} (h : Run step s as t) (hs : step t a u) : Run step s (as ++ [a]) u

variable {I : S → Prop} {s t : S} {as : List A}

theorem Run.invariant (hstep : ∀ t a u, I t → step t a u → I u) (h : Run step s as t) (h0 : I s) : I t := by
  induction h with
  | nil => exact h0
  | snoc _ hs ih => exact hstep _ _ _ ih hs

theorem Run.of_nil (h : Run step s [] t) : s = t := by
  generalize has : ([] : List A) = as at h
  cases h with
  | nil => rfl
  | snoc => exact absurd has (by simp)

variable {a : A}

theorem Run.of_snoc {u : S} (h : Run step s (as ++ [a]) u) : ∃ t, Run step s as t ∧ step t a u := by
  generalize has : as ++ [a] = bs at h
  cases h with
  | nil => exact absurd has (by simp)
  | snoc h hs =>
    obtain ⟨rfl, ha⟩ := append_inj' has rfl
    cases ha
    exact ⟨_, h, hs⟩

theorem Run.det (hdet : ∀ t a u v, step t a u → step t a v → u = v) (h : Run step s as t) : ∀ {u}, Run step s as u → t = u := by
  induction h with
  | nil => exact fun h' => h'.of_nil
  | snoc _ hs ih =>
    intro u h'
    obtain ⟨v, hv, hs'⟩ := h'.of_snoc
    cases ih hv
    exact hdet _ _ _ _ hs hs'

theorem Run.exists_prefix (h : Run step s as t) {pre : List A} (hp : pre <+: as) : ∃ u, Run step s pre u := by
  induction h with
  | nil =>
    rw [prefix_nil.1 hp]
    exact ⟨s, Run.nil⟩
  | snoc h hs ih =>
    rcases prefix_concat_iff.1 hp with rfl | hp
    · exact ⟨_, h.snoc hs⟩
    · exact ih hp

variable {P : S → Prop} {C : S → A → Prop}

/-- **What a step keeps exactly under a condition holds after a run exactly when all its steps met the condition.** -/
theorem Run.iff_forall_prefix (hdet : ∀ t a u v, step t a u → step t a v → u = v) (hinv : ∀ t a u, I t → step t a u → I u)
    (hiff : ∀ t a u, I t → step t a u → (P u ↔ P t ∧ C t a)) (h : Run step s as t) (hI : I s)
    (hP : P s) : P t ↔ ∀ pre a u, pre ++ [a] <+: as → Run step s pre u → C u a := by
  induction h with
  | nil => exact ⟨fun _ pre a u hp _ => absurd (prefix_nil.1 hp) (by simp), fun _ => hP⟩
  | snoc h hs ih =>
    rw [hiff _ _ _ (h.invariant hinv hI) hs, ih]
    constructor
    · rintro ⟨hC, hlast⟩ pre a u hp hu
      rcases prefix_concat_iff.1 hp with he | hp
      · obtain ⟨rfl, ha⟩ := append_inj' he rfl
        cases ha
        cases Run.det hdet hu h
        exact hlast
      · exact hC pre a u hp hu
    · exact fun hC => ⟨fun pre a u hp => hC pre a u (hp.trans (prefix_append _ _)),
        hC _ _ _ (prefix_refl _) h⟩

/-- **What a step keeps exactly under a condition holds all along a run exactly when all its steps meet the condition.**  What
else the steps rely on, `I`, may itself rest on what is kept. -/
theorem Run.forall_prefix_iff (hdet : ∀ t a u v, step t a u → step t a v → u = v)
    (hinv : ∀ t a u, I t → P t → step t a u → P u → I u)
    (hiff : ∀ t a u, I t → P t → step t a u → (P u ↔ C t a)) (h : Run step s as t) (hI : I s) (hP : P s) :
    ((∀ pre u, pre <+: as → Run step s pre u → P u) ↔ ∀ pre a u, pre ++ [a] <+: as → Run step s pre u → C u a) ∧
      ((∀ pre u, pre <+: as → Run step s pre u → P u) → I t) := by
  induction h with
  | nil =>
    refine ⟨iff_of_true (fun pre u hp hu => ?_) (fun pre a u hp _ => absurd (prefix_nil.1 hp) (by simp)), fun _ => hI⟩
    cases prefix_nil.1 hp
    exact hu.of_nil ▸ hP
  | @snoc as t u a h hs ih =>
    have hext : as <+: as ++ [a] := prefix_append as [a]
    have hlast : ∀ {w}, Run step s (as ++ [a]) w → u = w := fun hw => (h.snoc hs).det hdet hw
    refine ⟨⟨fun hall => ?_, fun hall => ?_⟩, fun hall => ?_⟩
    · have hbefore := fun pre w (hp : pre <+: as) => hall pre w (hp.trans hext)
      intro pre b w hp hw
      rcases prefix_concat_iff.1 hp with he | hp
      · obtain ⟨rfl, hb⟩ := append_inj' he rfl
        cases hb
        cases h.det hdet hw
        exact (hiff _ _ _ (ih.2 hbefore) (hall _ _ hext h) hs).1 (hall _ _ (prefix_refl _) (h.snoc hs))
      · exact ih.1.1 hbefore pre b w hp hw
    · have hbefore := ih.1.2 fun pre b w hp => hall pre b w (hp.trans hext)
      intro pre w hp hw
      rcases prefix_concat_iff.1 hp with rfl | hp
      · cases hlast hw
        exact (hiff _ _ _ (ih.2 hbefore) (hbefore _ _ (prefix_refl _) h) hs).2 (hall _ _ _ (prefix_refl _) h)
      · exact hbefore pre w hp hw
    · have hbefore := fun pre w (hp : pre <+: as) => hall pre w (hp.trans hext)
      exact hinv _ _ _ (ih.2 hbefore) (hall _ _ hext h) hs (hall _ _ (prefix_refl _) (h.snoc hs))

theorem Run.invariant_of_steps (hstep : ∀ t a u, I t → C t a → step t a u → I u)
    (h : Run step s as t) (hC : ∀ pre a u, pre ++ [a] <+: as → Run step s pre u → C u a) (h0 : I s) : I t := by
  induction h with
  | nil => exact h0
  | snoc h hs ih =>
    exact hstep _ _ _ (ih fun pre a u hp => hC pre a u (hp.trans (prefix_append _ _)))
      (hC _ _ _ (prefix_refl _) h) hs

/-- A run took a step `a` from a state with `P`. -/
def Occurs (step : S → A → S → Prop) (s : S) (as : List A) (a : A) (P : S → Prop) : Prop :=
  ∃ pre u, pre ++ [a] <+: as ∧ Run step s pre u ∧ P u

theorem occurs_snoc (hdet : ∀ t a u v, step t a u → step t a v → u = v) {b : A}
    (h : Run step s as t) : Occurs step s (as ++ [b]) a P ↔ Occurs step s as a P ∨ b = a ∧ P t := by
  constructor
  · rintro ⟨pre, u, hp, hu, hP⟩
    rcases prefix_concat_iff.1 hp with he | hp
    · obtain ⟨rfl, ha⟩ := append_inj' he rfl
      cases ha
      exact Or.inr ⟨rfl, Run.det hdet hu h ▸ hP⟩
    · exact Or.inl ⟨pre, u, hp, hu, hP⟩
  · rintro (⟨pre, u, hp, hu, hP⟩ | ⟨rfl, hP⟩)
    · exact ⟨pre, u, hp.trans (prefix_append _ _), hu, hP⟩
    · exact ⟨as, t, prefix_refl _, h, hP⟩

variable {f : S → A → Option S}

theorem Run.of_foldlM (as : List A) (h : as.foldlM f s = some t) : Run (fun s a t => f s a = some t) s as t := by
  induction as using List.reverseRecOn generalizing t with
  | nil =>
    cases h
    exact Run.nil
  | append_singleton as a ih =>
    rw [foldlM_append, Option.bind_eq_bind, Option.bind_eq_some_iff] at h
    obtain ⟨u, hu, ha⟩ := h
    simp only [foldlM_cons, foldlM_nil, bind_pure] at ha
    exact (ih hu).snoc ha

theorem Run.not_of_stops (h : as.foldlM f s = some t) (ha : f t a = none) :
    ¬ ∃ u, Run (fun s a t => f s a = some t) s (as ++ [a]) u := by
  rintro ⟨u, hu⟩
  obtain ⟨v, hv, hs⟩ := hu.of_snoc
  cases (Run.of_foldlM as h).det (fun t a u v hu hv => Option.some.inj (hu.symm.trans hv)) hv
  exact absurd (ha.symm.trans hs) nofun

/-- **A step function that may stop goes on all along a list of labels, to states with `P`, exactly when all its steps meet the
condition under which one does.** -/
theorem Run.returns_iff (hiff : ∀ t a, I t → ((∃ u, f t a = some u ∧ P u) ↔ C t a))
    (hinv : ∀ t a u, I t → f t a = some u → P u → I u) (hI : I s) (hP : P s) (as : List A) :
    (∀ pre, pre <+: as → ∃ u, Run (fun s a t => f s a = some t) s pre u ∧ P u) ↔
      ∀ pre a u, pre ++ [a] <+: as → Run (fun s a t => f s a = some t) s pre u → C u a := by
  have hdet : ∀ t a u v, f t a = some u → f t a = some v → u = v := fun t a u v hu hv => Option.some.inj (hu.symm.trans hv)
  constructor
  · intro hall
    have hkeep : ∀ pre u, pre <+: as → Run (fun s a t => f s a = some t) s pre u → I u := by
      intro pre
      induction pre using List.reverseRecOn with
      | nil => exact fun u _ hu => hu.of_nil ▸ hI
      | append_singleton pre a ih =>
        intro u hp hu
        obtain ⟨t, ht, hs⟩ := hu.of_snoc
        obtain ⟨v, hv, hPv⟩ := hall _ hp
        cases hu.det hdet hv
        exact hinv t a u (ih t ((prefix_append pre [a]).trans hp) ht) hs hPv
    intro pre a u hp hu
    obtain ⟨w, hw, hPw⟩ := hall _ hp
    obtain ⟨t, ht, hs⟩ := hw.of_snoc
    cases ht.det hdet hu
    exact (hiff u a (hkeep pre u ((prefix_append pre [a]).trans hp) hu)).1 ⟨w, hs, hPw⟩
  · intro hC
    have hgo : ∀ pre, pre <+: as → ∃ u, Run (fun s a t => f s a = some t) s pre u ∧ P u ∧ I u := by
      intro pre
      induction pre using List.reverseRecOn with
      | nil => exact fun _ => ⟨s, Run.nil, hP, hI⟩
      | append_singleton pre a ih =>
        intro hp
        obtain ⟨t, ht, -, hIt⟩ := ih ((prefix_append pre [a]).trans hp)
        obtain ⟨u, hs, hPu⟩ := (hiff t a hIt).2 (hC pre a t hp ht)
        exact ⟨u, ht.snoc hs, hPu, hinv t a u hIt hs hPu⟩
    exact fun pre hp => (hgo pre hp).imp fun u hu => ⟨hu.1, hu.2.1⟩

theorem Run.of_foldl (f : S → A → S) (s : S) (as : List A) : Run (fun s a t => t = f s a) s as (as.foldl f s) := by
  induction as using List.reverseRecOn with
  | nil => exact Run.nil
  | append_singleton as a ih =>
    rw [foldl_append]
    exact ih.snoc rfl

theorem Run.forall_of_head (ha : C s a) (has : ∀ b ∈ as, ∀ u, C u b) (pre : List A) (b : A)
    (u : S) (hp : pre ++ [b] <+: a :: as) (hu : Run step s pre u) : C u b := by
  cases pre with
  | nil =>
    cases hu.of_nil
    cases (cons_prefix_cons.1 hp).1
    exact ha
  | cons c pre => exact has b ((cons_prefix_cons.1 hp).2.subset (by simp)) u

theorem Run.cons {u : S} (hs : step s a t) (h : Run step t as u) : Run step s (a :: as) u := by
  induction h with
  | nil => exact Run.nil.snoc hs
  | snoc _ hu ih => exact ih.snoc hu

theorem Run.of_cons {u : S} (h : Run step s (a :: as) u) : ∃ t, step s a t ∧ Run step t as u := by
  induction as using List.reverseRecOn generalizing u with
  | nil =>
    rw [← nil_append [a]] at h
    obtain ⟨t, ht, hs⟩ := h.of_snoc
    cases ht.of_nil
    exact ⟨u, hs, Run.nil⟩
  | append_singleton as b ih =>
    rw [← cons_append] at h
    obtain ⟨t, ht, hs⟩ := h.of_snoc
    obtain ⟨w, hw, hrun⟩ := ih ht
    exact ⟨w, hw, hrun.snoc hs⟩

theorem Run.forall_cons (hs : f s a = some t) (ha : C s a)
    (has : ∀ pre b u, pre ++ [b] <+: as → Run (fun s a t => f s a = some t) t pre u → C u b)
    (pre : List A) (b : A) (u : S) (hp : pre ++ [b] <+: a :: as) (hu : Run (fun s a t => f s a = some t) s pre u) : C u b := by
  cases pre with
  | nil =>
    cases hu.of_nil
    cases (cons_prefix_cons.1 hp).1
    exact ha
  | cons c pre =>
    obtain ⟨rfl, hrest⟩ := cons_prefix_cons.1 hp
    obtain ⟨w, hw, hrun⟩ := hu.of_cons
    cases hs.symm.trans hw
    exact has pre b u hrest hrun

theorem Run.forall_nil (pre : List A) (b : A) (u : S) (hp : pre ++ [b] <+: []) (_ : Run step s pre u) : C u b :=
  absurd (prefix_nil.1 hp) (by simp)

/-- **What a step function keeps exactly under a condition holds after every prefix of the labels exactly when every step meets
the condition.** -/
theorem forall_prefix_foldl_iff {f : S → A → S} (hiff : ∀ t a, P t → (P (f t a) ↔ C t a)) (hs : P s) (as : List A) :
    (∀ pre, pre <+: as → P (pre.foldl f s)) ↔ ∀ pre a, pre ++ [a] <+: as → C (pre.foldl f s) a := by
  constructor
  · intro hP pre a hp
    have hnext := hP (pre ++ [a]) hp
    rw [foldl_append] at hnext
    exact (hiff _ a (hP pre ((prefix_append pre [a]).trans hp))).1 hnext
  intro hC pre
  induction pre using List.reverseRecOn with
  | nil => exact fun _ => hs
  | append_singleton pre a ih =>
    intro hp
    rw [foldl_append]
    exact (hiff _ a (ih ((prefix_append pre [a]).trans hp))).2 (hC pre a hp)

/-- Every step of a step function along a list of labels meets a condition. -/
def Meets (f : S → A → S) (C : S → A → Prop) : S → List A → Prop
  | _, [] => True
  | s, a :: as => C s a ∧ Meets f C (f s a) as

theorem Meets.forall_prefix {f : S → A → S} (h : Meets f C s as) (pre : List A) (a : A) (u : S)
    (hp : pre ++ [a] <+: as) (hu : Run (fun s a t => t = f s a) s pre u) : C u a := by
  induction pre generalizing s as with
  | nil =>
    cases hu.of_nil
    obtain ⟨rest, rfl⟩ := hp
    exact h.1
  | cons b pre ih =>
    obtain ⟨rest, rfl⟩ := hp
    obtain ⟨t, rfl, hrun⟩ := hu.of_cons
    exact ih h.2 ⟨rest, rfl⟩ hrun

end

end Ferrowl
