import Ferrowl.PlannerCover
/-!
# PlannerBatches — what a batch reads

The batches of a group take in every register (`exists_batch`), and an address a batch reads belongs to a register or to an
explicit range (`mem_batch`): the gap cells are the explicit addresses no register backs (`mem_subtractSpans`,
`explicitReadCoverage_apart`).
-/
namespace Ferrowl.Modbus

open List Option

open Store (Range CellKind)
open Codec (Kind Register)

def Span.Has (s : Span) (x : Nat) : Prop := s.1 ≤ x ∧ x < s.2

/-! ## Merging and subtracting spans -/

theorem mem_mergeFrom : ∀ {last : Span} {spans : List Span} {m : Span} {x : Nat}, m ∈ mergeFrom last spans → m.Has x →
    last.Has x ∨ ∃ s ∈ spans, s.Has x
  | last, [], m, x, hm, hx => by
    obtain rfl := mem_singleton.1 hm
    exact Or.inl hx
  | last, s :: spans, m, x, hm, hx => by
    unfold mergeFrom at hm
    split at hm
    · rename_i hle
      rcases mem_mergeFrom hm hx with h | ⟨t, ht, h⟩
      · unfold Span.Has at h ⊢
        by_cases hlt : x < last.2
        · exact Or.inl ⟨h.1, hlt⟩
        · exact Or.inr ⟨s, mem_cons_self, by dsimp only at h; omega, by dsimp only at h; omega⟩
      · exact Or.inr ⟨t, mem_cons_of_mem s ht, h⟩
    · rcases mem_cons.1 hm with rfl | hm
      · exact Or.inl hx
      · rcases mem_mergeFrom hm hx with h | ⟨t, ht, h⟩
        · exact Or.inr ⟨s, mem_cons_self, h⟩
        · exact Or.inr ⟨t, mem_cons_of_mem s ht, h⟩

variable {spans : List Span}

theorem mem_mergeSpans {m : Span} {x : Nat} (hm : m ∈ mergeSpans spans) (hx : m.Has x) : ∃ s ∈ spans, s.Has x := by
  cases spans with
  | nil => cases hm
  | cons s spans =>
    rcases mem_mergeFrom hm hx with h | ⟨t, ht, h⟩
    · exact ⟨s, mem_cons_self, h⟩
    · exact ⟨t, mem_cons_of_mem s ht, h⟩

theorem mem_subtractSpans : ∀ {cur stop : Nat} {covered : List Span} {x : Nat}, cur ≤ x → x < stop →
    (∃ gap ∈ subtractSpans cur stop covered, x ∈ gap) ∨ ∃ c ∈ covered, c.Has x
  | cur, stop, [], x, h1, h2 => by
    refine Or.inl ⟨Range.new cur (stop - cur), ?_, ?_⟩
    · rw [subtractSpans, if_pos (by omega)]
      exact mem_singleton_self _
    · rw [Range.mem_def, Range.new_start, Range.new_stop]
      omega
  | cur, stop, c :: covered, x, h1, h2 => by
    unfold subtractSpans
    have tail : (∃ d ∈ covered, d.Has x) → ∃ d ∈ c :: covered, d.Has x :=
      fun ⟨d, hd, h⟩ => ⟨d, mem_cons_of_mem c hd, h⟩
    split
    · exact (mem_subtractSpans h1 h2).imp id tail
    rename_i hskip
    simp only
    by_cases hlo : x < c.1
    · -- before the span: the gap the loop pushes now
      have hgap : Range.new cur (c.1 - cur) ∈ (if c.1 > cur then [Range.new cur (c.1 - cur)] else []) := by
        rw [if_pos (by omega)]
        exact mem_singleton_self _
      have hx : x ∈ Range.new cur (c.1 - cur) := by
        rw [Range.mem_def, Range.new_start, Range.new_stop]
        omega
      split
      · exact Or.inl ⟨_, hgap, hx⟩
      · exact Or.inl ⟨_, mem_append_left _ hgap, hx⟩
    · by_cases hhi : x < c.2
      · exact Or.inr ⟨c, mem_cons_self, by omega, hhi⟩
      · rw [if_neg (by omega)]
        have ih : (∃ gap ∈ subtractSpans (max cur c.2) stop covered, x ∈ gap) ∨ _ := mem_subtractSpans (by omega) h2
        exact ih.imp (fun ⟨gap, hg, hx⟩ => ⟨gap, mem_append_right _ hg, hx⟩) tail

/-- What merging sorted spans gives: spans that do not touch, in order, which hold every address of the merged ones. -/
structure Merged (low : Nat) (has : Nat → Prop) (out : List Span) : Prop where
  apart : out.Pairwise (fun m m' => m.2 < m'.1)
  ordered : ∀ m ∈ out, low ≤ m.1 ∧ m.1 ≤ m.2
  holds : ∀ x, has x → ∃ m ∈ out, m.Has x

theorem mergeFrom_merged : ∀ {last : Span} {spans : List Span}, last.1 ≤ last.2 →
    (∀ s ∈ spans, last.1 ≤ s.1 ∧ s.1 ≤ s.2) → spans.Pairwise (fun s t => s.1 ≤ t.1) →
    Merged last.1 (fun x => last.Has x ∨ ∃ s ∈ spans, s.Has x) (mergeFrom last spans)
  | last, [], hlast, _, _ => by
    refine ⟨pairwise_singleton _ _, fun m hm => ?_, fun x hx => ?_⟩
    · obtain rfl := mem_singleton.1 hm
      exact ⟨Nat.le_refl _, hlast⟩
    · rcases hx with hx | ⟨s, hs, -⟩
      · exact ⟨last, mem_singleton_self _, hx⟩
      · cases hs
  | last, s :: spans, hlast, hspans, hsort => by
    obtain ⟨hhead, htail⟩ := pairwise_cons.1 hsort
    obtain ⟨hs1, hs2⟩ := hspans s mem_cons_self
    have hrest : ∀ t ∈ spans, last.1 ≤ t.1 ∧ t.1 ≤ t.2 := fun t ht => hspans t (mem_cons_of_mem s ht)
    unfold mergeFrom
    split
    · rename_i htouch
      have hlast' : (last.1, max last.2 s.2).1 ≤ (last.1, max last.2 s.2).2 := Nat.le_trans hlast (Nat.le_max_left _ _)
      have ih := mergeFrom_merged hlast' hrest htail
      refine ⟨ih.apart, ih.ordered, fun x hx => ih.holds x ?_⟩
      have hgrow : ∀ t : Span, last.1 ≤ t.1 → t.2 ≤ max last.2 s.2 → t.Has x → Span.Has (last.1, max last.2 s.2) x :=
        fun t h1 h2 ht => ⟨Nat.le_trans h1 ht.1, Nat.lt_of_lt_of_le ht.2 h2⟩
      rcases hx with hx | ⟨t, ht, hx⟩
      · exact Or.inl (hgrow last (Nat.le_refl _) (Nat.le_max_left _ _) hx)
      · rcases mem_cons.1 ht with rfl | ht
        · exact Or.inl (hgrow t hs1 (Nat.le_max_right _ _) hx)
        · exact Or.inr ⟨t, ht, hx⟩
    rename_i hgap
    have ih := mergeFrom_merged hs2 (fun t ht => ⟨hhead t ht, (hrest t ht).2⟩) htail
    refine ⟨pairwise_cons.2 ⟨fun m hm => ?_, ih.apart⟩, fun m hm => ?_, fun x hx => ?_⟩
    · have := (ih.ordered m hm).1
      omega
    · rcases mem_cons.1 hm with rfl | hm
      · exact ⟨Nat.le_refl _, hlast⟩
      · exact ⟨Nat.le_trans hs1 (ih.ordered m hm).1, (ih.ordered m hm).2⟩
    rcases hx with hx | ⟨t, ht, hx⟩
    · exact ⟨last, mem_cons_self, hx⟩
    have hin : s.Has x ∨ ∃ t ∈ spans, t.Has x := by
      rcases mem_cons.1 ht with rfl | ht
      · exact Or.inl hx
      · exact Or.inr ⟨t, ht, hx⟩
    obtain ⟨m, hm, hmx⟩ := ih.holds x hin
    exact ⟨m, mem_cons_of_mem last hm, hmx⟩

theorem mergeSpans_merged (hspans : ∀ s ∈ spans, s.1 ≤ s.2) (hsort : spans.Pairwise (fun s t => s.1 ≤ t.1)) :
    Merged 0 (fun x => ∃ s ∈ spans, s.Has x) (mergeSpans spans) := by
  cases spans with
  | nil => exact ⟨List.Pairwise.nil, nofun, fun x ⟨s, hs, _⟩ => nomatch hs⟩
  | cons s spans =>
    obtain ⟨hhead, htail⟩ := pairwise_cons.1 hsort
    have h := mergeFrom_merged (hspans s mem_cons_self)
      (fun t ht => ⟨hhead t ht, hspans t (mem_cons_of_mem s ht)⟩) htail
    refine ⟨h.apart, fun m hm => ⟨Nat.zero_le _, (h.ordered m hm).2⟩, fun x ⟨t, ht, hx⟩ => h.holds x ?_⟩
    rcases mem_cons.1 ht with rfl | ht
    · exact Or.inl hx
    · exact Or.inr ⟨t, ht, hx⟩

theorem subtractSpans_apart : ∀ {cur stop : Nat} {covered : List Span}, covered.Pairwise (fun m m' => m.2 < m'.1) →
    (∀ c ∈ covered, c.1 ≤ c.2) → ∀ gap ∈ subtractSpans cur stop covered, ∀ x ∈ gap, cur ≤ x ∧ x < stop ∧ ∀ c ∈ covered, ¬ c.Has x
  | cur, stop, [], _, _, gap, hgap, x, hx => by
    unfold subtractSpans at hgap
    split at hgap
    · obtain rfl := mem_singleton.1 hgap
      rw [Range.mem_def, Range.new_start, Range.new_stop] at hx
      exact ⟨hx.1, by omega, nofun⟩
    · cases hgap
  | cur, stop, c :: covered, hapart, hle, gap, hgap, x, hx => by
    obtain ⟨hhead, htail⟩ := pairwise_cons.1 hapart
    have hc := hle c mem_cons_self
    have hle' : ∀ d ∈ covered, d.1 ≤ d.2 := fun d hd => hle d (mem_cons_of_mem c hd)
    have hcons : ¬ c.Has x → (∀ d ∈ covered, ¬ d.Has x) → ∀ d ∈ c :: covered, ¬ d.Has x := by
      intro h1 h2 d hd
      rcases mem_cons.1 hd with rfl | hd
      · exact h1
      · exact h2 d hd
    unfold subtractSpans at hgap
    split at hgap
    · rename_i hskip
      obtain ⟨h1, h2, h3⟩ := subtractSpans_apart htail hle' gap hgap x hx
      exact ⟨h1, h2, hcons (fun h => by unfold Span.Has at h; omega) h3⟩
    rename_i hmeet
    simp only at hgap
    -- the gap before the span, or one after it
    have hbefore : gap ∈ (if c.1 > cur then [Range.new cur (c.1 - cur)] else []) →
        cur ≤ x ∧ x < stop ∧ ∀ d ∈ c :: covered, ¬ d.Has x := by
      intro hg
      split at hg
      · obtain rfl := mem_singleton.1 hg
        rw [Range.mem_def, Range.new_start, Range.new_stop] at hx
        refine ⟨hx.1, by omega, hcons (fun h => by unfold Span.Has at h; omega) (fun d hd h => ?_)⟩
        have := hhead d hd
        unfold Span.Has at h
        omega
      · cases hg
    split at hgap
    · exact hbefore hgap
    rcases mem_append.1 hgap with hg | hg
    · exact hbefore hg
    · obtain ⟨h1, h2, h3⟩ := subtractSpans_apart htail hle' gap hg x hx
      exact ⟨by omega, h2, hcons (fun h => by unfold Span.Has at h; omega) h3⟩

theorem subtractSpans_ascending : ∀ (cur stop : Nat) {covered : List Span}, (∀ c ∈ covered, c.1 ≤ c.2) →
    (∀ gap ∈ subtractSpans cur stop covered, cur ≤ gap.start ∧ gap.start < gap.stop) ∧
      (subtractSpans cur stop covered).Pairwise fun g h => g.stop ≤ h.start
  | cur, stop, [], _ => by
    unfold subtractSpans
    split
    · exact ⟨forall_mem_singleton.2 ⟨Nat.le_refl _, by simp only [Range.new_start, Range.new_stop]; omega⟩,
        pairwise_singleton _ _⟩
    · exact ⟨nofun, List.Pairwise.nil⟩
  | cur, stop, c :: covered, hle => by
    obtain ⟨hc, hle⟩ := forall_mem_cons.1 hle
    obtain ⟨hin, hpair⟩ := subtractSpans_ascending (max cur c.2) stop hle
    -- the gap before `c` ends where `c` starts, and the ones after it start where `c` ends or later
    have hgap : ∀ gap ∈ (if c.1 > cur then [Range.new cur (c.1 - cur)] else []),
        cur ≤ gap.start ∧ gap.start < gap.stop ∧ gap.stop ≤ c.2 := by
      split
      · exact forall_mem_singleton.2 (by simp only [Range.new_start, Range.new_stop]; omega)
      · exact nofun
    have hone : (if c.1 > cur then [Range.new cur (c.1 - cur)] else []).Pairwise fun g h => g.stop ≤ h.start := by
      split
      · exact pairwise_singleton _ _
      · exact List.Pairwise.nil
    have hfirst := fun gap hg => (⟨(hgap gap hg).1, (hgap gap hg).2.1⟩ : cur ≤ gap.start ∧ gap.start < gap.stop)
    unfold subtractSpans
    dsimp only
    split
    · exact subtractSpans_ascending cur stop hle
    split
    · exact ⟨hfirst, hone⟩
    refine ⟨forall_mem_append.2 ⟨hfirst, fun gap hg => ?_⟩, pairwise_append.2 ⟨hone, hpair, fun g hg h hh => ?_⟩⟩
    · have := hin gap hg
      omega
    · have := (hgap g hg).2.2
      have := (hin h hh).1
      omega

/-- **Merging and subtracting spans are set operations.**  Spans sorted by their start merge into ascending spans that do not
touch and hold the same addresses; what such spans leave of a window is a list of ascending, disjoint, non-empty ranges. -/
theorem span_interval_algebra (spans covered : List Span) (hspans : ∀ s ∈ spans, s.1 ≤ s.2)
    (hsort : spans.Pairwise fun s t => s.1 ≤ t.1) (hcovered : ∀ c ∈ covered, c.1 ≤ c.2)
    (hapart : covered.Pairwise fun c d => c.2 < d.1) (start stop : Nat) :
    ((∀ m ∈ mergeSpans spans, m.1 ≤ m.2) ∧ ((mergeSpans spans).Pairwise fun m m' => m.2 < m'.1) ∧
      ∀ x, (∃ m ∈ mergeSpans spans, m.Has x) ↔ ∃ s ∈ spans, s.Has x) ∧
    (∀ gap ∈ subtractSpans start stop covered, gap.start < gap.stop) ∧
    ((subtractSpans start stop covered).Pairwise fun g h => g.stop ≤ h.start) ∧
    ∀ x, (∃ gap ∈ subtractSpans start stop covered, x ∈ gap) ↔ (start ≤ x ∧ x < stop) ∧ ∀ c ∈ covered, ¬ c.Has x := by
  have hmerged := mergeSpans_merged hspans hsort
  have hgaps := subtractSpans_ascending start stop hcovered
  refine ⟨⟨fun m hm => (hmerged.ordered m hm).2, hmerged.apart, fun x => ⟨fun ⟨m, hm, hx⟩ => mem_mergeSpans hm hx,
    hmerged.holds x⟩⟩, fun gap hg => (hgaps.1 gap hg).2, hgaps.2, fun x => ⟨fun ⟨gap, hg, hx⟩ => ?_, fun ⟨hx, hfree⟩ => ?_⟩⟩
  · obtain ⟨h1, h2, hfree⟩ := subtractSpans_apart hapart hcovered gap hg x hx
    exact ⟨⟨h1, h2⟩, hfree⟩
  · rcases mem_subtractSpans hx.1 hx.2 with hgap | ⟨c, hc, hcx⟩
    · exact hgap
    · exact absurd hcx (hfree c hc)

theorem span_interval_algebra_overlapping : mergeSpans [(0, 4), (1, 2), (4, 6), (8, 8)] = [(0, 6), (8, 8)] ∧
    ∀ x, (∃ gap ∈ subtractSpans 2 12 [(0, 6), (8, 8)], x ∈ gap) ↔
      (2 ≤ x ∧ x < 12) ∧ ∀ c : Span, c ∈ [(0, 6), (8, 8)] → ¬ c.Has x :=
  ⟨by decide, (span_interval_algebra [(0, 4), (1, 2), (4, 6), (8, 8)] [(0, 6), (8, 8)] (by decide) (by decide) (by decide)
    (by decide) 2 12).2.2.2⟩

/-! ## The grouping loop -/

/-- What the grouping loop knows after the spans of `done`: the bounds of a window are the least start and greatest end
of spans that fall into it, and hold each of them. -/
structure Assigned (windows done : List Span) (st : List (Option Span) × List Span) : Prop where
  size : st.1.length = windows.length
  ends : ∀ i b, st.1[i]? = some (some b) → ∃ s ∈ done, ∃ t ∈ done,
    windowOf windows s = some i ∧ windowOf windows t = some i ∧ b = (s.1, t.2)
  holds : ∀ s ∈ done, ∀ i, windowOf windows s = some i → ∃ b, st.1[i]? = some (some b) ∧ b.1 ≤ s.1 ∧ s.2 ≤ b.2
  rest : ∀ s, s ∈ st.2 ↔ s ∈ done ∧ windowOf windows s = none

theorem Assigned.init (windows : List Span) : Assigned windows [] (List.replicate windows.length none, []) where
  size := length_replicate
  ends i b h := by
    rw [List.getElem?_replicate] at h
    split at h <;> cases h
  holds s hs := nomatch hs
  rest s := by simp

def growBounds (s : Span) (b : Option Span) : Option Span :=
  let b := b.getD s
  some (min b.1 s.1, max b.2 s.2)

variable {windows : List Span} {st : List (Option Span) × List Span} {s : Span}

theorem assignSpan_some {i : Nat} (h : windowOf windows s = some i) :
    assignSpan windows st s = (st.1.modify i (growBounds s), st.2) := by
  unfold assignSpan
  rw [h]
  rfl

theorem assignSpan_none (h : windowOf windows s = none) : assignSpan windows st s = (st.1, st.2 ++ [s]) := by
  unfold assignSpan
  rw [h]

theorem windowOf_lt {i : Nat} (h : windowOf windows s = some i) : i < windows.length := by
  unfold windowOf at h
  rw [List.findIdx?_eq_some_iff_getElem] at h
  exact h.1

theorem Assigned.leave {done : List Span} (h : Assigned windows done st)
    (hw : windowOf windows s = none) : Assigned windows (done ++ [s]) (st.1, st.2 ++ [s]) := by
  refine ⟨h.size, fun i b hb => ?_, fun t ht i hi => ?_, fun t => ?_⟩
  · obtain ⟨u, hu, v, hv, hb⟩ := h.ends i b hb
    exact ⟨u, mem_append_left _ hu, v, mem_append_left _ hv, hb⟩
  · rcases mem_append.1 ht with ht | ht
    · exact h.holds t ht i hi
    · rw [mem_singleton.1 ht, hw] at hi
      cases hi
  rw [mem_append, h.rest, mem_append, mem_singleton]
  constructor
  · rintro (⟨ht, hn⟩ | rfl)
    · exact ⟨Or.inl ht, hn⟩
    · exact ⟨Or.inr rfl, hw⟩
  · rintro ⟨ht | ht, hn⟩
    · exact Or.inl ⟨ht, hn⟩
    · exact Or.inr ht

theorem growBounds_ends {p : Span → Prop} {b : Span} {o : Option Span} (hs : p s)
    (ho : ∀ b, o = some b → ∃ u v, p u ∧ p v ∧ b = (u.1, v.2)) (h : growBounds s o = some b) :
    ∃ u v, p u ∧ p v ∧ b = (u.1, v.2) := by
  cases o with
  | none =>
    cases h
    exact ⟨s, s, hs, hs, by simp⟩
  | some b0 =>
    obtain ⟨u, v, hu, hv, rfl⟩ := ho b0 rfl
    cases h
    rcases Nat.le_total u.1 s.1 with h1 | h1 <;> rcases Nat.le_total v.2 s.2 with h2 | h2 <;>
      simp only [getD_some, Nat.min_eq_left, Nat.min_eq_right, Nat.max_eq_left, Nat.max_eq_right, h1, h2]
    · exact ⟨u, s, hu, hs, rfl⟩
    · exact ⟨u, v, hu, hv, rfl⟩
    · exact ⟨s, s, hs, hs, rfl⟩
    · exact ⟨s, v, hs, hv, rfl⟩

theorem Assigned.grow {done : List Span} (h : Assigned windows done st) {k : Nat} (hw : windowOf windows s = some k) :
    Assigned windows (done ++ [s]) (st.1.modify k (growBounds s), st.2) := by
  have hold : ∀ {t}, t ∈ done → t ∈ done ++ [s] := fun ht => List.mem_append_left _ ht
  have hnew : s ∈ done ++ [s] := List.mem_append_right _ (List.mem_singleton_self s)
  have hk : k < st.1.length := h.size ▸ windowOf_lt hw
  refine ⟨by rw [List.length_modify]; exact h.size, fun i b hb => ?_, fun t ht i hi => ?_, fun t => ?_⟩
  · rw [List.getElem?_modify] at hb
    obtain ⟨o, ho, hgrown⟩ := Option.map_eq_some_iff.1 hb
    split at hgrown
    · rename_i hki
      subst hki
      have hends : ∀ b, o = some b → ∃ u v : Span, (u ∈ done ++ [s] ∧ windowOf windows u = some k) ∧
          (v ∈ done ++ [s] ∧ windowOf windows v = some k) ∧ b = (u.1, v.2) := by
        rintro b rfl
        obtain ⟨u, hu, v, hv, hwu, hwv, hb⟩ := h.ends k b ho
        exact ⟨u, v, ⟨hold hu, hwu⟩, ⟨hold hv, hwv⟩, hb⟩
      obtain ⟨u, v, ⟨hu, hwu⟩, ⟨hv, hwv⟩, hb⟩ := growBounds_ends ⟨hnew, hw⟩ hends hgrown
      exact ⟨u, hu, v, hv, hwu, hwv, hb⟩
    · obtain ⟨u, hu, v, hv, hb⟩ := h.ends i b (ho.trans (congrArg some hgrown))
      exact ⟨u, hold hu, v, hold hv, hb⟩
  · rw [List.getElem?_modify]
    rcases List.mem_append.1 ht with ht | ht
    · obtain ⟨b, hb, h1, h2⟩ := h.holds t ht i hi
      rw [hb]
      by_cases hki : k = i
      · refine ⟨_, by rw [Option.map_eq_map, Option.map_some, if_pos hki]; rfl, ?_, ?_⟩ <;>
          simp only [Option.getD_some] <;> omega
      · exact ⟨b, by rw [Option.map_eq_map, Option.map_some, if_neg hki], h1, h2⟩
    · obtain rfl := List.mem_singleton.1 ht
      obtain rfl : k = i := Option.some.inj (hw.symm.trans hi)
      obtain ⟨o, ho⟩ : ∃ o, st.1[k]? = some o := ⟨_, List.getElem?_eq_getElem hk⟩
      refine ⟨_, by rw [ho, Option.map_eq_map, Option.map_some, if_pos rfl]; rfl, ?_, ?_⟩ <;> simp only <;> omega
  · rw [h.rest, List.mem_append, List.mem_singleton]
    constructor
    · exact fun ⟨ht, hn⟩ => ⟨Or.inl ht, hn⟩
    rintro ⟨ht | rfl, hn⟩
    · exact ⟨ht, hn⟩
    · rw [hw] at hn
      cases hn

theorem Assigned.step {done : List Span} (h : Assigned windows done st) (s : Span) :
    Assigned windows (done ++ [s]) (assignSpan windows st s) := by
  cases hw : windowOf windows s with
  | none =>
    rw [assignSpan_none hw]
    exact h.leave hw
  | some k =>
    rw [assignSpan_some hw]
    exact h.grow hw

theorem Assigned.foldl : ∀ (spans done : List Span) {st : List (Option Span) × List Span},
    Assigned windows done st → Assigned windows (done ++ spans) (spans.foldl (assignSpan windows) st)
  | [], done, st, h => by simpa using h
  | s :: spans, done, st, h => by
    have := Assigned.foldl spans (done ++ [s]) (h.step s)
    rwa [append_assoc] at this

/-! ## Batches -/

def windowsOf (explicit : List Range) : List Span :=
  mergeSpans (sortSpans (explicit.map (fun r => (r.start, r.stop))))

theorem windowOf_some {i : Nat} (h : windowOf windows s = some i) : ∃ w, windows[i]? = some w ∧ s.1 < w.2 ∧ w.1 < s.2 := by
  obtain ⟨hi, hw, -⟩ := List.findIdx?_eq_some_iff_getElem.1 h
  simp only [Bool.and_eq_true, decide_eq_true_eq] at hw
  exact ⟨windows[i], List.getElem?_eq_getElem hi, hw⟩

variable {explicit : List Range}

theorem mem_batchesOf {b : Span} (h : b ∈ batchesOf explicit spans) :
    b ∈ spans ∨ ∃ s ∈ spans, ∃ t ∈ spans, b = (s.1, t.2) ∧ ∃ w ∈ windowsOf explicit, w.1 < s.2 ∧ t.1 < w.2 := by
  unfold batchesOf at h
  split at h
  · exact Or.inl h
  have ha := Assigned.foldl spans [] (Assigned.init (windowsOf explicit))
  simp only [mem_sortSpans, mem_append, mem_filterMap, id_eq, exists_eq_right] at h
  rcases h with h | h
  · obtain ⟨i, hi⟩ := List.getElem?_of_mem h
    obtain ⟨s, hs, t, ht, hws, hwt, rfl⟩ := ha.ends i b hi
    obtain ⟨w, hw, -, h1⟩ := windowOf_some hws
    obtain ⟨w', hw', h2, -⟩ := windowOf_some hwt
    cases hw.symm.trans hw'
    exact Or.inr ⟨s, hs, t, ht, rfl, w, mem_of_getElem? hw, h1, h2⟩
  · exact Or.inl ((ha.rest b).1 h).1

theorem mem_batch {b : Span} {x : Nat} (h : b ∈ batchesOf explicit spans) (hx : b.Has x) :
    (∃ s ∈ spans, s.Has x) ∨ ∃ r ∈ explicit, x ∈ r := by
  rcases mem_batchesOf h with hb | ⟨s, hs, t, ht, rfl, w, hw, h1, h2⟩
  · exact Or.inl ⟨b, hb, hx⟩
  unfold Span.Has at hx
  by_cases hxs : x < s.2
  · exact Or.inl ⟨s, hs, hx.1, hxs⟩
  by_cases hxt : t.1 ≤ x
  · exact Or.inl ⟨t, ht, hxt, hx.2⟩
  · obtain ⟨m, hm, hmx⟩ := mem_mergeSpans hw (show w.Has x from ⟨by omega, by omega⟩)
    obtain ⟨r, hr, rfl⟩ := mem_map.1 (mem_sortSpans.1 hm)
    exact Or.inr ⟨r, hr, Range.mem_def.2 hmx⟩

theorem exists_batch (hs : s ∈ spans) : ∃ b ∈ batchesOf explicit spans, b.1 ≤ s.1 ∧ s.2 ≤ b.2 := by
  unfold batchesOf
  split
  · exact ⟨s, hs, Nat.le_refl _, Nat.le_refl _⟩
  have ha := Assigned.foldl spans [] (Assigned.init (windowsOf explicit))
  simp only [mem_sortSpans, mem_append, mem_filterMap, id_eq, exists_eq_right]
  cases hw : windowOf (windowsOf explicit) s with
  | none => exact ⟨s, Or.inr ((ha.rest s).2 ⟨hs, hw⟩), Nat.le_refl _, Nat.le_refl _⟩
  | some i =>
    obtain ⟨b, hb, h1, h2⟩ := ha.holds s hs i hw
    exact ⟨b, Or.inl (mem_of_getElem? hb), h1, h2⟩

/-! ## What a plan reads, and the gap cells -/

theorem fromSlaveFn_functionCode (slave : UnitId) (kind : Kind) :
    SlaveKey.fromSlaveFn slave (functionCode kind) = ⟨slave, kind⟩ := by
  cases kind <;> rfl

variable {registers : List Register} {readRanges : ReadRanges}

/-- **Where an address of a request comes from**: it belongs to a readable register of the group the request is made for, or to
an explicit range of its table. -/
theorem mem_operation {ops : List Operation}
    (h : buildReadOperations registers readRanges = some ops) {op : Operation} (hop : op ∈ ops) :
    ∃ r ∈ registers, (readableSpan false r).isSome ∧ op.slaveId = r.slaveId ∧ op.fnCode = functionCode r.kind ∧
      op.range.start < op.range.stop ∧ ∀ x ∈ op.range,
        (∃ q ∈ registers, q.slaveId = r.slaveId ∧ q.kind = r.kind ∧ ∃ s, readableSpan false q = some s ∧ s.Has x) ∨
          ∃ range ∈ readRanges.rangesFor r.kind, x ∈ range := by
  obtain ⟨r, hr, hread, rops, hrops, hop⟩ := (mem_buildReadOperations h op).1 hop
  obtain ⟨b, hb, cuts, hcuts, c, hc, rfl⟩ := (mem_groupOperations hrops op).1 hop
  obtain ⟨h1, h2, h3⟩ := cutBatch_within _ hcuts c hc
  refine ⟨r, hr, hread, rfl, rfl, ?_, fun x hx => ?_⟩
  · simp only [Range.new_start, Range.new_stop]
    omega
  simp only [Range.mem_def, Range.new_start, Range.new_stop] at hx
  refine (mem_batch hb (show b.Has x from ⟨by omega, by omega⟩)).imp (fun ⟨s, hs, hsx⟩ => ?_) id
  obtain ⟨q, hq, hslave, hkind, hqs⟩ := mem_spansFor.1 (mem_sortSpans.1 hs)
  exact ⟨q, hq, hslave, hkind, s, hqs, hsx⟩

theorem mem_explicitReadCoverage {r : Register} (hr : r ∈ registers) (hread : (readableSpan true r).isSome) {range : Range}
    (hrange : range ∈ readRanges.rangesFor r.kind) {x : Nat} (hx : x ∈ range) :
    (∃ gap ∈ explicitReadCoverage registers readRanges, gap.1 = ⟨r.slaveId, r.kind⟩ ∧ x ∈ gap.2.2) ∨
      ∃ q ∈ registers, q.slaveId = r.slaveId ∧ q.kind = r.kind ∧ ∃ s, readableSpan true q = some s ∧ s.Has x := by
  have hg := mem_groupReadableSpans.2 ⟨r, hr, hread, rfl⟩
  have hsub : (∃ gap ∈ subtractSpans range.start range.stop
      (mergeSpans (sortSpans (spansFor true registers r.slaveId r.kind))), x ∈ gap) ∨ _ := mem_subtractSpans hx.1 hx.2
  rcases hsub with ⟨gap, hgap, hxg⟩ | ⟨c, hc, hxc⟩
  · refine Or.inl ⟨(⟨r.slaveId, r.kind⟩, CellKind.read (cellTypeOf r.kind), gap), ?_, rfl, hxg⟩
    unfold explicitReadCoverage
    refine List.mem_flatMap.2 ⟨_, hg, ?_⟩
    rw [if_neg (by simp only [List.isEmpty_iff]; exact List.ne_nil_of_mem hrange)]
    exact List.mem_flatMap.2 ⟨range, hrange, List.mem_map_of_mem hgap⟩
  · obtain ⟨s, hs, hxs⟩ := mem_mergeSpans hc hxc
    obtain ⟨q, hq, hslave, hkind, hqs⟩ := mem_spansFor.1 (mem_sortSpans.1 hs)
    exact Or.inr ⟨q, hq, hslave, hkind, s, hqs, hxs⟩

def Span.Le (s t : Span) : Prop := s.1 < t.1 ∨ (s.1 = t.1 ∧ s.2 ≤ t.2)

instance : DecidableRel Span.Le := fun s t => inferInstanceAs (Decidable (s.1 < t.1 ∨ (s.1 = t.1 ∧ s.2 ≤ t.2)))

theorem sorted_sortSpans (spans : List Span) : (sortSpans spans).Pairwise Span.Le := by
  have : Std.Total Span.Le := ⟨fun s t => by unfold Span.Le; omega⟩
  have : IsTrans Span Span.Le := ⟨fun s t u h1 h2 => by unfold Span.Le at *; omega⟩
  exact pairwise_insertionSort Span.Le spans

theorem explicitReadCoverage_apart {gap : SlaveKey × CellKind × Range} (h : gap ∈ explicitReadCoverage registers readRanges) :
    gap.2.1 = CellKind.read (cellTypeOf gap.1.kind) ∧ ∀ x ∈ gap.2.2, ∀ q ∈ registers, q.slaveId = gap.1.slaveId →
      q.kind = gap.1.kind → ∀ s, readableSpan true q = some s → ¬ s.Has x := by
  unfold explicitReadCoverage at h
  obtain ⟨g, hg, h⟩ := mem_flatMap.1 h
  obtain ⟨r, hr, -, rfl⟩ := mem_groupReadableSpans.1 hg
  simp only at h
  split at h
  · cases h
  obtain ⟨range, -, h⟩ := mem_flatMap.1 h
  obtain ⟨gap', hgap', rfl⟩ := mem_map.1 h
  refine ⟨rfl, fun x hx q hq hslave hkind s hs hsx => ?_⟩
  have hmem : ∀ t ∈ sortSpans (spansFor true registers r.slaveId r.kind), t.1 ≤ t.2 := by
    intro t ht
    obtain ⟨u, -, -, -, hspan⟩ := mem_spansFor.1 (mem_sortSpans.1 ht)
    obtain ⟨a, -, rfl⟩ := readableSpan_eq hspan
    exact Nat.le_add_right _ _
  have hmerged := mergeSpans_merged hmem ((sorted_sortSpans _).imp (fun hle => by unfold Span.Le at hle; omega))
  obtain ⟨-, -, hfree⟩ := subtractSpans_apart hmerged.apart (fun c hc => (hmerged.ordered c hc).2) gap' hgap' x hx
  obtain ⟨m, hm, hmx⟩ := hmerged.holds x ⟨s, mem_sortSpans.2 (mem_spansFor.2 ⟨q, hq, hslave, hkind, hs⟩), hsx⟩
  exact hfree m hm hmx

/-! ## Registers that do not overlap -/

theorem exists_last {n : Nat} {r : Span} (hr : r.1 < n) : ∀ {spans : List Span}, spans.Pairwise Span.Le → r ∈ spans →
    ∃ last, (spans.takeWhile (fun s => s.1 < n)).getLast? = some last ∧ r.Le last
  | s :: spans, hp, hm => by
    obtain ⟨hhead, htail⟩ := pairwise_cons.1 hp
    have hs : s.1 < n := by
      rcases mem_cons.1 hm with rfl | hm
      · exact hr
      · have := hhead r hm
        unfold Span.Le at this
        omega
    rw [takeWhile_cons_of_pos (by simpa using hs), List.getLast?_cons]
    rcases mem_cons.1 hm with rfl | hm
    · cases hl : (spans.takeWhile (fun s => s.1 < n)).getLast? with
      | none => exact ⟨r, rfl, Or.inr ⟨rfl, Nat.le_refl _⟩⟩
      | some last => exact ⟨last, rfl, hhead last (takeWhile_subset _ (mem_of_getLast? hl))⟩
    · obtain ⟨last, hl, hle⟩ := exists_last hr htail hm
      exact ⟨last, by rw [hl]; rfl, hle⟩

end Ferrowl.Modbus
