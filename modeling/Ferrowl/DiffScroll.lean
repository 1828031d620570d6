import Ferrowl.DiffFolds
/-!
# DiffScroll — the active row stays in view

The display rows of the active row are consecutive (`activeDisplayRows_eq`), and `ensure_visible` settles the window on them: on
all of them if they fit, else on the first.  The layout key does neither, though a changed pair takes two display rows in one
layout and one in the other.
-/
namespace Ferrowl.Ui.DiffView

open List

/-! ## Consecutive display rows -/

theorem indices_of_block {α : Type} {p : α → Bool} {before block behind : List α} (hbefore : ∀ a ∈ before, p a = false)
    (hblock : ∀ a ∈ block, p a = true) (hbehind : ∀ a ∈ behind, p a = false) :
    ((before ++ (block ++ behind)).zipIdx.filter fun a => p a.1).map Prod.snd = List.range' before.length block.length := by
  have hnone : ∀ {l : List α} (k : Nat), (∀ a ∈ l, p a = false) → (l.zipIdx k).filter (fun a => p a.1) = [] := by
    intro l k hl
    rw [filter_eq_nil_iff]
    intro a ha
    rw [hl a.1 (fst_mem_of_mem_zipIdx ha)]
    decide
  have hall : (block.zipIdx before.length).filter (fun a => p a.1) = block.zipIdx before.length := by
    rw [filter_eq_self]
    exact fun a ha => hblock a.1 (fst_mem_of_mem_zipIdx ha)
  rw [zipIdx_append, zipIdx_append, filter_append, filter_append, hnone 0 hbefore, Nat.zero_add, hall,
    hnone _ hbehind, nil_append, append_nil, zipIdx_map_snd]

namespace DiffViewState

theorem sideSubRows_pos (s : DiffViewState) (text : Line) (width : Nat) : 0 < s.sideSubRows text width := by
  unfold sideSubRows
  split
  · exact Nat.one_pos
  · exact Nat.le_max_right _ 1

theorem rowDisplayParts_spec (s : DiffViewState) (row : DiffRow) :
    0 < (s.rowDisplayParts row).length ∧ ∀ part ∈ s.rowDisplayParts row, part.isAnnotationRow = false := by
  have hmap : ∀ {n : Nat} {f : Nat → RowPart}, 0 < n → (∀ i, (f i).isAnnotationRow = false) →
      0 < ((List.range n).map f).length ∧ ∀ part ∈ (List.range n).map f, part.isAnnotationRow = false := by
    intro n f hn hf
    refine ⟨by rwa [length_map, length_range], fun part hpart => ?_⟩
    obtain ⟨i, -, rfl⟩ := mem_map.1 hpart
    exact hf i
  cases row with
  | metaRow text => exact hmap (s.sideSubRows_pos text _) fun _ => rfl
  | pair kind old new =>
    unfold rowDisplayParts
    cases s.layout with
    | split => exact hmap (Nat.lt_of_lt_of_le (s.sideSubRows_pos _ _) (Nat.le_max_left _ _)) fun _ => rfl
    | unified =>
      dsimp only
      split
      · obtain ⟨hpos, hold⟩ := hmap (f := fun i => .pair (some i) none)
          (s.sideSubRows_pos ((old.map DiffEntry.text).getD []) s.contentWidth) fun _ => rfl
        obtain ⟨-, hnew⟩ := hmap (f := fun i => .pair none (some i))
          (s.sideSubRows_pos ((new.map DiffEntry.text).getD []) s.contentWidth) fun _ => rfl
        refine ⟨by rw [length_append]; exact Nat.add_pos_left hpos _, fun part hpart => ?_⟩
        exact (mem_append.1 hpart).elim (hold part) (hnew part)
      · split <;> exact hmap (s.sideSubRows_pos _ _) fun _ => rfl

def blockOf (s : DiffViewState) (p : DiffRow × Nat) : List DisplayRow :=
  if s.isFolded p.2 then []
  else
    (s.rowDisplayParts p.1).map (fun part => ⟨p.2, part⟩) ++ (s.annotationAnchorsByRow p.2).flatMap (s.annotationRows p.2)

theorem displayRows_eq (s : DiffViewState) : s.displayRows = s.rows.zipIdx.flatMap s.blockOf := rfl

variable {s : DiffViewState} {d : DisplayRow}

theorem mem_annotationRows {logical : Nat} {indices : List Nat} (h : d ∈ indices.flatMap (s.annotationRows logical)) :
    d.logical = logical ∧ d.part.isAnnotationRow = true := by
  obtain ⟨index, -, h⟩ := mem_flatMap.1 h
  obtain ⟨subRow, -, rfl⟩ := mem_map.1 h
  exact ⟨rfl, rfl⟩

theorem logical_of_mem_blockOf {p : DiffRow × Nat} (h : d ∈ s.blockOf p) : d.logical = p.2 ∧ s.isFolded p.2 = false := by
  unfold blockOf at h
  split at h
  · exact absurd h not_mem_nil
  rename_i hfolded
  refine ⟨?_, Bool.eq_false_of_not_eq_true hfolded⟩
  rcases mem_append.1 h with h | h
  · obtain ⟨part, -, rfl⟩ := mem_map.1 h
    rfl
  · exact (mem_annotationRows h).1

def isOwn (s : DiffViewState) (d : DisplayRow) : Bool := d.logical == s.activeRow && !d.part.isAnnotationRow

theorem isOwn_of_ne (h : d.logical ≠ s.activeRow) : s.isOwn d = false := by
  rw [isOwn, beq_false_of_ne h, Bool.false_and]

theorem not_own_of_mem {l : List (DiffRow × Nat)} (hl : ∀ p ∈ l, p.2 ≠ s.activeRow) :
    ∀ d ∈ l.flatMap s.blockOf, s.isOwn d = false := by
  intro d hd
  obtain ⟨p, hp, hd⟩ := mem_flatMap.1 hd
  exact isOwn_of_ne ((logical_of_mem_blockOf hd).1 ▸ hl p hp)

theorem displayRows_split (hlt : s.activeRow < s.rows.length) (hfolded : s.isFolded s.activeRow = false) :
    s.displayRows = (s.rows.take s.activeRow).zipIdx.flatMap s.blockOf ++
      ((s.rowDisplayParts s.rows[s.activeRow]).map (fun part => ⟨s.activeRow, part⟩) ++
        ((s.annotationAnchorsByRow s.activeRow).flatMap (s.annotationRows s.activeRow) ++
          ((s.rows.drop (s.activeRow + 1)).zipIdx (s.activeRow + 1)).flatMap s.blockOf)) := by
  have hrows : s.rows = s.rows.take s.activeRow ++ s.rows[s.activeRow] :: s.rows.drop (s.activeRow + 1) := by simp
  have hblock : s.blockOf (s.rows[s.activeRow], s.activeRow) =
      (s.rowDisplayParts s.rows[s.activeRow]).map (fun part => ⟨s.activeRow, part⟩) ++
        (s.annotationAnchorsByRow s.activeRow).flatMap (s.annotationRows s.activeRow) :=
    if_neg (by rw [hfolded]; decide)
  rw [← append_assoc (List.map _ _), ← hblock, displayRows_eq]
  conv => lhs; rw [hrows]
  rw [zipIdx_append, zipIdx_cons, flatMap_append, flatMap_cons, length_take_of_le (Nat.le_of_lt hlt), Nat.zero_add]

theorem activeDisplayRows_of_shown (hlt : s.activeRow < s.rows.length)
    (hfolded : s.isFolded s.activeRow = false) : s.activeDisplayRows =
      List.range' ((s.rows.take s.activeRow).zipIdx.flatMap s.blockOf).length (s.rowDisplayParts s.rows[s.activeRow]).length := by
  have hbefore : ∀ p ∈ (s.rows.take s.activeRow).zipIdx, p.2 ≠ s.activeRow := by
    intro p hp
    have := snd_lt_of_mem_zipIdx hp
    rw [length_take_of_le (Nat.le_of_lt hlt)] at this
    omega
  have hbehind : ∀ p ∈ (s.rows.drop (s.activeRow + 1)).zipIdx (s.activeRow + 1), p.2 ≠ s.activeRow := by
    intro p hp
    have := le_snd_of_mem_zipIdx hp
    omega
  rw [activeDisplayRows, displayRows_split hlt hfolded, ← length_map fun part => DisplayRow.mk s.activeRow part]
  refine indices_of_block (p := s.isOwn) (not_own_of_mem hbefore) (fun d hd => ?_) fun d hd => ?_
  · obtain ⟨part, hpart, rfl⟩ := mem_map.1 hd
    rw [isOwn, (s.rowDisplayParts_spec _).2 part hpart, beq_self_eq_true]
    rfl
  · rcases mem_append.1 hd with hd | hd
    · rw [isOwn, (mem_annotationRows hd).2, Bool.not_true, Bool.and_false]
    · exact not_own_of_mem hbehind d hd

theorem shown_of_displayRow (h : d ∈ s.displayRows) : s.Shown d.logical := by
  obtain ⟨p, hp, hd⟩ := mem_flatMap.1 h
  obtain ⟨hlogical, hfolded⟩ := logical_of_mem_blockOf hd
  rw [hlogical]
  exact ⟨by have := snd_lt_of_mem_zipIdx hp; omega, hfolded⟩

theorem activeDisplayRows_of_not_shown (h : ¬ s.Shown s.activeRow) : s.activeDisplayRows = [] := by
  rw [activeDisplayRows, map_eq_nil_iff, filter_eq_nil_iff]
  intro d hd
  have hne : d.1.logical ≠ s.activeRow := fun heq => h (heq ▸ shown_of_displayRow (fst_mem_of_mem_zipIdx hd))
  exact Bool.eq_false_iff.1 (isOwn_of_ne hne)

/-- **The display rows of the active row are consecutive**; there is one if the row is shown, and the first row starts at 0. -/
theorem activeDisplayRows_eq (s : DiffViewState) :
    ∃ start n, s.activeDisplayRows = List.range' start n ∧ (s.Shown s.activeRow → 0 < n) ∧ (s.activeRow = 0 → start = 0) := by
  by_cases hshown : s.Shown s.activeRow
  · refine ⟨_, _, activeDisplayRows_of_shown hshown.1 hshown.2, fun _ => (s.rowDisplayParts_spec _).1, fun h0 => ?_⟩
    rw [h0]
    rfl
  · exact ⟨0, 0, activeDisplayRows_of_not_shown hshown, fun h => absurd h hshown, fun _ => rfl⟩

theorem activeDisplayRows_ne_nil (h : s.Shown s.activeRow) : s.activeDisplayRows ≠ [] := by
  obtain ⟨start, n, hrange, hpos, -⟩ := s.activeDisplayRows_eq
  rw [hrange]
  exact (List.range'_ne_nil_iff start).2 (Nat.ne_of_gt (hpos h))

/-! ## The window -/

def InWindow (s : DiffViewState) (i : Nat) : Prop := s.scrollOffset ≤ i ∧ i < s.scrollOffset + s.visibleHeight

/-- The active row has display rows if any row has; they are inside the window if they fit into it, else one of them is. -/
structure InView (s : DiffViewState) : Prop where
  there : s.displayRows ≠ [] → s.activeDisplayRows ≠ []
  whole : s.activeDisplayRows.length ≤ s.visibleHeight → ∀ i ∈ s.activeDisplayRows, s.InWindow i
  part : s.visibleHeight < s.activeDisplayRows.length → ∃ i ∈ s.activeDisplayRows, s.InWindow i

/-- The window shows what it can of the rows from `start` on. -/
def Covers (s : DiffViewState) (start n : Nat) : Prop :=
  (n ≤ s.visibleHeight → n = 0 ∨ s.scrollOffset ≤ start ∧ start + n ≤ s.scrollOffset + s.visibleHeight) ∧
    (s.visibleHeight < n → s.scrollOffset < start + n ∧ start < s.scrollOffset + s.visibleHeight)

variable {start : Nat}

theorem Covers.inView {n : Nat} (h : s.Covers start n) (hheight : 0 < s.visibleHeight)
    (hrange : s.activeDisplayRows = List.range' start n) (hthere : s.displayRows ≠ [] → s.activeDisplayRows ≠ []) : s.InView := by
  refine ⟨hthere, ?_, ?_⟩
  · rw [hrange, length_range']
    intro hfits i hi
    obtain ⟨hge, hlt⟩ := mem_range'_1.1 hi
    unfold InWindow
    have := h.1 hfits
    omega
  · rw [hrange, length_range']
    intro htall
    obtain ⟨h1, h2⟩ := h.2 htall
    refine ⟨max s.scrollOffset start, mem_range'_1.2 ⟨Nat.le_max_right _ _, by omega⟩, Nat.le_max_left _ _, by omega⟩

theorem InView.covers {n : Nat} (h : s.InView) (hrange : s.activeDisplayRows = List.range' start n) : s.Covers start n := by
  have hwhole := h.whole
  have hpart := h.part
  rw [hrange, length_range'] at hwhole hpart
  refine ⟨fun hfits => ?_, fun htall => ?_⟩
  · rcases Nat.eq_zero_or_pos n with hn | hn
    · exact .inl hn
    have hfirst := hwhole hfits start (mem_range'_1.2 ⟨Nat.le_refl _, by omega⟩)
    have hlast := hwhole hfits (start + n - 1) (mem_range'_1.2 ⟨by omega, by omega⟩)
    unfold InWindow at hfirst hlast
    exact .inr ⟨hfirst.1, by omega⟩
  · obtain ⟨i, hi, hge, hlt⟩ := hpart htall
    obtain ⟨hi1, hi2⟩ := mem_range'_1.1 hi
    omega

theorem activeRowDisplaySpan_eq {n : Nat} (hrange : s.activeDisplayRows = List.range' start (n + 1)) :
    s.activeRowDisplaySpan = (start, start + n) := by
  have hlast : (List.range' start (n + 1)).getLastD 0 = start + n := by
    rw [List.range'_concat, getLastD_concat, Nat.one_mul]
  rw [activeRowDisplaySpan, hrange, hlast]
  rfl

theorem Placed.inView (h : s.Placed) (hheight : 0 < s.visibleHeight) {n : Nat}
    (hrange : s.activeDisplayRows = List.range' start n) (hcovers : s.Covers start n) : s.InView := by
  refine hcovers.inView hheight hrange fun hne => activeDisplayRows_ne_nil (h.activeShown ?_)
  obtain ⟨d, hd⟩ := exists_mem_of_ne_nil _ hne
  exact ⟨_, shown_of_displayRow hd⟩

theorem covers_ensureVisible (hheight : 0 < s.visibleHeight) {n : Nat}
    (hrange : s.activeDisplayRows = List.range' start n) : s.ensureVisible.Covers start n := by
  cases n with
  | zero => exact ⟨fun _ => .inl rfl, nofun⟩
  | succ n =>
    unfold ensureVisible
    rw [activeRowDisplaySpan_eq hrange]
    dsimp only
    unfold Covers
    split_ifs <;> dsimp only <;> omega

theorem ensureVisible_inView (h : s.ensureVisible.Placed) (hheight : 0 < s.visibleHeight) : s.ensureVisible.InView := by
  obtain ⟨offset, hoffset⟩ := ensureVisible_eq s
  obtain ⟨start, n, hrange, -, -⟩ := s.activeDisplayRows_eq
  have hrange' : s.ensureVisible.activeDisplayRows = List.range' start n := by rw [hoffset]; exact hrange
  have hheight' : 0 < s.ensureVisible.visibleHeight := by rw [hoffset]; exact hheight
  exact h.inView hheight' hrange' (covers_ensureVisible hheight hrange)

theorem InView.scrolled (h : s.InView) (hheight : 0 < s.visibleHeight) {offset : Nat}
    (hscroll : s.scrollOffset + s.visibleHeight ≤ s.activeRowDisplaySpan.2 ∧ offset = s.scrollOffset + 1 ∨
      s.activeRowDisplaySpan.1 < s.scrollOffset ∧ offset = s.scrollOffset - 1) : InView { s with scrollOffset := offset } := by
  obtain ⟨start, n, hrange, -, -⟩ := s.activeDisplayRows_eq
  have hcovers := h.covers hrange
  have hcovered : Covers { s with scrollOffset := offset } start n := by
    cases n with
    | zero => exact ⟨fun _ => .inl rfl, nofun⟩
    | succ n =>
      rw [activeRowDisplaySpan_eq hrange] at hscroll
      unfold Covers at hcovers ⊢
      dsimp only at hscroll ⊢
      omega
  exact hcovered.inView hheight hrange h.there

theorem InView.step (h : s.InView) (hs : s.Placed) (hheight : 0 < s.visibleHeight) (down : Bool) :
    (s.stepDisplayOrLogical down).InView := by
  have hplaced := hs.step down
  rcases s.stepDisplayOrLogical_cases down with heq | ⟨hspan, heq⟩ | ⟨hspan, heq⟩ | ⟨row, heq⟩
  · rw [heq]
    exact h
  · rw [heq]
    exact h.scrolled hheight (.inl ⟨by omega, rfl⟩)
  · rw [heq]
    exact h.scrolled hheight (.inr ⟨hspan, rfl⟩)
  · rw [heq] at hplaced ⊢
    exact ensureVisible_inView hplaced hheight

/-! ## Runs -/

theorem Motion.visibleHeight {t : DiffViewState} (h : Motion s t) : t.visibleHeight = s.visibleHeight := by
  have hensure : ∀ u : DiffViewState, u.ensureVisible.visibleHeight = u.visibleHeight := by
    intro u
    obtain ⟨offset, hoffset⟩ := ensureVisible_eq u
    rw [hoffset]
  cases h with
  | quiet => rfl
  | step down =>
    obtain ⟨row, offset, heq⟩ := s.stepDisplayOrLogical_eq down
    rw [heq]
  | move row => exact hensure _
  | select => rfl
  | deselect => rfl
  | annotations => exact hensure _
  | display =>
    obtain ⟨u, heq, hheight⟩ := s.toggleDisplay_eq
    rw [heq, hensure, hheight]

structure Viewed (s : DiffViewState) : Prop where
  placed : s.Placed
  height : 0 < s.visibleHeight
  inView : s.InView

theorem Motion.viewed {t : DiffViewState} (h : Motion s t) (hs : s.Viewed) : t.Viewed := by
  have hplaced := h.placed hs.placed
  have hheight : 0 < t.visibleHeight := h.visibleHeight ▸ hs.height
  refine ⟨hplaced, hheight, ?_⟩
  cases h with
  | quiet | select | deselect => exact ⟨hs.inView.there, hs.inView.whole, hs.inView.part⟩
  | step down => exact hs.inView.step hs.placed hs.height down
  | move row | annotations => exact ensureVisible_inView hplaced hs.height
  | display =>
    obtain ⟨u, heq, hsame⟩ := s.toggleDisplay_eq
    rw [heq] at hplaced ⊢
    exact ensureVisible_inView hplaced (hsame ▸ hs.height)

theorem Motions.viewed {t : DiffViewState} (h : Motions s t) (hs : s.Viewed) : t.Viewed := by
  induction h with
  | refl => exact hs
  | tail _ hstep ih => exact hstep.viewed ih

def layoutKey : KeyModifiers × KeyCode := (.CONTROL, .char 't')

theorem Viewed.press (h : s.Viewed) {key : KeyModifiers × KeyCode} (hkey : key ≠ layoutKey) : (s.press key).Viewed :=
  Motions.viewed (motions_handleEvents s fun hk => hkey (Prod.ext hk.1 hk.2)) h

theorem Viewed.press_layoutKey (h : s.Viewed) (hview : (s.press layoutKey).InView) : (s.press layoutKey).Viewed :=
  ⟨h.placed.handleEvents _ _, h.height, hview⟩

inductive Opened : DiffViewState → Prop where
  | diff (cfg : DiffSettings) (text : List Char) (m : Measures) : Opened ((buildWithDiff cfg text).rendered m)
  | diffAndFile (cfg : DiffSettings) (diff newText : List Char) (m : Measures) {s : DiffViewState}
      (h : buildWithDiffAndFile cfg diff newText = some s) : Opened (s.rendered m)

theorem Opened.initial (h : Opened s) : s.activeRow = 0 ∧ s.scrollOffset = 0 ∧ s.mode = .normal := by
  cases h with
  | diff cfg text m => exact ⟨rfl, rfl, rfl⟩
  | diffAndFile cfg diff newText m h =>
    obtain ⟨r, -, rfl⟩ := Option.map_eq_some_iff.1 h
    exact ⟨rfl, rfl, rfl⟩

theorem Opened.viewed (h : Opened s) (hheight : 0 < s.visibleHeight) (hfirst : s.isFolded 0 = false) : s.Viewed := by
  obtain ⟨hactive, hscroll, hmode⟩ := h.initial
  have hnormal : s.mode ≠ .visual := by rw [hmode]; decide
  have hplaced : s.Placed := by
    refine ⟨fun hpos => hactive ▸ hpos, fun hm => absurd hm hnormal, fun hex => ?_, fun _ hm => absurd hm hnormal⟩
    obtain ⟨i, hi, -⟩ := hex
    exact hactive.symm ▸ ⟨Nat.zero_lt_of_lt hi, hfirst⟩
  obtain ⟨start, n, hrange, -, hstart⟩ := s.activeDisplayRows_eq
  have hzero := hstart hactive
  refine ⟨hplaced, hheight, hplaced.inView hheight hrange ?_⟩
  unfold Covers
  omega

def changedLine : DiffViewState :=
  (buildWithDiff {} "@@ -1 +1 @@\n-a\n+b\n".toList).rendered ⟨2, 10, 10, 20, []⟩

end DiffViewState
end Ferrowl.Ui.DiffView
