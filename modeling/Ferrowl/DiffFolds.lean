import Ferrowl.DiffNav
/-!
# DiffFolds — folded rows are out of reach

While the hunks alone are shown, the active row and the anchor of a selection are rows outside the folds.  A view starts on its
first row though, folded or not, so the rule holds along all runs exactly when that row is outside the folds, if any row is
(`folds_avoided_iff`).
-/
namespace Ferrowl.Ui.DiffView

open List

/-! ## The view is built -/

theorem FullState.fillTo_returns {s : FullState} {newLines : List Line} {stop : Nat} (hnext : 0 < s.nextLine)
    (hstop : stop ≤ newLines.length + 1) : Returns (s.fillTo newLines stop) fun _ => True := by
  unfold FullState.fillTo
  split
  · refine Returns.map (Returns.mapM fun n hn => ?_) fun _ _ => trivial
    obtain ⟨hge, hlt⟩ := mem_range'_1.1 hn
    have hline : lineAt newLines n = some newLines[n - 1] := by
      rw [lineAt, if_neg (by omega), List.getElem?_eq_getElem (by omega)]
    rw [unchangedRow, hline]
    exact .some trivial
  · exact .some trivial

theorem walkHunks_return {newLines : List Line} : ∀ (hunks : List (HunkHeader × List DiffRow)) {s : FullState},
    0 < s.nextLine → Returns (hunks.foldlM (FullState.walkHunk newLines) s) fun t => 0 < t.nextLine
  | [], _, h => .some h
  | hunk :: hunks, s, h => by
    rw [foldlM_cons]
    have hwalk : Returns (s.walkHunk newLines hunk) fun t => 0 < t.nextLine :=
      Returns.map (FullState.fillTo_returns h (Nat.min_le_right _ _)) fun t _ => Nat.le_max_right _ 1
    exact Returns.bind hwalk fun t ht => walkHunks_return hunks ht

theorem parseFullFile_returns (diff newText : List Char) : Returns (parseFullFile diff newText) fun _ => True :=
  Returns.map (Returns.bind (walkHunks_return _ Nat.one_pos) fun _ hs => FullState.fillTo_returns hs (Nat.le_refl _))
    fun _ _ => trivial

namespace DiffViewState

theorem buildWithDiffAndFile_returns (cfg : DiffSettings) (diff newText : List Char) :
    Returns (buildWithDiffAndFile cfg diff newText) fun s => s.display = cfg.display ∧ s.activeRow = 0 ∧ s.mode = .normal :=
  Returns.map (parseFullFile_returns diff newText) fun _ _ => ⟨rfl, rfl, rfl⟩

/-! ## Rows that are shown -/

def Shown (s : DiffViewState) (i : Nat) : Prop := i < s.rows.length ∧ s.isFolded i = false

variable {s : DiffViewState} {i : Nat}

theorem shown_of_fullFile (h : s.display = .fullFile) (hi : i < s.rows.length) : s.Shown i := by
  refine ⟨hi, ?_⟩
  rw [isFolded, h]
  rfl

theorem nearestUnfolded_lt (hi : i < s.rows.length) : s.nearestUnfolded i < s.rows.length := by
  unfold nearestUnfolded
  split
  · exact Nat.lt_of_le_of_lt (Nat.min_le_left _ _) hi
  split
  · rename_i j hj
    have := (mem_range'_1.1 (mem_of_find?_eq_some hj)).2
    omega
  cases hback : (List.range i).reverse.find? (fun j => !s.isFolded j) with
  | none => exact hi
  | some j =>
    have := mem_range.1 (mem_reverse.1 (mem_of_find?_eq_some hback))
    exact Nat.lt_trans this hi

theorem shown_nearestUnfolded (hi : i < s.rows.length) (hex : ∃ j, s.Shown j) : s.Shown (s.nearestUnfolded i) := by
  refine ⟨nearestUnfolded_lt hi, ?_⟩
  unfold nearestUnfolded
  split
  · rename_i h
    have hne : s.rows.isEmpty = false := by
      cases hrows : s.rows with
      | nil => simp [hrows] at hi
      | cons row rows => rfl
    rw [Nat.min_eq_left (by omega)]
    rw [hne, Bool.false_or, Bool.not_eq_true'] at h
    exact h
  split
  · rename_i j hj
    simpa using List.find?_some hj
  rename_i hfront
  cases hback : (List.range i).reverse.find? (fun j => !s.isFolded j) with
  | some j => simpa using List.find?_some hback
  | none =>
    -- every row is before `i` or from `i` on
    obtain ⟨j, hj, hshown⟩ := hex
    rw [List.find?_eq_none] at hfront hback
    have hfolded : s.isFolded j = true := by
      rcases Nat.lt_or_ge j i with hlt | hge
      · simpa using hback j (mem_reverse.2 (mem_range.2 hlt))
      · simpa using hfront j (mem_range'_1.2 ⟨hge, by omega⟩)
    exact absurd hfolded (by rw [hshown]; decide)

theorem landing_lt (hi : i < s.rows.length) : s.landing i < s.rows.length := by
  unfold landing
  split
  · exact nearestUnfolded_lt hi
  · exact hi

theorem shown_landing (hi : i < s.rows.length) (hex : ∃ j, s.Shown j) : s.Shown (s.landing i) := by
  unfold landing
  split
  · exact shown_nearestUnfolded hi hex
  · rename_i h
    exact ⟨hi, Bool.eq_false_of_not_eq_true h⟩

theorem skipFolded_lt {down : Bool} {len : Nat} : ∀ {left next : Nat},
    next < len → (down = true → next + left < len) → s.skipFolded down left next < len
  | 0, next, h, _ => h
  | left + 1, next, h, hdown => by
    unfold skipFolded
    split
    · refine skipFolded_lt ?_ fun hd => ?_
      · cases down with
        | true =>
          have := hdown rfl
          simp only [if_true]
          omega
        | false =>
          simp only [Bool.false_eq_true, if_false]
          omega
      · have := hdown hd
        simp only [hd, if_true]
        omega
    · exact h

theorem stepTarget_lt (down : Bool) (h : s.activeRow < s.rows.length) : s.stepTarget down < s.rows.length := by
  unfold stepTarget
  cases down with
  | true => exact skipFolded_lt (by simp only [if_true]; omega) fun _ => by simp only [if_true]; omega
  | false => exact skipFolded_lt (by simp only [Bool.false_eq_true, if_false]; omega) nofun

theorem clampActiveRow_of_lt (h : s.activeRow < s.rows.length) : s.clampActiveRow = s := by
  have hne : s.rows.isEmpty = false := by
    cases hrows : s.rows with
    | nil => simp [hrows] at h
    | cons row rows => rfl
  rw [clampActiveRow, hne, if_neg (by decide), Nat.min_eq_left (by omega)]

/-! ## The invariant -/

/-- The active row and the anchor are rows, and they are shown if any row is. -/
structure Placed (s : DiffViewState) : Prop where
  active : 0 < s.rows.length → s.activeRow < s.rows.length
  anchor : s.mode = .visual → ∃ a, s.anchor = some a ∧ (0 < s.rows.length → a < s.rows.length)
  activeShown : (∃ i, s.Shown i) → s.Shown s.activeRow
  anchorShown : (∃ i, s.Shown i) → s.mode = .visual → ∃ a, s.anchor = some a ∧ s.Shown a

theorem Placed.moved (h : s.Placed) {row : Nat} (offset : Nat)
    (hrow : 0 < s.rows.length → row < s.rows.length) (hshown : (∃ i, s.Shown i) → s.Shown row) :
    Placed { s with activeRow := row, scrollOffset := offset } where
  active := hrow
  anchor := h.anchor
  activeShown := hshown
  anchorShown := h.anchorShown

theorem Placed.ensureVisible (h : s.Placed) : s.ensureVisible.Placed := by
  obtain ⟨offset, hoffset⟩ := ensureVisible_eq s
  rw [hoffset]
  exact h.moved offset h.active h.activeShown

theorem not_shown_of_empty (h : ¬ 0 < s.rows.length) : ¬ ∃ i, s.Shown i := by
  rintro ⟨i, hi, -⟩
  omega

theorem Placed.landed (h : s.Placed) {row : Nat} (hrow : 0 < s.rows.length → row < s.rows.length) :
    Placed { s with activeRow := s.landing row } := by
  refine h.moved s.scrollOffset (fun hpos => landing_lt (hrow hpos)) fun hex => ?_
  have hpos : 0 < s.rows.length := by
    by_contra hpos
    exact not_shown_of_empty hpos hex
  exact shown_landing (hrow hpos) hex

theorem Placed.step (h : s.Placed) (down : Bool) : (s.stepDisplayOrLogical down).Placed := by
  unfold stepDisplayOrLogical
  dsimp only
  split
  · exact h
  rename_i hrows
  split
  · exact h.moved _ h.active h.activeShown
  split
  · exact h.moved _ h.active h.activeShown
  have hpos : 0 < s.rows.length := by
    cases hs : s.rows with
    | nil => simp [hs] at hrows
    | cons row rows => exact Nat.succ_pos _
  have htarget := stepTarget_lt down (h.active hpos)
  rw [clampActiveRow_of_lt (landing_lt htarget)]
  exact (h.landed fun _ => htarget).ensureVisible

theorem Placed.move (h : s.Placed) (row : Nat) : (s.moveActiveRowTo row).Placed := by
  have hclamp : 0 < s.rows.length → (if s.rows.isEmpty then 0 else min row (s.rows.length - 1)) < s.rows.length := by
    intro hpos
    split
    · exact hpos
    · omega
  exact (h.landed hclamp).ensureVisible

theorem Placed.toggleDisplay (h : s.Placed) : s.toggleDisplay.Placed := by
  unfold DiffViewState.toggleDisplay
  refine Placed.ensureVisible ?_
  cases hdisplay : s.display with
  | hunkOnly =>
    have hshown : ∀ i < s.rows.length, Shown { s with display := .fullFile } i := fun i hi => shown_of_fullFile rfl hi
    refine ⟨h.active, h.anchor, fun hex => ?_, fun hex hm => ?_⟩
    · obtain ⟨i, hi, -⟩ := hex
      exact hshown _ (h.active (Nat.zero_lt_of_lt hi))
    · obtain ⟨i, hi, -⟩ := hex
      obtain ⟨a, ha, hlt⟩ := h.anchor hm
      exact ⟨a, ha, hshown a (hlt (Nat.zero_lt_of_lt hi))⟩
  | fullFile =>
    refine ⟨fun hpos => ?_, fun hm => ?_, fun hex => ?_, fun hex hm => ?_⟩
    · exact nearestUnfolded_lt (s := { s with display := .hunkOnly }) (h.active hpos)
    · obtain ⟨a, ha, hlt⟩ := h.anchor hm
      exact ⟨_, by simp only [ha]; rfl, fun hpos => nearestUnfolded_lt (s := { s with display := .hunkOnly }) (hlt hpos)⟩
    · obtain ⟨i, hi, hi'⟩ := hex
      exact shown_nearestUnfolded (s := { s with display := .hunkOnly }) (h.active (Nat.zero_lt_of_lt hi)) ⟨i, hi, hi'⟩
    obtain ⟨i, hi, hi'⟩ := hex
    obtain ⟨a, ha, hlt⟩ := h.anchor hm
    exact ⟨_, by simp only [ha]; rfl,
      shown_nearestUnfolded (s := { s with display := .hunkOnly }) (hlt (Nat.zero_lt_of_lt hi)) ⟨i, hi, hi'⟩⟩

theorem Motion.placed {t : DiffViewState} (h : Motion s t) (hs : s.Placed) : t.Placed := by
  cases h with
  | quiet => exact ⟨hs.active, hs.anchor, hs.activeShown, hs.anchorShown⟩
  | step down => exact hs.step down
  | move row => exact hs.move row
  | select => exact ⟨hs.active, fun _ => ⟨_, rfl, hs.active⟩, hs.activeShown, fun hex _ => ⟨_, rfl, hs.activeShown hex⟩⟩
  | deselect => exact ⟨hs.active, nofun, hs.activeShown, fun _ => nofun⟩
  | annotations => exact Placed.ensureVisible ⟨hs.active, hs.anchor, hs.activeShown, hs.anchorShown⟩
  | display => exact hs.toggleDisplay

theorem Motions.placed {t : DiffViewState} (h : Motions s t) (hs : s.Placed) : t.Placed := by
  induction h with
  | refl => exact hs
  | tail _ hstep ih => exact hstep.placed ih

theorem Placed.handleEvents (h : s.Placed) (m : KeyModifiers) (code : KeyCode) : (s.handleEvents m code).2.Placed := by
  by_cases hkey : m = .CONTROL ∧ code = .char 't'
  · obtain ⟨rfl, rfl⟩ := hkey
    rw [handleEvents_layout]
    exact ⟨h.active, h.anchor, h.activeShown, h.anchorShown⟩
  · exact Motions.placed (motions_handleEvents s hkey) h

end DiffViewState

/-! ## Runs -/

inductive ViewEvent where
  | key (m : KeyModifiers) (code : KeyCode)
  | render (m : Measures)

namespace DiffViewState

def apply (s : DiffViewState) : ViewEvent → DiffViewState
  | .key m code => (s.handleEvents m code).2
  | .render m => s.rendered m

variable {s : DiffViewState}

theorem Placed.apply (h : s.Placed) (e : ViewEvent) : (s.apply e).Placed := by
  cases e with
  | key m code => exact h.handleEvents m code
  | render m => exact ⟨h.active, h.anchor, h.activeShown, h.anchorShown⟩

theorem Placed.foldl (h : s.Placed) (events : List ViewEvent) : (events.foldl DiffViewState.apply s).Placed := by
  induction events generalizing s with
  | nil => exact h
  | cons e events ih => exact ih (h.apply e)

def OutsideFolds (s : DiffViewState) (i : Nat) : Prop := i < s.rows.length ∧ ∀ f ∈ s.folds, ¬ (f.1 ≤ i ∧ i ≤ f.2)

theorem shown_iff (h : s.display = .hunkOnly) (i : Nat) : s.Shown i ↔ s.OutsideFolds i := by
  unfold Shown OutsideFolds isFolded
  rw [h]
  simp

/-- While the hunks alone are shown, and a row of them is, the active row and the anchor of a selection are outside the folds. -/
def AvoidsFolds (s : DiffViewState) : Prop :=
  s.display = .hunkOnly → (∃ i, s.OutsideFolds i) →
    s.OutsideFolds s.activeRow ∧ (s.mode = .visual → ∃ a, s.anchor = some a ∧ s.OutsideFolds a)

theorem Placed.avoidsFolds (h : s.Placed) : s.AvoidsFolds := by
  intro hd hex
  have hshown : ∃ i, s.Shown i := hex.imp fun i hi => (shown_iff hd i).2 hi
  refine ⟨(shown_iff hd _).1 (h.activeShown hshown), fun hm => ?_⟩
  obtain ⟨a, ha, ha'⟩ := h.anchorShown hshown hm
  exact ⟨a, ha, (shown_iff hd a).1 ha'⟩

/-- **Folded rows are out of reach** of every sequence of keys exactly when the view, if it starts with the hunks alone and one
of its rows is outside the folds, has its first row there. -/
theorem folds_avoided_iff (cfg : DiffSettings) (diff newText : List Char) : ∃ s, buildWithDiffAndFile cfg diff newText = some s ∧
      ((∀ events : List ViewEvent, (events.foldl apply s).AvoidsFolds) ↔
        (cfg.display = .hunkOnly → (∃ i, s.OutsideFolds i) → s.OutsideFolds 0)) := by
  obtain ⟨s, hbuild, hdisplay, hactive, hmode⟩ := buildWithDiffAndFile_returns cfg diff newText
  refine ⟨s, hbuild, ?_⟩
  rw [← hdisplay]
  refine ⟨fun hall hd hex => hactive ▸ (hall [] hd hex).1, fun hfirst events => ?_⟩
  have hnormal : s.mode ≠ .visual := by rw [hmode]; decide
  refine (Placed.foldl ⟨fun hpos => hactive ▸ hpos, fun h => absurd h hnormal, fun hex => ?_,
    fun _ h => absurd h hnormal⟩ events).avoidsFolds
  rw [hactive]
  cases hd : s.display with
  | hunkOnly => exact (shown_iff hd 0).2 (hfirst hd (hex.imp fun i hi => (shown_iff hd i).1 hi))
  | fullFile =>
    obtain ⟨i, hi, -⟩ := hex
    exact shown_of_fullFile hd (Nat.zero_lt_of_lt hi)

/-- **A diff that starts with the header of a hunk at line 3**: the two lines before it are folded, the view starts on the first
of them, and `v` selects it. -/
theorem first_row_folded : ∃ s, buildWithDiffAndFile {} "@@ -3 +3 @@\n-c\n+d\n".toList "a\nb\nd\n".toList = some s ∧
      s.display = .hunkOnly ∧ s.folds = [(0, 1)] ∧ s.OutsideFolds 2 ∧ s.activeRow = 0 ∧ ¬ s.AvoidsFolds ∧
      (s.apply (.key .NONE (.char 'v'))).anchor = some 0 ∧ ¬ (s.apply (.key .NONE (.char 'v'))).AvoidsFolds := by
  have hparse : parseFullFile "@@ -3 +3 @@\n-c\n+d\n".toList "a\nb\nd\n".toList =
      some ([.pair .context (some ⟨['a'], 1⟩) (some ⟨['a'], 1⟩), .pair .context (some ⟨['b'], 2⟩) (some ⟨['b'], 2⟩),
        .metaRow "@@ -3 +3 @@".toList, .pair .removed (some ⟨['c'], 3⟩) (some ⟨['d'], 3⟩)], [(0, 1)]) := by decide
  refine ⟨_, by rw [buildWithDiffAndFile, setDiffAndFile, hparse]; rfl, rfl, rfl, ⟨by decide, by decide⟩, rfl, ?_, rfl, ?_⟩
  all_goals
    intro h
    exact absurd (h rfl ⟨2, by decide, by decide⟩).1.2 (by decide)

end DiffViewState
end Ferrowl.Ui.DiffView
