import Ferrowl.DiffParse
/-!
# DiffFullFile — the full-file view against the two files

The full-file rows of a well-formed diff carry both files: on the new side the lines of the new file with their numbers, on the
old side those of the old file, and without the folds they are the rows of the diff alone.
-/
namespace Ferrowl.Ui.DiffView

open List

/-! ## Hunks of the rows -/

theorem addRow_of_quiet {row : DiffRow} (hrow : ∀ text, row = .metaRow text → startsHunk text = false)
    (split : List DiffRow × List (HunkHeader × List DiffRow)) :
    addRow split row = if split.2.isEmpty then (split.1 ++ [row], [])
      else (split.1, split.2.modifyLast (fun h => (h.1, h.2 ++ [row]))) := by
  unfold addRow
  cases row with
  | pair kind old new => rfl
  | metaRow text =>
    simp only
    rw [hrow text rfl]
    rfl

variable {rows : List DiffRow}

theorem quiet_head {row : DiffRow} (h : ∀ text, .metaRow text ∈ row :: rows → startsHunk text = false) :
    ∀ text, row = .metaRow text → startsHunk text = false :=
  fun text heq => h text (by rw [← heq]; exact mem_cons_self)

theorem foldl_addRow_leading : ∀ {rows : List DiffRow}, (∀ text, .metaRow text ∈ rows → startsHunk text = false) →
    ∀ lead, rows.foldl addRow (lead, []) = (lead ++ rows, [])
  | [], _, lead => by rw [append_nil]; rfl
  | row :: rows, hrows, lead => by
    rw [foldl_cons, addRow_of_quiet (quiet_head hrows)]
    simp only [isEmpty_nil, if_true]
    rw [foldl_addRow_leading (fun text ht => hrows text (mem_cons_of_mem row ht)), append_assoc]
    rfl

theorem foldl_addRow_body : ∀ {rows : List DiffRow}, (∀ text, .metaRow text ∈ rows → startsHunk text = false) →
    ∀ lead hunks h before, rows.foldl addRow (lead, hunks ++ [(h, before)]) = (lead, hunks ++ [(h, before ++ rows)])
  | [], _, lead, hunks, h, before => by rw [append_nil]; rfl
  | row :: rows, hrows, lead, hunks, h, before => by
    have hne : (hunks ++ [(h, before)]).isEmpty = false := by cases hunks <;> rfl
    rw [foldl_cons, addRow_of_quiet (quiet_head hrows)]
    simp only [hne, if_false, Bool.false_eq_true]
    rw [modifyLast_concat, foldl_addRow_body (fun text ht => hrows text (mem_cons_of_mem row ht)),
      append_assoc]
    rfl

def splitBlock (block : Hunk × List DiffRow) : HunkHeader × List DiffRow :=
  (hunkHeader block.1.header, blockRows block)

theorem foldl_addRow_blocks : ∀ {blocks : List (Hunk × List DiffRow)}, (∀ b ∈ blocks, BodyRows b.1 b.2) →
    ∀ lead hunks, (blocks.flatMap blockRows).foldl addRow (lead, hunks) = (lead, hunks ++ blocks.map splitBlock)
  | [], _, lead, hunks => by rw [map_nil, append_nil]; rfl
  | block :: blocks, hblocks, lead, hunks => by
    have hheader : addRow (lead, hunks) (.metaRow block.1.header) =
        (lead, hunks ++ [(hunkHeader block.1.header, [.metaRow block.1.header])]) := rfl
    rw [flatMap_cons, foldl_append, blockRows, foldl_cons, hheader, foldl_addRow_body (hblocks block mem_cons_self).quiet,
      foldl_addRow_blocks (fun b hb => hblocks b (mem_cons_of_mem block hb)), append_assoc]
    rfl

variable {diff : List Char} {hunks : List Hunk} {lead : List DiffRow} {blocks : List (Hunk × List DiffRow)}

theorem Parsed.split (h : Parsed diff hunks lead blocks) : splitHunks (parse diff) = (lead, blocks.map splitBlock) := by
  rw [h.rows, splitHunks, foldl_append, foldl_addRow_leading h.quiet, nil_append, foldl_addRow_blocks h.bodies, nil_append]

/-! ## Folds -/

def outside (folds : List (Nat × Nat)) (rows : List DiffRow) : List DiffRow :=
  (rows.zipIdx.filter (fun p => !folds.any (fun f => decide (f.1 ≤ p.2) && decide (p.2 ≤ f.2)))).map (·.1)

theorem outside_append {folds : List (Nat × Nat)} (h : ∀ f ∈ folds, f.2 < rows.length)
    (more : List DiffRow) : outside folds (rows ++ more) = outside folds rows ++ more := by
  have hkeep : (more.zipIdx rows.length).filter
      (fun p => !folds.any (fun f => decide (f.1 ≤ p.2) && decide (p.2 ≤ f.2))) = more.zipIdx rows.length := by
    rw [filter_eq_self]
    intro p hp
    have hge := le_snd_of_mem_zipIdx hp
    rw [Bool.not_eq_true', any_eq_false]
    intro f hf
    have := h f hf
    simp only [Bool.and_eq_true, decide_eq_true_eq]
    omega
  rw [outside, zipIdx_append, filter_append, map_append, Nat.zero_add, hkeep, zipIdx_map_fst]
  rfl

theorem outside_fold (folds : List (Nat × Nat)) {more : List DiffRow} (hmore : more ≠ []) :
    outside (folds ++ [(rows.length, (rows ++ more).length - 1)]) (rows ++ more) = outside folds rows := by
  have hpos := length_pos_of_ne_nil hmore
  have hdrop : (more.zipIdx rows.length).filter (fun p => !(folds ++ [(rows.length, (rows ++ more).length - 1)]).any
      (fun f => decide (f.1 ≤ p.2) && decide (p.2 ≤ f.2))) = [] := by
    rw [filter_eq_nil_iff]
    intro p hp
    have hge := le_snd_of_mem_zipIdx hp
    have hlt := snd_lt_add_of_mem_zipIdx hp
    simp only [any_append, any_cons, any_nil, length_append, Bool.or_false, Bool.not_eq_true',
      Bool.not_eq_false, Bool.or_eq_true, Bool.and_eq_true, decide_eq_true_eq]
    exact Or.inr ⟨hge, by omega⟩
  rw [outside, zipIdx_append, filter_append, Nat.zero_add, hdrop, append_nil, outside]
  refine congrArg (List.map _) (filter_congr (fun p hp => ?_))
  have hlt := snd_lt_of_mem_zipIdx hp
  have hout : (decide (rows.length ≤ p.2) && decide (p.2 ≤ (rows ++ more).length - 1)) = false := by
    rw [Bool.and_eq_false_iff, decide_eq_false_iff_not]
    exact Or.inl (by omega)
  simp only [any_append, any_cons, any_nil, hout, Bool.or_false]

/-! ## The walk over the new file -/

def gapRows : Nat → Nat → List Line → List DiffRow
  | _, _, [] => []
  | i, j, line :: gap => .pair .context (some ⟨line, i⟩) (some ⟨line, j⟩) :: gapRows (i + 1) (j + 1) gap

theorem oldSide_gapRows : ∀ (i j : Nat) (gap : List Line), oldSide (gapRows i j gap) = numbered i gap
  | _, _, [] => rfl
  | i, j, line :: gap => by
    rw [gapRows, numbered, ← oldSide_gapRows (i + 1) (j + 1) gap]
    rfl

theorem newSide_gapRows : ∀ (i j : Nat) (gap : List Line), newSide (gapRows i j gap) = numbered j gap
  | _, _, [] => rfl
  | i, j, line :: gap => by
    rw [gapRows, numbered, ← newSide_gapRows (i + 1) (j + 1) gap]
    rfl

variable {newLines : List Line}

theorem mapM_unchangedRow {rest : List Line} {delta : Int} : ∀ (gap done : List Line) (oldDone : Nat),
    newLines = done ++ (gap ++ rest) → delta = (done.length : Int) - (oldDone : Int) →
    (List.range' (done.length + 1) gap.length).mapM (unchangedRow newLines delta) =
      some (gapRows (oldDone + 1) (done.length + 1) gap)
  | [], _, _, _, _ => rfl
  | line :: gap, done, oldDone, hlines, hdelta => by
    have hline : lineAt newLines (done.length + 1) = some line := by
      rw [lineAt, if_neg (Nat.succ_ne_zero _), Nat.add_sub_cancel, hlines, List.getElem?_append_right (Nat.le_refl _),
        Nat.sub_self]
      rfl
    have hold : (max (((done.length + 1 : Nat) : Int) - delta) 1).toNat = oldDone + 1 := by omega
    have hlines' : newLines = (done ++ [line]) ++ (gap ++ rest) := by rw [hlines]; simp
    have hdelta' : delta = ((done ++ [line]).length : Int) - ((oldDone + 1 : Nat) : Int) := by
      rw [hdelta, length_append, length_singleton]
      omega
    have ih := mapM_unchangedRow gap (done ++ [line]) (oldDone + 1) hlines' hdelta'
    rw [length_append, length_singleton] at ih
    rw [length_cons, List.range'_succ, mapM_cons, unchangedRow, hline, Option.map_some, hold, ih]
    rfl

/-- The walk has come to a line: both sides are complete up to it, and outside the folds are the rows of the hunks. -/
structure Walked (s : FullState) (oldDone newDone : List Line) (kept : List DiffRow) : Prop where
  olds : oldSide s.out = numbered 1 oldDone
  news : newSide s.out = numbered 1 newDone
  nextLine : s.nextLine = newDone.length + 1
  delta : s.delta = (newDone.length : Int) - (oldDone.length : Int)
  folds : ∀ f ∈ s.folds, f.2 < s.out.length
  kept : outside s.folds s.out = kept

theorem walked_fillTo {s : FullState} {oldDone newDone gap rest : List Line} {kept : List DiffRow}
    (hs : Walked s oldDone newDone kept) (hlines : newLines = newDone ++ (gap ++ rest)) :
    ∃ s', s.fillTo newLines (newDone.length + gap.length + 1) = some s' ∧ Walked s' (oldDone ++ gap) (newDone ++ gap) kept := by
  unfold FullState.fillTo
  rw [hs.nextLine]
  split
  · rename_i hlt
    have hne : gap ≠ [] := by
      rintro rfl
      simp at hlt
    have hcount : newDone.length + gap.length + 1 - (newDone.length + 1) = gap.length := by omega
    rw [hcount, mapM_unchangedRow gap newDone oldDone.length hlines hs.delta]
    have hrows : gapRows (oldDone.length + 1) (newDone.length + 1) gap ≠ [] := by
      cases gap with
      | nil => exact absurd rfl hne
      | cons line gap => exact cons_ne_nil _ _
    refine ⟨_, rfl, ?_, ?_, ?_, ?_, ?_, ?_⟩
    · rw [oldSide_append, hs.olds, oldSide_gapRows, numbered_append, Nat.add_comm 1]
    · rw [newSide_append, hs.news, newSide_gapRows, numbered_append, Nat.add_comm 1]
    · rw [length_append]
    · rw [hs.delta, length_append, length_append]
      omega
    · have hpos := length_pos_of_ne_nil hrows
      intro f hf
      rw [length_append]
      rcases mem_append.1 hf with hf | hf
      · have := hs.folds f hf
        omega
      · obtain rfl := mem_singleton.1 hf
        simp only [length_append]
        omega
    · rw [← hs.kept]
      exact outside_fold s.folds hrows
  · rename_i hge
    obtain rfl : gap = [] := length_eq_zero_iff.1 (by omega)
    rw [append_nil, append_nil]
    exact ⟨s, rfl, hs⟩

theorem lineAt_of_mem_numbered {n : Nat} {done lines rest : List Line} (hn : n = done.length + 1) {e : DiffEntry}
    (he : e ∈ numbered n lines) : lineAt (done ++ (lines ++ rest)) e.lineNo = some e.text := by
  induction lines generalizing n done with
  | nil => cases he
  | cons line lines ih =>
    rcases mem_cons.1 he with rfl | he
    · rw [lineAt, if_neg (by simp only; omega)]
      simp only [hn, Nat.add_sub_cancel]
      rw [List.getElem?_append_right (Nat.le_refl _), Nat.sub_self]
      rfl
    · have hn' : n + 1 = (done ++ [line]).length + 1 := by rw [hn, length_append]; rfl
      have h := ih hn' he
      simpa using h

theorem map_supplied (h : ∀ e ∈ newSide rows, ∀ text, lineAt newLines e.lineNo = some text → text = e.text) :
    rows.map (supplied newLines) = rows := by
  have hid : ∀ row ∈ rows, supplied newLines row = id row := by
    intro row hrow
    match row with
    | .metaRow _ => rfl
    | .pair _ _ none => rfl
    | .pair kind old (some e) =>
      have hline := h e (mem_filterMap.2 ⟨_, hrow, rfl⟩)
      show DiffRow.pair kind old (some { e with text := (lineAt newLines e.lineNo).getD e.text }) = _
      cases hl : lineAt newLines e.lineNo with
      | none => rfl
      | some text =>
        rw [hline text hl]
        rfl
  rw [map_congr_left hid, map_id]

theorem numbered_startOf (pos : Nat) (lines : List Line) : numbered (startOf pos lines.length) lines =
    numbered (pos + 1) lines := by
  cases lines with
  | nil => rfl
  | cons line lines => rw [startOf, if_neg (by simp)]

theorem startOf_boundary (pos count : Nat) : (if count = 0 then startOf pos count + 1 else startOf pos count) = pos + 1 ∧
    (if count = 0 then pos + 1 else startOf pos count + count) = pos + count + 1 := by
  unfold startOf
  split <;> omega

theorem walked_walkHunk {s : FullState} {oldDone newDone gap rest : List Line}
    {kept : List DiffRow} {h : Hunk} (hf : h.Fits) (hs : Walked s oldDone newDone kept)
    (hlines : newLines = newDone ++ (gap ++ (h.news ++ rest))) (hrows : BodyRows h rows)
    (hoc : h.oldCount = h.olds.length) (hnc : h.newCount = h.news.length)
    (hos : h.oldStart = startOf (oldDone.length + gap.length) h.oldCount)
    (hns : h.newStart = startOf (newDone.length + gap.length) h.newCount) :
    ∃ s', s.walkHunk newLines (splitBlock (h, rows)) = some s' ∧
      Walked s' (oldDone ++ gap ++ h.olds) (newDone ++ gap ++ h.news) (kept ++ blockRows (h, rows)) := by
  obtain ⟨s₁, hfill, hs₁⟩ := walked_fillTo hs hlines
  obtain ⟨hb1, hb2⟩ := startOf_boundary (newDone.length + gap.length) h.newCount
  have holds : oldSide (blockRows (h, rows)) = numbered ((oldDone ++ gap).length + 1) h.olds := by
    rw [length_append, ← numbered_startOf, ← hoc, ← hos, ← hrows.olds]
    rfl
  have hnews : newSide (blockRows (h, rows)) = numbered ((newDone ++ gap).length + 1) h.news := by
    rw [length_append, ← numbered_startOf, ← hnc, ← hns, ← hrows.news]
    rfl
  have hsupplied : (blockRows (h, rows)).map (supplied newLines) = blockRows (h, rows) := by
    refine map_supplied (fun e he text ht => ?_)
    rw [hnews] at he
    have hline : lineAt (newDone ++ gap ++ (h.news ++ rest)) e.lineNo = some e.text := lineAt_of_mem_numbered rfl he
    rw [append_assoc, ← hlines, ht] at hline
    exact Option.some.inj hline
  have hmin : min (newDone.length + gap.length + 1) (newLines.length + 1) = newDone.length + gap.length + 1 := by
    rw [hlines]
    simp only [length_append]
    omega
  unfold FullState.walkHunk splitBlock
  simp only [hunkHeader_header hf, hns, hb1, hb2, hmin, hfill, Option.map_some, hsupplied]
  refine ⟨_, rfl, ?_, ?_, ?_, ?_, ?_, ?_⟩
  · rw [oldSide_append, hs₁.olds, holds, numbered_append 1 (oldDone ++ gap), Nat.add_comm 1]
  · rw [newSide_append, hs₁.news, hnews, numbered_append 1 (newDone ++ gap), Nat.add_comm 1]
  · simp only [hnc, length_append]
    omega
  · simp only [hs₁.delta, hnc, hoc, length_append]
    omega
  · intro f hf
    have := hs₁.folds f hf
    simp only [length_append]
    omega
  · rw [outside_append hs₁.folds, hs₁.kept]

theorem Between.fits {oldPos newPos : Nat} {old new : List Line}
    (h : Between hunks oldPos newPos old new) (hold : oldPos + old.length < 2 ^ 63)
    (hnew : newPos + new.length < 2 ^ 63) : ∀ g ∈ hunks, g.Fits := by
  induction h with
  | done => exact nofun
  | hunk oldCount newCount oldStart newStart rest ih =>
    simp only [length_append] at hold hnew
    intro g hg
    rcases mem_cons.1 hg with rfl | hg
    · unfold Hunk.Fits
      rw [oldStart, newStart, oldCount, newCount, startOf, startOf]
      split <;> split <;> omega
    · exact ih (by omega) (by omega) g hg

theorem walked_hunks {oldPos newPos : Nat} {old new : List Line} (h : Between hunks oldPos newPos old new) :
    ∀ {blocks : List (Hunk × List DiffRow)} {s : FullState}
    {oldDone newDone : List Line} {kept : List DiffRow}, blocks.map (·.1) = hunks → (∀ b ∈ blocks, BodyRows b.1 b.2) →
    (∀ g ∈ hunks, g.Fits) → Walked s oldDone newDone kept → oldDone.length = oldPos → newDone.length = newPos →
    newLines = newDone ++ new → ∃ s', ((blocks.map splitBlock).foldlM (FullState.walkHunk newLines) s).bind
        (fun s => s.fillTo newLines (newLines.length + 1)) = some s' ∧
      Walked s' (oldDone ++ old) (newDone ++ new) (kept ++ blocks.flatMap blockRows) := by
  induction h with
  | done =>
    rename_i oldPos newPos rest
    intro blocks s oldDone newDone kept hmap _ _ hs _ _ hlines
    obtain rfl := map_eq_nil_iff.1 hmap
    have hlines' : newLines = newDone ++ (rest ++ []) := by rw [append_nil, hlines]
    obtain ⟨s', hfill, hs'⟩ := walked_fillTo hs hlines'
    refine ⟨s', ?_, ?_⟩
    · rw [← hfill, hlines, length_append]
      rfl
    · rw [flatMap_nil, append_nil]
      exact hs'
  | hunk oldCount newCount oldStart newStart rest ih =>
    rename_i oldPos newPos gap old new h hunks
    intro blocks s oldDone newDone kept hmap hblocks hfits hs hold hnew hlines
    cases blocks with
    | nil => cases hmap
    | cons block blocks =>
      obtain ⟨hblock, hmap'⟩ := List.cons.inj hmap
      obtain ⟨h', rows⟩ := block
      obtain rfl : h' = h := hblock
      have hlines' : newLines = newDone ++ (gap ++ (h'.news ++ new)) := by rw [hlines, append_assoc]
      rw [← hold] at oldStart
      rw [← hnew] at newStart
      obtain ⟨s₁, hstep, hs₁⟩ := walked_walkHunk (hfits h' mem_cons_self) hs hlines'
        (hblocks _ mem_cons_self) oldCount newCount oldStart newStart
      obtain ⟨s', hrun, hs'⟩ := ih hmap' (fun b hb => hblocks b (mem_cons_of_mem _ hb))
        (fun g hg => hfits g (mem_cons_of_mem _ hg)) hs₁ (by simp only [length_append, hold])
        (by simp only [length_append, hnew]) (by rw [hlines']; simp)
      refine ⟨s', ?_, ?_⟩
      · rw [map_cons, foldlM_cons, hstep]
        exact hrun
      · simpa using hs'

/-! ## A file the widget takes for empty -/

theorem foldlM_walkHunk_nil : ∀ (hunks : List (HunkHeader × List DiffRow)) {s : FullState}, 1 ≤ s.nextLine →
    ∃ s', hunks.foldlM (FullState.walkHunk []) s = some s' ∧ 1 ≤ s'.nextLine ∧
      s'.out = s.out ++ hunks.flatMap (·.2) ∧ s'.folds = s.folds
  | [], s, hs => ⟨s, rfl, hs, (append_nil _).symm, rfl⟩
  | hunk :: hunks, s, hs => by
    have hrows : hunk.2.map (supplied []) = hunk.2 := map_supplied (fun e _ text ht => by
      rw [lineAt] at ht
      split at ht <;> cases ht)
    have hfill : ∀ n, s.fillTo [] (min n (([] : List Line).length + 1)) = some s := fun n =>
      if_neg (by simp only [length_nil]; omega)
    rw [foldlM_cons, FullState.walkHunk, hfill, hrows]
    obtain ⟨s', hrun, hnext, hout, hfolds⟩ := foldlM_walkHunk_nil hunks (s := {
      s with
      out := s.out ++ hunk.2
      nextLine := max (if hunk.1.newCount = 0 then if hunk.1.newCount = 0 then hunk.1.newStart + 1 else hunk.1.newStart
        else hunk.1.newStart + hunk.1.newCount) 1
      delta := s.delta + ((hunk.1.newCount : Int) - (hunk.1.oldCount : Int)) }) (Nat.le_max_right _ _)
    exact ⟨s', hrun, hnext, by rw [hout, flatMap_cons, append_assoc], hfolds⟩

theorem Parsed.fullFile_nil {newText : List Char} (h : Parsed diff hunks lead blocks)
    (hnil : splitLines newText = []) : parseFullFile diff newText = some (parse diff, []) := by
  obtain ⟨s, hrun, hnext, hout, hfolds⟩ := foldlM_walkHunk_nil (blocks.map splitBlock)
    (s := ⟨lead, [], 1, 0⟩) (Nat.le_refl 1)
  have hfill : s.fillTo [] (([] : List Line).length + 1) = some s := if_neg (by simp only [length_nil]; omega)
  have hrows : (blocks.map splitBlock).flatMap (·.2) = blocks.flatMap blockRows := by
    rw [flatMap_map]
    rfl
  unfold parseFullFile
  simp only [hnil, h.split]
  rw [hrun, Option.bind_some, hfill, Option.map_some, hout, hfolds, hrows, ← h.rows]

theorem Between.news_le {oldPos newPos : Nat} {old new : List Line}
    (h : Between hunks oldPos newPos old new) : (hunks.flatMap Hunk.news).length ≤ new.length := by
  induction h with
  | done => exact Nat.zero_le _
  | hunk _ _ _ _ _ ih =>
    simp only [flatMap_cons, length_append]
    omega

theorem Between.covered {oldPos newPos : Nat} {old new : List Line} (h : Between hunks oldPos newPos old new)
    (hall : (hunks.flatMap Hunk.news).length = new.length) :
    hunks.flatMap (fun h => numbered h.oldStart h.olds) = numbered (oldPos + 1) old ∧
      hunks.flatMap (fun h => numbered h.newStart h.news) = numbered (newPos + 1) new := by
  induction h with
  | done =>
    obtain rfl := length_eq_zero_iff.1 hall.symm
    exact ⟨rfl, rfl⟩
  | hunk oldCount newCount oldStart newStart rest ih =>
    rename_i oldPos newPos gap old new h hunks
    have hle := rest.news_le
    simp only [flatMap_cons, length_append] at hall
    obtain rfl : gap = [] := length_eq_zero_iff.1 (by omega)
    obtain ⟨iho, ihn⟩ := ih (by simp only [length_nil] at hall; omega)
    have holds : numbered h.oldStart h.olds = numbered (oldPos + 1) h.olds := by
      rw [oldStart, oldCount]
      exact numbered_startOf oldPos h.olds
    have hnews : numbered h.newStart h.news = numbered (newPos + 1) h.news := by
      rw [newStart, newCount]
      exact numbered_startOf newPos h.news
    rw [flatMap_cons, flatMap_cons, iho, ihn, holds, hnews]
    simp only [nil_append, length_nil, Nat.add_zero]
    rw [numbered_append, numbered_append, Nat.add_right_comm oldPos, Nat.add_right_comm newPos]
    exact ⟨rfl, rfl⟩

theorem sides_blocks : ∀ {blocks : List (Hunk × List DiffRow)}, (∀ b ∈ blocks, BodyRows b.1 b.2) →
    oldSide (blocks.flatMap blockRows) = (blocks.map (·.1)).flatMap (fun h => numbered h.oldStart h.olds) ∧
      newSide (blocks.flatMap blockRows) = (blocks.map (·.1)).flatMap (fun h => numbered h.newStart h.news)
  | [], _ => ⟨rfl, rfl⟩
  | block :: blocks, h => by
    obtain ⟨iho, ihn⟩ := sides_blocks (fun b hb => h b (mem_cons_of_mem block hb))
    have hb := h block mem_cons_self
    rw [flatMap_cons, oldSide_append, newSide_append, iho, ihn, map_cons, flatMap_cons, flatMap_cons, ← hb.olds, ← hb.news]
    exact ⟨rfl, rfl⟩

theorem Parsed.sides (h : Parsed diff hunks lead blocks) :
    oldSide (parse diff) = hunks.flatMap (fun h => numbered h.oldStart h.olds) ∧
      newSide (parse diff) = hunks.flatMap (fun h => numbered h.newStart h.news) := by
  obtain ⟨ho, hn⟩ := sides_blocks h.bodies
  rw [h.rows, oldSide_append, newSide_append, h.leadOld, h.leadNew, ho, hn, h.hunks]
  exact ⟨rfl, rfl⟩

/-! ## Both files -/

/-- The full-file rows carry the lines of both files with their numbers, and are the rows of the diff outside the folds. -/
def Reconstructs (diff : List Char) (old new : TextFile) : Prop :=
  ∃ rows folds, parseFullFile diff new.text = some (rows, folds) ∧ newSide rows = numbered 1 new.lines ∧
    oldSide rows = numbered 1 old.lines ∧ outside folds rows = parse diff

theorem outside_nil (rows : List DiffRow) : outside [] rows = rows := by
  simp [outside]

section
variable {diff : List Char} {old new : TextFile} {leading : List Line} {hunks : List Hunk}

theorem UnifiedDiff.fits (hd : UnifiedDiff diff old new leading hunks) : ∀ h ∈ hunks, h.Fits :=
  hd.between.fits (by rw [Nat.zero_add]; exact old.short) (by rw [Nat.zero_add]; exact new.short)

theorem UnifiedDiff.reconstructs (hd : UnifiedDiff diff old new leading hunks) (hnl : new.text ≠ ['\n']) :
    Reconstructs diff old new := by
  obtain ⟨lead, blocks, hp⟩ := parse_hunks hd hd.fits
  have hlines : splitLines new.text = new.lines := by
    rw [splitLines_eq, if_neg hnl]
    rfl
  have hstart : Walked ⟨lead, [], 1, 0⟩ [] [] lead := ⟨hp.leadOld, hp.leadNew, rfl, rfl, nofun, outside_nil lead⟩
  obtain ⟨s, hrun, hs⟩ := walked_hunks hd.between hp.hunks hp.bodies hd.fits hstart rfl rfl
    (show new.lines = [] ++ new.lines from rfl)
  refine ⟨s.out, s.folds, ?_, hs.news, hs.olds, ?_⟩
  · unfold parseFullFile
    simp only [hp.split, hlines]
    rw [hrun, Option.map_some]
  · rw [hs.kept, hp.rows]

/-- **A new file of one empty line** is reconstructed when a hunk shows the line, and only then. -/
theorem UnifiedDiff.reconstructs_blank (hd : UnifiedDiff diff old new leading hunks) (hnl : new.text = ['\n']) :
    Reconstructs diff old new ↔ ∃ h ∈ hunks, h.news ≠ [] := by
  obtain ⟨lead, blocks, hp⟩ := parse_hunks hd hd.fits
  have hlines : new.lines = [[]] := by
    rw [TextFile.lines, hnl]
    rfl
  have hfull : parseFullFile diff new.text = some (parse diff, []) := hp.fullFile_nil (by rw [hnl]; rfl)
  obtain ⟨hso, hsn⟩ := hp.sides
  constructor
  · rintro ⟨rows, folds, hrows, hnew, -, -⟩
    rw [hfull] at hrows
    cases hrows
    by_contra hnone
    have hempty : hunks.flatMap (fun h => numbered h.newStart h.news) = [] := by
      rw [flatMap_eq_nil_iff]
      intro h hh
      rw [show h.news = [] from by_contra (fun hne => hnone ⟨h, hh, hne⟩), numbered_nil]
    rw [hsn, hempty, hlines] at hnew
    cases hnew
  rintro ⟨h, hh, hne⟩
  -- one line in all, and a hunk has it: no line is left for a gap
  have hcount : (hunks.flatMap Hunk.news).length = new.lines.length := by
    have hle := hd.between.news_le
    have hpos : 0 < (hunks.flatMap Hunk.news).length := by
      rw [length_pos_iff, ne_eq, flatMap_eq_nil_iff]
      exact fun hall => hne (hall h hh)
    rw [hlines] at hle ⊢
    exact Nat.le_antisymm hle hpos
  obtain ⟨hco, hcn⟩ := hd.between.covered hcount
  exact ⟨parse diff, [], hfull, hsn.trans hcn, hso.trans hco, outside_nil _⟩

end

/-- **The full-file view reconstructs both files** of every well-formed unified diff, exactly unless the new file is a single
empty line that no hunk shows. -/
theorem full_file_reconstructs_iff (diff : List Char) (old new : TextFile) (leading : List Line) (hunks : List Hunk)
    (hd : UnifiedDiff diff old new leading hunks) : Reconstructs diff old new ↔ new.text ≠ ['\n'] ∨ ∃ h ∈ hunks, h.news ≠ [] := by
  by_cases hnl : new.text = ['\n']
  · rw [hd.reconstructs_blank hnl]
    exact ⟨Or.inr, fun h => h.resolve_left (fun hne => hne hnl)⟩
  · exact ⟨fun _ => Or.inl hnl, fun _ => hd.reconstructs hnl⟩

def lineC : TextFile := ⟨['c', '\n'], by decide⟩

def linesBC : TextFile := ⟨['b', '\n', 'c', '\n'], by decide⟩

def insertHunk : Hunk := ⟨0, 0, 1, 1, false, true, [], [.added ['b']]⟩

theorem decimal_of_lt {n : Nat} (h : n < 10) : Codec.decimal n = [Modbus.hexChar n] := by
  unfold Codec.decimal Modbus.digitsOf
  split
  · rename_i hz
    rw [hz]
    rfl
  · rename_i hz
    rw [Nat.digits_of_lt 10 n hz h]
    rfl

theorem insertHunk_header : insertHunk.header = "@@ -0,0 +1 @@".toList := by
  simp only [Hunk.header, insertHunk, rangeText, decimal_of_lt (show 0 < 10 by decide),
    decimal_of_lt (show 1 < 10 by decide)]
  decide

theorem inserted_line_reconstructs : UnifiedDiff "@@ -0,0 +1 @@\n+b\n".toList lineC linesBC [] [insertHunk] ∧
      Reconstructs "@@ -0,0 +1 @@\n+b\n".toList lineC linesBC := by
  have hbetween : Between [insertHunk] 0 0 ([] ++ insertHunk.olds ++ [['c']]) ([] ++ insertHunk.news ++ [['c']]) :=
    .hunk rfl rfl rfl rfl .done
  have hd : UnifiedDiff "@@ -0,0 +1 @@\n+b\n".toList lineC linesBC [] [insertHunk] := by
    refine ⟨?_, nofun, ?_⟩
    · rw [flatMap_singleton, Hunk.lines, insertHunk_header]
      decide
    · rw [show lineC.lines = [] ++ insertHunk.olds ++ [['c']] by decide,
        show linesBC.lines = [] ++ insertHunk.news ++ [['c']] by decide]
      exact hbetween
  exact ⟨hd, (full_file_reconstructs_iff _ lineC linesBC [] [insertHunk] hd).2 (Or.inl (by decide))⟩

def blankLine : TextFile := ⟨['\n'], by decide⟩

def lineABlank : TextFile := ⟨['a', '\n', '\n'], by decide⟩

def deleteHunk : Hunk := ⟨1, 1, 0, 0, true, false, [], [.removed ['a']]⟩

theorem deleteHunk_header : deleteHunk.header = "@@ -1 +0,0 @@".toList := by
  simp only [Hunk.header, deleteHunk, rangeText, decimal_of_lt (show 0 < 10 by decide),
    decimal_of_lt (show 1 < 10 by decide)]
  decide

/-- **The line of a file of one empty line is lost** when the hunks do not show it: it is missing on both sides. -/
theorem lone_blank_line_is_lost : UnifiedDiff "@@ -1 +0,0 @@\n-a\n".toList lineABlank blankLine [] [deleteHunk] ∧
      blankLine.lines = [[]] ∧ lineABlank.lines = [['a'], []] ∧ parseFullFile "@@ -1 +0,0 @@\n-a\n".toList blankLine.text =
        some ([.metaRow "@@ -1 +0,0 @@".toList, .pair .removed (some ⟨['a'], 1⟩) none], []) ∧
      ¬ Reconstructs "@@ -1 +0,0 @@\n-a\n".toList lineABlank blankLine := by
  have hbetween : Between [deleteHunk] 0 0 ([] ++ deleteHunk.olds ++ [[]]) ([] ++ deleteHunk.news ++ [[]]) :=
    .hunk rfl rfl rfl rfl .done
  have hrows : parseFullFile "@@ -1 +0,0 @@\n-a\n".toList blankLine.text =
      some ([.metaRow "@@ -1 +0,0 @@".toList, .pair .removed (some ⟨['a'], 1⟩) none], []) := by decide
  refine ⟨⟨?_, nofun, ?_⟩, by decide, by decide, hrows, ?_⟩
  · rw [flatMap_singleton, Hunk.lines, deleteHunk_header]
    decide
  · rw [show lineABlank.lines = [] ++ deleteHunk.olds ++ [[]] by decide,
      show blankLine.lines = [] ++ deleteHunk.news ++ [[]] by decide]
    exact hbetween
  rintro ⟨rows, folds, hfull, hnew, -⟩
  rw [hrows] at hfull
  cases hfull
  exact absurd hnew (by decide)

end Ferrowl.Ui.DiffView
