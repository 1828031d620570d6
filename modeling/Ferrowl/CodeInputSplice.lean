import Ferrowl.CodeInputUndo
/-!
# CodeInputSplice — deletes and pastes as splices of the text

The editor keeps lines, but what it stands for is one text, its lines joined by line breaks.  A position cuts that text in two
(`content_eq`).
-/
namespace Ferrowl.Ui

open List Option

/-! ## Cutting the text at a position -/

@[simp] theorem joinLines_singleton (x : Line) : joinLines [x] = x := by
  simp [joinLines]

theorem joinLines_cons_cons (x y : Line) (ls : List Line) : joinLines (x :: y :: ls) = x ++ '\n' :: joinLines (y :: ls) := by
  simp [joinLines, List.intercalate]

theorem joinLines_glue (before : List Line) (x y : Line) (after : List Line) :
    joinLines (before ++ (x ++ y) :: after) = joinLines (before ++ [x]) ++ joinLines (y :: after) := by
  induction before with
  | nil =>
    cases after with
    | nil => simp
    | cons z after => simp [joinLines_cons_cons]
  | cons b before ih =>
    cases before with
    | nil =>
      rw [nil_append] at ih
      simp [joinLines_cons_cons, ih, joinLines_singleton]
    | cons b' before =>
      simp only [cons_append] at ih ⊢
      rw [joinLines_cons_cons, joinLines_cons_cons, ih, append_assoc, cons_append]

theorem joinLines_concat (x : Line) (ls : List Line) (y : Line) :
    joinLines (x :: (ls ++ [y])) = joinLines (x :: ls) ++ '\n' :: y := by
  induction ls generalizing x with
  | nil => simp [joinLines_cons_cons]
  | cons z ls ih => rw [cons_append, joinLines_cons_cons, joinLines_cons_cons, ih, append_assoc, cons_append]

theorem joinLines_splitOn (text : Line) : joinLines (text.splitOn '\n') = text :=
  intercalate_splitOn _

def textBefore (lines : List Line) (p : Nat × Nat) : Line :=
  joinLines (lines.take p.1 ++ [(lines[p.1]?.getD []).take p.2])

def textAfter (lines : List Line) (p : Nat × Nat) : Line :=
  joinLines ((lines[p.1]?.getD []).drop p.2 :: lines.drop (p.1 + 1))

section
variable {lines : List Line} {line : Nat} {chars : Line}

theorem textBefore_eq (h : lines[line]? = some chars) (col : Nat) :
    textBefore lines (line, col) = joinLines (lines.take line ++ [chars.take col]) := by
  rw [textBefore, h]
  rfl

theorem textAfter_eq (h : lines[line]? = some chars) (col : Nat) :
    textAfter lines (line, col) = joinLines (chars.drop col :: lines.drop (line + 1)) := by
  rw [textAfter, h]
  rfl

theorem take_append_cons_drop (h : lines[line]? = some chars) : lines = lines.take line ++ chars :: lines.drop (line + 1) := by
  obtain ⟨hlt, rfl⟩ := List.getElem?_eq_some_iff.1 h
  rw [← drop_eq_getElem_cons hlt, take_append_drop]

theorem content_eq (h : lines[line]? = some chars) (col : Nat) :
    joinLines lines = textBefore lines (line, col) ++ textAfter lines (line, col) := by
  rw [textBefore_eq h, textAfter_eq h, ← joinLines_glue, take_append_drop, ← take_append_cons_drop h]

theorem joinLines_insert_one (before : List Line) (x part y : Line) (after : List Line) :
    joinLines (before ++ (x ++ part ++ y) :: after) = joinLines (before ++ [x]) ++ part ++ joinLines (y :: after) := by
  have hrest := joinLines_glue [] part y after
  rw [nil_append, nil_append, joinLines_singleton] at hrest
  rw [append_assoc x part y, joinLines_glue, hrest, append_assoc]

/-- Text with line breaks put in at a position: its first line goes behind what is before, its last one in front of what is
after. -/
theorem joinLines_insert_many (before : List Line) (x first : Line) (middle : List Line) (last y : Line) (after : List Line) :
    joinLines (before ++ (x ++ first) :: (middle ++ (last ++ y) :: after)) =
      joinLines (before ++ [x]) ++ joinLines (first :: (middle ++ [last])) ++ joinLines (y :: after) := by
  have hrest := joinLines_glue (first :: middle) last y after
  simp only [cons_append] at hrest
  rw [joinLines_glue, hrest, append_assoc]

end

section
variable {R : TextRules} {cfg : CodeSettings R} {s t : CodeInputFieldState}

open CodeInputFieldState

/-! ## Pasting -/

theorem pasteChars_content {chars : Line} (hline : s.lines[s.activeLine]? = some chars) {col : Nat} (hcol : col ≤ chars.length)
    (parts : List Line) : Ensures (s.pasteChars col parts) fun t =>
      t.content = textBefore s.lines (s.activeLine, col) ++ joinLines parts ++ textAfter s.lines (s.activeLine, col) := by
  have hlt := (List.getElem?_eq_some_iff.1 hline).1
  rw [textBefore_eq hline, textAfter_eq hline]
  unfold pasteChars
  split
  · exact nofun
  · next part =>
    rw [insertAt_eq hline]
    refine .some ?_
    rw [joinLines_singleton, ← joinLines_insert_one]
    simp only [content, set_eq_take_append_cons_drop, if_pos hlt]
  next part next more =>
  have hactive : s.activeText? = some chars := hline
  rw [hactive, bind_some, slice?_eq (Nat.zero_le _) hcol, slice?_eq hcol (Nat.le_refl _)]
  simp only [bind_some, take_length, drop_zero]
  rw [splice?_eq (Nat.le_succ _) hlt]
  refine .some ?_
  have hlast := dropLast_append_getLast (cons_ne_nil next more)
  have hmany := joinLines_insert_many (s.lines.take s.activeLine) (chars.take col) part (next :: more).dropLast
    ((next :: more).getLast (cons_ne_nil next more)) (chars.drop col) (s.lines.drop (s.activeLine + 1))
  rw [hlast] at hmany
  rw [← hmany]
  simp only [content, append_assoc, cons_append, nil_append]

theorem clampNormal_content : Ensures s.clampNormal fun t => t.content = s.content ∧ t.register = s.register :=
  Ensures.trivial.map fun _ _ => ⟨rfl, rfl⟩

/-- The place `p` and `P` paste at: behind the cursor's character, and before it. -/
def pastePosition (s : CodeInputFieldState) (after : Bool) : Nat × Nat :=
  (s.activeLine, if after then min (s.cursorCol + 1) (s.lines[s.activeLine]?.getD []).length else s.cursorCol)

theorem paste_content (hin : Inside s.lines (s.activeLine, s.cursorCol)) {text : Line}
    (hreg : s.register = some (text, .charwise)) (after : Bool) :
    s.content = textBefore s.lines (pastePosition s after) ++ textAfter s.lines (pastePosition s after) ∧
      Ensures (s.paste after) fun t =>
        t.content = textBefore s.lines (pastePosition s after) ++ text ++ textAfter s.lines (pastePosition s after) := by
  obtain ⟨chars, hline, hle⟩ := hin.text
  have hpos : pastePosition s after = (s.activeLine, if after then min (s.cursorCol + 1) chars.length else s.cursorCol) := by
    rw [pastePosition, hline]
    rfl
  have hcol : (if after then min (s.cursorCol + 1) chars.length else s.cursorCol) ≤ chars.length := by
    split
    · exact Nat.min_le_right _ _
    · exact hle
  rw [hpos]
  refine ⟨content_eq hline _, ?_⟩
  have hactive : s.snapshotUndo.activeText? = some chars := hline
  unfold paste
  rw [hreg]
  simp only
  rw [hactive, bind_some]
  refine (pasteChars_content (s := s.snapshotUndo) hline hcol (text.splitOn '\n')).bind fun u hu => ?_
  refine clampNormal_content.mono fun t ht => ?_
  rw [ht.1, hu, joinLines_splitOn]
  rfl

/-! ## Deleting a run of characters -/

def selected (s : CodeInputFieldState) (anchor : Nat × Nat) : (Nat × Nat) × (Nat × Nat) :=
  if posLe anchor (s.activeLine, s.cursorCol) then (anchor, (s.activeLine, s.cursorCol))
  else ((s.activeLine, s.cursorCol), anchor)

/-- The place behind a position, at most the end of its line. -/
def behind (lines : List Line) (p : Nat × Nat) : Nat × Nat := (p.1, min (p.2 + 1) (lines[p.1]?.getD []).length)

theorem mapM_getElem?_range' (ls : List Line) (a k : Nat) (h : a + k ≤ ls.length) :
    ((List.range' a k).mapM fun l => ls[l]?) = some ((ls.drop a).take k) := by
  induction k generalizing a with
  | zero => rfl
  | succ k ih =>
    have ha : a < ls.length := by omega
    rw [List.range'_succ, mapM_cons, List.getElem?_eq_getElem ha, ih (a + 1) (by omega),
      drop_eq_getElem_cons ha, take_succ_cons]
    rfl

theorem behind_eq {ls : List Line} {line : Nat} {chars : Line} (h : ls[line]? = some chars) (col : Nat) :
    behind ls (line, col) = (line, min (col + 1) chars.length) := by
  rw [behind, h]
  rfl

variable {start : Nat × Nat}

theorem extractCharwise_content {stop : Nat × Nat} (hstart : Inside s.lines start)
    (hstop : Inside s.lines stop) (hle : posLe start stop = true) : Ensures (s.extractCharwise start stop) fun text =>
      s.content = textBefore s.lines start ++ text ++ textAfter s.lines (behind s.lines stop) := by
  obtain ⟨l₁, c₁⟩ := start
  obtain ⟨l₂, c₂⟩ := stop
  obtain ⟨first, hfirst, hc₁⟩ := hstart.text
  obtain ⟨last, hlast, -⟩ := hstop.text
  have hl₂ := (List.getElem?_eq_some_iff.1 hlast).1
  have hlines := take_append_cons_drop hfirst
  rw [behind_eq hlast, textBefore_eq hfirst, textAfter_eq hlast]
  simp only [posLe, Bool.or_eq_true, decide_eq_true_eq, Bool.and_eq_true, beq_iff_eq] at hle
  unfold extractCharwise
  simp only
  split
  · next heq =>
    -- both ends on one line: the line is cut in three
    subst heq
    cases hfirst.symm.trans hlast
    have hupTo : c₁ ≤ min (c₂ + 1) first.length := by omega
    rw [hfirst, bind_some, slice?_eq (Nat.min_le_right _ _) (Nat.min_le_right _ _), Nat.min_eq_left hupTo]
    refine .some ?_
    rw [← joinLines_insert_one]
    have hcut : first = first.take c₁ ++ (first.take (min (c₂ + 1) first.length)).drop c₁ ++
        first.drop (min (c₂ + 1) first.length) := by
      have htake : first.take c₁ = (first.take (min (c₂ + 1) first.length)).take c₁ := by
        rw [take_take, Nat.min_eq_left hupTo]
      rw [htake, take_append_drop, take_append_drop]
    rw [← hcut, content, ← hlines]
  next hne =>
  -- the first line ends the text before, the last one starts the text after
  rw [hfirst, hlast]
  simp only [bind_some]
  rw [slice?_eq (Nat.min_le_right _ _) (Nat.le_refl _), slice?_eq (Nat.zero_le _) (Nat.min_le_right _ _),
    Nat.min_eq_left hc₁, mapM_getElem?_range' _ _ _ (by omega)]
  simp only [bind_some, take_length, drop_zero, map_some]
  refine .some ?_
  have hrest : s.lines.drop (l₁ + 1) =
      (s.lines.drop (l₁ + 1)).take (l₂ - (l₁ + 1)) ++ last :: s.lines.drop (l₂ + 1) := by
    have hget : (s.lines.drop (l₁ + 1))[l₂ - (l₁ + 1)]? = some last := by
      rw [List.getElem?_drop, show l₁ + 1 + (l₂ - (l₁ + 1)) = l₂ by omega]
      exact hlast
    have hcut := take_append_cons_drop hget
    rwa [drop_drop, show l₁ + 1 + (l₂ - (l₁ + 1) + 1) = l₂ + 1 by omega] at hcut
  rw [cons_append, ← joinLines_insert_many, take_append_drop, take_append_drop, ← hrest, content, ← hlines]

/-- **Where the text of a selection ends**: with the character of its last position; on an empty line, with the line break
before it, unless the selection starts there too and is empty. -/
theorem extractCharwise_end {stop : Nat × Nat} {last : Line}
    (hlast : s.lines[stop.1]? = some last) (hle : posLe start stop = true) : Ensures (s.extractCharwise start stop) fun text =>
      (∀ c, last[stop.2]? = some c → text.getLast? = some c) ∧
      (last = [] → start.1 < stop.1 → text.getLast? = some '\n') ∧ (last = [] → start.1 = stop.1 → text = []) := by
  obtain ⟨l₁, c₁⟩ := start
  obtain ⟨l₂, c₂⟩ := stop
  simp only [posLe, Bool.or_eq_true, decide_eq_true_eq, Bool.and_eq_true, beq_iff_eq] at hle hlast
  unfold extractCharwise
  simp only
  split
  · next heq =>
    subst heq
    rw [hlast, bind_some, slice?_eq (Nat.min_le_right _ _) (Nat.min_le_right _ _)]
    refine .some ⟨fun c hc => ?_, fun _ hlt => absurd hlt (Nat.lt_irrefl _), fun hempty _ => by simp [hempty]⟩
    have hlt := (List.getElem?_eq_some_iff.1 hc).1
    rw [List.getLast?_eq_getElem?, List.getElem?_drop, length_drop, length_take, List.getElem?_take_of_lt (by omega), ← hc]
    congr 1
    omega
  next hne =>
  refine Ensures.trivial.bind fun first _ => Ensures.trivial.bind fun head _ => Ensures.trivial.bind fun middle _ => ?_
  rw [hlast, bind_some, slice?_eq (Nat.zero_le _) (Nat.min_le_right _ _), map_some]
  refine .some ?_
  rw [drop_zero, cons_append, joinLines_concat]
  refine ⟨fun c hc => ?_, fun hempty _ => by simp [hempty], fun _ heq => absurd heq hne⟩
  have hlt := (List.getElem?_eq_some_iff.1 hc).1
  have hend : last.take (min (c₂ + 1) last.length) = last.take c₂ ++ [c] := by
    rw [Nat.min_eq_left hlt, take_succ, hc]
    rfl
  rw [hend, List.getLast?_append, List.getLast?_cons, List.getLast?_concat]
  rfl

theorem dropChars_content {stop : Nat × Nat} (hstart : Inside s.lines start) (hstop : Inside s.lines stop) :
    Ensures (s.dropChars start stop) fun t =>
      t.content = textBefore s.lines start ++ textAfter s.lines (behind s.lines stop) ∧ t.register = s.register := by
  obtain ⟨l₁, c₁⟩ := start
  obtain ⟨l₂, c₂⟩ := stop
  obtain ⟨first, hfirst, hc₁⟩ := hstart.text
  obtain ⟨last, hlast, -⟩ := hstop.text
  unfold dropChars
  rw [hfirst, hlast]
  simp only [bind_some]
  rw [slice?_eq (Nat.zero_le _) (Nat.min_le_right _ _), slice?_eq (Nat.min_le_right _ _) (Nat.le_refl _)]
  simp only [bind_some, drop_zero, take_length]
  refine Ensures.map (P := fun lines => lines = s.lines.take l₁ ++ [first.take (min c₁ first.length) ++
    last.drop (min (c₂ + 1) last.length)] ++ s.lines.drop (l₂ + 1)) ?_ fun lines hlines => ⟨?_, rfl⟩
  · intro lines h
    unfold splice? at h
    split at h
    · exact (Option.some.inj h).symm
    · cases h
  · rw [behind_eq hlast, textBefore_eq hfirst, textAfter_eq hlast, ← joinLines_glue]
    simp [content, hlines, Nat.min_eq_left hc₁]

theorem selected_ordered (anchor : Nat × Nat) : posLe (selected s anchor).1 (selected s anchor).2 = true := by
  unfold selected
  by_cases h : posLe anchor (s.activeLine, s.cursorCol) = true
  · rw [if_pos h]
    exact h
  · rw [if_neg h]
    simp only [posLe, Bool.or_eq_true, decide_eq_true_eq, Bool.and_eq_true, beq_iff_eq] at h ⊢
    omega

variable {anchor : Nat × Nat}

theorem selected_inside (hin : Inside s.lines (s.activeLine, s.cursorCol)) (ha : Inside s.lines anchor) :
    Inside s.lines (selected s anchor).1 ∧ Inside s.lines (selected s anchor).2 := by
  unfold selected
  split
  · exact ⟨ha, hin⟩
  · exact ⟨hin, ha⟩

theorem deleteSelection_charwise (hd : cfg.disabled = false)
    (hin : Inside s.lines (s.activeLine, s.cursorCol)) (hm : s.mode = .visual false)
    (ha : s.visualAnchor = some anchor) (hanchor : Inside s.lines anchor) {stop : Nat × Nat}
    (hspan : selected s anchor = (start, stop)) {last : Line} (hlast : s.lines[stop.1]? = some last) :
    Ensures (deleteSelection cfg s) fun t => ∃ text, t.register = some (text, .charwise) ∧
      s.content = textBefore s.lines start ++ text ++ textAfter s.lines (behind s.lines stop) ∧
      t.content = textBefore s.lines start ++ textAfter s.lines (behind s.lines stop) ∧
      (∀ c, last[stop.2]? = some c → text.getLast? = some c) ∧
      (last = [] → start.1 < stop.1 → text.getLast? = some '\n') ∧ (last = [] → start.1 = stop.1 → text = []) := by
  obtain ⟨hstart, hstop⟩ := selected_inside hin hanchor
  have hle := selected_ordered (s := s) anchor
  rw [hspan] at hstart hstop hle
  have hrange : s.selectionRange = some (some (start, stop)) := by
    unfold selectionRange
    rw [ha, hm]
    simp only [Bool.false_eq_true, if_false]
    exact congrArg (some ∘ some) hspan
  have hlw : ∀ u : CodeInputFieldState, u.mode = s.mode → u.linewise = false := fun u hu => by simp [linewise, hu, hm]
  unfold deleteSelection
  rw [if_neg (by simp [hd]), hrange, bind_some]
  simp only [yankSpan, hlw s.snapshotUndo rfl, Bool.false_eq_true, if_false]
  refine Ensures.bind (P := fun u => ∃ text, s.extractCharwise start stop = some text ∧
    u = s.snapshotUndo.setRegister text .charwise) ?_ ?_
  · intro u hu
    obtain ⟨text, htext, rfl⟩ := map_eq_some_iff.1 hu
    exact ⟨text, htext, rfl⟩
  rintro _ ⟨text, htext, rfl⟩
  rw [hlw (s.snapshotUndo.setRegister text .charwise) rfl, if_neg Bool.false_ne_true]
  refine (dropChars_content (s := s.snapshotUndo.setRegister text .charwise) hstart hstop).bind fun u hu => ?_
  refine clampNormal_content.mono fun t ht => ⟨text, ht.2.trans hu.2, ?_, ht.1.trans hu.1, ?_⟩
  · exact extractCharwise_content hstart hstop hle text htext
  · exact extractCharwise_end hlast hle text htext

/-! ## Deleting whole lines -/

def withoutLines (lines : List Line) (first last : Nat) : List Line :=
  if first = 0 ∧ last = lines.length - 1 then [[]] else lines.take first ++ lines.drop (last + 1)

theorem dropLines_lines {first last : Nat} (hle : first ≤ last) (hlt : last < s.lines.length) :
    Ensures (s.dropLines first last) fun t => t.lines = withoutLines s.lines first last ∧ t.register = s.register := by
  unfold dropLines withoutLines
  by_cases hall : first = 0 ∧ last = s.lines.length - 1
  · rw [if_pos (by simp [hall]), if_pos hall]
    exact .some ⟨rfl, rfl⟩
  · rw [if_neg (by simpa using hall), if_neg hall, splice?_eq (Nat.le_succ_of_le hle) hlt]
    refine .some ⟨?_, rfl⟩
    simp

theorem clampNormal_lines : Ensures s.clampNormal fun t => t.lines = s.lines ∧ t.register = s.register :=
  Ensures.trivial.map fun _ _ => ⟨rfl, rfl⟩

theorem deleteSelection_linewise (hd : cfg.disabled = false) (h : Placed cfg s)
    (hm : s.mode = .visual true) (ha : s.visualAnchor = some anchor) {first last : Nat}
    (hfirst : first = min anchor.1 s.activeLine) (hlast : last = max anchor.1 s.activeLine) :
    Ensures (deleteSelection cfg s) fun t => t.register = some (joinLines ((s.lines.take (last + 1)).drop first), .linewise) ∧
      t.lines = withoutLines s.lines first last := by
  obtain ⟨p, hp, hplt⟩ := h.anchor true hm
  cases ha.symm.trans hp
  have hle : first ≤ last := by omega
  have hlt : last < s.lines.length := by
    have := h.line
    omega
  have hspan : (selected s anchor).1.1 = first ∧ (selected s anchor).2.1 = last := by
    have hord := selected_ordered (s := s) anchor
    unfold selected at hord ⊢
    split
    · next hpos =>
      have := fst_le_of_posLe hpos
      simp only at this ⊢
      omega
    next hpos =>
    have := fst_le_of_not_posLe hpos
    simp only at this ⊢
    omega
  have hrange : s.selectionRange = some (some ((first, 0), (last, s.lines[last].length - 1))) := by
    unfold selectionRange
    rw [ha, hm]
    simp only [if_true]
    change (s.lines[(selected s anchor).2.1]?.map fun line =>
      some (((selected s anchor).1.1, 0), ((selected s anchor).2.1, line.length - 1))) = _
    rw [hspan.1, hspan.2, List.getElem?_eq_getElem hlt]
    rfl
  have hlw : ∀ u : CodeInputFieldState, u.mode = s.mode → u.linewise = true := fun u hu => by simp [linewise, hu, hm]
  unfold deleteSelection
  rw [if_neg (by simp [hd]), hrange, bind_some]
  simp only [yankSpan, hlw s.snapshotUndo rfl, if_true]
  rw [slice?_eq (l := s.snapshotUndo.lines) (Nat.le_succ_of_le hle) hlt, map_some, bind_some,
    hlw (s.snapshotUndo.setRegister _ .linewise) rfl, if_pos rfl]
  refine (dropLines_lines (s := s.snapshotUndo.setRegister _ .linewise) hle hlt).bind fun u hu => ?_
  exact clampNormal_lines.mono fun t ht => ⟨ht.2.trans hu.2, ht.1.trans hu.1⟩

theorem deleteCurrentLine_linewise (hd : cfg.disabled = false) {text : Line} (hline : s.lines[s.activeLine]? = some text) :
    Ensures (deleteCurrentLine cfg s) fun t =>
      t.register = some (text, .linewise) ∧ t.lines = withoutLines s.lines s.activeLine s.activeLine := by
  have hlt := (List.getElem?_eq_some_iff.1 hline).1
  have hactive : s.snapshotUndo.activeText? = some text := hline
  unfold deleteCurrentLine withoutLines
  rw [if_neg (by simp [hd])]
  simp only
  rw [hactive, bind_some]
  by_cases hone : s.lines.length = 1
  · have hzero : s.activeLine = 0 := by omega
    have hset : s.lines.set 0 [] = [[]] := by
      obtain ⟨x, hx⟩ := length_eq_one_iff.1 hone
      rw [hx]
      rfl
    rw [if_pos (show (s.snapshotUndo.setRegister text .linewise).lines.length = 1 from hone),
      set?_eq (l := (s.snapshotUndo.setRegister text .linewise).lines) (Nat.zero_lt_of_lt hlt), bind_some]
    refine clampNormal_lines.mono fun t ht => ⟨ht.2, ht.1.trans ?_⟩
    rw [if_pos (by omega)]
    exact hset
  · rw [if_neg (show ¬ (s.snapshotUndo.setRegister text .linewise).lines.length = 1 from hone)]
    refine Ensures.bind (P := fun r => r.2 = s.lines.eraseIdx s.activeLine) ?_ fun r hr => ?_
    · exact Ensures.trivial.map fun _ _ => rfl
    · refine clampNormal_lines.mono fun t ht => ⟨ht.2, ht.1.trans ?_⟩
      rw [if_neg (by omega)]
      exact hr.trans (eraseIdx_eq_take_drop_succ _ _)

/-- **Deletes and pastes are splices of the text.** A charwise delete takes out the text up to the place behind the selection's
end, which on an empty line is the line break before it, if there is one; a linewise delete, by `V` or `dd`, the selected lines,
leaving one empty line if there are no others. -/
theorem deletes_and_pastes_splice (hd : cfg.disabled = false) (hv : cfg.vim = true) (h : Sound cfg s) (now : Nat) :
    (∀ anchor start stop last c, s.mode = .visual false → s.visualAnchor = some anchor → Inside s.lines anchor →
      selected s anchor = (start, stop) → s.lines[stop.1]? = some last → c ∈ ['d', 'x'] →
      ∃ t text, editorStep cfg s (.key now .NONE (.char c)) = some t ∧ t.register = some (text, .charwise) ∧
        s.content = textBefore s.lines start ++ text ++ textAfter s.lines (behind s.lines stop) ∧
        t.content = textBefore s.lines start ++ textAfter s.lines (behind s.lines stop) ∧
        (∀ c, last[stop.2]? = some c → text.getLast? = some c) ∧
        (last = [] → start.1 < stop.1 → text.getLast? = some '\n') ∧ (last = [] → start.1 = stop.1 → text = [])) ∧
    (∀ anchor first last c, s.mode = .visual true → s.visualAnchor = some anchor → first = min anchor.1 s.activeLine →
      last = max anchor.1 s.activeLine → c ∈ ['d', 'x'] → ∃ t, editorStep cfg s (.key now .NONE (.char c)) = some t ∧
        t.register = some (joinLines ((s.lines.take (last + 1)).drop first), .linewise) ∧
        t.lines = withoutLines s.lines first last) ∧
    (∀ text, s.mode = .normal → s.pending = some 'd' → s.lines[s.activeLine]? = some text →
      ∃ t, editorStep cfg s (.key now .NONE (.char 'd')) = some t ∧ t.register = some (text, .linewise) ∧
        t.lines = withoutLines s.lines s.activeLine s.activeLine) ∧
    (∀ after text m, s.mode = .normal → s.register = some (text, .charwise) → Presses m (if after then 'p' else 'P') →
      s.content = textBefore s.lines (pastePosition s after) ++ textAfter s.lines (pastePosition s after) ∧
      ∃ t, editorStep cfg s (.key now m (.char (if after then 'p' else 'P'))) = some t ∧
        t.content = textBefore s.lines (pastePosition s after) ++ text ++ textAfter s.lines (pastePosition s after)) := by
  have hin := h.col hd
  have hreturns : ∀ e, Returns (editorStep cfg s e) fun _ => True := fun e =>
    (editorStep_returns h e (h.keepsToLine (.inl hd) e)).mono fun _ _ => trivial
  refine ⟨?_, ?_, ?_, ?_⟩
  · intro anchor start stop last c hm ha hanchor hspan hlast hc
    obtain ⟨t, ht, -⟩ := hreturns (.key now .NONE (.char c))
    have hdel := (editorStep_deleteSelection hd hv hm now hc).symm.trans ht
    obtain ⟨text, hrest⟩ := deleteSelection_charwise (s := s.cancelPendingChord) hd hin hm ha hanchor hspan hlast t hdel
    exact ⟨t, text, ht, hrest⟩
  · intro anchor first last c hm ha hfirst hlast hc
    obtain ⟨t, ht, -⟩ := hreturns (.key now .NONE (.char c))
    have hdel := (editorStep_deleteSelection hd hv hm now hc).symm.trans ht
    exact ⟨t, ht, deleteSelection_linewise (s := s.cancelPendingChord) hd (h.pending none).toPlaced hm ha hfirst hlast t hdel⟩
  · intro text hm hp hline
    obtain ⟨t, ht, -⟩ := hreturns (.key now .NONE (.char 'd'))
    have hdel := (editorStep_d hd hv hm now).symm.trans ht
    rw [if_pos hp] at hdel
    exact ⟨t, ht, deleteCurrentLine_linewise (s := s.cancelPendingChord) hd hline t hdel⟩
  intro after text m hm hreg hp
  obtain ⟨t, ht, -⟩ := hreturns (.key now m (.char (if after then 'p' else 'P')))
  have hcmd := (editorStep_editCommand hd hv hm now hp (by cases after <;> decide)).symm.trans ht
  obtain ⟨hcut, hpaste⟩ := paste_content (s := s.cancelPendingChord) hin hreg after
  refine ⟨hcut, t, ht, hpaste t ?_⟩
  cases after with
  | true => exact hcmd
  | false => exact hcmd

/-- A text of two lines put behind the first of two characters. -/
theorem paste_splits_line :
    let s := (CodeInputFieldState.ofLines ['a', 'b'] []).setRegister ['x', '\n', 'y'] .charwise
    ∃ t, editorStep codeEditor s (.key 0 .NONE (.char 'p')) = some t ∧ t.content = ['a', 'x', '\n', 'y', 'b'] := by
  intro s
  have hsound : Sound codeEditor s := (ofLines_sound ['a', 'b'] []).setRegister _ _
  obtain ⟨-, -, -, hpaste⟩ := deletes_and_pastes_splice rfl rfl hsound 0
  obtain ⟨-, t, ht, hcontent⟩ := hpaste true ['x', '\n', 'y'] .NONE rfl rfl ⟨rfl, .inl rfl⟩
  exact ⟨t, ht, hcontent⟩

/-- **`v` and `d` on an empty line: nothing is stored and nothing removed**, although a line break follows. -/
theorem empty_line_keeps_break :
    ∃ t, EditorRun codeEditor (.ofLines [] [['b']]) [.key 0 .NONE (.char 'v'), .key 1 .NONE (.char 'd')] t ∧
      t.register = some ([], .charwise) ∧ t.content = ['\n', 'b'] := by
  refine ⟨_, Run.of_foldlM (f := editorStep codeEditor) _ rfl, ?_⟩
  decide

end

end Ferrowl.Ui
