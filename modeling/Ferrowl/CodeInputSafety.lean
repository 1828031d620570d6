import Ferrowl.CodeInputCursor
import Ferrowl.RunTrace
/-!
# CodeInputSafety — where the editor stops

Every edit leaves the cursor within a line.
-/
namespace Ferrowl.Ui

open List Option

section
variable {R : TextRules} {cfg : CodeSettings R} {s t : CodeInputFieldState}

open CodeInputFieldState

/-! ## Edits of one line -/

theorem insertAt_eq {line : Nat} {target : Line} (h : s.lines[line]? = some target) (idx : Nat) (text : Line) :
    s.insertAt line idx text = some { s with lines := s.lines.set line (target.take idx ++ text ++ target.drop idx) } := by
  unfold insertAt
  rw [h, bind_some, set?_eq (List.getElem?_eq_some_iff.1 h).1]
  rfl

theorem removeRange_returns {line : Nat} {target : Line} (h : s.lines[line]? = some target) (start stop : Nat) :
    Returns (s.removeRange line start stop) fun r => ∃ text, r.2 = { s with lines := s.lines.set line text } ∧
      text.length = target.length - (min stop target.length - start) := by
  unfold removeRange
  simp only [h, bind_some]
  rw [set?_eq (List.getElem?_eq_some_iff.1 h).1]
  refine .some ⟨_, rfl, ?_⟩
  simp only [length_append, length_take, length_drop]
  omega

theorem EditedAt.set {text : Line} {col : Nat} (h : s.activeLine < s.lines.length) (hcol : col ≤ text.length) :
    EditedAt s { s with lines := s.lines.set s.activeLine text, cursorCol := col } :=
  ⟨⟨text, List.getElem?_set_self h, hcol⟩, rfl, rfl⟩

theorem typeText_returns (h : Inside s.lines (s.activeLine, s.cursorCol)) (text : Line) :
    Returns (s.typeText text) (EditedAt s) := by
  obtain ⟨chars, hline, hle⟩ := h.text
  unfold typeText
  rw [insertAt_eq hline]
  refine .some (.set h.lt ?_)
  simp only [length_append, length_take, length_drop]
  omega

variable (now : Nat)

theorem typeSpace_returns (h : Inside s.lines (s.activeLine, s.cursorCol)) : Returns (typeSpace cfg now s) (EditedAt s) := by
  unfold typeSpace
  split
  · exact (typeText_returns h _).map fun t ht => ⟨ht.inside, ht.undo, ht.mode⟩
  refine (typeText_returns h _).map fun t ht => ?_
  split
  · exact ⟨ht.inside, ht.undo, ht.mode⟩
  · exact ht

theorem insertBackTab_returns (h : Inside s.lines (s.activeLine, s.cursorCol)) : Returns s.insertBackTab (EditedAt s) := by
  obtain ⟨chars, hline, hle⟩ := h.text
  unfold insertBackTab
  refine (activeText_returns (s := { s with lastSpace := none }) h.lt).bind fun line hl => ?_
  cases hline.symm.trans hl
  simp only
  split
  · refine (removeRange_returns hl _ _).map ?_
    rintro ⟨_, _⟩ ⟨text, rfl, hlen⟩
    exact ⟨⟨text, List.getElem?_set_self h.lt, by simp only; omega⟩, rfl, rfl⟩
  · exact .some ⟨h, rfl, rfl⟩

/-! ## Edits across lines -/

theorem openLineBelow_returns (h : s.activeLine < s.lines.length) : Returns (openLineBelow cfg s) (EditedAt s) := by
  refine (activeText_returns h).bind fun line hline => ?_
  simp only
  rw [insert?_eq h]
  exact .some ⟨⟨_, getElem?_insert_self h _, by simp⟩, rfl, rfl⟩

theorem openLineAbove_returns (h : s.activeLine < s.lines.length) : Returns s.openLineAbove (EditedAt s) := by
  refine (activeText_returns h).bind fun line hline => ?_
  rw [insert?_eq (Nat.le_of_lt h)]
  exact .some ⟨⟨_, getElem?_insert_self (Nat.le_of_lt h) _, by simp⟩, rfl, rfl⟩

theorem splitLine_returns (h : Inside s.lines (s.activeLine, s.cursorCol)) : Returns (splitLine cfg s) (EditedAt s) := by
  obtain ⟨chars, hline, hle⟩ := h.text
  refine (activeText_returns h.lt).bind fun line hl => ?_
  cases hline.symm.trans hl
  rw [slice?_eq (Nat.zero_le _) hle, slice?_eq hle (Nat.le_refl _)]
  simp only [bind_some]
  rw [set?_eq h.lt, bind_some]
  have hnext : s.activeLine + 1 ≤ (s.lines.set s.activeLine ((chars.take s.cursorCol).drop 0)).length := by
    rw [length_set]
    exact h.lt
  rw [insert?_eq hnext]
  exact .some ⟨⟨_, getElem?_insert_self hnext _, by simp⟩, rfl, rfl⟩

theorem joinUp_returns {above : Nat} (h : above + 1 < s.lines.length) :
    Returns (s.joinUp above) fun r => ∃ lines rest, s.lines[above]? = some r.1 ∧ r.2 = { s with lines } ∧
      lines[above]? = some (r.1 ++ rest) := by
  have habove : above < s.lines.length := Nat.lt_of_succ_lt h
  have herase : (s.lines.eraseIdx (above + 1))[above]? = some s.lines[above] := by
    rw [List.getElem?_eraseIdx_of_lt (Nat.lt_succ_self above)]
    exact List.getElem?_eq_getElem habove
  unfold joinUp
  rw [remove?_eq (List.getElem?_eq_getElem h), bind_some]
  simp only
  rw [herase, bind_some]
  have hlt := (List.getElem?_eq_some_iff.1 herase).1
  rw [set?_eq hlt]
  exact .some ⟨_, _, List.getElem?_eq_getElem habove, rfl, List.getElem?_set_self hlt⟩

theorem backspace_returns (h : Inside s.lines (s.activeLine, s.cursorCol)) : Returns s.backspace (EditedAt s) := by
  obtain ⟨chars, hline, hle⟩ := h.text
  unfold backspace
  split
  · refine (removeRange_returns hline _ _).map ?_
    rintro ⟨_, _⟩ ⟨text, rfl, hlen⟩
    exact .set h.lt (by omega)
  split
  · rename_i hpos
    have hl : s.activeLine - 1 + 1 < s.lines.length := Nat.sub_add_cancel hpos ▸ h.lt
    refine (joinUp_returns hl).map ?_
    rintro ⟨line, _⟩ ⟨lines, rest, -, rfl, hat⟩
    exact ⟨⟨_, hat, length_append ▸ Nat.le_add_right _ _⟩, rfl, rfl⟩
  · exact .some ⟨h, rfl, rfl⟩

theorem deleteForward_returns (h : Inside s.lines (s.activeLine, s.cursorCol)) : Returns s.deleteForward (EditedAt s) := by
  obtain ⟨chars, hline, hle⟩ := h.text
  refine (activeText_returns h.lt).bind fun line hl => ?_
  cases hline.symm.trans hl
  split
  · refine (removeRange_returns hline _ _).map ?_
    rintro ⟨_, _⟩ ⟨text, rfl, hlen⟩
    exact ⟨⟨text, List.getElem?_set_self h.lt, by simp only; omega⟩, rfl, rfl⟩
  split
  · rename_i hnext
    refine (joinUp_returns hnext).map ?_
    rintro ⟨line, _⟩ ⟨lines, rest, hold, rfl, hat⟩
    cases hline.symm.trans hold
    refine ⟨⟨_, hat, ?_⟩, rfl, rfl⟩
    rw [length_append]
    exact Nat.le_add_right_of_le hle
  · exact .some ⟨h, rfl, rfl⟩

/-! ## The commands of Normal mode -/

/-- What an edit of Normal mode does that takes the snapshot. -/
structure Changed (cfg : CodeSettings R) (s t : CodeInputFieldState) : Prop where
  sound : Sound cfg t
  mode : t.mode = s.mode
  taken : Taken s t
  block : OnBlock t

theorem Sound.changed {r : CodeInputFieldState} (h : Sound cfg s) (hm : Editing s) (he : Edited s.snapshotUndo r) :
    Returns r.clampNormal (Changed cfg s) :=
  (he.placed h.toPlaced.snapshotUndo hm).clampNormal.mono fun _ ht =>
    ⟨ht.sound, ht.moved.2.2.trans he.mode, ht.moved.2.1.trans he.undo, ht.block⟩

theorem deleteCurrentLine_returns (h : Sound cfg s) (hm : Editing s) (hd : cfg.disabled = false) :
    Returns (deleteCurrentLine cfg s) (Changed cfg s) := by
  have hl := h.line
  unfold deleteCurrentLine
  rw [if_neg (by simp [hd])]
  refine (activeText_returns (s := s.snapshotUndo) hl).bind fun text _ => ?_
  dsimp only
  split
  all_goals
    rename_i hlen
    simp only [setRegister, snapshotUndo] at hlen ⊢
  · rw [set?_eq (Nat.zero_lt_of_lt hl)]
    exact h.changed hm ⟨by simpa using hl, rfl, rfl⟩
  · rw [remove?_eq (List.getElem?_eq_getElem hl)]
    refine h.changed hm ⟨?_, rfl, rfl⟩
    simp only [length_eraseIdx_of_lt hl]
    omega

theorem deleteLines_returns (h : Sound cfg s) (hm : Editing s) (hd : cfg.disabled = false) {count : Nat}
    (hc : s.activeLine + max count 1 ≤ 2 ^ 64) : Returns (deleteLines cfg s count) (Changed cfg s) := by
  have hle := le_countedEnd h.line hc
  have hlt := countedEnd_lt h.line count
  unfold deleteLines
  rw [if_neg (by simp [hd])]
  have hslice : Returns (slice? s.lines s.activeLine (s.countedEnd count + 1)) fun _ => True :=
    ⟨_, slice?_eq (Nat.le_succ_of_le hle) hlt, trivial⟩
  refine hslice.bind fun ls _ => ?_
  exact (dropLines_returns (s := s.snapshotUndo.setRegister (joinLines ls) .linewise) hle hlt).bind fun r hr =>
    h.changed hm ⟨hr.line, hr.undo, hr.mode⟩

theorem yankLines_returns (h : Sound cfg s) {count : Nat} (hc : s.activeLine + max count 1 ≤ 2 ^ 64) :
    Returns (s.yankLines count) fun t => Sound cfg t ∧ t.mode = s.mode := by
  unfold yankLines
  rw [slice?_eq (Nat.le_succ_of_le (le_countedEnd h.line hc)) (countedEnd_lt h.line count)]
  exact .some ⟨h.setRegister _ _, rfl⟩

theorem insertLines_returns {i : Nat} (news : List Line) (k : Nat) (lines : List Line) (h : i + k ≤ lines.length) :
    Returns ((news.zipIdx k).foldlM (fun lines p => insert? lines (i + p.2) p.1) lines)
      fun l => l.length = lines.length + news.length := by
  induction news generalizing k lines with
  | nil => exact .some rfl
  | cons new news ih =>
    rw [zipIdx_cons, foldlM_cons, insert?_eq h]
    simp only [bind_eq_bind, bind_some]
    have hlen : (lines.take (i + k) ++ new :: lines.drop (i + k)).length = lines.length + 1 := by
      simp only [length_append, length_take, length_cons, length_drop]
      omega
    refine (ih (k + 1) _ (by omega)).mono fun l hl => ?_
    rw [hl, hlen, length_cons]
    omega

theorem pasteLines_returns {insertAt : Nat} {news : List Line} (h : insertAt ≤ s.lines.length) (hne : news ≠ []) :
    Returns (s.pasteLines insertAt news) (Edited s) := by
  refine (insertLines_returns (i := insertAt) news 0 s.lines h).map fun lines hlines => ?_
  have hpos := length_pos_iff.2 hne
  refine ⟨?_, rfl, rfl⟩
  simp only
  omega

theorem pasteChars_returns {col : Nat} {chars : Line} {parts : List Line} (hline : s.lines[s.activeLine]? = some chars)
    (hcol : col ≤ chars.length) (hne : parts ≠ []) : Returns (s.pasteChars col parts) (Edited s) := by
  have hl := (List.getElem?_eq_some_iff.1 hline).1
  unfold pasteChars
  split
  · exact absurd rfl hne
  · rw [insertAt_eq hline]
    refine .some ⟨?_, rfl, rfl⟩
    simp only [length_set]
    exact hl
  refine (activeText_returns hl).bind fun line hat => ?_
  cases hline.symm.trans hat
  rw [slice?_eq (Nat.zero_le _) hcol, slice?_eq hcol (Nat.le_refl _)]
  simp only [bind_some]
  rw [splice?_eq (Nat.le_succ _) hl]
  refine .some ⟨?_, rfl, rfl⟩
  simp only [length_append, length_take, length_drop, length_cons, length_nil]
  omega

/-- Nothing happens where there is nothing to edit. -/
def EditsUnless (cfg : CodeSettings R) (idle : Prop) (s t : CodeInputFieldState) : Prop :=
  (idle → t = s) ∧ (¬ idle → Changed cfg s t)

theorem paste_returns (h : Sound cfg s) (hm : Editing s) (hd : cfg.disabled = false) (after : Bool) :
    Returns (s.paste after) (EditsUnless cfg (s.register = none) s) := by
  obtain ⟨chars, hline, hle⟩ := (h.col hd).text
  have hl := h.line
  unfold paste
  split
  · rename_i hnone
    exact .some ⟨fun _ => rfl, fun hne => absurd hnone hne⟩
  rename_i text kind hreg
  have hne : text.splitOn '\n' ≠ [] := splitOn_ne_nil _ _
  refine Returns.mono (P := Changed cfg s) ?_ fun t ht => ⟨fun hnone => absurd (hreg.symm.trans hnone) nofun, fun _ => ht⟩
  cases kind with
  | linewise =>
    refine (pasteLines_returns (s := s.snapshotUndo) ?_ hne).bind fun r hr => h.changed hm hr
    show (if after then s.activeLine + 1 else s.activeLine) ≤ s.lines.length
    split <;> omega
  | charwise =>
    refine (activeText_returns (s := s.snapshotUndo) hl).bind fun line hat => ?_
    cases hline.symm.trans hat
    refine (pasteChars_returns hat ?_ hne).bind fun r hr => h.changed hm hr
    show (if after then min (s.cursorCol + 1) chars.length else s.cursorCol) ≤ chars.length
    split <;> omega

theorem deleteChar_returns (h : Sound cfg s) (hm : Editing s) :
    Returns s.deleteChar (EditsUnless cfg (s.activeText? = some []) s) := by
  refine (activeText_returns h.line).bind fun line hline => ?_
  have hat : s.activeText? = some line := hline
  split
  · rename_i hpos
    refine (removeRange_returns (s := s.snapshotUndo) hline _ _).bind ?_
    rintro ⟨removed, r⟩ ⟨text, hr, -⟩
    have he : Edited s.snapshotUndo (r.setRegister removed .charwise) := by
      cases hr
      refine ⟨?_, rfl, rfl⟩
      simp only [setRegister, length_set]
      exact h.line
    refine (h.changed hm he).mono fun t ht => ⟨fun hempty => ?_, fun _ => ht⟩
    cases hat.symm.trans hempty
    cases hpos
  · rename_i hpos
    obtain rfl : line = [] := by simpa using hpos
    exact .some ⟨fun _ => rfl, fun hne => absurd hat hne⟩

theorem undoOnce_returns (h : Sound cfg s) (hm : Editing s) :
    Returns s.undoOnce fun t => Sound cfg t ∧ t.mode = s.mode ∧ (OnBlock s → OnBlock t) ∧ (s.undo = none → t = s) ∧
      ∀ u, s.undo = some u → t.lines = u.1 ∧ t.activeLine = u.2.1 ∧ Taken s t ∧ (OnCharacter u.1 u.2 → t.cursorCol = u.2.2) := by
  unfold undoOnce
  cases hundo : s.undo with
  | none => exact .some ⟨h, rfl, id, fun _ => rfl, nofun⟩
  | some u =>
    obtain ⟨t, ht, hchanged⟩ := h.changed hm (r := { s.snapshotUndo with lines := u.1, activeLine := u.2.1, cursorCol := u.2.2 })
      ⟨h.undo _ hundo, rfl, rfl⟩
    obtain ⟨chars, hline, rfl⟩ := map_eq_some_iff.1 ht
    refine ⟨_, ht, hchanged.sound, rfl, fun _ => hchanged.block, nofun, ?_⟩
    rintro _ ⟨⟩
    exact ⟨rfl, rfl, rfl, fun hon => Nat.min_eq_left (hon.le hline)⟩

theorem EditedAt.inserting {r : CodeInputFieldState} (he : EditedAt s r) (h : Placed cfg s) (hm : Editing s)
    (hv : cfg.vim = true) (hd : cfg.disabled = false) : Sound cfg r.enterInsert where
  line := he.inside.lt
  undo := (he.sound h hm).undo
  anchor := nofun
  plain := fun hv' => absurd hv (by simp [hv'])
  writable := fun _ => hd
  col := fun _ => he.inside

theorem editCommand_inserts (h : Sound cfg s) (hm : Editing s) (hv : cfg.vim = true) (hd : cfg.disabled = false) {c : Char}
    (hc : c ∈ ['i', 'a', 'I', 'A', 'o', 'O']) :
    Returns (editCommand cfg s c) fun t => Sound cfg t ∧ Taken s t ∧ t.mode = .insert := by
  have hp := h.toPlaced.snapshotUndo
  -- the commands that only place the cursor before they insert
  have hplace : ∀ {line : Line} {col : Nat}, s.lines[s.activeLine]? = some line → col ≤ line.length →
      Sound cfg { s.snapshotUndo with cursorCol := col, mode := .insert } := fun hline hcol =>
    EditedAt.inserting (s := s.snapshotUndo) (r := { s.snapshotUndo with cursorCol := _ }) ⟨⟨_, hline, hcol⟩, rfl, rfl⟩
      hp hm hv hd
  simp only [mem_cons, not_mem_nil, or_false] at hc
  rcases hc with rfl | rfl | rfl | rfl | rfl | rfl
  · exact .some ⟨EditedAt.inserting (s := s.snapshotUndo) ⟨h.col hd, rfl, rfl⟩ hp hm hv hd, rfl, rfl⟩
  · exact (activeText_returns h.line).map fun line hline => ⟨hplace hline (Nat.min_le_right _ _), rfl, rfl⟩
  · exact (activeText_returns h.line).map fun line hline => ⟨hplace hline (takeWhile_sublist _).length_le, rfl, rfl⟩
  · exact (activeText_returns h.line).map fun line hline => ⟨hplace hline (Nat.le_refl _), rfl, rfl⟩
  · exact (openLineBelow_returns (s := s.snapshotUndo) h.line).map fun r hr => ⟨hr.inserting hp hm hv hd, hr.undo, rfl⟩
  · exact (openLineAbove_returns (s := s.snapshotUndo) h.line).map fun r hr => ⟨hr.inserting hp hm hv hd, hr.undo, rfl⟩

def Blocked (s : CodeInputFieldState) : Prop := s.mode ≠ .insert → OnBlock s

theorem OnBlock.blocked (h : OnBlock s) : Blocked s := fun _ => h

theorem blocked_of_insert (h : s.mode = .insert) : Blocked s := fun hne => absurd h hne

/-- The step keeps the state sound and, in an editor that is not disabled, the block cursor. -/
def Stays (cfg : CodeSettings R) (s t : CodeInputFieldState) : Prop :=
  Sound cfg t ∧ (cfg.disabled = false → OnBlock s → Blocked t)

theorem Stepped.stays (h : Stepped cfg s t) : Stays cfg s t := ⟨h.sound, fun hd hb => (h.block hd hb).blocked⟩

theorem Settled.stays (h : Settled cfg t) : Stays cfg s t := ⟨h.sound, fun _ _ => h.block.blocked⟩

theorem EditsUnless.stays {idle : Prop} (h : Sound cfg s) (he : EditsUnless cfg idle s t) : Stays cfg s t := by
  by_cases hidle : idle
  · rw [he.1 hidle]
    exact ⟨h, fun _ hb => hb.blocked⟩
  · exact ⟨(he.2 hidle).sound, fun _ _ => (he.2 hidle).block.blocked⟩

theorem editCommand_returns (h : Sound cfg s) (hm : Editing s) (hv : cfg.vim = true) (hd : cfg.disabled = false) (c : Char) :
    Returns (editCommand cfg s c) (Stays cfg s) := by
  by_cases hc : c ∈ ['i', 'a', 'I', 'A', 'o', 'O']
  · exact (editCommand_inserts h hm hv hd hc).mono fun t ht => ⟨ht.1, fun _ _ => blocked_of_insert ht.2.2⟩
  unfold editCommand
  split
  · exact (deleteChar_returns h hm).mono fun t ht => ht.stays h
  · exact (paste_returns h hm hd true).mono fun t ht => ht.stays h
  · exact (paste_returns h hm hd false).mono fun t ht => ht.stays h
  · exact (undoOnce_returns h hm).mono fun t ht => ⟨ht.1, fun _ hb => (ht.2.2.1 hb).blocked⟩
  iterate 6 exact absurd (by decide) hc
  exact .some ⟨h, fun _ hb => hb.blocked⟩

theorem startVisual_sound (h : Sound cfg s) (hv : cfg.vim = true) (lw : Bool) : Sound cfg (s.startVisual lw) where
  line := h.line
  undo := h.undo
  anchor := fun _ _ => ⟨_, rfl, h.line⟩
  plain := fun hv' => absurd hv (by simp [hv'])
  writable := nofun
  col := h.col

theorem normalCommand_returns (h : Sound cfg s) (hm : Editing s) (hv : cfg.vim = true) (m : KeyModifiers) (c : Char) :
    Returns (normalCommand cfg s m c) (Stays cfg s) := by
  unfold normalCommand
  split
  · exact .some ⟨startVisual_sound h hv false, fun _ hb _ => hb⟩
  split
  · exact .some ⟨startVisual_sound h hv true, fun _ hb _ => hb⟩
  split
  · rename_i hd
    exact editCommand_returns h hm hv (by simpa using hd.1) c
  · exact .some ⟨h, fun _ hb _ => hb⟩

theorem runChord_returns (h : Sound cfg s) (hm : Editing s) (c : Char) : Returns (runChord cfg s c) (Stays cfg s) := by
  unfold runChord
  split
  · have hp := (h.toPlaced.setLine (Nat.zero_lt_of_lt h.line)).withCol 0
    exact (hp.clampStep (s := s) ⟨rfl, rfl, rfl⟩).mono fun t ht => ht.stays
  split
  · by_cases hd : cfg.disabled = true
    · unfold deleteCurrentLine
      rw [if_pos hd]
      exact .some ⟨h, fun _ hb _ => hb⟩
    · exact (deleteCurrentLine_returns h hm (by simpa using hd)).mono fun t ht => ⟨ht.sound, fun _ _ => ht.block.blocked⟩
  · exact (activeText_returns h.line).map fun text _ => ⟨h.setRegister text .linewise, fun _ hb _ => hb⟩

/-! ## The modes -/

theorem Sound.pending (h : Sound cfg s) (p : Option Char) : Sound cfg { s with pending := p } :=
  ⟨⟨h.line, h.undo, h.anchor, h.plain, h.writable⟩, h.col⟩

theorem Sound.lastSpace (h : Sound cfg s) (p : Option (Nat × Nat × Nat)) : Sound cfg { s with lastSpace := p } :=
  ⟨⟨h.line, h.undo, h.anchor, h.plain, h.writable⟩, h.col⟩

theorem consumed_returns {x : Option CodeInputFieldState} {Q : CodeInputFieldState → Prop} (h : Returns x Q) :
    Returns (consumed x) fun r => Q r.2 :=
  h.map fun _ ht => ht

theorem handleNormalKey_returns (h : Sound cfg s) (hm : s.mode = .normal) (hv : cfg.vim = true) (m : KeyModifiers)
    (code : KeyCode) (hb : plain m = true → code = .char 'b' → Inside s.lines (s.activeLine, s.cursorCol)) :
    Returns (handleNormalKey cfg s m code) fun r => Stays cfg s r.2 := by
  have hc : Sound cfg s.cancelPendingChord := h.pending none
  have hme : Editing s.cancelPendingChord := .of_normal hm
  unfold handleNormalKey
  split
  · split
    · refine consumed_returns ?_
      split
      · exact runChord_returns hc hme _
      · exact .some ⟨h.pending _, fun _ hb _ => hb⟩
    refine (applyMotion_handles hc m _ hb).bind (fun t ht => .some ht.stays) ?_
    simp only
    split
    · exact consumed_returns (normalCommand_returns hc hme hv m _)
    · exact .some ⟨hc, fun _ hb _ => hb⟩
  · obtain ⟨r, hr, hstep⟩ := applyMotion_handles hc m code hb
    rw [hr]
    refine .some ?_
    cases r with
    | none => exact ⟨hc, fun _ hb _ => hb⟩
    | some t => exact (hstep t rfl).stays

def EndsVisual (m : KeyModifiers) (code : KeyCode) : Prop :=
  m = .NONE ∧ code ∈ [.esc, .char 'v', .char 'y', .char 'd', .char 'x']

def Selecting (lines : List Line) (s : CodeInputFieldState) : Prop := s.lines = lines ∧ ∃ lw, s.mode = .visual lw

def VisualStep (cfg : CodeSettings R) (m : KeyModifiers) (code : KeyCode) (s t : CodeInputFieldState) : Prop :=
  Stays cfg s t ∧ (¬ EndsVisual m code → Selecting s.lines t)

theorem visualCommand_handles (h : Sound cfg s) {lw : Bool} (hm : s.mode = .visual lw) (hv : cfg.vim = true)
    (m : KeyModifiers) (code : KeyCode) : Handles (visualCommand cfg s m code) (VisualStep cfg m code s) := by
  have hnormal : Returns s.enterNormal.clampNormal (Settled cfg) := (settled_returns h.line h.undo).left
  have hends : ∀ {x}, Returns x (Stays cfg s) → EndsVisual m code → Handles (x.map some) (VisualStep cfg m code s) :=
    fun hx hend => (hx.mono fun t ht => ⟨ht, fun hne => absurd hend hne⟩).handled
  unfold visualCommand
  split
  · exact .ite fun hm => hends (hnormal.mono fun t ht => ht.stays) ⟨hm, by simp⟩
  · split
    · rename_i hkey
      exact hends (hnormal.mono fun t ht => ht.stays) ⟨hkey.1, by simp [hkey.2]⟩
    split
    · refine .some ⟨⟨⟨⟨h.line, h.undo, fun _ _ => h.anchor lw hm, fun hv' => absurd hv (by simp [hv']), nofun⟩, h.col⟩,
        fun _ hb _ => hb⟩, fun _ => ⟨rfl, true, rfl⟩⟩
    split
    · rename_i hkey
      refine (yankSelection_returns h).bind fun t ht => hends ?_ ⟨hkey.1, by simp [hkey.2]⟩
      exact (enterNormalAtSelectionStart_returns ht.toPlaced).mono fun u hu => hu.stays
    refine .ite fun hkey => hends ?_ ⟨hkey.1, by rcases mem_pair.1 hkey.2 with rfl | rfl <;> simp⟩
    by_cases hd : cfg.disabled = true
    · unfold deleteSelection
      rw [if_pos hd]
      exact .some ⟨h, fun _ hb _ => hb⟩
    · exact (deleteSelection_returns h (by simpa using hd) hm).mono fun u hu => hu.1.stays
  · exact .declined

theorem handleVisualKey_returns (h : Sound cfg s) {lw : Bool} (hm : s.mode = .visual lw) (hv : cfg.vim = true)
    (m : KeyModifiers) (code : KeyCode) (hb : plain m = true → code = .char 'b' → Inside s.lines (s.activeLine, s.cursorCol)) :
    Returns (handleVisualKey cfg s m code) fun r => VisualStep cfg m code s r.2 := by
  have hc : Sound cfg s.cancelPendingChord := h.pending none
  have hidle : ∀ p, VisualStep cfg m code s { s with pending := p } := fun p =>
    ⟨⟨h.pending p, fun _ hb _ => hb⟩, fun _ => ⟨rfl, lw, hm⟩⟩
  have hstep : ∀ {t}, Stepped cfg s.cancelPendingChord t → VisualStep cfg m code s t := fun ht =>
    ⟨ht.stays, fun _ => ⟨ht.moved.1, lw, ht.moved.2.2.trans hm⟩⟩
  unfold handleVisualKey
  split
  · refine consumed_returns ?_
    split
    · have hp := (hc.toPlaced.setLine (Nat.zero_lt_of_lt hc.line)).withCol 0
      exact (hp.clampStep (s := s.cancelPendingChord) ⟨rfl, rfl, rfl⟩).mono fun t ht => hstep ht
    · exact .some (hidle _)
  refine (visualCommand_handles hc hm hv m code).bind (fun t ht => .some ht) ?_
  obtain ⟨r, hr, hmotion⟩ := applyMotion_handles hc m code hb
  simp only
  rw [hr]
  refine .some ?_
  cases r with
  | none =>
    simp only
    split <;> exact hidle none
  | some t => exact hstep (hmotion t rfl)

def Kept (s t : CodeInputFieldState) : Prop := t.undo = s.undo ∧ t.mode = s.mode

theorem editLine_returns (h : Sound cfg s) {line : Nat} (hl : line < s.lines.length) :
    Returns (editLine cfg s line) fun t => Sound cfg t ∧ Kept s t := by
  have hp := h.toPlaced.setLine hl
  unfold editLine
  by_cases hd : cfg.disabled = true
  · rw [if_pos hd]
    exact .some ⟨(hp.stepped_of_disabled (s := s) ⟨rfl, rfl, rfl⟩ hd).sound, rfl, rfl⟩
  rw [if_neg hd]
  refine (clampCursor_returns hp.line).mono ?_
  rintro _ ⟨col, rfl, hin⟩
  exact ⟨hp.setCol fun _ => hin, rfl, rfl⟩

theorem editKey_handles (h : Sound cfg s) (hm : Editing s) (m : KeyModifiers) (code : KeyCode) :
    Handles (editKey cfg now s m code) fun t => Sound cfg t ∧ Kept s t := by
  have hedit : ∀ {x}, Returns x (EditedAt s) → Returns x fun t => Sound cfg t ∧ Kept s t := fun hx =>
    hx.mono fun _ ht => ⟨ht.sound h.toPlaced hm, ht.undo, ht.mode⟩
  unfold editKey
  split
  · refine .ite fun hd => Returns.handled ?_
    have hin := h.col (by simp_all)
    split
    · exact hedit (typeSpace_returns now hin)
    · exact hedit (typeText_returns hin _)
  split
  · exact .declined
  have hl := h.line
  split
  · refine Returns.handled ?_
    split
    · exact editLine_returns h (by omega)
    · exact .some ⟨h, rfl, rfl⟩
  · refine Returns.handled ?_
    split
    · rename_i hnext
      exact editLine_returns h hnext
    · exact .some ⟨h, rfl, rfl⟩
  · exact ((stepLeft_returns h).mono fun t ht => ⟨ht.1, ht.2.2⟩).handled
  · exact ((stepRight_returns h).mono fun t ht => ⟨ht.1, ht.2.2⟩).handled
  · split
    · exact .declined
    · rename_i hd
      exact (hedit (splitLine_returns (h.col (by simpa using hd)))).handled
  · split
    · exact .declined
    · rename_i hd
      exact (hedit (backspace_returns (h.col (by simpa using hd)))).handled
  · split
    · exact .declined
    · rename_i hd
      exact (hedit (deleteForward_returns (h.col (by simpa using hd)))).handled
  · exact .declined

theorem handleEditKey_returns (h : Sound cfg s) (hm : Editing s) (m : KeyModifiers) (code : KeyCode) :
    Returns (handleEditKey cfg now s m code) fun r => Sound cfg r.2 ∧ Kept s r.2 := by
  unfold handleEditKey
  simp only
  generalize hr : (if plain m && code = .char ' ' then s else { s with lastSpace := none }) = r
  have hr : Sound cfg r ∧ Kept s r := by
    rw [← hr]
    split
    · exact ⟨h, rfl, rfl⟩
    · exact ⟨h.lastSpace none, rfl, rfl⟩
  obtain ⟨t, ht, hkept⟩ := editKey_handles now hr.1 (fun lw => hr.2.2 ▸ hm lw) m code
  rw [ht]
  refine .some ?_
  cases t with
  | none => exact hr
  | some t =>
    obtain ⟨hsound, hundo, hmode⟩ := hkept t rfl
    exact ⟨hsound, hundo.trans hr.2.1, hmode.trans hr.2.2⟩

theorem insertEsc_returns (h : Sound cfg s) : Returns s.insertEsc fun t => Settled cfg t ∧ t.undo = s.undo :=
  (activeText_returns h.line).map fun line hline => by
    have hon := onCharacter_of_le hline (Nat.min_le_right (s.cursorCol - 1) _)
    exact ⟨⟨⟨⟨h.line, h.undo, nofun, fun _ => rfl, nofun⟩, fun _ => hon.inside⟩, rfl, hon⟩, rfl⟩

theorem handleInsertKey_returns (h : Sound cfg s) (hm : s.mode = .insert) (m : KeyModifiers) (code : KeyCode) :
    Returns (handleInsertKey cfg now s m code) fun r =>
      Sound cfg r.2 ∧ Blocked r.2 ∧ (¬ (m = .NONE ∧ code = .esc) → Kept s r.2) := by
  have hme : Editing s := .of_insert hm
  have hin := h.col (h.writable hm)
  have hkept : ∀ {t}, Sound cfg t ∧ Kept s t → Sound cfg t ∧ Blocked t ∧ (¬ (m = .NONE ∧ code = .esc) → Kept s t) := fun ht =>
    ⟨ht.1, blocked_of_insert (ht.2.2.trans hm), fun _ => ht.2⟩
  unfold handleInsertKey
  split
  · rename_i hesc
    exact (insertEsc_returns h).map fun t ht => ⟨ht.1.sound, ht.1.block.blocked, fun hne => absurd hesc hne⟩
  split
  · refine (typeText_returns (s := { s with lastSpace := none }) hin _).map fun t ht => ?_
    exact hkept ⟨EditedAt.sound (s := s) ⟨ht.inside, ht.undo, ht.mode⟩ h.toPlaced hme, ht.undo, ht.mode⟩
  · split
    · exact (insertBackTab_returns hin).map fun t ht => hkept ⟨ht.sound h.toPlaced hme, ht.undo, ht.mode⟩
    · exact (handleEditKey_returns now h hme m code).mono fun r hr => hkept hr

/-! ## The editor -/

/-- The key that may stop: `b` as a motion. -/
def BackMotion (cfg : CodeSettings R) (s : CodeInputFieldState) (m : KeyModifiers) (code : KeyCode) : Prop :=
  cfg.vim = true ∧ s.mode ≠ .insert ∧ plain m = true ∧ code = .char 'b'

/-- What a key leaves as it is, with `vim` by the mode it is pressed in. -/
structure KeyStep (cfg : CodeSettings R) (m : KeyModifiers) (code : KeyCode) (s t : CodeInputFieldState) : Prop where
  sound : Sound cfg t
  block : cfg.disabled = false → cfg.vim = true → Blocked s → Blocked t
  inserting : cfg.vim = true → s.mode = .insert → ¬ (m = .NONE ∧ code = .esc) → Kept s t
  selecting : cfg.vim = true → ∀ lw, s.mode = .visual lw → ¬ EndsVisual m code → Selecting s.lines t

theorem handleEvents_returns (h : Sound cfg s) (m : KeyModifiers) (code : KeyCode)
    (hb : BackMotion cfg s m code → Inside s.lines (s.activeLine, s.cursorCol)) :
    Returns (handleEvents cfg now s m code) fun r => KeyStep cfg m code s r.2 := by
  have hkey : Returns (handleKey cfg now s m code) fun r => KeyStep cfg m code s r.2 := by
    unfold handleKey
    by_cases hv : cfg.vim = true
    · rw [if_neg (by simp [hv])]
      cases hm : s.mode with
      | insert =>
        refine (handleInsertKey_returns now h hm m code).mono fun r hr => ?_
        exact ⟨hr.1, fun _ _ _ => hr.2.1, fun _ _ => hr.2.2, fun _ _ hlw => absurd (hm.symm.trans hlw) nofun⟩
      | normal =>
        refine (handleNormalKey_returns h hm hv m code fun hp hc => hb ⟨hv, by simp [hm], hp, hc⟩).mono fun r hr => ?_
        exact ⟨hr.1, fun hd _ hon => hr.2 hd (hon (by simp [hm])), fun _ hi => absurd (hm.symm.trans hi) nofun,
          fun _ _ hlw => absurd (hm.symm.trans hlw) nofun⟩
      | visual lw =>
        refine (handleVisualKey_returns h hm hv m code fun hp hc => hb ⟨hv, by simp [hm], hp, hc⟩).mono fun r hr => ?_
        exact ⟨hr.1.1, fun hd _ hon => hr.1.2 hd (hon (by simp [hm])), fun _ hi => absurd (hm.symm.trans hi) nofun,
          fun _ _ _ => hr.2⟩
    · rw [if_pos (by simpa using hv)]
      refine (handleEditKey_returns now h (.of_normal (h.plain (by simpa using hv))) m code).mono fun r hr => ?_
      exact ⟨hr.1, fun _ hv' => absurd hv' hv, fun hv' => absurd hv' hv, fun hv' => absurd hv' hv⟩
  unfold handleEvents
  split
  · exact hkey
  rename_i hmode
  refine (handleReadonlyNav_handles h m code).bind (fun t ht => .some ?_) hkey
  exact ⟨ht.sound, fun hd _ hon => (ht.block hd (hon hmode)).blocked, fun _ hi => absurd hi hmode,
    fun _ lw hlw _ => ⟨ht.moved.1, lw, ht.moved.2.2.trans hlw⟩⟩

theorem handleEvents_of_past {m : KeyModifiers} {code : KeyCode} (hb : BackMotion cfg s m code)
    (h : s.activeLine < s.lines.length) (hpast : ¬ Inside s.lines (s.activeLine, s.cursorCol)) :
    handleEvents cfg now s m code = none := by
  obtain ⟨hv, hm, hp, rfl⟩ := hb
  have hlt : s.lines[s.activeLine].length < s.cursorCol := by
    by_contra hle
    exact hpast ⟨_, List.getElem?_eq_getElem h, Nat.le_of_not_lt hle⟩
  have hctl : m ≠ .CONTROL := by
    rintro rfl
    exact absurd hp (by decide)
  have hnav : handleReadonlyNav cfg s m (.char 'b') = some none := by
    unfold handleReadonlyNav
    simp only [hctl, if_false]
    split <;> [rfl; (split <;> rfl)]
  have hmotion : applyMotion cfg s.cancelPendingChord m (.char 'b') = none := by
    simp only [applyMotion, hp, if_true, charMotion, cancelPendingChord]
    rw [wordBackward_of_past (List.getElem?_eq_getElem h) hlt]
    rfl
  unfold handleEvents
  rw [if_neg hm, hnav, bind_some]
  simp only [handleKey, hv, Bool.not_true, Bool.false_eq_true, if_false]
  cases hmode : s.mode with
  | insert => exact absurd hmode hm
  | normal =>
    simp only [handleNormalKey, hmotion]
    simp
  | visual lw =>
    simp only [handleVisualKey, visualCommand, hmotion]
    simp

theorem setContent_returns (h : Placed cfg s) (text : Line) :
    Returns (setContent cfg s text) fun t => Sound cfg t ∧ t.mode = .normal ∧ (cfg.vim = true → OnBlock t) := by
  have hne : (if (text.splitOn '\n').isEmpty then [[]] else text.splitOn '\n') ≠ [] := by
    split
    · simp
    · rename_i hne
      exact fun hnil => hne (by simp [hnil])
  unfold setContent
  simp only
  generalize (if (text.splitOn '\n').isEmpty then [[]] else text.splitOn '\n') = lines at hne ⊢
  have hl : lines.length - 1 < lines.length := Nat.sub_lt (length_pos_iff.2 hne) Nat.one_pos
  rw [List.getElem?_eq_getElem hl, bind_some]
  split
  · refine Returns.mono (Placed.clampNormal ⟨hl, ?_, ?_, fun _ => rfl, ?_⟩) fun t ht =>
      ⟨ht.sound, ht.moved.2.2, fun _ => ht.block⟩
    all_goals exact nofun
  rename_i hv
  have hmode := h.plain (by simpa using hv)
  exact .some ⟨⟨⟨hl, h.undo, fun lw hlw => absurd (hmode.symm.trans hlw) nofun, h.plain, h.writable⟩,
    fun _ => ⟨_, List.getElem?_eq_getElem hl, Nat.le_refl _⟩⟩, hmode, fun hv' => absurd hv' hv⟩

theorem formatOnBlur_returns (h : Sound cfg s) (focus : Bool) :
    Returns (formatOnBlur cfg s focus) fun t => Sound cfg t ∧ (s.mode = .normal → t.mode = .normal) := by
  unfold formatOnBlur
  split
  · exact (setContent_returns h.toPlaced _).mono fun t ht => ⟨ht.1, fun _ => ht.2.1⟩
  · exact .some ⟨h, id⟩

theorem setFocused_returns (h : Sound cfg s) (focus : Bool) :
    Returns (setFocused cfg s focus) fun t => Sound cfg t ∧ (s.mode = .normal → t.mode = .normal) := by
  refine (formatOnBlur_returns h focus).map fun t ht => ?_
  obtain ⟨ht, hmode⟩ := ht
  split
  · exact ⟨⟨⟨ht.line, ht.undo, ht.anchor, ht.plain, ht.writable⟩, ht.col⟩, hmode⟩
  · exact ⟨⟨⟨ht.line, ht.undo, nofun, fun _ => rfl, nofun⟩, ht.col⟩, fun _ => rfl⟩

theorem rendered_sound (h : Sound cfg s) (height width : UInt16) : Sound cfg (s.rendered height width) := by
  have hcol := h.col
  obtain ⟨hline, hundo, hanchor, hplain, hwritable⟩ := h.toPlaced
  unfold rendered
  split
  · exact h
  · simp only
    split <;> exact ⟨⟨hline, hundo, hanchor, hplain, hwritable⟩, hcol⟩

/-- A step that does not index out of range: `b` as a motion is taken from within its line. -/
def KeepsToLine (cfg : CodeSettings R) (s : CodeInputFieldState) : EditorEvent → Prop
  | .key _ m code => BackMotion cfg s m code → Inside s.lines (s.activeLine, s.cursorCol)
  | _ => True

theorem editorStep_returns (h : Sound cfg s) (e : EditorEvent) (hk : KeepsToLine cfg s e) :
    Returns (editorStep cfg s e) (Sound cfg) := by
  cases e with
  | key now m code => exact (handleEvents_returns now h m code hk).map fun _ hr => hr.sound
  | setContent text => exact (setContent_returns h.toPlaced text).left
  | setFocused focus => exact (setFocused_returns h focus).left
  | rendered height width => exact .some (rendered_sound h height width)

theorem KeepsToLine.of_step (h : Sound cfg s) {e : EditorEvent} (hs : editorStep cfg s e = some t) : KeepsToLine cfg s e := by
  cases e with
  | key now m code =>
    intro hb
    by_contra hpast
    rw [editorStep, handleEvents_of_past now hb h.line hpast] at hs
    cases hs
  | setContent => trivial
  | setFocused => trivial
  | rendered => trivial

theorem editorStep_sound (h : Sound cfg s) {e : EditorEvent} (hs : editorStep cfg s e = some t) : Sound cfg t := by
  obtain ⟨u, hu, hsound⟩ := editorStep_returns h e (.of_step h hs)
  cases hs.symm.trans hu
  exact hsound

theorem Sound.keepsToLine (h : Sound cfg s) (hcfg : cfg.disabled = false ∨ cfg.vim = false) (e : EditorEvent) :
    KeepsToLine cfg s e := by
  cases e with
  | key now m code =>
    intro hb
    rcases hcfg with hd | hv
    · exact h.col hd
    · exact absurd hb.1 (by simp [hv])
  | setContent => trivial
  | setFocused => trivial
  | rendered => trivial

theorem ofLines_sound (first : Line) (rest : List Line) : Sound cfg (CodeInputFieldState.ofLines first rest) where
  line := Nat.succ_pos _
  undo := nofun
  anchor := nofun
  plain := fun _ => rfl
  writable := nofun
  col := fun _ => ⟨first, rfl, Nat.zero_le _⟩

abbrev EditorRun (cfg : CodeSettings R) := Run fun s e t => editorStep cfg s e = some t

/-- **The editor goes on with its cursor on a line exactly as long as every `b` taken as a motion starts within its line.** -/
theorem editor_goes_on_iff (first : Line) (rest : List Line) (es : List EditorEvent) :
    (∀ pre, pre <+: es → ∃ u, EditorRun cfg (.ofLines first rest) pre u ∧ u.activeLine < u.lines.length) ↔
      ∀ pre e u, pre ++ [e] <+: es → EditorRun cfg (.ofLines first rest) pre u → KeepsToLine cfg u e := by
  have hsound : Sound cfg (.ofLines first rest) := ofLines_sound first rest
  refine Run.returns_iff (I := Sound cfg) (fun t e ht => ?_) (fun t e u ht hs _ => editorStep_sound ht hs) hsound hsound.line es
  constructor
  · rintro ⟨u, hu, -⟩
    exact .of_step ht hu
  · exact fun hk => (editorStep_returns ht e hk).mono fun u hu => hu.line

theorem editor_goes_on (hcfg : cfg.disabled = false ∨ cfg.vim = false) (first : Line) (rest : List Line)
    (es : List EditorEvent) : ∃ u, EditorRun cfg (.ofLines first rest) es u ∧ Sound cfg u := by
  have hgo := (Run.returns_iff (f := editorStep cfg) (I := Sound cfg) (P := Sound cfg) (C := fun _ _ => True)
    (fun t e ht => iff_of_true (editorStep_returns ht e (ht.keepsToLine hcfg e)) trivial)
    (fun t e u _ _ hu => hu) (ofLines_sound first rest) (ofLines_sound first rest) es).2 fun _ _ _ _ _ => trivial
  exact hgo es (prefix_refl es)

end

def asciiRules : TextRules where
  isAlphanumeric := Char.isAlphanum
  isWhitespace := Char.isWhitespace
  Language := Empty
  indentDelta := nofun
  format := nofun

def readOnlyView : CodeSettings asciiRules where
  readonlyNav := true
  disabled := true
  vim := true
  spaceIndent := some 300
  language := none

/-- **`$` on a long line, `j` to a shorter one and `b`: the column is past the end of the line and the index out of range.** -/
theorem back_from_past_the_end : ¬ ∃ u, EditorRun readOnlyView (.ofLines ['a', 'b', 'c', 'd', 'e', 'f'] [['x']])
      [.key 0 .NONE (.char '$'), .key 1 .NONE (.char 'j'), .key 2 .NONE (.char 'b')] u := by
  have hmoved : [EditorEvent.key 0 .NONE (.char '$'), .key 1 .NONE (.char 'j')].foldlM (editorStep readOnlyView)
      (.ofLines ['a', 'b', 'c', 'd', 'e', 'f'] [['x']]) =
      some { (CodeInputFieldState.ofLines ['a', 'b', 'c', 'd', 'e', 'f'] [['x']]).moveTo 1 5 with hScroll := 5 } := by
    decide
  refine Run.not_of_stops (a := .key 2 .NONE (.char 'b')) hmoved ?_
  rw [editorStep, handleEvents_of_past 2 ⟨rfl, by decide, by decide, rfl⟩ (by decide)]
  · rfl
  · rintro ⟨chars, hchars, hle⟩
    cases hchars
    exact absurd hle (by decide)

end Ferrowl.Ui
