import Ferrowl.CodeInput
/-!
# CodeInputCursor — motions and selections return

The cursor is on a line of the text, and in an editor that is not disabled also within that line (`Sound`).  From such a state
the motions, the selections and their deletion return, `b` from within its line, and leave the cursor so.
-/
namespace Ferrowl.Ui

open List Option

section
variable {R : TextRules} {cfg : CodeSettings R} {s t : CodeInputFieldState}

open CodeInputFieldState

/-- What every operation relies on but the column: the cursor is on a line, the snapshot restores one, and so does the anchor of
a selection; without `vim` there is one mode, and a disabled editor does not insert. -/
structure Placed (cfg : CodeSettings R) (s : CodeInputFieldState) : Prop where
  line : s.activeLine < s.lines.length
  undo : ∀ u ∈ s.undo, u.2.1 < u.1.length
  anchor : ∀ lw, s.mode = .visual lw → ∃ p, s.visualAnchor = some p ∧ p.1 < s.lines.length
  plain : cfg.vim = false → s.mode = .normal
  writable : s.mode = .insert → cfg.disabled = false

structure Sound (cfg : CodeSettings R) (s : CodeInputFieldState) : Prop extends Placed cfg s where
  col : cfg.disabled = false → Inside s.lines (s.activeLine, s.cursorCol)

def Editing (s : CodeInputFieldState) : Prop := ∀ lw, s.mode ≠ .visual lw

theorem Editing.of_normal (h : s.mode = .normal) : Editing s := fun lw hv => by rw [h] at hv; cases hv

theorem Editing.of_insert (h : s.mode = .insert) : Editing s := fun lw hv => by rw [h] at hv; cases hv

/-- What an edit of the text leaves alone, and a line for the cursor. -/
structure Edited (s t : CodeInputFieldState) : Prop where
  line : t.activeLine < t.lines.length
  undo : t.undo = s.undo
  mode : t.mode = s.mode

theorem Edited.placed (he : Edited s t) (h : Placed cfg s) (hm : Editing s) : Placed cfg t where
  line := he.line
  undo := he.undo ▸ h.undo
  anchor := fun lw hv => absurd (he.mode ▸ hv) (hm lw)
  plain := fun hv => he.mode.trans (h.plain hv)
  writable := fun hi => h.writable (he.mode ▸ hi)

structure EditedAt (s t : CodeInputFieldState) : Prop where
  inside : Inside t.lines (t.activeLine, t.cursorCol)
  undo : t.undo = s.undo
  mode : t.mode = s.mode

theorem Inside.lt {lines : List Line} {p : Nat × Nat} (h : Inside lines p) : p.1 < lines.length := by
  obtain ⟨chars, hchars, -⟩ := h
  exact (List.getElem?_eq_some_iff.1 hchars).1

variable {line : Nat}

theorem Inside.text {lines : List Line} {col : Nat} (h : Inside lines (line, col)) :
    ∃ chars, lines[line]? = some chars ∧ col ≤ chars.length := h

theorem EditedAt.sound (he : EditedAt s t) (h : Placed cfg s) (hm : Editing s) : Sound cfg t where
  toPlaced := Edited.placed ⟨he.inside.lt, he.undo, he.mode⟩ h hm
  col := fun _ => he.inside

/-! ## The cursor -/

def OnBlock (s : CodeInputFieldState) : Prop := OnCharacter s.lines (s.activeLine, s.cursorCol)

def Moved (s t : CodeInputFieldState) : Prop := t.lines = s.lines ∧ t.undo = s.undo ∧ t.mode = s.mode

structure Clamped (cfg : CodeSettings R) (s t : CodeInputFieldState) : Prop where
  sound : Sound cfg t
  moved : Moved s t
  block : OnBlock t

/-- What a motion does; in a disabled editor it may end past its line. -/
structure Stepped (cfg : CodeSettings R) (s t : CodeInputFieldState) : Prop where
  sound : Sound cfg t
  moved : Moved s t
  block : cfg.disabled = false → OnBlock s → OnBlock t

theorem activeText_returns (h : s.activeLine < s.lines.length) :
    Returns s.activeText? fun line => s.lines[s.activeLine]? = some line :=
  ⟨_, List.getElem?_eq_getElem h, List.getElem?_eq_getElem h⟩

theorem clampCursor_returns (h : s.activeLine < s.lines.length) :
    Returns s.clampCursor fun t => ∃ col, t = { s with cursorCol := col } ∧ Inside s.lines (s.activeLine, col) :=
  (activeText_returns h).map fun line hline => ⟨_, rfl, line, hline, Nat.min_le_right _ _⟩

namespace Placed

theorem withCol (h : Placed cfg s) (col : Nat) : Placed cfg { s with cursorCol := col } :=
  ⟨h.line, h.undo, h.anchor, h.plain, h.writable⟩

theorem setCol (h : Placed cfg s) {col : Nat} (hin : cfg.disabled = false → Inside s.lines (s.activeLine, col)) :
    Sound cfg { s with cursorCol := col } :=
  ⟨h.withCol col, hin⟩

theorem setLine (h : Placed cfg s) (hl : line < s.lines.length) : Placed cfg { s with activeLine := line } :=
  ⟨hl, h.undo, h.anchor, h.plain, h.writable⟩

theorem moveTo (h : Placed cfg s) {col : Nat} (hin : Inside s.lines (line, col)) : Sound cfg (s.moveTo line col) :=
  (h.setLine hin.lt).setCol fun _ => hin

theorem stepTo (h : Placed cfg s) {col : Nat} (hon : OnCharacter s.lines (line, col)) :
    Stepped cfg s (s.moveTo line col) :=
  ⟨h.moveTo hon.inside, ⟨rfl, rfl, rfl⟩, fun _ _ => hon⟩

theorem clampNormal (h : Placed cfg s) : Returns s.clampNormal (Clamped cfg s) := by
  refine (activeText_returns h.line).map fun line hline => ?_
  have hon := onCharacter_of_le hline (Nat.min_le_right s.cursorCol _)
  exact ⟨h.setCol fun _ => hon.inside, ⟨rfl, rfl, rfl⟩, hon⟩

theorem clampStep (h : Placed cfg t) (hm : Moved s t) : Returns t.clampNormal (Stepped cfg s) :=
  h.clampNormal.mono fun _ hu =>
    ⟨hu.sound, ⟨hu.moved.1.trans hm.1, hu.moved.2.1.trans hm.2.1, hu.moved.2.2.trans hm.2.2⟩, fun _ _ => hu.block⟩

end Placed

/-- Normal mode with the cursor on a character. -/
structure Settled (cfg : CodeSettings R) (t : CodeInputFieldState) : Prop where
  sound : Sound cfg t
  mode : t.mode = .normal
  block : OnBlock t

theorem settled_returns (h : s.activeLine < s.lines.length) (hundo : ∀ u ∈ s.undo, u.2.1 < u.1.length) :
    Returns s.enterNormal.clampNormal fun t => Settled cfg t ∧ t.undo = s.undo := by
  have hp : Placed cfg s.enterNormal := ⟨h, hundo, nofun, fun _ => rfl, nofun⟩
  exact hp.clampNormal.mono fun t ht => ⟨⟨ht.sound, ht.moved.2.2, ht.block⟩, ht.moved.2.1⟩

theorem Placed.snapshotUndo (h : Placed cfg s) : Placed cfg s.snapshotUndo where
  line := h.line
  undo := by
    rintro _ ⟨⟩
    exact h.line
  anchor := h.anchor
  plain := h.plain
  writable := h.writable

theorem Placed.stepped_of_disabled (h : Placed cfg t) (hm : Moved s t) (hd : cfg.disabled = true) : Stepped cfg s t :=
  ⟨⟨h, fun he => absurd hd (by simp [he])⟩, hm, fun he => absurd hd (by simp [he])⟩

theorem moveLine_returns (h : Sound cfg s) (hl : line < s.lines.length) : Returns (moveLine cfg s line) (Stepped cfg s) := by
  have hp := h.toPlaced.setLine hl
  unfold moveLine
  by_cases hd : cfg.disabled = true
  · rw [if_pos hd]
    exact .some (hp.stepped_of_disabled ⟨rfl, rfl, rfl⟩ hd)
  · rw [if_neg hd]
    exact hp.clampStep ⟨rfl, rfl, rfl⟩

theorem pageMove_returns (h : Sound cfg s) (down : Bool) (rows : Nat) : Returns (pageMove cfg s down rows) (Stepped cfg s) := by
  have hl := h.line
  refine moveLine_returns h ?_
  split <;> omega

theorem lineBelow_lt (h : s.activeLine < s.lines.length) : s.lineBelow < s.lines.length := by
  unfold lineBelow
  split <;> omega

theorem stepLeft_returns (h : Sound cfg s) : Returns s.stepLeft fun t => Sound cfg t ∧ Moved s t := by
  unfold stepLeft
  split
  · refine .some ⟨h.toPlaced.setCol fun hd => ?_, rfl, rfl, rfl⟩
    obtain ⟨chars, hline, hle⟩ := h.col hd
    exact ⟨chars, hline, Nat.le_trans (Nat.sub_le _ _) hle⟩
  split
  · have hl : s.activeLine - 1 < s.lines.length := Nat.lt_of_le_of_lt (Nat.sub_le _ _) h.line
    rw [List.getElem?_eq_getElem hl]
    exact .some ⟨h.toPlaced.moveTo ⟨_, List.getElem?_eq_getElem hl, Nat.le_refl _⟩, rfl, rfl, rfl⟩
  · exact .some ⟨h, rfl, rfl, rfl⟩

theorem stepRight_returns (h : Sound cfg s) : Returns s.stepRight fun t => Sound cfg t ∧ Moved s t := by
  refine (activeText_returns h.line).map fun line hline => ?_
  split
  · rename_i hlt
    exact ⟨h.toPlaced.setCol fun _ => ⟨line, hline, hlt⟩, rfl, rfl, rfl⟩
  split
  · rename_i hl
    exact ⟨h.toPlaced.moveTo ⟨_, List.getElem?_eq_getElem hl, Nat.zero_le _⟩, rfl, rfl, rfl⟩
  · exact ⟨h, rfl, rfl, rfl⟩

theorem scrollTo_stepped (h : Sound cfg s) (hd : cfg.disabled = true) (n : Nat) : Stepped cfg s (s.scrollTo n) :=
  Placed.stepped_of_disabled ⟨h.line, h.undo, h.anchor, h.plain, h.writable⟩ ⟨rfl, rfl, rfl⟩ hd

theorem scrollToEnd_returns (h : Sound cfg s) (hd : cfg.disabled = true) : Returns s.scrollToEnd (Stepped cfg s) :=
  (activeText_returns h.line).map fun _ _ =>
    Placed.stepped_of_disabled ⟨h.line, h.undo, h.anchor, h.plain, h.writable⟩ ⟨rfl, rfl, rfl⟩ hd

theorem handleReadonlyNav_handles (h : Sound cfg s) (m : KeyModifiers) (code : KeyCode) :
    Handles (handleReadonlyNav cfg s m code) (Stepped cfg s) := by
  unfold handleReadonlyNav
  split
  · exact .declined
  split
  · exact .ite fun _ => (pageMove_returns h _ _).handled
  · exact .ite fun _ => (pageMove_returns h _ _).handled
  · exact .ite fun hd => .some (scrollTo_stepped h (by simp_all) _)
  · exact .ite fun hd => .some (scrollTo_stepped h (by simp_all) _)
  · split
    · split
      · exact (pageMove_returns h _ _).handled
      · exact (pageMove_returns h _ _).handled
      · exact .declined
    refine .ite fun hd => ?_
    have hd : cfg.disabled = true := by simp_all
    split
    · exact .some (scrollTo_stepped h hd _)
    · exact .some (scrollTo_stepped h hd _)
    · exact .some (scrollTo_stepped h hd _)
    · exact (scrollToEnd_returns h hd).handled
    · exact .declined
  · exact .declined

theorem charMotion_handles (h : Sound cfg s) (c : Char) (hb : c = 'b' → Inside s.lines (s.activeLine, s.cursorCol)) :
    Handles (charMotion cfg s c) (Stepped cfg s) := by
  unfold charMotion
  split
  · refine .some ⟨h.toPlaced.setCol fun hd => ?_, ⟨rfl, rfl, rfl⟩, fun _ hon => hon.of_le (Nat.sub_le _ _)⟩
    obtain ⟨chars, hline, hle⟩ := h.col hd
    exact ⟨chars, hline, Nat.le_trans (Nat.sub_le _ _) hle⟩
  · exact (Placed.clampStep (s := s) (h.toPlaced.withCol (s.cursorCol + 1)) ⟨rfl, rfl, rfl⟩).handled
  · exact (moveLine_returns h (lineBelow_lt h.line)).handled
  · exact (moveLine_returns h (Nat.lt_of_le_of_lt (Nat.sub_le _ _) h.line)).handled
  · exact .some (h.toPlaced.stepTo (onCharacter_zero h.line))
  · obtain ⟨line, he, hline⟩ := activeText_returns h.line
    rw [he]
    exact .some (h.toPlaced.stepTo (onCharacter_of_le hline (Nat.le_refl _)))
  · refine (wordForward_returns h.line).bind fun p hp => ?_
    exact (Placed.clampStep (s := s) ((h.toPlaced.setLine hp).withCol p.2) ⟨rfl, rfl, rfl⟩).handled
  · obtain ⟨p, he, hon⟩ := (wordEndForward_returns h.line : Returns (wordEndForward R s.lines s.activeLine s.cursorCol) _)
    rw [he]
    exact .some (h.toPlaced.stepTo hon)
  · obtain ⟨p, he, hon⟩ := wordBackward_returns (R := R) (hb rfl)
    rw [he]
    exact .some (h.toPlaced.stepTo hon)
  · exact .some (h.toPlaced.stepTo (onCharacter_zero (Nat.sub_lt (Nat.zero_lt_of_lt h.line) Nat.one_pos)))
  · exact .declined

theorem applyMotion_handles (h : Sound cfg s) (m : KeyModifiers) (code : KeyCode)
    (hb : plain m = true → code = .char 'b' → Inside s.lines (s.activeLine, s.cursorCol)) :
    Handles (applyMotion cfg s m code) (Stepped cfg s) := by
  unfold applyMotion
  split
  · exact .ite fun _ => (moveLine_returns h (Nat.lt_of_le_of_lt (Nat.sub_le _ _) h.line)).handled
  · exact .ite fun _ => (moveLine_returns h (lineBelow_lt h.line)).handled
  · exact .ite fun _ => (stepLeft_returns h).bind fun t ht => (ht.1.toPlaced.clampStep ht.2).handled
  · exact .ite fun _ => (stepRight_returns h).bind fun t ht => (ht.1.toPlaced.clampStep ht.2).handled
  · exact .ite fun hm => charMotion_handles h _ fun hc => hb hm (hc ▸ rfl)
  · exact .declined

/-! ## Selections -/

theorem fst_le_of_posLe {p q : Nat × Nat} (h : posLe p q = true) : p.1 ≤ q.1 := by
  simp only [posLe, Bool.or_eq_true, decide_eq_true_eq, Bool.and_eq_true, beq_iff_eq] at h
  omega

theorem fst_le_of_not_posLe {p q : Nat × Nat} (h : posLe p q ≠ true) : q.1 ≤ p.1 := by
  simp only [posLe, ne_eq, Bool.or_eq_true, decide_eq_true_eq, Bool.and_eq_true, beq_iff_eq] at h
  omega

def Spans (s : CodeInputFieldState) (span : (Nat × Nat) × (Nat × Nat)) : Prop :=
  span.1.1 ≤ span.2.1 ∧ span.2.1 < s.lines.length

theorem ordered_spans {p q : Nat × Nat} (hp : p.1 < s.lines.length) (hq : q.1 < s.lines.length) :
    Spans s (if posLe p q then (p, q) else (q, p)) := by
  by_cases h : posLe p q = true
  · rw [if_pos h]
    exact ⟨fst_le_of_posLe h, hq⟩
  · rw [if_neg h]
    exact ⟨fst_le_of_not_posLe h, hp⟩

theorem selectionRange_handles (h : Placed cfg s) : Handles s.selectionRange (Spans s) := by
  unfold selectionRange
  split
  · rename_i anchor lw hanchor hmode
    obtain ⟨p, hp, hlt⟩ := h.anchor lw hmode
    cases hanchor.symm.trans hp
    have hspan := ordered_spans (q := (s.activeLine, s.cursorCol)) hlt h.line
    simp only
    generalize (if posLe anchor (s.activeLine, s.cursorCol) then (anchor, (s.activeLine, s.cursorCol))
      else ((s.activeLine, s.cursorCol), anchor)) = span at hspan ⊢
    split
    · rw [List.getElem?_eq_getElem hspan.2]
      exact .some hspan
    · exact .some hspan
  · exact .declined

theorem selectionRange_ne_none (h : Placed cfg s) {lw : Bool} (hm : s.mode = .visual lw) : s.selectionRange ≠ some none := by
  obtain ⟨p, hp, -⟩ := h.anchor lw hm
  unfold selectionRange
  rw [hp, hm]
  simp only
  split
  · intro he
    obtain ⟨line, -, hne⟩ := map_eq_some_iff.1 he
    cases hne
  · simp

variable {span : (Nat × Nat) × (Nat × Nat)}

theorem extractCharwise_returns (h : Spans s span) : Returns (s.extractCharwise span.1 span.2) fun _ => True := by
  obtain ⟨⟨l₁, c₁⟩, ⟨l₂, c₂⟩⟩ := span
  obtain ⟨hle, hlt⟩ := h
  simp only at hle hlt
  unfold extractCharwise
  simp only
  rw [List.getElem?_eq_getElem (Nat.lt_of_le_of_lt hle hlt), List.getElem?_eq_getElem hlt]
  simp only [bind_some]
  split
  · rw [slice?_eq (Nat.min_le_right _ _) (Nat.min_le_right _ _)]
    exact .some trivial
  rw [slice?_eq (Nat.min_le_right _ _) (Nat.le_refl _), slice?_eq (Nat.zero_le _) (Nat.min_le_right _ _)]
  have hmid : Returns ((List.range' (l₁ + 1) (l₂ - (l₁ + 1))).mapM fun l => s.lines[l]?) fun _ => True := by
    refine .mapM fun l hl => ?_
    have hl := mem_range'_1.1 hl
    rw [List.getElem?_eq_getElem (by omega : l < s.lines.length)]
    exact .some trivial
  exact hmid.bind fun _ _ => .some trivial

theorem yankSpan_returns (h : Spans s span) :
    Returns (s.yankSpan span.1 span.2) fun t => ∃ text kind, t = s.setRegister text kind := by
  unfold yankSpan
  split
  · rw [slice?_eq (Nat.le_succ_of_le h.1) h.2]
    exact .some ⟨_, _, rfl⟩
  · exact (extractCharwise_returns h).map fun _ _ => ⟨_, _, rfl⟩

theorem Placed.setRegister (h : Placed cfg s) (text : Line) (kind : RegisterKind) : Placed cfg (s.setRegister text kind) :=
  ⟨h.line, h.undo, h.anchor, h.plain, h.writable⟩

theorem Sound.setRegister (h : Sound cfg s) (text : Line) (kind : RegisterKind) : Sound cfg (s.setRegister text kind) :=
  ⟨h.toPlaced.setRegister text kind, h.col⟩

theorem yankSelection_returns (h : Sound cfg s) : Returns s.yankSelection (Sound cfg) := by
  refine (selectionRange_handles h.toPlaced).bind (fun span hspan => ?_) (.some h)
  refine (yankSpan_returns hspan).mono ?_
  rintro _ ⟨text, kind, rfl⟩
  exact h.setRegister text kind

theorem enterNormalAtSelectionStart_returns (h : Placed cfg s) : Returns s.enterNormalAtSelectionStart (Settled cfg) := by
  refine (selectionRange_handles h).bind (fun span hspan => ?_) (settled_returns h.line h.undo).left
  have hl : span.1.1 < s.lines.length := Nat.lt_of_le_of_lt hspan.1 hspan.2
  exact (settled_returns (s := s.moveTo span.1.1 span.1.2) hl h.undo).left

/-! ## Deleting -/

theorem dropLines_returns {first last : Nat} (hle : first ≤ last) (hlt : last < s.lines.length) :
    Returns (s.dropLines first last) (Edited s) := by
  unfold dropLines
  split
  · exact .some ⟨Nat.one_pos, rfl, rfl⟩
  rename_i hall
  have hall : ¬(first = 0 ∧ last = s.lines.length - 1) := by simpa using hall
  rw [splice?_eq (Nat.le_succ_of_le hle) hlt]
  refine .some ⟨?_, rfl, rfl⟩
  simp only [append_nil, length_append, length_take, length_drop]
  omega

theorem dropChars_returns (h : Spans s span) : Returns (s.dropChars span.1 span.2) (Edited s) := by
  obtain ⟨hle, hlt⟩ := h
  unfold dropChars
  rw [List.getElem?_eq_getElem (Nat.lt_of_le_of_lt hle hlt), List.getElem?_eq_getElem hlt]
  simp only [bind_some]
  rw [slice?_eq (Nat.zero_le _) (Nat.min_le_right _ _), slice?_eq (Nat.min_le_right _ _) (Nat.le_refl _)]
  simp only [bind_some]
  rw [splice?_eq (Nat.le_succ_of_le hle) hlt]
  refine .some ⟨?_, rfl, rfl⟩
  simp only [length_append, length_take, length_drop, length_singleton]
  omega

/-- The snapshot of `t` is the text and the cursor of `s`. -/
def Taken (s t : CodeInputFieldState) : Prop := t.undo = some (s.lines, s.activeLine, s.cursorCol)

theorem deleteSelection_returns (h : Sound cfg s) (hd : cfg.disabled = false) {lw : Bool} (hm : s.mode = .visual lw) :
    Returns (deleteSelection cfg s) fun t => Settled cfg t ∧ Taken s t := by
  obtain ⟨r, hr, hspan⟩ := selectionRange_handles h.toPlaced
  have hne := selectionRange_ne_none h.toPlaced hm
  unfold deleteSelection
  rw [hd, hr]
  cases r with
  | none => exact absurd hr hne
  | some span =>
    have hspan := hspan span rfl
    simp only [Bool.false_eq_true, if_false, bind_some]
    obtain ⟨t, ht, text, kind, rfl⟩ := yankSpan_returns (s := s.snapshotUndo) hspan
    rw [ht, bind_some]
    have hedit : Returns (if (s.snapshotUndo.setRegister text kind).linewise then
        (s.snapshotUndo.setRegister text kind).dropLines span.1.1 span.2.1
        else (s.snapshotUndo.setRegister text kind).dropChars span.1 span.2)
        (Edited (s.snapshotUndo.setRegister text kind)) := by
      split
      · exact dropLines_returns hspan.1 hspan.2
      · exact dropChars_returns hspan
    refine hedit.bind fun t ht => ?_
    have hundo : ∀ u ∈ t.undo, u.2.1 < u.1.length := by
      rw [ht.undo]
      exact h.toPlaced.snapshotUndo.undo
    exact (settled_returns ht.line hundo).mono fun _ hu => ⟨hu.1, hu.2.trans ht.undo⟩

theorem countedEnd_lt (h : s.activeLine < s.lines.length) (count : Nat) : s.countedEnd count < s.lines.length := by
  unfold countedEnd
  omega

theorem le_countedEnd (h : s.activeLine < s.lines.length) {count : Nat} (hc : s.activeLine + max count 1 ≤ 2 ^ 64) :
    s.activeLine ≤ s.countedEnd count := by
  unfold countedEnd
  have : (s.activeLine + max count 1 + (2 ^ 64 - 1)) % 2 ^ 64 = s.activeLine + max count 1 - 1 := by omega
  omega

theorem countedEnd_of_wrap {count : Nat} (hc : 2 ^ 64 < s.activeLine + max count 1) (hcount : count < 2 ^ 64) :
    s.countedEnd count + 1 < s.activeLine := by
  unfold countedEnd
  omega

end

end Ferrowl.Ui
