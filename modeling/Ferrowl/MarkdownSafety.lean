import Ferrowl.MarkdownInput
/-!
# MarkdownSafety — where the markdown editor stops

A writable markdown field keeps its cursor within a line of the text (`MarkdownSound`) as long as two things hold of its steps: a
step by display rows lands on a line that is still there and reaches to the column, and the last line of a counted `yy` or `dd`
can be written in `usize`.
-/
namespace Ferrowl.Ui

open Option

section
variable {R : TextRules} {cfg : CodeSettings R} {s : CodeInputFieldState}

open CodeInputFieldState

/-! ## `y` and `d` -/

theorem handleEvents_eq (hnav : cfg.readonlyNav = false) (now : Nat) (m : KeyModifiers) (code : KeyCode) :
    s.handleEvents cfg now m code = s.handleKey cfg now m code := by
  unfold CodeInputFieldState.handleEvents handleReadonlyNav
  simp [hnav]

theorem normal_operator_returns (hd : cfg.disabled = false) (h : Sound cfg s) (hmode : s.mode = .normal) {c : Char} (hc : c = 'y' ∨ c = 'd')
    (m : KeyModifiers) : Returns (handleNormalKey cfg s m (.char c)) fun r => Sound cfg r.2 ∧ r.2.mode = .normal := by
  have hidle : Sound cfg s.cancelPendingChord := h.pending none
  unfold handleNormalKey
  simp only
  split
  · refine Returns.map (P := fun t => Sound cfg t ∧ t.mode = .normal) ?_ fun _ ht => ht
    split
    · rcases hc with rfl | rfl
      · exact (activeText_returns h.line).map fun text _ => ⟨hidle.setRegister text .linewise, hmode⟩
      · exact (deleteCurrentLine_returns hidle (.of_normal hmode) hd).mono fun t ht => ⟨ht.sound, ht.mode.trans hmode⟩
    · exact .some ⟨h.pending _, hmode⟩
  -- with a modifier the character is no chord, no motion and no command
  rename_i hchord
  have hm : m ≠ .NONE := by
    rcases hc with rfl | rfl <;> simpa using hchord
  have hmotion : applyMotion cfg s.cancelPendingChord m (.char c) = some none := by
    rcases hc with rfl | rfl <;> exact ite_self _
  have hcommand : normalCommand cfg s.cancelPendingChord m c = some s.cancelPendingChord := by
    unfold normalCommand
    rcases hc with rfl | rfl <;> simp [hm]
  rw [hmotion, bind_some]
  simp only
  split
  · rw [hcommand]
    exact .some ⟨hidle, hmode⟩
  · exact .some ⟨hidle, hmode⟩

theorem visual_operator_returns (hd : cfg.disabled = false) (h : Sound cfg s) {lw : Bool} (hmode : s.mode = .visual lw) {c : Char}
    (hc : c = 'y' ∨ c = 'd') : Returns (handleVisualKey cfg s .NONE (.char c)) fun r => Sound cfg r.2 ∧ r.2.mode = .normal := by
  have hidle : Sound cfg s.cancelPendingChord := h.pending none
  have hcommand : Returns (visualCommand cfg s.cancelPendingChord .NONE (.char c))
      fun r => ∃ t, r = some t ∧ Sound cfg t ∧ t.mode = .normal := by
    rcases hc with rfl | rfl
    · refine (yankSelection_returns hidle).bind fun t ht => ?_
      exact (enterNormalAtSelectionStart_returns ht.toPlaced).map fun u hu => ⟨u, rfl, hu.sound, hu.mode⟩
    · exact (deleteSelection_returns hidle hd hmode).map fun u hu => ⟨u, rfl, hu.1.sound, hu.1.mode⟩
  have hg : ¬ (KeyModifiers.NONE = .NONE ∧ KeyCode.char c = .char 'g') := by
    rcases hc with rfl | rfl <;> decide
  unfold handleVisualKey
  rw [if_neg hg]
  refine hcommand.bind ?_
  rintro _ ⟨t, rfl, ht⟩
  exact .some ht

theorem operator_returns (hnav : cfg.readonlyNav = false) (hd : cfg.disabled = false) (now : Nat) (h : Sound cfg s) {c : Char}
    (hc : c = 'y' ∨ c = 'd') {m : KeyModifiers} (hm : s.mode = .normal ∨ m = .NONE ∧ s.mode ≠ .insert) :
    Returns (s.handleEvents cfg now m (.char c)) fun r => Sound cfg r.2 ∧ r.2.mode = .normal := by
  by_cases hv : cfg.vim = true
  · rw [handleEvents_eq hnav]
    unfold handleKey
    rw [if_neg (by simp [hv])]
    cases hmode : s.mode with
    | normal => exact normal_operator_returns hd h hmode hc m
    | insert => exact absurd hm (by simp [hmode])
    | visual lw =>
      obtain ⟨rfl, -⟩ := hm.resolve_left (by simp [hmode])
      exact visual_operator_returns hd h hmode hc
  · have hvim : cfg.vim = false := by simpa using hv
    exact (handleEvents_returns now h m (.char c) fun _ => h.col hd).mono fun r hr => ⟨hr.sound, hr.sound.plain hvim⟩

theorem typeText_activeLine {text : Line} {t : CodeInputFieldState} (h : s.typeText text = some t) :
    t.activeLine = s.activeLine := by
  obtain ⟨u, hu, rfl⟩ := map_eq_some_iff.1 h
  obtain ⟨target, -, hset⟩ := bind_eq_some_iff.1 hu
  obtain ⟨lines, -, rfl⟩ := map_eq_some_iff.1 hset
  rfl

theorem yank_activeLine (hnav : cfg.readonlyNav = false) (hd : cfg.disabled = false) (now : Nat) (hmode : s.mode = .normal)
    {r : EventResult × CodeInputFieldState} (hr : s.handleEvents cfg now .NONE (.char 'y') = some r) :
    r.2.activeLine = s.activeLine := by
  rw [handleEvents_eq hnav] at hr
  unfold handleKey at hr
  by_cases hv : cfg.vim = true
  · rw [if_neg (by simp [hv]), hmode] at hr
    obtain ⟨t, ht, rfl⟩ := map_eq_some_iff.1 hr
    by_cases hp : s.pending = some 'y'
    · rw [if_pos hp] at ht
      obtain ⟨text, -, rfl⟩ := map_eq_some_iff.1 ht
      rfl
    · rw [if_neg hp] at ht
      cases ht
      rfl
  rw [if_pos (by simpa using hv)] at hr
  have htyped : editKey cfg now { s with lastSpace := none } .NONE (.char 'y') =
      (typeText { s with lastSpace := none } ['y']).map some := by
    unfold editKey
    rw [hd]
    rfl
  obtain ⟨t, ht, rfl⟩ := map_eq_some_iff.1 hr
  obtain ⟨u, hu, rfl⟩ := map_eq_some_iff.1 (htyped.symm.trans ht)
  exact typeText_activeLine (s := { s with lastSpace := none }) hu

end

/-! ## The field -/

section
variable {R : TextRules} {cfg : CodeSettings R} {s t : MarkdownInputFieldState}

open MarkdownInputFieldState

/-- What every key relies on: the editor is sound, a count that waits for a second `y` or `d` waits in Normal mode, and counts
are of the size of a `usize`. -/
structure MarkdownSound (cfg : CodeSettings R) (s : MarkdownInputFieldState) : Prop where
  inner : Sound cfg s.inner
  yanking : ∀ n, s.pendingYankCount = some n → n < 2 ^ 64 ∧ s.inner.mode = .normal
  deleting : ∀ n, s.pendingDeleteCount = some n → n < 2 ^ 64 ∧ s.inner.mode = .normal
  counting : ∀ n, s.pendingCount = some n → n < 2 ^ 64

def displayRow (s : MarkdownInputFieldState) : Nat :=
  if s.rowsPerLine.isEmpty then 0
  else (s.rowsPerLine.take (min s.inner.activeLine (s.rowsPerLine.length - 1))).sum + s.lineRow

theorem cursorDisplayRow_eq (s : MarkdownInputFieldState) : s.cursorDisplayRow = some (displayRow s) := by
  unfold cursorDisplayRow displayRow
  split
  · rfl
  · rw [slice?_eq (Nat.zero_le _) (Nat.le_trans (Nat.min_le_right _ _) (Nat.sub_le _ _))]
    rfl

theorem clampScroll_returns (s : MarkdownInputFieldState) :
    Returns s.clampScroll fun t => ∃ n, t = { s with rowScroll := n } := by
  unfold clampScroll
  split
  · exact .some ⟨s.rowScroll, rfl⟩
  · rw [cursorDisplayRow_eq]
    exact .some ⟨_, rfl⟩

theorem MarkdownSound.clampScroll (h : MarkdownSound cfg s) : Returns s.clampScroll (MarkdownSound cfg) := by
  refine (clampScroll_returns s).mono ?_
  rintro _ ⟨n, rfl⟩
  exact ⟨h.inner, h.yanking, h.deleting, h.counting⟩

theorem MarkdownSound.syncLayout (h : MarkdownSound cfg s) (rows : List Nat) (visible : Nat) :
    Returns (s.syncLayout rows visible) (MarkdownSound cfg) := by
  unfold MarkdownInputFieldState.syncLayout
  simp only
  split <;> exact MarkdownSound.clampScroll ⟨h.inner, h.yanking, h.deleting, h.counting⟩

def landingLine (s : MarkdownInputFieldState) (delta : Int) : Nat :=
  if s.totalDisplayRows = 0 then s.inner.activeLine
  else
    ((findRow (clampRow (displayRow s + delta) s.totalDisplayRows) s.rowsPerLine 0 0).map Prod.fst).getD s.inner.activeLine

/-- The step ends on a line that is there and reaches to the column of the cursor. -/
def Lands (s : MarkdownInputFieldState) (delta : Int) : Prop :=
  Inside s.inner.lines (landingLine s delta, s.inner.cursorCol)

theorem stepDisplayRow_returns (s : MarkdownInputFieldState) (delta : Int) : Returns (s.stepDisplayRow delta) fun t => ∃ row n,
      t = { s with inner := { s.inner with activeLine := landingLine s delta }, lineRow := row, rowScroll := n } := by
  unfold stepDisplayRow landingLine
  split
  · exact .some ⟨_, _, rfl⟩
  rw [cursorDisplayRow_eq, bind_some]
  refine (clampScroll_returns _).mono ?_
  rintro _ ⟨n, rfl⟩
  cases findRow (clampRow (displayRow s + delta) s.totalDisplayRows) s.rowsPerLine 0 0 with
  | none => exact ⟨s.lineRow, n, rfl⟩
  | some p => exact ⟨p.2, n, rfl⟩

theorem MarkdownSound.stepDisplayRow (h : MarkdownSound cfg s) (delta : Int) (hl : Lands s delta) :
    Returns (s.stepDisplayRow delta) (MarkdownSound cfg) := by
  refine (stepDisplayRow_returns s delta).mono ?_
  rintro _ ⟨row, n, rfl⟩
  exact ⟨⟨h.inner.toPlaced.setLine hl.lt, fun _ => hl⟩, h.yanking, h.deleting, h.counting⟩

theorem Lands.of_step {delta : Int} (hs : s.stepDisplayRow delta = some t)
    (hin : Inside t.inner.lines (t.inner.activeLine, t.inner.cursorCol)) : Lands s delta := by
  obtain ⟨u, hu, row, n, rfl⟩ := stepDisplayRow_returns s delta
  cases hs.symm.trans hu
  exact hin

/-! ## The steps that may stop -/

def displayDelta (s : MarkdownInputFieldState) (m : KeyModifiers) (code : KeyCode) : Option Int :=
  if s.inner.mode = .insert ∨ s.rowsPerLine.isEmpty then none
  else if s.pendingG ∧ m = .NONE ∧ code = .char 'j' then some 1
  else if s.pendingG ∧ m = .NONE ∧ code = .char 'k' then some (-1)
  else if m = .CONTROL ∧ code = .char 'd' ∧ s.visibleRows ≠ 0 then some (1 * s.halfHeight)
  else if m = .CONTROL ∧ code = .char 'u' ∧ s.visibleRows ≠ 0 then some (-1 * s.halfHeight)
  else none

def operatorCount (s : MarkdownInputFieldState) (m : KeyModifiers) (code : KeyCode) : Option Nat :=
  if m = .NONE ∧ code = .char 'y' then s.pendingYankCount
  else if m = .NONE ∧ code = .char 'd' then s.pendingDeleteCount
  else none

variable {m : KeyModifiers} {code : KeyCode}

theorem handleEvents_of_normal (hd : cfg.disabled = false) (now : Nat)
    (hmode : s.inner.mode ≠ .insert) (hdigit : s.countDigit m code = none) :
    s.handleEvents cfg now m code = normalKey cfg now (s.dropCounts code) m code := by
  unfold MarkdownInputFieldState.handleEvents
  rw [if_neg hmode, hdigit, hd]
  rfl

theorem countDigit_of_control : s.countDigit .CONTROL code = none := by
  cases code <;> rfl

theorem MarkdownSound.dropCounts (h : MarkdownSound cfg s) (code : KeyCode) : MarkdownSound cfg (s.dropCounts code) := by
  refine ⟨h.inner, fun n hn => h.yanking n ?_, fun n hn => h.deleting n ?_, h.counting⟩
  all_goals
    simp only [MarkdownInputFieldState.dropCounts] at hn
    split at hn
    · exact hn
    · cases hn

theorem MarkdownSound.idle (h : MarkdownSound cfg s) (g : Bool) :
    MarkdownSound cfg { s with pendingG := g, pendingCount := none } :=
  ⟨h.inner, h.yanking, h.deleting, nofun⟩

theorem halfPage_eq (hrows : ¬ s.rowsPerLine.isEmpty) (hvis : s.visibleRows ≠ 0) (dir : Int) :
    ∃ n, s.halfPage dir = stepDisplayRow { s with rowScroll := n } (dir * s.halfHeight) := by
  unfold halfPage
  rw [if_neg (by simpa [hvis] using hrows)]
  exact ⟨_, rfl⟩

theorem normalKey_gj (hg : s.pendingG = true) (now : Nat) : normalKey cfg now s .NONE (.char 'j') =
    displayMove cfg now { s with pendingG := false, pendingCount := none } (.char 'j') 1 :=
  if_pos ⟨hg, rfl, rfl⟩

theorem normalKey_gk (hg : s.pendingG = true) (now : Nat) : normalKey cfg now s .NONE (.char 'k') =
    displayMove cfg now { s with pendingG := false, pendingCount := none } (.char 'k') (-1) :=
  (if_neg (by simp)).trans (if_pos ⟨hg, rfl, rfl⟩)

variable (now : Nat)

theorem normalKey_control_d : normalKey cfg now s .CONTROL (.char 'd') =
    (halfPage { s with pendingG := false, pendingCount := none } 1).map (Prod.mk .consumed) := by
  simp [normalKey, plainKey, show KeyModifiers.CONTROL ≠ .NONE by decide]

theorem normalKey_control_u : normalKey cfg now s .CONTROL (.char 'u') =
    (halfPage { s with pendingG := false, pendingCount := none } (-1)).map (Prod.mk .consumed) := by
  simp [normalKey, plainKey, show KeyModifiers.CONTROL ≠ .NONE by decide]

theorem normalKey_of_display {delta : Int} (hdelta : displayDelta s m code = some delta) :
    s.inner.mode ≠ .insert ∧ s.countDigit m code = none ∧ ∃ n, normalKey cfg now (s.dropCounts code) m code =
      (stepDisplayRow { s.dropCounts code with pendingG := false, pendingCount := none, rowScroll := n } delta).map
        (Prod.mk .consumed) := by
  unfold displayDelta at hdelta
  split at hdelta
  · cases hdelta
  rename_i hsome
  obtain ⟨hmode, hrows⟩ := not_or.1 hsome
  refine ⟨hmode, ?_⟩
  have hpage : ∀ dir, s.visibleRows ≠ 0 → ∃ n, halfPage { s.dropCounts code with pendingG := false, pendingCount := none } dir =
      stepDisplayRow { s.dropCounts code with pendingG := false, pendingCount := none, rowScroll := n } (dir * s.halfHeight) :=
    fun dir hvis => halfPage_eq (s := { s.dropCounts code with pendingG := false, pendingCount := none }) hrows hvis dir
  split at hdelta
  · rename_i hj
    obtain ⟨hg, rfl, rfl⟩ := hj
    cases hdelta
    exact ⟨rfl, s.rowScroll, (normalKey_gj (s := s.dropCounts _) hg now).trans (if_neg hrows)⟩
  split at hdelta
  · rename_i hk
    obtain ⟨hg, rfl, rfl⟩ := hk
    cases hdelta
    exact ⟨rfl, s.rowScroll, (normalKey_gk (s := s.dropCounts _) hg now).trans (if_neg hrows)⟩
  split at hdelta
  · rename_i hdown
    obtain ⟨rfl, rfl, hvis⟩ := hdown
    cases hdelta
    obtain ⟨n, hn⟩ := hpage 1 hvis
    exact ⟨countDigit_of_control, n, (normalKey_control_d now).trans (congrArg _ hn)⟩
  split at hdelta
  · rename_i hup
    obtain ⟨rfl, rfl, hvis⟩ := hup
    cases hdelta
    obtain ⟨n, hn⟩ := hpage (-1) hvis
    exact ⟨countDigit_of_control, n, (normalKey_control_u now).trans (congrArg _ hn)⟩
  · cases hdelta

theorem handleEvents_of_display (hd : cfg.disabled = false) (now : Nat) {delta : Int}
    (hdelta : displayDelta s m code = some delta) (h : MarkdownSound cfg s) :
    ∃ t, s.handleEvents cfg now m code = (t.stepDisplayRow delta).map (Prod.mk .consumed) ∧ MarkdownSound cfg t ∧
      (Lands t delta ↔ Lands s delta) := by
  obtain ⟨hmode, hdigit, n, hn⟩ := @normalKey_of_display R cfg s m code now delta hdelta
  have hsound := (h.dropCounts code).idle false
  have heq := (handleEvents_of_normal hd now hmode hdigit).trans hn
  exact ⟨_, heq, ⟨hsound.inner, hsound.yanking, hsound.deleting, hsound.counting⟩, Iff.rfl⟩

/-! ## Counted operators -/

theorem normalKey_y : normalKey cfg now s .NONE (.char 'y') = yank cfg now { s with pendingG := false } := by
  simp [normalKey, plainKey, show KeyModifiers.NONE ≠ .CONTROL by decide]

theorem normalKey_d : normalKey cfg now s .NONE (.char 'd') = delete cfg now { s with pendingG := false } := by
  simp [normalKey, plainKey, show KeyModifiers.NONE ≠ .CONTROL by decide]

theorem slice_countedEnd_of_wrap {u : CodeInputFieldState} {count : Nat} (hcount : count < 2 ^ 64)
    (hwrap : ¬ u.activeLine + max count 1 ≤ 2 ^ 64) : slice? u.lines u.activeLine (u.countedEnd count + 1) = none := by
  have hend := countedEnd_of_wrap (Nat.lt_of_not_le hwrap) hcount
  exact if_neg fun h => absurd h.1 (Nat.not_le.2 hend)

theorem yank_counted (hnav : cfg.readonlyNav = false) (hd : cfg.disabled = false) (now : Nat) (h : MarkdownSound cfg s) {n : Nat}
    (hn : s.pendingYankCount = some n) :
    if s.inner.activeLine + max n 1 ≤ 2 ^ 64 then Returns (yank cfg now s) fun r => MarkdownSound cfg r.2
    else yank cfg now s = none := by
  obtain ⟨hlt, hmode⟩ := h.yanking n hn
  obtain ⟨r, hr, hsound, hnormal⟩ := operator_returns hnav hd now h.inner (.inl rfl) (.inl hmode)
  have hline := yank_activeLine hnav hd now hmode hr
  unfold yank
  simp only [hn, hr, bind_some]
  split
  · rename_i hfits
    have hfits : r.2.activeLine + max (max n 1) 1 ≤ 2 ^ 64 := by omega
    refine (yankLines_returns hsound hfits).map fun t ht => ?_
    have htmode := ht.2.trans hnormal
    exact ⟨ht.1, nofun, fun k hk => ⟨(h.deleting k hk).1, htmode⟩, h.counting⟩
  rename_i hwrap
  have hwrap : ¬ r.2.activeLine + max (max n 1) 1 ≤ 2 ^ 64 := by omega
  unfold CodeInputFieldState.yankLines
  rw [slice_countedEnd_of_wrap (by omega) hwrap]
  rfl

theorem delete_counted (hd : cfg.disabled = false) (now : Nat) (h : MarkdownSound cfg s) {n : Nat}
    (hn : s.pendingDeleteCount = some n) :
    if s.inner.activeLine + max n 1 ≤ 2 ^ 64 then Returns (delete cfg now s) fun r => MarkdownSound cfg r.2
    else delete cfg now s = none := by
  obtain ⟨hlt, hmode⟩ := h.deleting n hn
  have hidle : Sound cfg s.inner.cancelPendingChord := h.inner.pending none
  unfold delete
  simp only [hn]
  split
  · rename_i hfits
    have hfits : s.inner.activeLine + max (max n 1) 1 ≤ 2 ^ 64 := by omega
    refine (deleteLines_returns hidle (.of_normal hmode) hd hfits).bind fun u hu => ?_
    have humode := hu.mode.trans hmode
    have hsound : MarkdownSound cfg { s with pendingDeleteCount := none, inner := u, lineRow := 0 } :=
      ⟨hu.sound, fun k hk => ⟨(h.yanking k hk).1, humode⟩, nofun, h.counting⟩
    exact hsound.clampScroll.map fun t ht => ht
  rename_i hwrap
  have hwrap : ¬ s.inner.activeLine + max (max n 1) 1 ≤ 2 ^ 64 := by omega
  have hslice := slice_countedEnd_of_wrap (u := s.inner) (by omega) hwrap
  have hnone : s.inner.cancelPendingChord.deleteLines cfg (max n 1) = none := by
    unfold CodeInputFieldState.deleteLines
    rw [hd]
    exact congrArg (fun x => Option.bind x _) hslice
  rw [hnone]
  rfl

theorem handleEvents_of_operator (hnav : cfg.readonlyNav = false) (hd : cfg.disabled = false)
    (now : Nat) {n : Nat} (hop : operatorCount s m code = some n) (h : MarkdownSound cfg s) :
    if s.inner.activeLine + max n 1 ≤ 2 ^ 64 then Returns (s.handleEvents cfg now m code) fun r => MarkdownSound cfg r.2
    else s.handleEvents cfg now m code = none := by
  have hsound := h.dropCounts code
  unfold operatorCount at hop
  split at hop
  · rename_i hy
    obtain ⟨rfl, rfl⟩ := hy
    have hmode : s.inner.mode ≠ .insert := by simp [(h.yanking n hop).2]
    rw [handleEvents_of_normal hd now hmode rfl, normalKey_y]
    exact yank_counted (s := { s.dropCounts (.char 'y') with pendingG := false }) hnav hd now
      ⟨hsound.inner, hsound.yanking, hsound.deleting, hsound.counting⟩ hop
  split at hop
  · rename_i hdd
    obtain ⟨rfl, rfl⟩ := hdd
    have hmode : s.inner.mode ≠ .insert := by simp [(h.deleting n hop).2]
    rw [handleEvents_of_normal hd now hmode rfl, normalKey_d]
    exact delete_counted (s := { s.dropCounts (.char 'd') with pendingG := false }) hd now
      ⟨hsound.inner, hsound.yanking, hsound.deleting, hsound.counting⟩ hop
  · cases hop

/-! ## The other keys -/

def Waits (s : MarkdownInputFieldState) (code : KeyCode) : Prop :=
  (s.pendingYankCount ≠ none → code = .char 'y') ∧ (s.pendingDeleteCount ≠ none → code = .char 'd')

theorem dropCounts_waits (s : MarkdownInputFieldState) (code : KeyCode) : Waits (s.dropCounts code) code := by
  constructor
  all_goals
    intro hne
    by_contra hcode
    simp [dropCounts, hcode] at hne

section
variable (hnav : cfg.readonlyNav = false) (hd : cfg.disabled = false)
include hnav hd

variable {m : KeyModifiers} {code : KeyCode}

variable (now : Nat)

theorem inner_returns (h : MarkdownSound cfg s) (hw : Waits s code) :
    Returns (s.inner.handleEvents cfg now m code) fun r => MarkdownSound cfg { s with inner := r.2 } := by
  by_cases hwaits : s.pendingYankCount = none ∧ s.pendingDeleteCount = none
  · obtain ⟨hy, hdel⟩ := hwaits
    refine (handleEvents_returns now h.inner m code fun _ => h.inner.col hd).mono fun r hr => ?_
    exact ⟨hr.sound, fun n hn => absurd (hy.symm.trans hn) nofun, fun n hn => absurd (hdel.symm.trans hn) nofun, h.counting⟩
  have hwait : ∃ c, (c = 'y' ∨ c = 'd') ∧ code = .char c ∧ s.inner.mode = .normal := by
    by_cases hy : s.pendingYankCount = none
    · have hdel : s.pendingDeleteCount ≠ none := fun hdel => hwaits ⟨hy, hdel⟩
      obtain ⟨n, hn⟩ := ne_none_iff_exists'.1 hdel
      exact ⟨'d', .inr rfl, hw.2 hdel, (h.deleting n hn).2⟩
    · obtain ⟨n, hn⟩ := ne_none_iff_exists'.1 hy
      exact ⟨'y', .inl rfl, hw.1 hy, (h.yanking n hn).2⟩
  obtain ⟨c, hc, rfl, hmode⟩ := hwait
  refine (operator_returns hnav hd now h.inner hc (.inl hmode)).mono fun r hr => ?_
  exact ⟨hr.1, fun n hn => ⟨(h.yanking n hn).1, hr.2⟩, fun n hn => ⟨(h.deleting n hn).1, hr.2⟩, h.counting⟩

theorem passThrough_returns (h : MarkdownSound cfg s) (hw : Waits s code) :
    Returns (passThrough cfg now s m code) fun r => MarkdownSound cfg r.2 :=
  (inner_returns hnav hd now h hw).map fun _ hr => hr

theorem passOn_returns (h : MarkdownSound cfg s) (hw : Waits s code) :
    Returns (passOn cfg now s m code) fun r => MarkdownSound cfg r.2 := by
  refine (inner_returns hnav hd now h hw).bind fun r hr => ?_
  have hsound : MarkdownSound cfg { s with inner := r.2, lineRow := 0 } := ⟨hr.inner, hr.yanking, hr.deleting, hr.counting⟩
  exact hsound.clampScroll.map fun _ ht => ht

theorem goToTop_returns (h : MarkdownSound cfg s) (hw : Waits s (.char 'g')) :
    Returns (goToTop cfg now s) fun r => MarkdownSound cfg r.2 :=
  (inner_returns hnav hd now h hw).bind fun _ hr => passOn_returns hnav hd now hr hw

omit hnav in
theorem repeatKey_returns (m : KeyModifiers) (code : KeyCode) (count : Nat)
    {r : EventResult × CodeInputFieldState} (h : Sound cfg r.2) :
    Returns (repeatKey cfg now m code count r) fun r => Sound cfg r.2 := by
  induction count generalizing r with
  | zero => exact .some h
  | succ count ih => exact (handleEvents_returns now h m code fun _ => h.col hd).bind fun _ hr => ih hr.sound

omit hnav in
theorem countedMove_returns (h : MarkdownSound cfg s) (hw : Waits s code) (hcode : code = .char 'j' ∨ code = .char 'k') :
    Returns (countedMove cfg now s m code) fun r => MarkdownSound cfg r.2 := by
  have hy : ∀ n, s.pendingYankCount ≠ some n := by
    intro n hn
    rcases hcode with rfl | rfl <;> exact absurd (hw.1 (by simp [hn])) (by decide)
  have hdel : ∀ n, s.pendingDeleteCount ≠ some n := by
    intro n hn
    rcases hcode with rfl | rfl <;> exact absurd (hw.2 (by simp [hn])) (by decide)
  refine (repeatKey_returns hd now m code _ h.inner).bind fun r hr => ?_
  have hsound : MarkdownSound cfg { s with pendingCount := none, inner := r.2, lineRow := 0 } :=
    ⟨hr, fun n hn => absurd hn (hy n), fun n hn => absurd hn (hdel n), nofun⟩
  exact hsound.clampScroll.map fun _ ht => ht

theorem firstOperator_returns (h : Sound cfg s.inner) (hmode : s.inner.mode ≠ .insert) {c : Char}
    (hc : c = 'y' ∨ c = 'd') (hy : ∀ n, s.pendingYankCount = some n → n < 2 ^ 64)
    (hdel : ∀ n, s.pendingDeleteCount = some n → n < 2 ^ 64) (hcount : s.pendingCount = none) :
    Returns (passThrough cfg now s .NONE (.char c)) fun r => MarkdownSound cfg r.2 := by
  refine (operator_returns hnav hd now h hc (.inr ⟨rfl, hmode⟩)).map fun r hr => ?_
  exact ⟨hr.1, fun n hn => ⟨hy n hn, hr.2⟩, fun n hn => ⟨hdel n hn, hr.2⟩, fun n hn => absurd (hcount.symm.trans hn) nofun⟩

theorem yank_returns (h : MarkdownSound cfg s) (hw : Waits s (.char 'y'))
    (hmode : s.inner.mode ≠ .insert) (hy : s.pendingYankCount = none) :
    Returns (yank cfg now s) fun r => MarkdownSound cfg r.2 := by
  unfold yank
  rw [hy]
  simp only
  split
  · rename_i count hcount
    refine firstOperator_returns (s := { s with pendingCount := none, pendingYankCount := some count }) hnav hd now h.inner hmode
      (.inl rfl) ?_ (fun n hn => (h.deleting n hn).1) rfl
    rintro _ ⟨⟩
    exact h.counting count hcount
  · exact passOn_returns hnav hd now h hw

theorem delete_returns (h : MarkdownSound cfg s) (hw : Waits s (.char 'd'))
    (hmode : s.inner.mode ≠ .insert) (hdel : s.pendingDeleteCount = none) :
    Returns (delete cfg now s) fun r => MarkdownSound cfg r.2 := by
  unfold delete
  rw [hdel]
  simp only
  split
  · rename_i count hcount
    refine firstOperator_returns (s := { s with pendingCount := none, pendingDeleteCount := some count }) hnav hd now h.inner
      hmode (.inr rfl) (fun n hn => (h.yanking n hn).1) ?_ rfl
    rintro _ ⟨⟩
    exact h.counting count hcount
  · exact passOn_returns hnav hd now h hw

theorem plainKey_returns (h : MarkdownSound cfg s) (hw : Waits s code)
    (hmode : s.inner.mode ≠ .insert) (hdisp : displayDelta s m code = none) (hop : operatorCount s m code = none) :
    Returns (plainKey cfg now s m code) fun r => MarkdownSound cfg r.2 := by
  have hidle : MarkdownSound cfg { s with pendingCount := none } := ⟨h.inner, h.yanking, h.deleting, nofun⟩
  -- no rows to step over: a half page is no step
  have hpage : ∀ dir, m = .CONTROL → code = .char 'd' ∨ code = .char 'u' →
      Returns ((halfPage { s with pendingCount := none } dir).map (Prod.mk EventResult.consumed))
        fun r => MarkdownSound cfg r.2 := by
    rintro dir rfl hcode
    have hrows : s.rowsPerLine.isEmpty = true ∨ s.visibleRows = 0 := by
      by_contra hrows
      obtain ⟨hrows, hvis⟩ := not_or.1 hrows
      rcases hcode with rfl | rfl <;>
        simp [displayDelta, hmode, hrows, hvis, show KeyModifiers.CONTROL ≠ .NONE by decide] at hdisp
    unfold halfPage
    rw [if_pos (by simpa using hrows)]
    exact .some hidle
  unfold plainKey
  split
  · exact .some ⟨h.inner, h.yanking, h.deleting, h.counting⟩
  split
  · rename_i hdown
    exact hpage 1 hdown.1 (.inl hdown.2)
  split
  · rename_i hup
    exact hpage (-1) hup.1 (.inr hup.2)
  split
  · rename_i hjk
    exact countedMove_returns hd now h hw hjk.2
  split
  · rename_i hy
    obtain ⟨rfl, rfl⟩ := hy
    exact yank_returns hnav hd now h hw hmode hop
  split
  · rename_i hdel
    obtain ⟨rfl, rfl⟩ := hdel
    exact delete_returns hnav hd now h hw hmode hop
  · exact passOn_returns hnav hd now hidle hw

theorem normalKey_returns (h : MarkdownSound cfg s) (hw : Waits s code)
    (hmode : s.inner.mode ≠ .insert) (hdisp : displayDelta s m code = none) (hop : operatorCount s m code = none) :
    Returns (normalKey cfg now s m code) fun r => MarkdownSound cfg r.2 := by
  have hidle := h.idle false
  -- without a layout a step by display rows is the editor's
  have hmove : s.pendingG = true → m = .NONE → code = .char 'j' ∨ code = .char 'k' → ∀ delta,
      Returns (displayMove cfg now { s with pendingG := false, pendingCount := none } code delta)
        fun r => MarkdownSound cfg r.2 := by
    rintro hg rfl hcode delta
    have hrows : s.rowsPerLine.isEmpty = true := by
      by_contra hrows
      rcases hcode with rfl | rfl <;> simp [displayDelta, hmode, hrows, hg] at hdisp
    unfold displayMove
    rw [if_pos hrows]
    exact passThrough_returns hnav hd now hidle hw
  unfold normalKey
  simp only
  split
  · rename_i hj
    exact hmove hj.1 hj.2.1 (.inl hj.2.2) 1
  split
  · rename_i hk
    exact hmove hk.1 hk.2.1 (.inr hk.2.2) (-1)
  split
  · rename_i hgg
    obtain ⟨-, rfl, rfl⟩ := hgg
    exact goToTop_returns hnav hd now hidle hw
  rename_i hnj hnk _
  have hplain : displayDelta { s with pendingG := false } m code = none := by
    unfold displayDelta at hdisp ⊢
    rw [if_neg hnj, if_neg hnk] at hdisp
    simp only [Bool.false_eq_true, false_and, if_false]
    exact hdisp
  exact plainKey_returns (s := { s with pendingG := false }) hnav hd now ⟨h.inner, h.yanking, h.deleting, h.counting⟩ hw
    hmode hplain hop

omit hnav hd in
theorem MarkdownSound.countDigit (h : MarkdownSound cfg s) (ht : s.countDigit m code = some t) : MarkdownSound cfg t := by
  unfold MarkdownInputFieldState.countDigit at ht
  split at ht
  · split at ht
    · cases ht
    split at ht
    · cases ht
      refine ⟨h.inner, h.yanking, h.deleting, ?_⟩
      rintro _ ⟨⟩
      exact Nat.mod_lt _ (by decide)
    split at ht
    · obtain ⟨n, -, rfl⟩ := map_eq_some_iff.1 ht
      refine ⟨h.inner, h.yanking, h.deleting, ?_⟩
      rintro _ ⟨⟩
      exact Nat.mod_lt _ (by decide)
    · cases ht
  · cases ht

theorem handleEvents_of_other (h : MarkdownSound cfg s) (hdisp : displayDelta s m code = none)
    (hop : operatorCount s m code = none) : Returns (s.handleEvents cfg now m code) fun r => MarkdownSound cfg r.2 := by
  by_cases hmode : s.inner.mode = .insert
  · unfold MarkdownInputFieldState.handleEvents
    rw [if_pos hmode]
    have hclear : MarkdownSound cfg
        { s with pendingCount := none, pendingG := false, pendingYankCount := none, pendingDeleteCount := none } :=
      ⟨h.inner, nofun, nofun, nofun⟩
    exact passOn_returns hnav hd now hclear ⟨fun hne => absurd rfl hne, fun hne => absurd rfl hne⟩
  cases hdigit : s.countDigit m code with
  | some t =>
    unfold MarkdownInputFieldState.handleEvents
    rw [if_neg hmode, hdigit]
    exact .some (h.countDigit hdigit)
  | none =>
    rw [handleEvents_of_normal hd now hmode hdigit]
    refine normalKey_returns hnav hd now (h.dropCounts code) (dropCounts_waits s code) hmode hdisp ?_
    unfold operatorCount at hop ⊢
    simp only [dropCounts]
    split
    · rename_i hy
      rw [if_pos hy] at hop
      rw [if_pos hy.2]
      exact hop
    rename_i hy
    rw [if_neg hy] at hop
    split
    · rename_i hdel
      rw [if_pos hdel] at hop
      rw [if_pos hdel.2]
      exact hop
    · rfl

end

/-! ## The steps -/

/-- The step keeps the cursor within a line: a step by display rows lands on one, and the last line of a counted operator can be
written in `usize`. -/
def KeepsInside (s : MarkdownInputFieldState) : MarkdownEvent → Prop
  | .key _ m code =>
    (∀ delta, displayDelta s m code = some delta → Lands s delta) ∧
      ∀ n, operatorCount s m code = some n → s.inner.activeLine + max n 1 ≤ 2 ^ 64
  | _ => True

theorem operatorCount_of_display {delta : Int} (h : displayDelta s m code = some delta) : operatorCount s m code = none := by
  unfold displayDelta at h
  unfold operatorCount
  split at h
  · cases h
  split at h
  · rename_i hj
    simp [hj.2.2]
  split at h
  · rename_i hk
    simp [hk.2.2]
  split at h
  · rename_i hdown
    simp [hdown.1, show KeyModifiers.CONTROL ≠ .NONE by decide]
  split at h
  · rename_i hup
    simp [hup.1, show KeyModifiers.CONTROL ≠ .NONE by decide]
  · cases h

section
variable (hnav : cfg.readonlyNav = false) (hd : cfg.disabled = false)
include hnav hd

/-- **A key that returns with its cursor within a line kept it there, and one that keeps it there returns soundly.** -/
theorem handleEvents_keepsInside (now : Nat) (h : MarkdownSound cfg s) (m : KeyModifiers) (code : KeyCode) :
    (KeepsInside s (.key now m code) → Returns (s.handleEvents cfg now m code) fun r => MarkdownSound cfg r.2) ∧
      ∀ r, s.handleEvents cfg now m code = some r →
        Inside r.2.inner.lines (r.2.inner.activeLine, r.2.inner.cursorCol) → KeepsInside s (.key now m code) := by
  cases hdisp : displayDelta s m code with
  | some delta =>
    have hop := operatorCount_of_display hdisp
    obtain ⟨t, ht, hsound, hlands⟩ := handleEvents_of_display hd now hdisp h
    rw [ht]
    constructor
    · intro hk
      exact (hsound.stepDisplayRow delta (hlands.2 (hk.1 delta hdisp))).map fun _ hu => hu
    intro r hr hin
    obtain ⟨u, hu, rfl⟩ := map_eq_some_iff.1 hr
    refine ⟨fun delta' hdelta' => ?_, fun n hn => absurd (hop.symm.trans hn) nofun⟩
    cases hdisp.symm.trans hdelta'
    exact hlands.1 (.of_step hu hin)
  | none =>
    have hnone : ∀ delta, displayDelta s m code = some delta → Lands s delta :=
      fun delta hdelta => absurd (hdisp.symm.trans hdelta) nofun
    cases hop : operatorCount s m code with
    | some n =>
      have hspec := handleEvents_of_operator hnav hd now hop h
      by_cases hfits : s.inner.activeLine + max n 1 ≤ 2 ^ 64
      · rw [if_pos hfits] at hspec
        refine ⟨fun _ => hspec, fun r _ _ => ⟨hnone, fun k hk => ?_⟩⟩
        cases hop.symm.trans hk
        exact hfits
      · rw [if_neg hfits] at hspec
        exact ⟨fun hk => absurd (hk.2 n hop) hfits, fun r hr => absurd (hspec.symm.trans hr) nofun⟩
    | none =>
      exact ⟨fun _ => handleEvents_of_other hnav hd now h hdisp hop,
        fun r _ _ => ⟨hnone, fun n hn => absurd (hop.symm.trans hn) nofun⟩⟩

theorem markdownStep_returns (h : MarkdownSound cfg s) {e : MarkdownEvent} (hk : KeepsInside s e) :
    Returns (markdownStep cfg s e) (MarkdownSound cfg) := by
  cases e with
  | key now m code => exact ((handleEvents_keepsInside hnav hd now h m code).1 hk).map fun _ hr => hr
  | rendered rowsOf visibleRows cursorRow =>
    cases cursorRow with
    | none => exact h.syncLayout _ _
    | some row => exact MarkdownSound.syncLayout (s := s.syncCursorRow row) ⟨h.inner, h.yanking, h.deleting, h.counting⟩ _ _
  | setContent text =>
    refine (setContent_returns h.inner.toPlaced text).map fun u hu => ?_
    obtain ⟨hu, hmode, -⟩ := hu
    have htop : Inside u.lines (0, 0) :=
      ⟨_, List.getElem?_eq_getElem (Nat.zero_lt_of_lt hu.line), Nat.zero_le _⟩
    exact ⟨hu.toPlaced.moveTo htop, fun n hn => ⟨(h.yanking n hn).1, hmode⟩, fun n hn => ⟨(h.deleting n hn).1, hmode⟩,
      h.counting⟩
  | setFocused focus =>
    refine (setFocused_returns h.inner focus).map fun u hu => ?_
    exact ⟨hu.1, fun n hn => ⟨(h.yanking n hn).1, hu.2 (h.yanking n hn).2⟩,
      fun n hn => ⟨(h.deleting n hn).1, hu.2 (h.deleting n hn).2⟩, h.counting⟩

theorem KeepsInside.of_step (h : MarkdownSound cfg s) {e : MarkdownEvent} (hs : markdownStep cfg s e = some t)
    (hin : Inside t.inner.lines (t.inner.activeLine, t.inner.cursorCol)) : KeepsInside s e := by
  cases e with
  | key now m code =>
    obtain ⟨r, hr, rfl⟩ := map_eq_some_iff.1 hs
    exact (handleEvents_keepsInside hnav hd now h m code).2 r hr hin
  | rendered => trivial
  | setContent => trivial
  | setFocused => trivial

end

/-! ## Runs -/

def markdownOf (first : Line) (rest : List Line) : MarkdownInputFieldState := .ofInner (.ofLines first rest)

theorem markdownOf_sound (first : Line) (rest : List Line) : MarkdownSound cfg (markdownOf first rest) :=
  ⟨ofLines_sound first rest, nofun, nofun, nofun⟩

abbrev WritableRun (vim : Bool) (spaceIndent : Option Nat) (language : Option R.Language) :=
  Run fun s e t => markdownStep (markdownSettings false vim spaceIndent language) s e = some t

end

end Ferrowl.Ui
