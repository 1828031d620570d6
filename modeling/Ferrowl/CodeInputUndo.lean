import Ferrowl.CodeInputBlock
/-!
# CodeInputUndo — `u` takes an editing command back

The editor keeps one snapshot of its text and cursor.  An editing command takes it before its first change, and nothing up to the
command's end touches it; `u` then swaps it with what is there.
-/
namespace Ferrowl.Ui

open List Option

section
variable {R : TextRules} {cfg : CodeSettings R} {s t : CodeInputFieldState}

open CodeInputFieldState

variable {lines : List Line} {m : KeyModifiers} {code : KeyCode} {c : Char}

theorem Kept.trans {u : CodeInputFieldState} (h : Kept s t) (h' : Kept t u) : Kept s u :=
  ⟨h'.1.trans h.1, h'.2.trans h.2⟩

/-! ## Keys as commands -/

theorem handleReadonlyNav_char (hd : cfg.disabled = false) (hm : m ≠ .CONTROL) (c : Char) :
    handleReadonlyNav cfg s m (.char c) = some none := by
  unfold handleReadonlyNav
  split
  · rfl
  · simp [hd]

section
variable (hd : cfg.disabled = false) (hv : cfg.vim = true)
include hd hv

theorem editorStep_normal (hm : s.mode = .normal) (now : Nat) (hctrl : m ≠ .CONTROL) (c : Char) :
    editorStep cfg s (.key now m (.char c)) = (handleNormalKey cfg s m (.char c)).map (·.2) := by
  rw [editorStep, handleEvents, if_neg (by simp [hm]), handleReadonlyNav_char hd hctrl, bind_some]
  simp only [handleKey, hv, hm]
  rfl

theorem editorStep_command (hm : s.mode = .normal) (now : Nat) (hp : plain m = true)
    (hc : c ∈ ['x', 'p', 'P', 'u', 'i', 'a', 'I', 'A', 'o', 'O', 'v', 'V']) :
    editorStep cfg s (.key now m (.char c)) = normalCommand cfg s.cancelPendingChord m c := by
  have hctrl : m ≠ .CONTROL := by
    rintro rfl
    exact absurd hp (by decide)
  have hchord : c ∉ ['g', 'd', 'y'] := by
    intro h
    simp only [mem_cons, not_mem_nil, or_false] at h
    rcases h with rfl | rfl | rfl <;> exact absurd hc (by decide)
  have hmotion : ∀ s, charMotion cfg s c = some none := by
    intro s
    simp only [mem_cons, not_mem_nil, or_false] at hc
    rcases hc with rfl | rfl | rfl | rfl | rfl | rfl | rfl | rfl | rfl | rfl | rfl | rfl <;> rfl
  rw [editorStep_normal hd hv hm now hctrl, handleNormalKey, if_neg (fun h => hchord h.2), applyMotion, if_pos hp, hmotion,
    bind_some]
  simp only [hp, if_true, consumed, Option.map_map]
  exact Option.map_id'

def Presses (m : KeyModifiers) (c : Char) : Prop := plain m = true ∧ (m = .NONE ∨ c ∈ ['P', 'I', 'A', 'O'])

theorem editorStep_editCommand (hm : s.mode = .normal) (now : Nat) (hp : Presses m c)
    (hc : c ∈ ['x', 'p', 'P', 'u', 'i', 'a', 'I', 'A', 'o', 'O']) :
    editorStep cfg s (.key now m (.char c)) = editCommand cfg s.cancelPendingChord c := by
  have hvV : c ≠ 'v' ∧ c ≠ 'V' := by
    constructor <;> rintro rfl <;> exact absurd hc (by decide)
  rw [editorStep_command hd hv hm now hp.1 (by simp only [mem_cons] at hc ⊢; tauto)]
  rw [normalCommand, if_neg (fun h => hvV.1 h.2), if_neg hvV.2, if_pos ⟨by simp [hd], hp.2⟩]

theorem editorStep_startVisual (hm : s.mode = .normal) (now : Nat) (hc : m = .NONE ∧ c = 'v' ∨ plain m = true ∧ c = 'V') :
    ∃ lw, editorStep cfg s (.key now m (.char c)) = some (s.cancelPendingChord.startVisual lw) := by
  rcases hc with ⟨rfl, rfl⟩ | ⟨hp, rfl⟩
  · refine ⟨false, ?_⟩
    rw [editorStep_command hd hv hm now (by decide) (by decide)]
    rfl
  · refine ⟨true, ?_⟩
    rw [editorStep_command hd hv hm now hp (by decide), normalCommand, if_neg (fun h => absurd h.2 (by decide)), if_pos rfl]

theorem editorStep_d (hm : s.mode = .normal) (now : Nat) :
    editorStep cfg s (.key now .NONE (.char 'd')) =
      if s.pending = some 'd' then deleteCurrentLine cfg s.cancelPendingChord else some { s with pending := some 'd' } := by
  rw [editorStep_normal hd hv hm now (by decide), handleNormalKey, if_pos (by simp)]
  simp only [consumed, Option.map_map]
  rw [show ((fun x : EventResult × CodeInputFieldState => x.2) ∘ Prod.mk EventResult.consumed) = id from rfl, Option.map_id_fun]
  rfl

theorem editorStep_deleteSelection {lw : Bool} (hm : s.mode = .visual lw) (now : Nat) (hc : c ∈ ['d', 'x']) :
    editorStep cfg s (.key now .NONE (.char c)) = deleteSelection cfg s.cancelPendingChord := by
  have hother : c ≠ 'g' ∧ c ≠ 'v' ∧ c ≠ 'V' ∧ c ≠ 'y' := by
    refine ⟨?_, ?_, ?_, ?_⟩ <;> rintro rfl <;> exact absurd hc (by decide)
  rw [editorStep, handleEvents, if_neg (by simp [hm]), handleReadonlyNav_char hd (by decide), bind_some]
  simp only [handleKey, hv, hm, handleVisualKey, visualCommand]
  rw [if_neg (by simp), if_neg (fun h => hother.1 (KeyCode.char.inj h.2)), if_neg (fun h => hother.2.1 h.2),
    if_neg (fun h => hother.2.2.1 h.2), if_neg (fun h => hother.2.2.2 h.2), if_pos ⟨trivial, hc⟩]
  cases deleteSelection cfg s.cancelPendingChord with
  | none => rfl
  | some t => rfl

/-! ## Undo -/

theorem editorStep_u (h : Sound cfg s) (hm : s.mode = .normal) (n : Nat) :
    ∃ v, editorStep cfg s (.key n .NONE (.char 'u')) = some v ∧ Sound cfg v ∧ v.mode = .normal ∧
      (s.undo = none → v = s.cancelPendingChord) ∧ ∀ u, s.undo = some u →
        v.lines = u.1 ∧ v.activeLine = u.2.1 ∧ Taken s v ∧ (OnCharacter u.1 u.2 → v.cursorCol = u.2.2) := by
  obtain ⟨v, hundo, hsound, hmode, -, hnone, hsome⟩ := undoOnce_returns (h.pending none) (.of_normal hm)
  have hstep := editorStep_editCommand (c := 'u') hd hv hm n ⟨rfl, .inl rfl⟩ (by decide)
  exact ⟨v, hstep.trans hundo, hsound, hmode.trans hm, hnone, hsome⟩

theorem undo_twice (h : Sound cfg s) (hm : s.mode = .normal) (n₁ n₂ : Nat) :
    ∃ v w, editorStep cfg s (.key n₁ .NONE (.char 'u')) = some v ∧ editorStep cfg v (.key n₂ .NONE (.char 'u')) = some w ∧
      w.lines = s.lines ∧ ∀ u, s.undo = some u → v.lines = u.1 ∧ v.activeLine = u.2.1 ∧
        (OnCharacter u.1 u.2 → v.cursorCol = u.2.2) := by
  obtain ⟨v, hv1, hsound, hvm, hnone, hsome⟩ := editorStep_u hd hv h hm n₁
  obtain ⟨w, hw, -, -, hnone', hsome'⟩ := editorStep_u hd hv hsound hvm n₂
  refine ⟨v, w, hv1, hw, ?_, fun u hu => ⟨(hsome u hu).1, (hsome u hu).2.1, (hsome u hu).2.2.2⟩⟩
  cases hundo : s.undo with
  | none =>
    rw [hnone' (by rw [hnone hundo]; exact hundo), hnone hundo]
    rfl
  | some u => exact (hsome' _ (hsome u hundo).2.2.1).1

end

/-- The keys of an editing command given in a state: those before the one that takes the snapshot, that key, and those after
it.  A `d` that is waiting already makes the next one a `dd`. -/
inductive EditCommand (s : CodeInputFieldState) : List EditorEvent → EditorEvent → List EditorEvent → Prop where
  | change {n : Nat} {m : KeyModifiers} {c : Char} (hp : Presses m c) (hc : c ∈ ['x', 'p', 'P']) :
    EditCommand s [] (.key n m (.char c)) []
  | line (hp : s.pending ≠ some 'd') (n₁ n₂ : Nat) :
    EditCommand s [.key n₁ .NONE (.char 'd')] (.key n₂ .NONE (.char 'd')) []
  | waitingLine (hp : s.pending = some 'd') (n : Nat) : EditCommand s [] (.key n .NONE (.char 'd')) []
  | selection {n₁ n₂ : Nat} {m : KeyModifiers} {c c' : Char} {keys : List EditorEvent}
    (hc : m = .NONE ∧ c = 'v' ∨ plain m = true ∧ c = 'V')
    (hkeys : ∀ e ∈ keys, ∃ now m code, e = .key now m code ∧ ¬ EndsVisual m code) (hc' : c' ∈ ['d', 'x']) :
    EditCommand s (.key n₁ m (.char c) :: keys) (.key n₂ .NONE (.char c')) []
  | insertion {n n' : Nat} {m : KeyModifiers} {c : Char} {keys : List EditorEvent} (hp : Presses m c)
    (hc : c ∈ ['i', 'a', 'I', 'A', 'o', 'O'])
    (hkeys : ∀ e ∈ keys, ∃ now m code, e = .key now m code ∧ ¬ (m = .NONE ∧ code = .esc)) :
    EditCommand s [] (.key n m (.char c)) (keys ++ [.key n' .NONE .esc])

/-- The key takes a snapshot: not `x` on an empty line, nor `p` and `P` with an empty register. -/
def TakesSnapshot (s : CodeInputFieldState) : EditorEvent → Prop
  | .key _ _ (.char 'x') => s.mode = .normal → s.activeText? ≠ some []
  | .key _ _ (.char 'p') | .key _ _ (.char 'P') => s.register ≠ none
  | _ => True

section
variable (hd : cfg.disabled = false)
include hd

theorem Sound.goes_on (h : Sound cfg s) (es : List EditorEvent) : ∃ u, EditorRun cfg s es u ∧ Sound cfg u := by
  induction es using List.reverseRecOn with
  | nil => exact ⟨s, Run.nil, h⟩
  | append_singleton es e ih =>
    obtain ⟨t, ht, hsound⟩ := ih
    obtain ⟨u, hu, hu'⟩ := editorStep_returns hsound e (hsound.keepsToLine (.inl hd) e)
    exact ⟨u, ht.snoc hu, hu'⟩

variable {keys : List EditorEvent}

variable (hv : cfg.vim = true)
include hv

theorem selecting_run (hkeys : ∀ e ∈ keys, ∃ now m code, e = .key now m code ∧ ¬ EndsVisual m code)
    (h : Sound cfg s) (hsel : Selecting lines s) (hb : OnBlock s) (hr : EditorRun cfg s keys t) :
    Sound cfg t ∧ Selecting lines t ∧ OnBlock t := by
  refine Run.invariant_of_steps (I := fun t => Sound cfg t ∧ Selecting lines t ∧ OnBlock t) (C := fun _ e => e ∈ keys)
    ?_ hr (fun pre e _ hp _ => hp.subset (by simp)) ⟨h, hsel, hb⟩
  rintro u e v ⟨hu, hselu, hbu⟩ he hs
  obtain ⟨now, m, code, rfl, hend⟩ := hkeys e he
  obtain ⟨r, hr, rfl⟩ := map_eq_some_iff.1 hs
  have hstep := (handleEvents_returns now hu m code fun _ => hu.col hd).ensures r hr
  obtain ⟨lw, hlw⟩ := hselu.2
  have hselv := hstep.selecting hv lw hlw hend
  obtain ⟨lw', hlw'⟩ := hselv.2
  exact ⟨hstep.sound, ⟨hselv.1.trans hselu.1, hselv.2⟩, hstep.block hd hv hbu.blocked (by simp [hlw'])⟩

theorem inserting_run (hkeys : ∀ e ∈ keys, ∃ now m code, e = .key now m code ∧ ¬ (m = .NONE ∧ code = .esc))
    (h : Sound cfg s) (hm : s.mode = .insert) (hr : EditorRun cfg s keys t) : Sound cfg t ∧ Kept s t := by
  refine Run.invariant_of_steps (I := fun t => Sound cfg t ∧ Kept s t) (C := fun _ e => e ∈ keys)
    ?_ hr (fun pre e _ hp _ => hp.subset (by simp)) ⟨h, rfl, rfl⟩
  rintro u e v ⟨hu, hkept⟩ he hs
  obtain ⟨now, m, code, rfl, hesc⟩ := hkeys e he
  obtain ⟨r, hr, rfl⟩ := map_eq_some_iff.1 hs
  have hstep := (handleEvents_returns now hu m code fun _ => hu.col hd).ensures r hr
  exact ⟨hstep.sound, hkept.trans (hstep.inserting hv (hkept.2.trans hm) hesc)⟩

omit hd in
theorem editorStep_esc (hm : s.mode = .insert) (now : Nat) : editorStep cfg s (.key now .NONE .esc) = s.insertEsc := by
  rw [editorStep, handleEvents, if_pos hm]
  simp only [handleKey, hv, hm, handleInsertKey]
  rw [if_neg (by simp), if_pos ⟨trivial, trivial⟩]
  simp only [consumed, Option.map_map]
  exact Option.map_id'

/-- What an editing command does: the state its snapshot is of, and the state it ends in. -/
structure Commanded (cfg : CodeSettings R) (s : CodeInputFieldState) (lead : List EditorEvent) (e : EditorEvent)
    (tail : List EditorEvent) (snap t : CodeInputFieldState) : Prop where
  lead : EditorRun cfg s lead snap
  run : ∃ mid, editorStep cfg snap e = some mid ∧ EditorRun cfg mid tail t
  lines : snap.lines = s.lines
  block : OnBlock snap
  sound : Sound cfg t
  mode : t.mode = .normal
  taken : TakesSnapshot snap e → Taken snap t
  idle : ¬ TakesSnapshot snap e → t = snap.cancelPendingChord

variable (h : Sound cfg s) (hb : OnBlock s)
include h hb

omit hd hv h in
theorem commanded_key {e : EditorEvent} (hstep : Returns (editorStep cfg s e) fun t => Sound cfg t ∧ t.mode = .normal ∧
      (TakesSnapshot s e → Taken s t) ∧ (¬ TakesSnapshot s e → t = s.cancelPendingChord)) : ∃ t, Commanded cfg s [] e [] s t := by
  obtain ⟨t, ht, hsound, hmode, htaken, hidle⟩ := hstep
  exact ⟨t, Run.nil, ⟨t, ht, Run.nil⟩, rfl, hb, hsound, hmode, htaken, hidle⟩

variable (hm : s.mode = .normal)
include hm

theorem change_commanded {n : Nat} (hp : Presses m c)
    (hc : c ∈ ['x', 'p', 'P']) : ∃ t, Commanded cfg s [] (.key n m (.char c)) [] s t := by
  have hc' : Sound cfg s.cancelPendingChord := h.pending none
  have hme : Editing s.cancelPendingChord := .of_normal hm
  -- the command does nothing exactly when it takes no snapshot
  have hedits : ∀ {x idle}, Returns x (EditsUnless cfg idle s.cancelPendingChord) →
      (TakesSnapshot s (.key n m (.char c)) ↔ ¬ idle) → Returns x fun t => Sound cfg t ∧ t.mode = .normal ∧
        (TakesSnapshot s (.key n m (.char c)) → Taken s t) ∧ (¬ TakesSnapshot s (.key n m (.char c)) → t = s.cancelPendingChord) :=
    fun hx htakes => hx.mono fun t ht => by
      by_cases hidle : TakesSnapshot s (.key n m (.char c))
      · have hchanged := ht.2 (htakes.1 hidle)
        exact ⟨hchanged.sound, hchanged.mode.trans hm, fun _ => hchanged.taken, fun hne => absurd hidle hne⟩
      · cases ht.1 (not_not.1 fun hne => hidle (htakes.2 hne))
        exact ⟨hc', hm, fun htake => absurd htake hidle, fun _ => rfl⟩
  refine commanded_key hb ?_
  rw [editorStep_editCommand hd hv hm n hp (by simp only [mem_cons, not_mem_nil, or_false] at hc ⊢; tauto)]
  simp only [mem_cons, not_mem_nil, or_false] at hc
  rcases hc with rfl | rfl | rfl
  · exact hedits (deleteChar_returns hc' hme) ⟨fun htake => htake hm, fun hne _ => hne⟩
  · exact hedits (paste_returns hc' hme hd true) Iff.rfl
  · exact hedits (paste_returns hc' hme hd false) Iff.rfl

theorem waitingLine_commanded (hp : s.pending = some 'd') (n : Nat) : ∃ t, Commanded cfg s [] (.key n .NONE (.char 'd')) [] s t := by
  refine commanded_key hb ?_
  rw [editorStep_d hd hv hm, if_pos hp]
  refine (deleteCurrentLine_returns (h.pending none) (.of_normal hm) hd).mono fun t ht => ?_
  exact ⟨ht.sound, ht.mode.trans hm, fun _ => ht.taken, fun hne => absurd trivial hne⟩

theorem line_commanded (hp : s.pending ≠ some 'd') (n₁ n₂ : Nat) :
    ∃ snap t, Commanded cfg s [.key n₁ .NONE (.char 'd')] (.key n₂ .NONE (.char 'd')) [] snap t := by
  have hfirst : editorStep cfg s (.key n₁ .NONE (.char 'd')) = some { s with pending := some 'd' } := by
    rw [editorStep_d hd hv hm, if_neg hp]
  have hsound := editorStep_sound h hfirst
  obtain ⟨t, ht⟩ := waitingLine_commanded (s := { s with pending := some 'd' }) hd hv hsound hb hm rfl n₂
  exact ⟨_, t, Run.cons hfirst Run.nil, ht.run, rfl, ht.block, ht.sound, ht.mode, ht.taken, ht.idle⟩

theorem selection_commanded {n₁ n₂ : Nat} {c' : Char} (hc : m = .NONE ∧ c = 'v' ∨ plain m = true ∧ c = 'V')
    (hkeys : ∀ e ∈ keys, ∃ now m code, e = .key now m code ∧ ¬ EndsVisual m code) (hc' : c' ∈ ['d', 'x']) :
    ∃ snap t, Commanded cfg s (.key n₁ m (.char c) :: keys) (.key n₂ .NONE (.char c')) [] snap t := by
  obtain ⟨lw, hstart⟩ := editorStep_startVisual hd hv hm n₁ hc
  have hsound := editorStep_sound h hstart
  obtain ⟨snap, hrun, -⟩ := hsound.goes_on hd keys
  have hvisual : Selecting s.lines (s.cancelPendingChord.startVisual lw) := ⟨rfl, lw, rfl⟩
  obtain ⟨hsnap, hsel, hblock⟩ := selecting_run hd hv hkeys hsound hvisual hb hrun
  obtain ⟨lw', hlw⟩ := hsel.2
  obtain ⟨t, hdel, hset, htaken⟩ := deleteSelection_returns (hsnap.pending none) hd hlw
  have ht := (editorStep_deleteSelection hd hv hlw n₂ hc').trans hdel
  refine ⟨snap, t, Run.cons hstart hrun, ⟨t, ht, Run.nil⟩, hsel.1, hblock, hset.sound, hset.mode, fun _ => htaken, fun hne => ?_⟩
  -- `x` takes the snapshot in Visual mode whatever the line
  refine absurd ?_ hne
  rcases mem_pair.1 hc' with rfl | rfl
  · trivial
  · exact fun hn => absurd (hlw.symm.trans hn) nofun

theorem insertion_commanded {n n' : Nat} (hp : Presses m c) (hc : c ∈ ['i', 'a', 'I', 'A', 'o', 'O'])
    (hkeys : ∀ e ∈ keys, ∃ now m code, e = .key now m code ∧ ¬ (m = .NONE ∧ code = .esc)) :
    ∃ t, Commanded cfg s [] (.key n m (.char c)) (keys ++ [.key n' .NONE .esc]) s t := by
  obtain ⟨mid, hcmd, hsound, htaken, hinsert⟩ := editCommand_inserts (h.pending none) (.of_normal hm) hv hd hc
  have hmid := (editorStep_editCommand hd hv hm n hp (by simp only [mem_cons, not_mem_nil, or_false] at hc ⊢; tauto)).trans hcmd
  obtain ⟨u, hrun, -⟩ := hsound.goes_on hd keys
  obtain ⟨hu, hkept⟩ := inserting_run hd hv hkeys hsound hinsert hrun
  obtain ⟨t, hesc, hset, hundo⟩ := insertEsc_returns hu
  have ht := (editorStep_esc hv (hkept.2.trans hinsert) n').trans hesc
  refine ⟨t, Run.nil, ⟨mid, hmid, hrun.snoc ht⟩, rfl, hb, hset.sound, hset.mode, fun _ => hundo.trans (hkept.1.trans htaken), ?_⟩
  intro hne
  refine absurd ?_ hne
  simp only [mem_cons, not_mem_nil, or_false] at hc
  rcases hc with rfl | rfl | rfl | rfl | rfl | rfl <;> trivial

theorem EditCommand.commanded {lead tail : List EditorEvent} {e : EditorEvent} (hc : EditCommand s lead e tail) :
    ∃ snap t, Commanded cfg s lead e tail snap t := by
  cases hc with
  | change hp hc => exact ⟨s, change_commanded hd hv h hb hm hp hc⟩
  | line hp n₁ n₂ => exact line_commanded hd hv h hb hm hp n₁ n₂
  | waitingLine hp n => exact ⟨s, waitingLine_commanded hd hv h hb hm hp n⟩
  | selection hc hkeys hc' => exact selection_commanded hd hv h hb hm hc hkeys hc'
  | insertion hp hc hkeys => exact ⟨s, insertion_commanded hd hv h hb hm hp hc hkeys⟩

end

/-- **Undo restores.** The `u` after an editing command brings back the text and the cursor the command's snapshot was taken of,
and another `u` the text the command left; a command that takes no snapshot does nothing. -/
theorem undo_restores (hd : cfg.disabled = false) (hv : cfg.vim = true) (h : Sound cfg s) (hm : s.mode = .normal)
    (hb : OnBlock s) {lead tail : List EditorEvent} {e : EditorEvent} (hc : EditCommand s lead e tail) (n₁ n₂ : Nat) :
    ∃ snap mid t v w, EditorRun cfg s lead snap ∧ editorStep cfg snap e = some mid ∧ EditorRun cfg mid tail t ∧
      editorStep cfg t (.key n₁ .NONE (.char 'u')) = some v ∧ editorStep cfg v (.key n₂ .NONE (.char 'u')) = some w ∧
      snap.lines = s.lines ∧ w.lines = t.lines ∧
      (TakesSnapshot snap e → v.lines = snap.lines ∧ v.activeLine = snap.activeLine ∧ v.cursorCol = snap.cursorCol) ∧
      (¬ TakesSnapshot snap e → t = snap.cancelPendingChord) := by
  obtain ⟨snap, t, hlead, ⟨mid, hmid, htail⟩, hlines, hblock, hsound, hmode, htaken, hidle⟩ := EditCommand.commanded hd hv h hb hm hc
  obtain ⟨v, w, hvs, hws, hback, hundo⟩ := undo_twice hd hv hsound hmode n₁ n₂
  refine ⟨snap, mid, t, v, w, hlead, hmid, htail, hvs, hws, hlines, hback, fun htake => ?_, hidle⟩
  obtain ⟨h1, h2, h3⟩ := hundo _ (htaken htake)
  exact ⟨h1, h2, h3 hblock⟩

/-- `o`, two characters with Enter between them, and Esc. -/
theorem undo_restores_opened_line :
    let s := CodeInputFieldState.ofLines ['a', 'b'] []
    ∃ mid t v w, editorStep codeEditor s (.key 0 .NONE (.char 'o')) = some mid ∧
      EditorRun codeEditor mid ([.key 1 .NONE (.char 'x'), .key 2 .NONE .enter, .key 3 .NONE (.char 'y')] ++
        [.key 4 .NONE .esc]) t ∧
      editorStep codeEditor t (.key 5 .NONE (.char 'u')) = some v ∧ editorStep codeEditor v (.key 6 .NONE (.char 'u')) = some w ∧
      v.lines = s.lines ∧ v.activeLine = s.activeLine ∧ v.cursorCol = s.cursorCol ∧ w.lines = t.lines := by
  intro s
  have hsound : Sound codeEditor s := ofLines_sound ['a', 'b'] []
  have hc : EditCommand s [] (.key 0 .NONE (.char 'o'))
      ([.key 1 .NONE (.char 'x'), .key 2 .NONE .enter, .key 3 .NONE (.char 'y')] ++ [.key 4 .NONE .esc]) := by
    refine .insertion ⟨rfl, .inl rfl⟩ (by decide) fun e he => ?_
    simp only [mem_cons, not_mem_nil, or_false] at he
    rcases he with rfl | rfl | rfl <;> exact ⟨_, _, _, rfl, by decide⟩
  obtain ⟨snap, mid, t, v, w, hlead, hmid, htail, hv, hw, -, hback, htake, -⟩ := undo_restores rfl rfl hsound rfl
    (onCharacter_zero (Nat.succ_pos _)) hc 5 6
  cases hlead.of_nil
  obtain ⟨h1, h2, h3⟩ := htake trivial
  exact ⟨mid, t, v, w, hmid, htail, hv, hw, h1, h2, h3, hback⟩

end

end Ferrowl.Ui
