import Ferrowl.CodeInputSafety
/-!
# CodeInputBlock — the block cursor of Normal mode

In Normal and Visual mode the cursor sits on a character, or on column 0 of an empty line.  Only a loss of focus takes Insert
mode to Normal mode as it is, unless the formatter changes the text.
-/
namespace Ferrowl.Ui

open Option

section
variable {R : TextRules} {cfg : CodeSettings R} {s t : CodeInputFieldState}

open CodeInputFieldState

theorem blocked_of_modes (hnormal : s.mode = .normal → OnBlock s) (hvisual : ∀ lw, s.mode = .visual lw → OnBlock s) :
    Blocked s := by
  intro hne
  cases hm : s.mode with
  | normal => exact hnormal hm
  | insert => exact absurd hm hne
  | visual lw => exact hvisual lw hm

/-- A blur out of Insert mode that the formatter leaves as it is finds the cursor on a character. -/
def BlursOnBlock (cfg : CodeSettings R) (s : CodeInputFieldState) : EditorEvent → Prop
  | .setFocused false => s.mode = .insert → (if s.focused then reformatted cfg s else none) = none → OnBlock s
  | _ => True

theorem setFocused_blocked (hv : cfg.vim = true) (h : Blocked s) (hsound : Sound cfg s) (focus : Bool)
    (hs : setFocused cfg s focus = some t) : (BlursOnBlock cfg s (.setFocused focus) → Blocked t) ∧
      (¬ BlursOnBlock cfg s (.setFocused focus) → t.mode = .normal ∧ ¬ OnBlock t) := by
  unfold setFocused formatOnBlur at hs
  cases focus with
  | true =>
    rw [Bool.not_true, Bool.and_false, if_neg (by simp)] at hs
    cases hs
    exact ⟨fun _ => h, fun hn => absurd trivial hn⟩
  | false =>
    rw [Bool.not_false, Bool.and_true] at hs
    cases hf : (if s.focused then reformatted cfg s else none) with
    | some text =>
      rw [hf] at hs
      obtain ⟨u, hu, rfl⟩ := map_eq_some_iff.1 hs
      have hon := ((setContent_returns hsound.toPlaced text).ensures u hu).2.2 hv
      refine ⟨fun _ => OnBlock.blocked hon, fun hn => absurd (fun _ hnone => ?_) hn⟩
      rw [hf] at hnone
      cases hnone
    | none =>
      rw [hf] at hs
      cases hs
      constructor
      · intro hblur _
        by_cases hm : s.mode = .insert
        · exact hblur hm hf
        · exact h hm
      · exact fun hn => ⟨rfl, fun hon => hn fun _ _ => hon⟩

theorem editorStep_blocked (hd : cfg.disabled = false) (hv : cfg.vim = true) (h : Blocked s) (hsound : Sound cfg s)
    {e : EditorEvent} (hs : editorStep cfg s e = some t) :
    (BlursOnBlock cfg s e → Blocked t) ∧ (¬ BlursOnBlock cfg s e → t.mode = .normal ∧ ¬ OnBlock t) := by
  cases e with
  | key now m code =>
    obtain ⟨r, hr, rfl⟩ := map_eq_some_iff.1 hs
    have hstep := (handleEvents_returns now hsound m code fun _ => hsound.col hd).ensures r hr
    exact ⟨fun _ => hstep.block hd hv h, fun hn => absurd trivial hn⟩
  | setContent text =>
    have hon := ((setContent_returns hsound.toPlaced text).ensures t hs).2.2 hv
    exact ⟨fun _ => hon.blocked, fun hn => absurd trivial hn⟩
  | setFocused focus => exact setFocused_blocked hv h hsound focus hs
  | rendered height width =>
    cases hs
    refine ⟨fun _ => ?_, fun hn => absurd trivial hn⟩
    have hsame : (s.rendered height width).lines = s.lines ∧ (s.rendered height width).activeLine = s.activeLine ∧
        (s.rendered height width).cursorCol = s.cursorCol ∧ (s.rendered height width).mode = s.mode := by
      unfold rendered
      dsimp only
      repeat' split
      all_goals exact ⟨rfl, rfl, rfl, rfl⟩
    obtain ⟨h1, h2, h3, h4⟩ := hsame
    unfold Blocked OnBlock
    rw [h1, h2, h3, h4]
    exact h

/-- **The block cursor of Normal mode** is on a character, or at 0 on an empty line, exactly when every loss of focus that
leaves Insert mode without the formatter changing the text finds the cursor so. -/
theorem block_cursor_iff (hd : cfg.disabled = false) (hv : cfg.vim = true) (first : Line) (rest : List Line)
    (es : List EditorEvent) : (∀ pre u, pre <+: es → EditorRun cfg (.ofLines first rest) pre u → u.mode = .normal → OnBlock u) ↔
      ∀ pre e u, pre ++ [e] <+: es → EditorRun cfg (.ofLines first rest) pre u → BlursOnBlock cfg u e := by
  have hgo : ∃ u, EditorRun cfg (.ofLines first rest) es u ∧ Sound cfg u := editor_goes_on (.inl hd) first rest es
  obtain ⟨u, hu, -⟩ := hgo
  have hstart : OnBlock (.ofLines first rest) := onCharacter_zero (Nat.succ_pos _)
  refine (Run.forall_prefix_iff (I := fun s => Sound cfg s ∧ ∀ lw, s.mode = .visual lw → OnBlock s)
    (P := fun s => s.mode = .normal → OnBlock s) (C := BlursOnBlock cfg)
    (fun t a u v hu hv => Option.some.inj (hu.symm.trans hv)) ?_ ?_ hu ⟨ofLines_sound first rest, nofun⟩ (fun _ => hstart)).1
  · rintro t e u ⟨ht, hvisual⟩ hnormal hs -
    refine ⟨editorStep_sound ht hs, fun lw hm => ?_⟩
    obtain ⟨hkeep, hloss⟩ := editorStep_blocked hd hv (blocked_of_modes hnormal hvisual) ht hs
    by_cases hblur : BlursOnBlock cfg t e
    · exact hkeep hblur (by simp [hm])
    · exact absurd (hloss hblur).1 (by simp [hm])
  rintro t e u ⟨ht, hvisual⟩ hnormal hs
  obtain ⟨hkeep, hloss⟩ := editorStep_blocked hd hv (blocked_of_modes hnormal hvisual) ht hs
  constructor
  · intro hon
    by_contra hblur
    exact (hloss hblur).2 (hon (hloss hblur).1)
  · exact fun hblur hm => hkeep hblur (by simp [hm])

def codeEditor : CodeSettings asciiRules where
  readonlyNav := true
  disabled := false
  vim := true
  spaceIndent := some 300
  language := none

/-- Text typed behind `A` and left with Esc. -/
theorem block_cursor_typed :
    let es := [EditorEvent.key 0 .SHIFT (.char 'A'), .key 1 .NONE (.char 'b'), .key 2 .NONE .esc, .setFocused false]
    codeEditor.disabled = false ∧ codeEditor.vim = true ∧
      ((∀ pre u, pre <+: es → EditorRun codeEditor (.ofLines ['a'] []) pre u → u.mode = .normal → OnBlock u) ↔
        ∀ pre e u, pre ++ [e] <+: es → EditorRun codeEditor (.ofLines ['a'] []) pre u → BlursOnBlock codeEditor u e) :=
  ⟨rfl, rfl, block_cursor_iff rfl rfl ['a'] [] _⟩

/-- **`A` and a loss of focus: the mode is Normal and the column behind the only character of the line.** -/
theorem blur_behind_the_line :
    ∃ u, EditorRun codeEditor (.ofLines ['a'] []) [.key 0 .SHIFT (.char 'A'), .setFocused false] u ∧ u.mode = .normal ∧
      u.lines = [['a']] ∧ u.activeLine = 0 ∧ u.cursorCol = 1 := by
  refine ⟨_, Run.of_foldlM (f := editorStep codeEditor) _ rfl, ?_⟩
  decide

end

end Ferrowl.Ui
