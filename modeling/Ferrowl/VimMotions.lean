import Ferrowl.Checked
/-!
# VimMotions — the word motions of the editor

`vim.rs`.  A word is a run of word characters or a run of punctuation; the motions walk over the lines a character at a time and
across their ends.  Each indexes the line it is on by the column it has reached: `w` and `e` ask first whether the column is past
the end, `b` does not.
-/
namespace Ferrowl.Ui

abbrev Line := List Char

/-- What the editor takes from elsewhere: the classes of `char`, and the block balance and the formatter of a language. -/
structure TextRules where
  isAlphanumeric : Char → Bool
  isWhitespace : Char → Bool
  Language : Type
  indentDelta : Language → Line → Int
  format : Language → Line → Option Line

inductive CharClass where
  | word
  | punct
  | space
  deriving DecidableEq, Repr

def TextRules.charClass (R : TextRules) (c : Char) : CharClass :=
  if R.isAlphanumeric c || c == '_' then .word else if R.isWhitespace c then .space else .punct

section
variable (R : TextRules)

def runLength (cls : CharClass) (chars : Line) : Nat := (chars.takeWhile fun c => R.charClass c == cls).length

/-- From a column to the next character that is no space, across the ends of lines, with whether there is one; an empty line
stops `w`, the end of the text stops both motions. -/
def seekForward (stopAtEmpty : Bool) (lines : List Line) (line col : Nat) : Option (Bool × Nat × Nat) :=
  match h : lines[line]? with
  | none => none
  | some chars =>
    if chars.length ≤ col then
      if lines.length ≤ line + 1 then some (false, line, chars.length - 1)
      else
        match lines[line + 1]? with
        | none => none
        | some next =>
          if stopAtEmpty && next.isEmpty then some (false, line + 1, 0) else seekForward stopAtEmpty lines (line + 1) 0
    else
      match chars[col]? with
      | none => none
      | some c => if R.charClass c ≠ .space then some (true, line, col) else seekForward stopAtEmpty lines line (col + 1)
termination_by (lines.length - line, (lines[line]?.getD []).length - col)
decreasing_by
  · have hlt := (List.getElem?_eq_some_iff.1 h).1
    exact Prod.Lex.left _ _ (Nat.sub_lt_sub_left hlt (Nat.lt_succ_self line))
  · refine Prod.Lex.right _ ?_
    rw [h, Option.getD_some]
    omega

def wordForward (lines : List Line) (line col : Nat) : Option (Nat × Nat) :=
  match lines[line]? with
  | none => none
  | some chars =>
    -- the run the cursor sits in is passed first
    let col := match chars[col]? with
      | some c => if R.charClass c ≠ .space then col + runLength R (R.charClass c) (chars.drop col) else col
      | none => col
    (seekForward R true lines line col).map (·.2)

def wordEndForward (lines : List Line) (line col : Nat) : Option (Nat × Nat) :=
  match seekForward R false lines line (col + 1) with
  | none => none
  | some (false, line, col) => some (line, col)
  | some (true, line, col) =>
    lines[line]?.bind fun chars => chars[col]?.map fun c =>
      (line, col + runLength R (R.charClass c) (chars.drop (col + 1)))

/-- From a column back to the character that is no space, with whether there is one; the start of the text and an empty line
stop the motion. -/
def seekBackward (lines : List Line) (line col : Nat) : Option (Bool × Nat × Nat) :=
  match line, col with
  | 0, 0 => some (false, 0, 0)
  | line + 1, 0 =>
    match lines[line]? with
    | none => none
    | some chars => if chars.isEmpty then some (false, line, 0) else seekBackward lines line chars.length
  | line, col + 1 =>
    match lines[line]? with
    | none => none
    | some chars =>
      match chars[col]? with
      | none => none
      | some c => if R.charClass c ≠ .space then some (true, line, col) else seekBackward lines line col
termination_by (line, col)

def wordBackward (lines : List Line) (line col : Nat) : Option (Nat × Nat) :=
  match seekBackward R lines line col with
  | none => none
  | some (false, line, col) => some (line, col)
  | some (true, line, col) =>
    lines[line]?.bind fun chars => chars[col]?.map fun c =>
      (line, col - runLength R (R.charClass c) (chars.take col).reverse)

end

/-! ## Where the motions end -/

def Inside (lines : List Line) (p : Nat × Nat) : Prop := ∃ chars, lines[p.1]? = some chars ∧ p.2 ≤ chars.length

def OnCharacter (lines : List Line) (p : Nat × Nat) : Prop :=
  ∃ chars, lines[p.1]? = some chars ∧ (p.2 < chars.length ∨ chars = [] ∧ p.2 = 0)

section
variable {R : TextRules} {lines : List Line} {line col : Nat}

theorem onCharacter_of_le {chars : Line} (hline : lines[line]? = some chars) (h : col ≤ chars.length - 1) :
    OnCharacter lines (line, col) := by
  refine ⟨chars, hline, ?_⟩
  cases chars with
  | nil => exact .inr ⟨rfl, Nat.le_zero.1 h⟩
  | cons c cs => exact .inl (Nat.lt_succ_of_le h)

theorem OnCharacter.inside {p : Nat × Nat} : OnCharacter lines p → Inside lines p
  | ⟨chars, hline, .inl hlt⟩ => ⟨chars, hline, Nat.le_of_lt hlt⟩
  | ⟨chars, hline, .inr h⟩ => ⟨chars, hline, h.2 ▸ Nat.zero_le _⟩

theorem OnCharacter.le {chars : Line} (h : OnCharacter lines (line, col)) (hline : lines[line]? = some chars) :
    col ≤ chars.length - 1 := by
  obtain ⟨cs, hcs, hlt | ⟨rfl, h0⟩⟩ := h
  · cases hline.symm.trans hcs
    exact Nat.le_sub_one_of_lt hlt
  · exact Nat.le_trans (Nat.le_of_eq h0) (Nat.zero_le _)

theorem OnCharacter.of_le (h : OnCharacter lines (line, col)) {col' : Nat} (hle : col' ≤ col) :
    OnCharacter lines (line, col') := by
  obtain ⟨chars, hline, -⟩ := id h
  exact onCharacter_of_le hline (Nat.le_trans hle (h.le hline))

theorem onCharacter_zero (h : line < lines.length) : OnCharacter lines (line, 0) :=
  onCharacter_of_le (List.getElem?_eq_getElem h) (Nat.zero_le _)

/-- What a search for a character finds lies in the text, and before the end of its line if it is a character. -/
def Found (lines : List Line) (p : Bool × Nat × Nat) : Prop :=
  ∃ chars, lines[p.2.1]? = some chars ∧ p.2.2 ≤ chars.length ∧ (p.1 = true → p.2.2 < chars.length)

theorem seekForward_returns (stopAtEmpty : Bool) (h : line < lines.length) :
    Returns (seekForward R stopAtEmpty lines line col) fun p => Found lines p ∧ OnCharacter lines p.2 := by
  fun_induction seekForward R stopAtEmpty lines line col with
  | case1 line col hnone => exact absurd h (by simpa using hnone)
  | case2 line col chars hline hpast hlast =>
    exact .some ⟨⟨chars, hline, Nat.sub_le _ _, nofun⟩, onCharacter_of_le hline (Nat.le_refl _)⟩
  | case3 line col chars hline hpast hmore hnone => exact absurd hnone (by simpa using hmore)
  | case4 line col chars hline hpast hmore next hnext hempty =>
    exact .some ⟨⟨next, hnext, Nat.zero_le _, nofun⟩, onCharacter_of_le hnext (Nat.zero_le _)⟩
  | case5 line col chars hline hpast hmore next hnext hempty ih => exact ih (by omega)
  | case6 line col chars hline hpast hnone => exact absurd hnone (by simpa using hpast)
  | case7 line col chars hline hpast c hc hspace =>
    have hlt := Nat.lt_of_not_le hpast
    exact .some ⟨⟨chars, hline, Nat.le_of_lt hlt, fun _ => hlt⟩, chars, hline, .inl hlt⟩
  | case8 line col chars hline hpast c hc hspace ih => exact ih h

theorem runLength_le (cls : CharClass) (chars : Line) : runLength R cls chars ≤ chars.length :=
  (List.takeWhile_sublist _).length_le

theorem wordForward_returns (h : line < lines.length) : Returns (wordForward R lines line col) (fun p => p.1 < lines.length) := by
  unfold wordForward
  rw [List.getElem?_eq_getElem h]
  refine (seekForward_returns true h).map fun p hp => ?_
  obtain ⟨chars, hchars, -⟩ := hp.1
  exact (List.getElem?_eq_some_iff.1 hchars).1

theorem wordEndForward_returns (h : line < lines.length) : Returns (wordEndForward R lines line col) (OnCharacter lines) := by
  obtain ⟨⟨found, l, c⟩, hseek, ⟨chars, hline, hle, hlt⟩, hon⟩ :=
    (seekForward_returns false h : Returns (seekForward R false lines line (col + 1)) _)
  unfold wordEndForward
  rw [hseek]
  cases found with
  | false => exact .some hon
  | true =>
    have hc := hlt rfl
    simp only at hline hc ⊢
    rw [hline, Option.bind_some, List.getElem?_eq_getElem hc, Option.map_some]
    have hrun := runLength_le (R := R) (R.charClass chars[c]) (chars.drop (c + 1))
    rw [List.length_drop] at hrun
    exact .some (onCharacter_of_le hline (by omega))

theorem seekBackward_returns (h : Inside lines (line, col)) :
    Returns (seekBackward R lines line col) fun p => Found lines p ∧ OnCharacter lines p.2 := by
  have hstart : ∀ {line : Nat} {chars : Line}, lines[line]? = some chars →
      Found lines (false, line, 0) ∧ OnCharacter lines (line, 0) := fun hline =>
    ⟨⟨_, hline, Nat.zero_le _, nofun⟩, onCharacter_of_le hline (Nat.zero_le _)⟩
  fun_induction seekBackward R lines line col with
  | case1 =>
    obtain ⟨chars, hline, -⟩ := h
    exact .some (hstart hline)
  | case2 line hnone =>
    obtain ⟨chars, hline, -⟩ := h
    have hlt := (List.getElem?_eq_some_iff.1 hline).1
    exact absurd hnone (by simp; omega)
  | case3 line chars hline hempty => exact .some (hstart hline)
  | case4 line chars hline hempty ih => exact ih ⟨chars, hline, Nat.le_refl _⟩
  | case5 line col hnone =>
    obtain ⟨chars, hline, -⟩ := h
    exact absurd (hnone.symm.trans hline) nofun
  | case6 line col chars hline hnone =>
    obtain ⟨chars', hline', hle⟩ := h
    cases hline.symm.trans hline'
    exact absurd (List.getElem?_eq_none_iff.1 hnone) (Nat.not_le.2 hle)
  | case7 line col chars hline c hc hspace =>
    have hlt := (List.getElem?_eq_some_iff.1 hc).1
    exact .some ⟨⟨chars, hline, Nat.le_of_lt hlt, fun _ => hlt⟩, chars, hline, .inl hlt⟩
  | case8 line col chars hline c hc hspace ih =>
    exact ih ⟨chars, hline, Nat.le_of_lt (List.getElem?_eq_some_iff.1 hc).1⟩

theorem wordBackward_returns (h : Inside lines (line, col)) : Returns (wordBackward R lines line col) (OnCharacter lines) := by
  obtain ⟨⟨found, l, c⟩, hseek, ⟨chars, hline, hle, hlt⟩, hon⟩ := seekBackward_returns (R := R) h
  unfold wordBackward
  rw [hseek]
  cases found with
  | false => exact .some hon
  | true =>
    have hc := hlt rfl
    simp only at hline hc ⊢
    rw [hline, Option.bind_some, List.getElem?_eq_getElem hc, Option.map_some]
    exact .some (hon.of_le (Nat.sub_le _ _))

theorem wordBackward_of_past {chars : Line} (hline : lines[line]? = some chars) (h : chars.length < col) :
    wordBackward R lines line col = none := by
  obtain ⟨c, rfl⟩ := Nat.exists_eq_succ_of_ne_zero (Nat.ne_of_gt (Nat.zero_lt_of_lt h))
  have hnone : chars[c]? = none := List.getElem?_eq_none (Nat.le_of_lt_succ h)
  unfold wordBackward
  rw [seekBackward, hline]
  simp only [hnone]

end

end Ferrowl.Ui
