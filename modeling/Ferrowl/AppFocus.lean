import Ferrowl.App
import Ferrowl.RunTrace
/-!
# AppFocus — keyboard focus and the active tab

Every tab stores whether it holds the keyboard focus.  The tabs are in order when the active tab holds it while the content panes
have the focus, and no tab does while the command line or a dialog has it.
-/
namespace Ferrowl.Tui

open List Option

open Ui (KeyModifiers KeyCode EventResult)

variable {X : Views} {D : Dialogs X}

/-! ## The focus flags of a tab list -/

namespace Shell

def flags (s : Shell X) : List Bool :=
  s.titles.map (·.viewFocused)

/-- With `on`, the active tab is focused and no other; without, none is. -/
def FocusOn (on : Bool) (s : Shell X) : Prop :=
  ∀ i b, s.flags[i]? = some b → (b = true ↔ on = true ∧ i = s.selectedIndex)

theorem length_flags (s : Shell X) : s.flags.length = s.titles.length := by
  rw [flags, length_map]

variable {on : Bool} {s : Shell X}

theorem FocusOn.of_flags {t : Shell X} (h : s.FocusOn on) (hflags : t.flags = s.flags)
    (hactive : t.active = s.active) : t.FocusOn on := by
  have hlen : t.titles.length = s.titles.length := by rw [← length_flags, ← length_flags, hflags]
  have hsel : t.selectedIndex = s.selectedIndex := by rw [selectedIndex, selectedIndex, hlen, hactive]
  intro i b hb
  rw [hflags] at hb
  rw [hsel]
  exact h i b hb

theorem focusOn_false_iff : s.FocusOn false ↔ ∀ b ∈ s.flags, b = false := by
  constructor
  · intro h b hb
    obtain ⟨i, hi⟩ := mem_iff_getElem?.1 hb
    by_contra hne
    exact Bool.false_ne_true ((h i b hi).1 (Bool.not_eq_false _ ▸ hne)).1
  · intro h i b hb
    rw [h b (mem_of_getElem? hb)]
    simp

theorem FocusOn.of_flags_false {t : Shell X} (h : s.FocusOn false) (hflags : t.flags = s.flags) : t.FocusOn false := by
  rw [focusOn_false_iff] at h ⊢
  rw [hflags]
  exact h

theorem flags_modifyActive (f : Tab X → Tab X) (s : Shell X) (b : Bool → Bool)
    (hf : ∀ t, (f t).viewFocused = b t.viewFocused) : (s.modifyActive f).flags = s.flags.modify s.selectedIndex b := by
  simp only [flags, modifyActive]
  apply List.ext_getElem?
  intro i
  simp only [List.getElem?_map, List.getElem?_modify]
  cases s.titles[i]? with
  | none => rfl
  | some t =>
    by_cases hi : s.selectedIndex = i
    · simp [hi, hf]
    · simp [hi]

theorem setFocused_viewFocused (on : Bool) (t : Tab X) : (t.setFocused on).viewFocused = on := by
  unfold Tab.setFocused
  cases on with
  | false => rfl
  | true =>
    cases ht : t.focus with
    | view => rfl
    | logView => rfl

theorem FocusOn.setContentFocus (h : s.FocusOn on) (on' : Bool) : (s.setContentFocus on').FocusOn on' := by
  have hflags := flags_modifyActive (Tab.setFocused on') s (fun _ => on') (fun t => setFocused_viewFocused on' t)
  have hsel : (s.setContentFocus on').selectedIndex = s.selectedIndex := by
    simp [Shell.setContentFocus, modifyActive, selectedIndex]
  intro i b hb
  rw [Shell.setContentFocus, hflags, List.getElem?_modify] at hb
  rw [hsel]
  by_cases hi : s.selectedIndex = i
  · obtain ⟨_, -, hb'⟩ := map_eq_some_iff.1 hb
    rw [if_pos hi] at hb'
    rw [← hb', hi, and_iff_left rfl]
  obtain ⟨c, hc, hb'⟩ := map_eq_some_iff.1 hb
  rw [if_neg hi] at hb'
  have hoff : ¬ c = true := fun hon => hi ((h i c hc).1 hon).2.symm
  rw [← hb']
  exact ⟨fun hon => absurd hon hoff, fun hon => absurd hon.2.symm hi⟩

theorem FocusOn.modifyActive (h : s.FocusOn on) {f : Tab X → Tab X}
    (hf : ∀ t, (f t).viewFocused = t.viewFocused) : (s.modifyActive f).FocusOn on := by
  refine h.of_flags ?_ rfl
  rw [flags_modifyActive f s id hf]
  exact modify_id _ _

theorem flags_rebuildRegistry (s : Shell X) : s.rebuildRegistry.flags = s.flags := by
  simp [flags, rebuildRegistry]

/-! ## Refreshes and new tabs -/

theorem sync_viewFocused (w : X.World) (t : Tab X) : (t.sync w).2.viewFocused = t.viewFocused := by
  simp only [Tab.sync, Tab.replaceView]
  split
  · split <;> rfl
  · rfl

theorem flags_synced (s : Shell X) (w : ℕ → X.World) : ((s.synced w).map (·.2)).map (·.viewFocused) = s.flags := by
  rw [synced, flags]
  apply ext_getElem
  · simp
  · intro i _ _
    simp [sync_viewFocused]

theorem resolveTab_viewFocused (t : Tab X) (resolved : String) : (resolveTab t resolved).1.viewFocused = t.viewFocused := by
  unfold resolveTab
  split <;> rfl

theorem flags_resolve (titles : List (Tab X)) :
    ((resolveDuplicateTabNames titles).map (·.1)).map (·.viewFocused) = titles.map (·.viewFocused) := by
  apply ext_getElem
  · simp [resolveDuplicateTabNames]
  · intro i _ _
    simp [resolveDuplicateTabNames, resolveTab_viewFocused]

theorem FocusOn.refreshSnapshot (h : s.FocusOn on) (w : ℕ → X.World) : (s.refreshSnapshot w).1.FocusOn on := by
  rw [Shell.refreshSnapshot]
  split
  · refine h.of_flags ?_ rfl
    rw [flags_rebuildRegistry, flags, flags_resolve, flags_synced]
  · exact h.of_flags (flags_synced s w) rfl

theorem FocusOn.createTab (h : s.FocusOn false) (w : X.World) (name : String) (view : X.View) :
    (s.createTab w name view).FocusOn false := by
  refine modifyActive ?_ (fun _ => rfl)
  rw [focusOn_false_iff, flags_rebuildRegistry] at *
  simp only [flags, selectIndex, map_append, forall_mem_append, map_cons, map_nil,
    forall_mem_singleton, Tab.newFromView, and_true]
  exact h

/-! ## The two commands that move tabs behind the focus -/

theorem selectedIndex_lt (h : 0 < s.titles.length) : s.selectedIndex < s.titles.length := by
  rw [selectedIndex]
  split
  · assumption
  · exact h

theorem not_focusOn_closeTab (h : s.FocusOn true) (hlen : 1 < s.titles.length) : ¬ s.closeTab.FocusOn true := by
  have hlt := selectedIndex_lt (Nat.lt_of_succ_lt hlen)
  have hflags : s.closeTab.flags = s.flags.eraseIdx s.selectedIndex := by
    rw [closeTab, flags_rebuildRegistry]
    simp only [flags, selectIndex, eraseIdx_map]
  have hcount : s.closeTab.titles.length = s.titles.length - 1 := by
    rw [← length_flags, hflags, length_eraseIdx_of_lt (by rwa [length_flags]), length_flags]
  intro hclosed
  have hsel := selectedIndex_lt (s := s.closeTab) (by omega)
  rw [← length_flags] at hsel
  -- the flag at the new active position is a flag of another position before
  obtain ⟨b, hb⟩ : ∃ b, s.closeTab.flags[s.closeTab.selectedIndex]? = some b := ⟨_, List.getElem?_eq_getElem hsel⟩
  have hon := (hclosed _ b hb).2 ⟨rfl, rfl⟩
  rw [hflags, List.getElem?_eraseIdx] at hb
  split at hb
  · next hi => exact absurd ((h _ b hb).1 hon).2 (Nat.ne_of_lt hi)
  · next hi => exact absurd ((h _ b hb).1 hon).2 (by omega)

theorem flags_swap {i j : ℕ} (hi : i < s.flags.length) (hj : j < s.flags.length) :
    (s.swap i j).flags = (s.flags.set i s.flags[j]).set j s.flags[i] := by
  have hi' : i < s.titles.length := by rwa [length_flags] at hi
  have hj' : j < s.titles.length := by rwa [length_flags] at hj
  simp only [swap, List.getElem?_eq_getElem hi', List.getElem?_eq_getElem hj']
  split
  · simp [flags]
  · next h =>
    cases not_not.1 h
    rw [set_set, set_getElem_self]

theorem swap_active (s : Shell X) (i j : ℕ) : (s.swap i j).active = s.active := by
  simp only [swap]
  split
  · split <;> rfl
  · rfl

theorem swap_eq_self {i j : ℕ} (h : i = j ∨ s.titles.length ≤ i ∨ s.titles.length ≤ j) : s.swap i j = s := by
  rcases h with rfl | h | h
  · simp only [swap]
    split
    · rw [if_neg (not_not.2 rfl)]
    · rfl
  · simp only [swap, List.getElem?_eq_none h]
  · simp only [swap, List.getElem?_eq_none h]
    split <;> simp_all

def Aside (s : Shell X) (i j : ℕ) : Prop :=
  i = j ∨ s.titles.length ≤ i ∨ s.titles.length ≤ j ∨ (i ≠ s.selectedIndex ∧ j ≠ s.selectedIndex)

theorem focusOn_swap_iff (h : s.FocusOn true) (i j : ℕ) : (s.swap i j).FocusOn true ↔ s.Aside i j := by
  by_cases hself : i = j ∨ s.titles.length ≤ i ∨ s.titles.length ≤ j
  · rw [swap_eq_self hself]
    exact iff_of_true h (by unfold Aside; tauto)
  push Not at hself
  obtain ⟨hij, hi, hj⟩ := hself
  rw [← length_flags] at hi hj
  have hflags := flags_swap hi hj
  have hsel : (s.swap i j).selectedIndex = s.selectedIndex := by
    rw [selectedIndex, selectedIndex, swap_active, ← length_flags, ← length_flags, hflags, length_set, length_set]
  have hflag : ∀ k (hk : k < s.flags.length), s.flags[k] = true ↔ k = s.selectedIndex := by
    intro k hk
    rw [h k _ (List.getElem?_eq_getElem hk), and_iff_right rfl]
  have hAside : s.Aside i j ↔ i ≠ s.selectedIndex ∧ j ≠ s.selectedIndex := by
    rw [length_flags] at hi hj
    unfold Aside
    constructor
    · rintro (h | h | h | h)
      · exact absurd h hij
      · omega
      · omega
      · exact h
    · exact fun h => Or.inr (Or.inr (Or.inr h))
  rw [hAside]
  constructor
  · -- had the swap touched the active position, the flag that came there would be set
    intro hswap
    constructor
    · intro hi'
      have hcame := (hswap i s.flags[j] (by rw [hflags, List.getElem?_set_ne (Ne.symm hij), List.getElem?_set_self hi])).2
        ⟨rfl, by rw [hsel, hi']⟩
      exact hij (hi'.trans ((hflag j hj).1 hcame).symm)
    intro hj'
    have hcame := (hswap j s.flags[i] (by rw [hflags, List.getElem?_set_self (by rwa [length_set])])).2
      ⟨rfl, by rw [hsel, hj']⟩
    exact hij (((hflag i hi).1 hcame).trans hj'.symm)
  rintro ⟨hi', hj'⟩ k b hb
  rw [hflags] at hb
  rw [hsel, and_iff_right rfl]
  by_cases hkj : k = j
  · subst hkj
    rw [List.getElem?_set_self (by rwa [length_set])] at hb
    cases hb
    exact ⟨fun hon => absurd ((hflag i hi).1 hon) hi', fun hk => absurd hk hj'⟩
  by_cases hki : k = i
  · subst hki
    rw [List.getElem?_set_ne (Ne.symm hkj), List.getElem?_set_self hi] at hb
    cases hb
    exact ⟨fun hon => absurd ((hflag j hj).1 hon) hj', fun hk => absurd hk hi'⟩
  · rw [List.getElem?_set_ne (Ne.symm hkj), List.getElem?_set_ne (Ne.symm hki)] at hb
    rw [h k b hb, and_iff_right rfl]

theorem aside_setContentFocus (on : Bool) (s : Shell X) (i j : ℕ) : (s.setContentFocus on).Aside i j ↔ s.Aside i j := by
  have hlen : (s.setContentFocus on).titles.length = s.titles.length := length_modify _ _ _
  rw [Aside, Aside, selectedIndex, selectedIndex, hlen]
  rfl

end Shell

namespace App

/-! ## What keeps the order -/

/-- The active tab holds the focus exactly while the content panes do, and no other tab holds it. -/
def InOrder (a : App D) : Prop :=
  a.shell.FocusOn (decide (a.focus = .content))

variable {a : App D}

theorem InOrder.focusOn_true (h : a.InOrder) (hf : a.focus = .content) : a.shell.FocusOn true := by
  rw [InOrder, hf] at h
  exact h

theorem InOrder.focusOn_false (h : a.InOrder) (hf : a.focus ≠ .content) : a.shell.FocusOn false := by
  rw [InOrder, decide_eq_false hf] at h
  exact h

theorem inOrder_of_content (h : a.shell.FocusOn true) (hf : a.focus = .content) : a.InOrder := by
  rw [InOrder, hf]
  exact h

theorem inOrder_of_not_content (h : a.shell.FocusOn false) (hf : a.focus ≠ .content) : a.InOrder := by
  rw [InOrder, decide_eq_false hf]
  exact h

namespace InOrder

theorem moveTab (h : a.InOrder) {move : Shell X → Shell X}
    (hmove : ∀ s, (move s).flags = s.flags) : (a.moveTab move).InOrder :=
  ((h.setContentFocus false).of_flags_false (hmove _)).setContentFocus _

theorem nextTab (h : a.InOrder) : a.nextTab.InOrder := by
  rw [App.nextTab]
  split
  · exact h
  · exact h.moveTab (fun _ => rfl)

theorem prevTab (h : a.InOrder) : a.prevTab.InOrder := by
  rw [App.prevTab]
  split
  · exact h
  · exact h.moveTab (fun _ => rfl)

theorem switchTab (h : a.InOrder) (i : ℕ) : (a.switchTab i).InOrder := by
  rw [App.switchTab]
  split
  · exact h.moveTab (fun _ => rfl)
  · exact h

theorem commitDigit (h : a.InOrder) : a.commitDigit.InOrder := by
  rw [App.commitDigit]
  split
  · exact h.switchTab _
  · exact h

theorem expirePendingTabDigit (h : a.InOrder) (now : ℕ) : (a.expirePendingTabDigit now).InOrder := by
  rw [App.expirePendingTabDigit]
  split
  · split
    · exact switchTab (a := { a with keymode := none }) h _
    · exact h
  · exact h

theorem togglePane (h : a.InOrder) : a.togglePane.InOrder := by
  refine Shell.FocusOn.modifyActive h (fun t => ?_)
  unfold Tab.focusNext
  cases t.focus with
  | view => rfl
  | logView => rfl

theorem forwardNav (h : a.InOrder) (w : X.World) (m : KeyModifiers) (code : KeyCode) :
    (a.forwardNav w m code).InOrder := by
  rw [App.forwardNav]
  split
  · refine Shell.FocusOn.modifyActive h (fun t => ?_)
    split <;> rfl
  · exact h

theorem handleArrow (h : a.InOrder) (code : KeyCode) : (a.handleArrow code).InOrder := by
  simp only [App.handleArrow]
  split
  · exact h.commitDigit.nextTab
  · exact h.commitDigit.prevTab
  · exact h.commitDigit.togglePane

theorem handleFirstDigit (h : a.InOrder) (now d : ℕ) : (a.handleFirstDigit now d).InOrder := by
  rw [App.handleFirstDigit]
  split
  · exact h
  · exact switchTab (a := { a with keymode := none }) h _
  · exact h

theorem handleSecondDigit (h : a.InOrder) (first d : ℕ) : (a.handleSecondDigit first d).InOrder := by
  rw [App.handleSecondDigit]
  split
  · exact switchTab (a := { a with keymode := none }) h _
  · exact h

theorem enterCommand (h : a.InOrder) : a.enterCommand.InOrder :=
  inOrder_of_not_content (h.setContentFocus false) Focus.noConfusion

theorem handleNavKey (h : a.InOrder) (now : ℕ) (w : X.World) (m : KeyModifiers)
    (code : KeyCode) : (a.handleNavKey now w m code).InOrder := by
  have hforward : (a.commitDigit.forwardNav w m code).InOrder := h.commitDigit.forwardNav w m code
  have hnone : InOrder { a with keymode := none } := h
  rw [App.handleNavKey]
  split
  · rw [App.handleHelpKey]
    split
    · exact h
    · exact h
  split
  · exact h.handleArrow code
  cases hmode : a.keymode with
  | none =>
    dsimp only
    split
    · exact h
    split
    · exact h
    split
    · exact h.enterCommand
    split
    · exact h
    · exact hforward
  | some mode =>
    cases mode with
    | ctrlWin =>
      dsimp only
      split
      · exact hnone.togglePane
      · exact hforward
    | ctrlTab =>
      dsimp only
      split
      · exact hnone.nextTab
      split
      · exact hnone.prevTab
      split
      · exact h.handleFirstDigit now _
      · exact hforward
    | tabDigit first deadline =>
      dsimp only
      split
      · exact h.handleSecondDigit first _
      · exact hforward

end InOrder

/-! ## Dialogs -/

theorem inOrder_setContentFocus {on : Bool} (h : a.shell.FocusOn on) (hf : a.focus = .content) :
    (a.setContentFocus true).InOrder :=
  inOrder_of_content (h.setContentFocus true) hf

theorem inOrder_closeOverlay {on : Bool} (h : a.shell.FocusOn on) : a.closeOverlay.InOrder :=
  inOrder_setContentFocus (a := { a with overlay := none, focus := .content }) h rfl

namespace InOrder

theorem enterDialog (h : a.InOrder) (overlay : Overlay D) : (a.enterDialog overlay).InOrder :=
  inOrder_of_not_content (h.setContentFocus false) Focus.noConfusion

theorem enterClone (h : a.InOrder) : a.enterClone.InOrder := by
  rw [App.enterClone]
  split
  · exact h
  · exact h.enterDialog _

theorem enterSession (h : a.InOrder) : a.enterSession.InOrder :=
  inOrder_of_not_content (h.setContentFocus false) Focus.noConfusion

theorem confirmOverlay (h : a.InOrder) (hf : a.focus ≠ .content) (w : X.World) : (a.confirmOverlay w).InOrder := by
  rw [App.confirmOverlay]
  split
  · exact h
  · split
    · split
      · exact h
      · exact inOrder_closeOverlay ((h.focusOn_false hf).createTab w _ _)
    · exact h
  · exact h

theorem cycleOverlay (h : a.InOrder) (f : D.Setup → D.Setup) : (a.cycleOverlay f).InOrder := by
  rw [App.cycleOverlay]
  split
  · exact h
  · exact h

theorem handleUnhandled (h : a.InOrder) (hf : a.focus ≠ .content) (w : X.World)
    (m : KeyModifiers) (code : KeyCode) : (a.handleUnhandled w m code).InOrder := by
  rw [App.handleUnhandled]
  split
  · exact h.confirmOverlay hf w
  split
  · exact h.cycleOverlay _
  split
  · exact h.cycleOverlay _
  · exact h

theorem handleResult (h : a.InOrder) (hf : a.focus ≠ .content) (w : X.World)
    (result : EventResult) : (a.handleResult w result).InOrder := by
  cases result with
  | consumed => exact h
  | unhandled m code => exact h.handleUnhandled hf w m code

theorem offerKey (h : a.InOrder) (m : KeyModifiers) (code : KeyCode) :
    (a.offerKey m code).2.InOrder ∧ (a.offerKey m code).2.focus = a.focus := by
  rw [App.offerKey]
  split
  · exact ⟨h, rfl⟩
  · exact ⟨h, rfl⟩
  · exact ⟨h, rfl⟩

theorem closeRequested (h : a.InOrder) : a.closeRequested.2.InOrder := by
  rw [App.closeRequested]
  split
  · exact h
  · exact h
  · exact h

theorem handleDialogKey (h : a.InOrder) (hf : a.focus ≠ .content) (w : X.World)
    (m : KeyModifiers) (code : KeyCode) : (a.handleDialogKey w m code).InOrder := by
  obtain ⟨hoffer, hfocus⟩ := h.offerKey m code
  rw [← hfocus] at hf
  have hclose := (hoffer.handleResult hf w (a.offerKey m code).1).closeRequested
  simp only [App.handleDialogKey]
  split
  · exact inOrder_closeOverlay hclose
  · exact hclose

theorem handleSessionDialogKey (h : a.InOrder) (m : KeyModifiers) (code : KeyCode)
    (dialog : D.SessionDialog) : (a.handleSessionDialogKey m code dialog).InOrder := by
  rw [App.handleSessionDialogKey]
  dsimp only
  split
  · exact inOrder_setContentFocus (a := { a with sessionDialog := none, sessionScripts := _, focus := .content }) h rfl
  · exact h

end InOrder

/-! ## Commands -/

theorem InOrder.exitCommand (h : a.InOrder) : a.exitCommand.InOrder :=
  inOrder_setContentFocus (a := { a with command := D.emptyLine false, focus := .content }) h rfl

theorem InOrder.command (h : a.InOrder) (w : X.World) (text : String) : InOrder { a with shell := a.shell.command w text } :=
  Shell.FocusOn.modifyActive h (fun _ => rfl)

theorem InOrder.copyScripts (h : a.InOrder) (i : Option ℕ) : (a.copyScripts i).InOrder := by
  rw [App.copyScripts]
  split
  · exact Shell.FocusOn.modifyActive h (fun _ => rfl)
  · exact h

/-- The command leaves the active tab at its place: it does not close one of several tabs, and it swaps only others. -/
def KeepsActive (a : App D) : Cmd → Prop
  | .quit => a.shell.titles.length ≤ 1
  | .swap i j => a.shell.Aside i j
  | _ => True

theorem inOrder_runCommand_iff {b : App D} (h : a.InOrder) (hf : a.focus = .content) {w : X.World}
    {text : String} (hrun : a.runCommand w text = some b) : b.InOrder ↔ a.KeepsActive (Cmd.parse text) := by
  unfold App.runCommand at hrun
  cases hcmd : Cmd.parse text with
  | quit =>
    simp only [hcmd] at hrun
    split at hrun
    · exact nomatch hrun
    next hlen =>
    cases hrun
    refine iff_of_false (fun hb => ?_) hlen
    exact Shell.not_focusOn_closeTab (h.focusOn_true hf) (by omega) (hb.focusOn_true hf)
  | swap i j =>
    simp only [hcmd, Option.some.injEq] at hrun
    subst hrun
    rw [KeepsActive, ← Shell.focusOn_swap_iff (h.focusOn_true hf)]
    exact ⟨fun hb => hb.focusOn_true hf, fun hs => inOrder_of_content hs hf⟩
  | quitAll =>
    simp only [hcmd] at hrun
    exact nomatch hrun
  | log arg =>
    simp only [hcmd] at hrun
    refine iff_of_true ?_ trivial
    split at hrun
    · cases hrun
      exact h
    · cases hrun
      exact h.command w text
  | empty | write path =>
    simp only [hcmd, Option.some.injEq] at hrun
    exact iff_of_true (hrun ▸ h) trivial
  | new | load path =>
    simp only [hcmd, Option.some.injEq] at hrun
    exact iff_of_true (hrun ▸ h.enterDialog _) trivial
  | clone =>
    simp only [hcmd, Option.some.injEq] at hrun
    exact iff_of_true (hrun ▸ h.enterClone) trivial
  | session =>
    simp only [hcmd, Option.some.injEq] at hrun
    exact iff_of_true (hrun ▸ h.enterSession) trivial
  | scriptCopy i =>
    simp only [hcmd, Option.some.injEq] at hrun
    exact iff_of_true (hrun ▸ h.copyScripts i) trivial
  | unknown =>
    simp only [hcmd, Option.some.injEq] at hrun
    exact iff_of_true (hrun ▸ h.command w text) trivial

theorem keepsActive_exitCommand (a : App D) (c : Cmd) : a.exitCommand.KeepsActive c ↔ a.KeepsActive c := by
  cases c with
  | quit =>
    have hlen : a.exitCommand.shell.titles.length = a.shell.titles.length := length_modify _ _ _
    rw [KeepsActive, KeepsActive, hlen]
  | swap i j => exact Shell.aside_setContentFocus true a.shell i j
  | _ => exact Iff.rfl

/-! ## Runs -/

/-- The event submits no command that moves the active tab. -/
def Clear (a : App D) : Event X → Prop
  | .tick _ _ => True
  | .key _ _ _ code => a.focus = .command → code = .enter → a.KeepsActive (Cmd.parse a.submitted)

theorem clear_of_not_command (hf : a.focus ≠ .command) (e : Event X) : a.Clear e := by
  cases e with
  | tick now w => trivial
  | key now w m code =>
    rw [Clear]
    intro h
    exact (hf h).elim

theorem inOrder_handleCommandKey_iff {b : App D} (h : a.InOrder) {w : X.World} {m : KeyModifiers}
    {code : KeyCode} (hrun : a.handleCommandKey w m code = some b) :
    b.InOrder ↔ (code = .enter → a.KeepsActive (Cmd.parse a.submitted)) := by
  cases code with
  | enter =>
    have hsubmit : a.exitCommand.runCommand w a.submitted = some b := hrun
    have hkeeps := (inOrder_runCommand_iff h.exitCommand rfl hsubmit).trans (keepsActive_exitCommand a _)
    generalize a.KeepsActive (Cmd.parse a.submitted) = keeps at hkeeps ⊢
    exact hkeeps.trans ⟨fun hk _ => hk, fun hk => hk rfl⟩
  | esc =>
    cases hrun
    generalize a.KeepsActive (Cmd.parse a.submitted) = keeps
    exact iff_of_true h.exitCommand (fun hcode => nomatch hcode)
  | _ =>
    cases hrun
    generalize a.KeepsActive (Cmd.parse a.submitted) = keeps
    exact iff_of_true h (fun hcode => nomatch hcode)

/-- **One event** from an application in order leaves it in order exactly when it moves no active tab. -/
theorem inOrder_step_iff {b : App D} {e : Event X} (h : a.InOrder) (hstep : a.step e = some b) : b.InOrder ↔ a.Clear e := by
  cases e with
  | tick now w =>
    cases hstep
    exact iff_of_true (Shell.FocusOn.refreshSnapshot (h.expirePendingTabDigit now) w) trivial
  | key now w m code =>
    simp only [step, handleKey] at hstep
    cases hf : a.focus with
    | command =>
      simp only [hf] at hstep
      rw [inOrder_handleCommandKey_iff h hstep, Clear, hf]
      generalize a.KeepsActive (Cmd.parse a.submitted) = keeps
      exact ⟨fun hk _ => hk, fun hk => hk rfl⟩
    | dialog =>
      simp only [hf] at hstep
      have hnot : a.focus ≠ .content := by rw [hf]; exact Focus.noConfusion
      refine iff_of_true ?_ (clear_of_not_command (by rw [hf]; exact Focus.noConfusion) _)
      split at hstep
      · cases hstep
        exact h.handleSessionDialogKey m code _
      · cases hstep
        exact h.handleDialogKey hnot w m code
    | content =>
      simp only [hf, Option.some.injEq] at hstep
      exact iff_of_true (hstep ▸ h.handleNavKey now w m code)
        (clear_of_not_command (by rw [hf]; exact Focus.noConfusion) _)

theorem inOrder_withScreen {titles : List (Tab X)} (h : ∀ t ∈ titles, t.viewFocused = false) (scripts : D.Scripts) :
    (withScreen (D := D) titles scripts).InOrder := by
  have hnone : Shell.FocusOn false { titles, active := 0, registry := fun _ => none } := by
    rw [Shell.focusOn_false_iff]
    intro b hb
    obtain ⟨t, ht, rfl⟩ := mem_map.1 hb
    exact h t ht
  have hfocused := hnone.setContentFocus (decide ((if titles.isEmpty then Focus.dialog else .content) = .content))
  rw [InOrder, withScreen]
  exact hfocused.of_flags (Shell.flags_rebuildRegistry _) rfl

/-- **Keyboard focus follows the active tab exactly as long as no command moves the active tab**: over every run of keys and
loop turns, from any list of new tabs. -/
theorem focus_follows_iff (titles : List (String × X.View)) (scripts : D.Scripts) (es : List (Event X)) (a : App D)
    (h : Run (fun a e b => App.step a e = some b) (withScreen (titles.map fun t => Tab.newFromView t.1 t.2) scripts) es a) :
    (∀ pre b, pre <+: es → Run (fun a e b => App.step a e = some b)
        (withScreen (titles.map fun t => Tab.newFromView t.1 t.2) scripts) pre b → b.InOrder) ↔
      ∀ pre e b, pre ++ [e] <+: es → Run (fun a e b => App.step a e = some b)
        (withScreen (titles.map fun t => Tab.newFromView t.1 t.2) scripts) pre b → b.Clear e := by
  have hstart : (withScreen (D := D) (titles.map fun t => Tab.newFromView t.1 t.2) scripts).InOrder := by
    refine inOrder_withScreen (fun t ht => ?_) scripts
    obtain ⟨_, -, rfl⟩ := mem_map.1 ht
    rfl
  refine (Run.forall_prefix_iff (I := fun _ => True) ?_ (fun _ _ _ _ _ _ _ => trivial)
    (fun b e c _ hb hstep => inOrder_step_iff hb hstep) h trivial hstart).1
  intro b e c d hc hd
  exact Option.some.inj (hc.symm.trans hd)

/-! ## Two tabs -/

def plainDialogs : Dialogs namedViews where
  Line := String
  emptyLine _ := ""
  lineInput := id
  lineKey _ code line := match code with
    | .char c => line.push c
    | _ => line
  TypeSelect := Unit
  newTypeSelect := ()
  typeSelectKey m code d := (.unhandled m code, d)
  takeCloseRequest d := (false, d)
  Setup := String
  newSetupView _ := "new"
  setupKey m code sv := (.unhandled m code, sv)
  setupFocusNext := id
  setupFocusPrevious := id
  confirm _ sv := some (sv, sv)
  closeRequested sv := (false, sv)
  cloneSetup _ name := name
  loadSetup _ := "load"
  Scripts := Unit
  SessionDialog := Unit
  newSessionDialog _ := ()
  sessionKey _ code d := (code = .esc, d)
  resolve := id

def meterAndPump : App plainDialogs :=
  withScreen ([("meter", "meter"), ("pump", "pump")].map fun t => Tab.newFromView (X := namedViews) t.1 t.2) ()

def press (m : KeyModifiers) (code : KeyCode) : Event namedViews :=
  .key 0 () m code

/-- The chord to the next tab is over, and the order was kept throughout. -/
theorem next_tab_in_order :
    (([press .CONTROL (.char 't'), press .NONE (.char 'l')].foldlM App.step meterAndPump).map (·.shell.selectedIndex)) = some 1 ∧
      ∀ pre b, pre <+: [press .CONTROL (.char 't'), press .NONE (.char 'l')] →
        Run (fun a e b => App.step a e = some b) meterAndPump pre b → b.InOrder := by
  refine ⟨by decide +kernel, ?_⟩
  refine (focus_follows_iff (D := plainDialogs) [("meter", "meter"), ("pump", "pump")] () _ _
    (Run.of_foldlM [press .CONTROL (.char 't'), press .NONE (.char 'l')] rfl)).2 ?_
  refine Run.forall_cons rfl (clear_of_not_command Focus.noConfusion _) ?_
  exact Run.forall_cons rfl (clear_of_not_command Focus.noConfusion _) Run.forall_nil

/-- **Closing the active tab loses the focus**: after `:q` the pump's tab is active and the content panes have the focus, but
the tab does not hold it. -/
theorem quit_loses_focus : ¬ ∀ pre b, pre <+: [press .NONE (.char ':'), press .NONE (.char 'q'), press .NONE .enter] →
    Run (fun a e b => App.step a e = some b) meterAndPump pre b → b.InOrder := by
  intro hall
  have hrun : ([press .NONE (.char ':'), press .NONE (.char 'q'), press .NONE .enter].foldlM App.step meterAndPump).map
      (fun b => (b.shell.flags, b.shell.selectedIndex, b.focus)) = some ([false], 0, .content) := by
    decide +kernel
  obtain ⟨b, hb, hfinal⟩ := map_eq_some_iff.1 hrun
  simp only [Prod.mk.injEq] at hfinal
  obtain ⟨hflags, hsel, hfocus⟩ := hfinal
  have horder := (hall _ b (prefix_refl _) (Run.of_foldlM _ hb)).focusOn_true hfocus
  have hactive := (horder 0 false (by rw [hflags]; rfl)).2 ⟨rfl, hsel.symm⟩
  exact Bool.false_ne_true hactive

end App
end Ferrowl.Tui
