import Ferrowl.Device
import Ferrowl.Shell
/-!
# App — key routing, the command line and the dialogs

`App` and everything a key press can reach in it: the content panes with their window and tab chords, the `:` command line with
the commands it parses, the creation dialogs and the session's script dialog.  The widgets stay abstract, as the views do: a
`Dialogs` is a table of what the application calls on them.
-/
namespace Ferrowl.Tui

open Ui (KeyModifiers KeyCode EventResult)
open Modbus (isWhitespace trim toDigit fromStrRadix)

/-! ## Commands -/

inductive Cmd where
  | empty
  | quit
  | quitAll
  | new
  | clone
  | load (path : Option String)
  | write (path : Option String)
  | log (arg : Option String)
  | swap (i j : ℕ)
  | session
  | scriptCopy (i : Option ℕ)
  | unknown
  deriving DecidableEq, Repr

def splitWhitespace (text : List Char) : List (List Char) :=
  (text.splitOnP isWhitespace).filter (fun word => !word.isEmpty)

def parseUsize (word : List Char) : Option ℕ :=
  ((fromStrRadix 10 word).map BitVec.toNat).filter (· < 2 ^ 64)

namespace Cmd

def ofWords : List String → Cmd
  | [] => .empty
  | name :: args =>
    if name = "q" ∨ name = "q!" ∨ name = "quit" then .quit
    else if name = "qa" ∨ name = "qa!" ∨ name = "qall" then .quitAll
    else if name = "n" ∨ name = "new" then .new
    else if name = "clone" then (match args with | [] => .clone | _ => .unknown)
    else if name = "l" ∨ name = "load" then .load args.head?
    else if name = "s" ∨ name = "save" ∨ name = "w" ∨ name = "write" then .write args.head?
    else if name = "log" then .log args.head?
    else if name = "swap" then
      match (args[0]?).bind (fun a => parseUsize a.toList), (args[1]?).bind (fun a => parseUsize a.toList) with
      | some i, some j => .swap i j
      | _, _ => .unknown
    else if name = "session" then .session
    else if name = "script" then
      if args.head? = some "copy" then .scriptCopy ((args[1]?).bind (fun a => parseUsize a.toList)) else .unknown
    else .unknown

def parse (text : String) : Cmd :=
  ofWords ((splitWhitespace text.toList).map String.ofList)

end Cmd

/-! ## The application -/

structure Dialogs (X : Views) where
  /-- The command line's input field. -/
  Line : Type
  /-- The cleared input field, with or without the focus. -/
  emptyLine : Bool → Line
  lineInput : Line → String
  lineKey : KeyModifiers → KeyCode → Line → Line
  /-- The module type selector of `:new`. -/
  TypeSelect : Type
  newTypeSelect : TypeSelect
  typeSelectKey : KeyModifiers → KeyCode → TypeSelect → EventResult × TypeSelect
  takeCloseRequest : TypeSelect → Bool × TypeSelect
  /-- The setup dialog of a module type. -/
  Setup : Type
  /-- A fresh setup dialog of the selected module type. -/
  newSetupView : TypeSelect → Setup
  setupKey : KeyModifiers → KeyCode → Setup → EventResult × Setup
  setupFocusNext : Setup → Setup
  setupFocusPrevious : Setup → Setup
  confirm : X.World → Setup → Option (String × X.View)
  closeRequested : Setup → Bool × Setup
  /-- `clone_setup` of a view under a new name. -/
  cloneSetup : X.View → String → Setup
  /-- The Modbus setup dialog of `:load`, prefilled with a path. -/
  loadSetup : Option String → Setup
  /-- The session's scripts with their interval, and the dialog that edits them. -/
  Scripts : Type
  SessionDialog : Type
  newSessionDialog : Scripts → SessionDialog
  sessionKey : KeyModifiers → KeyCode → SessionDialog → Bool × SessionDialog
  resolve : SessionDialog → Scripts

inductive Focus where
  | content
  | command
  | dialog
  deriving DecidableEq, Repr

inductive KeyMode where
  | ctrlWin
  | ctrlTab
  | tabDigit (first deadline : ℕ)
  deriving DecidableEq, Repr

inductive Overlay {X : Views} (D : Dialogs X) where
  | typeSelect (d : D.TypeSelect)
  | creation (sv : D.Setup)

structure App {X : Views} (D : Dialogs X) where
  shell : Shell X
  focus : Focus
  command : D.Line
  overlay : Option (Overlay D)
  keymode : Option KeyMode
  helpOpen : Bool
  sessionDialog : Option D.SessionDialog
  sessionScripts : D.Scripts

variable {X : Views} {D : Dialogs X}

def digitChordTimeout : ℕ := 800

inductive DigitOutcome where
  | wait (first : ℕ)
  | jump (i : ℕ)
  | ignore
  deriving DecidableEq, Repr

def digitOutcome (pending : Option ℕ) (d ntabs : ℕ) : DigitOutcome :=
  match pending with
  | none => if d ≠ 0 ∧ d * 10 < ntabs then .wait d else if d < ntabs then .jump d else .ignore
  | some first => .jump (if first * 10 + d < ntabs then first * 10 + d else first)

namespace App

def setContentFocus (on : Bool) (a : App D) : App D :=
  { a with shell := a.shell.setContentFocus on }

/-- The application over a list of tabs: without one the type selector is up. -/
def withScreen (titles : List (Tab X)) (scripts : D.Scripts) : App D :=
  let app : App D :=
    { shell := { titles, active := 0, registry := fun _ => none }
      focus := if titles.isEmpty then .dialog else .content
      command := D.emptyLine false
      overlay := if titles.isEmpty then some (.typeSelect D.newTypeSelect) else none
      keymode := none
      helpOpen := false
      sessionDialog := none
      sessionScripts := scripts }
  let app := app.setContentFocus (app.focus = .content)
  { app with shell := app.shell.rebuildRegistry }

/-! ## Tab switching -/

/-- The tabs move under the focus: it is taken from the active tab and given to the one that is active then. -/
def moveTab (move : Shell X → Shell X) (a : App D) : App D :=
  let a := a.setContentFocus false
  let a := { a with shell := move a.shell }
  a.setContentFocus (a.focus = .content)

def nextTab (a : App D) : App D :=
  if a.shell.titles.isEmpty then a else a.moveTab Shell.next

def prevTab (a : App D) : App D :=
  if a.shell.titles.isEmpty then a else a.moveTab Shell.previous

def switchTab (i : ℕ) (a : App D) : App D :=
  if i < a.shell.titles.length ∧ i ≠ a.shell.selectedIndex then a.moveTab (Shell.selectIndex i) else a

/-- A pending first digit of the tab chord jumps before anything else happens; the chord is over. -/
def commitDigit (a : App D) : App D :=
  match a.keymode with
  | some (.tabDigit first _) => { a.switchTab first with keymode := none }
  | _ => { a with keymode := none }

def expirePendingTabDigit (now : ℕ) (a : App D) : App D :=
  match a.keymode with
  | some (.tabDigit first deadline) =>
    if deadline ≤ now then switchTab first { a with keymode := none } else a
  | _ => a

/-! ## Content keys -/

def viewOverlayActive (a : App D) : Bool :=
  a.shell.activeTab.any (fun t => X.isOverlayActive t.view)

def togglePane (a : App D) : App D :=
  { a with shell := a.shell.modifyActive Tab.focusNext }

def enterCommand (a : App D) : App D :=
  { a.setContentFocus false with focus := .command, command := D.emptyLine true }

def exitCommand (a : App D) : App D :=
  setContentFocus true { a with command := D.emptyLine false, focus := .content }

/-- `forward_nav`: an open overlay of the view takes the key, else the focused pane does.  What the log pane does with
it is its own table state. -/
def forwardNav (w : X.World) (m : KeyModifiers) (code : KeyCode) (a : App D) : App D :=
  if a.focus = .content then
    { a with shell := a.shell.modifyActive (fun t =>
        if X.isOverlayActive t.view || t.focus = .view then { t with view := X.handleEvents w m code t.view } else t) }
  else
    a

def handleHelpKey (code : KeyCode) (a : App D) : App D :=
  if code = .esc ∨ code = .char 'q' ∨ code = .char '?' then { a with helpOpen := false } else a

def isArrow : KeyCode → Bool
  | .left | .right | .up | .down => true
  | _ => false

def handleArrow (code : KeyCode) (a : App D) : App D :=
  let a := a.commitDigit
  match code with
  | .right => a.nextTab
  | .left => a.prevTab
  | _ => a.togglePane

def handleFirstDigit (now d : ℕ) (a : App D) : App D :=
  match digitOutcome none d a.shell.titles.length with
  | .wait first => { a with keymode := some (.tabDigit first (now + digitChordTimeout)) }
  | .jump i => switchTab i { a with keymode := none }
  | .ignore => { a with keymode := none }

def handleSecondDigit (first d : ℕ) (a : App D) : App D :=
  let len := a.shell.titles.length
  let a := { a with keymode := none }
  match digitOutcome (some first) d len with
  | .jump i => a.switchTab i
  | _ => a

def digitOf : KeyCode → Option ℕ
  | .char c => toDigit 10 c
  | _ => none

def isPaneKey : KeyCode → Bool
  | .char c => c = 'j' || c = 'k'
  | .down | .up => true
  | _ => false

def handleNavKey (now : ℕ) (w : X.World) (m : KeyModifiers) (code : KeyCode) (a : App D) : App D :=
  if a.helpOpen then
    a.handleHelpKey code
  else if m = .SHIFT ∧ isArrow code ∧ !a.viewOverlayActive then
    a.handleArrow code
  else
    match a.keymode with
    | none =>
      if m = .CONTROL ∧ code = .char 'w' ∧ !a.viewOverlayActive then { a with keymode := some .ctrlWin }
      else if m = .CONTROL ∧ code = .char 't' then { a with keymode := some .ctrlTab }
      else if code = .char ':' ∧ !a.viewOverlayActive then a.enterCommand
      else if code = .char '?' ∧ !a.viewOverlayActive then { a with helpOpen := true }
      else a.commitDigit.forwardNav w m code
    | some .ctrlWin =>
      if isPaneKey code ∧ !a.viewOverlayActive then togglePane { a with keymode := none }
      else a.commitDigit.forwardNav w m code
    | some .ctrlTab =>
      if code = .char 'l' then nextTab { a with keymode := none }
      else if code = .char 'h' then prevTab { a with keymode := none }
      else match digitOf code with
        | some d => a.handleFirstDigit now d
        | none => a.commitDigit.forwardNav w m code
    | some (.tabDigit first _) =>
      match digitOf code with
      | some d => a.handleSecondDigit first d
      | none => a.commitDigit.forwardNav w m code

/-! ## Dialogs -/

def closeOverlay (a : App D) : App D :=
  setContentFocus true { a with overlay := none, focus := .content }

def enterDialog (overlay : Overlay D) (a : App D) : App D :=
  { a.setContentFocus false with overlay := some overlay, focus := .dialog }

def enterNew (a : App D) : App D :=
  a.enterDialog (.typeSelect D.newTypeSelect)

def enterClone (a : App D) : App D :=
  match a.shell.activeTab with
  | none => a
  | some t => a.enterDialog (.creation (D.cloneSetup t.view (cloneName t.name (a.shell.titles.map (·.name)))))

def enterLoad (path : Option String) (a : App D) : App D :=
  a.enterDialog (.creation (D.loadSetup path))

def enterSession (a : App D) : App D :=
  { a.setContentFocus false with sessionDialog := some (D.newSessionDialog a.sessionScripts), focus := .dialog }

/-- `confirm_overlay`: the type selector gives way to the setup dialog, and a setup dialog that validates under a free
name to the new tab. -/
def confirmOverlay (w : X.World) (a : App D) : App D :=
  match a.overlay with
  | some (.typeSelect d) => { a with overlay := some (.creation (D.newSetupView d)) }
  | some (.creation sv) =>
    match D.confirm w sv with
    | some (name, view) =>
      if a.shell.titles.any (fun t => t.name = name) then a
      else closeOverlay { a with shell := a.shell.createTab w name view }
    | none => a
  | none => a

def offerKey (m : KeyModifiers) (code : KeyCode) (a : App D) : EventResult × App D :=
  match a.overlay with
  | some (.typeSelect d) =>
    ((D.typeSelectKey m code d).1, { a with overlay := some (.typeSelect (D.typeSelectKey m code d).2) })
  | some (.creation sv) => ((D.setupKey m code sv).1, { a with overlay := some (.creation (D.setupKey m code sv).2) })
  | none => (.unhandled m code, a)

def cycleOverlay (f : D.Setup → D.Setup) (a : App D) : App D :=
  match a.overlay with
  | some (.creation sv) => { a with overlay := some (.creation (f sv)) }
  | _ => a

def handleUnhandled (w : X.World) (m : KeyModifiers) (code : KeyCode) (a : App D) : App D :=
  if m = .NONE ∧ code = .enter then a.confirmOverlay w
  else if (m = .NONE ∨ m = .SHIFT) ∧ code = .backTab then a.cycleOverlay D.setupFocusPrevious
  else if m = .NONE ∧ code = .tab then a.cycleOverlay D.setupFocusNext
  else a

def closeRequested (a : App D) : Bool × App D :=
  match a.overlay with
  | some (.typeSelect d) => ((D.takeCloseRequest d).1, { a with overlay := some (.typeSelect (D.takeCloseRequest d).2) })
  | some (.creation sv) => ((D.closeRequested sv).1, { a with overlay := some (.creation (D.closeRequested sv).2) })
  | none => (false, a)

def handleResult (w : X.World) (a : App D) : EventResult → App D
  | .unhandled m code => a.handleUnhandled w m code
  | .consumed => a

def handleDialogKey (w : X.World) (m : KeyModifiers) (code : KeyCode) (a : App D) : App D :=
  let (result, a) := a.offerKey m code
  let (close, a) := (a.handleResult w result).closeRequested
  if close then a.closeOverlay else a

def handleSessionDialogKey (m : KeyModifiers) (code : KeyCode) (dialog : D.SessionDialog) (a : App D) : App D :=
  let (done, dialog) := D.sessionKey m code dialog
  if done then
    setContentFocus true { a with sessionDialog := none, sessionScripts := D.resolve dialog, focus := .content }
  else
    { a with sessionDialog := some dialog }

/-! ## Commands -/

def copyScripts (i : Option ℕ) (a : App D) : App D :=
  match i.bind (fun i => if i = a.shell.selectedIndex then none else a.shell.titles[i]?) with
  | some source => { a with shell := a.shell.modifyActive (fun t => { t with view := X.copyScripts t.view source.view }) }
  | none => a

/-- `run_command`; without an application left if it quits.  Messages and saved files are left out. -/
def runCommand (w : X.World) (text : String) (a : App D) : Option (App D) :=
  match Cmd.parse text with
  | .empty => some a
  | .quit => if a.shell.titles.length ≤ 1 then none else some { a with shell := a.shell.closeTab }
  | .quitAll => none
  | .new => some a.enterNew
  | .clone => some a.enterClone
  | .load path => some (a.enterLoad path)
  | .session => some a.enterSession
  | .write _ => some a
  | .log arg => if arg = some "clear" then some a else some { a with shell := a.shell.command w text }
  | .scriptCopy i => some (a.copyScripts i)
  | .swap i j => some { a with shell := a.shell.swap i j }
  | .unknown => some { a with shell := a.shell.command w text }

def submitted (a : App D) : String :=
  String.ofList (trim (D.lineInput a.command).toList)

def handleCommandKey (w : X.World) (m : KeyModifiers) (code : KeyCode) (a : App D) : Option (App D) :=
  match code with
  | .esc => some a.exitCommand
  | .enter => a.exitCommand.runCommand w a.submitted
  | code => some { a with command := D.lineKey m code a.command }

def handleKey (now : ℕ) (w : X.World) (m : KeyModifiers) (code : KeyCode) (a : App D) : Option (App D) :=
  match a.focus with
  | .command => a.handleCommandKey w m code
  | .dialog =>
    match a.sessionDialog with
    | some dialog => some (a.handleSessionDialogKey m code dialog)
    | none => some (a.handleDialogKey w m code)
  | .content => some (a.handleNavKey now w m code)

/-- What happens to a running application: a turn of the loop, which commits an expired digit and refreshes, or a key. -/
inductive Event (X : Views) where
  | tick (now : ℕ) (w : ℕ → X.World)
  | key (now : ℕ) (w : X.World) (m : KeyModifiers) (code : KeyCode)

def step (a : App D) : Event X → Option (App D)
  | .tick now w =>
    let a := a.expirePendingTabDigit now
    some { a with shell := (a.shell.refreshSnapshot w).1 }
  | .key now w m code => a.handleKey now w m code

end App
end Ferrowl.Tui
