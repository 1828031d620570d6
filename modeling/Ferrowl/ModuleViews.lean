import Ferrowl.App
import Ferrowl.CsmsLifecycle
import Ferrowl.MonitorLifecycle
import Ferrowl.ShellDirectory
/-!
# ModuleViews — what the four content views expose to scripts

A Modbus link, a Modbus monitor, an OCPP station and an OCPP server, as the application's views: how they take the lifecycle
commands and a poll, when they are replaced, and the host they offer.  What lives outside a view comes with each call (`World`).
-/
namespace Ferrowl.Tui

open Modbus (TabView MonitorView LinkSettings SetupValues TabAmbient MonitorAmbient MonitorEdit ModuleRole)
open Ocpp (StationView CsmsTab Replacement ConfirmedSetup StationAmbient CsmsAmbient)
open Lifecycle (MergedCommand)

structure ModbusHandles where
  memory : ℕ
  virtualStore : ℕ
  registers : ℕ
  status : ℕ
  events : ℕ
  deriving DecidableEq, Repr

structure OcppHandles where
  state : ℕ
  queue : ℕ
  status : ℕ
  deriving DecidableEq, Repr

/-- What scripts get of a module; the constructor has its kind, and that of an OCPP module its role too. -/
inductive ModuleHost where
  | modbus (role : ModuleRole) (instanceId : ℕ) (handles : ModbusHandles)
  | ocppClient (instanceId : ℕ) (handles : OcppHandles)
  | ocppServer (instanceId : ℕ) (handles : OcppHandles)
  deriving DecidableEq, Repr

section
variable {Tls D : Type}

structure World (Tls D : Type) where
  tab : TabAmbient
  loaded : Except String (LinkSettings Tls)
  edit : Option (SetupValues Tls)
  monitor : MonitorAmbient
  monitorLoaded : Except String (Option Bool)
  monitorEdit : Option MonitorEdit
  station : StationAmbient
  csms : CsmsAmbient
  setup : Option (ConfirmedSetup D)
  /-- Whether the view's task has ended since the last call. -/
  ended : Bool
  /-- The receive task of a monitor that has ended. -/
  endedTask : ℕ
  /-- Whether the station reports itself connected. -/
  online : Bool
  instanceId : ℕ
  modbus : ModbusHandles
  ocpp : OcppHandles

/-! ## Modbus links -/

structure LinkView (Tls : Type) where
  view : TabView Tls
  instanceId : ℕ
  handles : ModbusHandles
  hostChanged : Bool

inductive ViewCommand where
  | start
  | stop
  | restart
  | reload
  deriving DecidableEq, Repr

/-- `parse_command` on the lifecycle commands: the first word decides. -/
def ViewCommand.parse (text : String) : Option ViewCommand :=
  match (splitWhitespace text.toList).head? with
  | none => none
  | some word =>
    if word = "start".toList then some .start
    else if word = "stop".toList then some .stop
    else if word = "restart".toList then some .restart
    else if word = "reload".toList then some .reload
    else none

namespace LinkView

/-- A new module takes the place of the old one; only the event stream is carried over. -/
def rebuilt (w : World Tls D) (v : LinkView Tls) : LinkView Tls :=
  { v with handles := { w.modbus with events := v.handles.events }, hostChanged := true }

/-- `:reload` finds a config and nothing running, so it rebuilds the module at once. -/
def Reloads (w : World Tls D) (v : TabView Tls) : Bool :=
  decide (v.spec.device ≠ "") && w.loaded.isOk && v.pending.isNone && !(v.module.requestStop w.tab.now).2.isOk

/-- The poll finds the stop ended that a `:reload` waited for. -/
def SettlesReload (w : World Tls D) (v : TabView Tls) : Bool :=
  match v.pending with
  | some (.reload _) => (v.module.pollStop w.tab.now w.tab.joined).2.isSome
  | _ => false

def command (expand : String → String) (w : World Tls D) (c : ViewCommand) (v : LinkView Tls) : LinkView Tls :=
  match c with
  | .start => { v with view := (v.view.handleStart w.tab).1 }
  | .stop => { v with view := v.view.handleStop w.tab }
  | .restart => { v with view := (v.view.handleRestart w.tab).1 }
  | .reload =>
    let after := { v with view := (v.view.handleReload expand w.loaded w.tab).1 }
    if Reloads w v.view then after.rebuilt w else after

def poll (expand : String → String) (w : World Tls D) (v : LinkView Tls) : LinkView Tls :=
  let before := if w.ended then v.view.step expand .taskEnds else v.view
  let after := { v with view := before.refresh expand w.tab w.edit }
  if SettlesReload w before then after.rebuilt w else after

def moduleHost (v : LinkView Tls) : ModuleHost :=
  .modbus v.view.spec.role v.instanceId v.handles

end LinkView

/-! ## All views -/

inductive ModuleView (Tls D : Type) where
  | link (v : LinkView Tls)
  | monitor (v : MonitorView)
  | station (v : StationView D) (instanceId : ℕ) (handles : OcppHandles)
  | csms (v : CsmsTab D) (instanceId : ℕ) (handles : OcppHandles)

namespace ModuleView

def name : ModuleView Tls D → String
  | link v => v.view.spec.name
  | monitor v => v.spec.name
  | station v _ _ => v.spec.name
  | csms v _ _ => v.spec.name

def buildStation (w : World Tls D) (r : Replacement D) : StationView D :=
  let v := StationView.new r.spec r.path r.device
  match r.next with
  | none => v
  | some next =>
    let v := v.write [(.info, "Settings updated")]
    match next with
    | .start => (v.handleStart w.station).1.write (v.handleStart w.station).2.toList
    | .restart => (v.handleRestart w.station).1.write (v.handleRestart w.station).2.toList
    | .stop => v.write [match r.stopError with
        | none => (.info, "Disconnected")
        | some e => (.error, "Disconnect failed: " ++ e)]

/-- The server that takes a view's place; a merged `:stop` leaves it unbound. -/
def buildCsms (w : World Tls D) (r : Replacement D) : CsmsTab D :=
  let v := CsmsTab.new r.spec r.path r.device (decide (r.next ≠ some .stop))
  match r.next with
  | none => v
  | some next =>
    let v := v.write [(.info, "Settings updated")]
    match next with
    | .start => (v.handleStart w.csms).1.write (v.handleStart w.csms).2.toList
    | .restart => (v.handleRestart w.csms).1.write (v.handleRestart w.csms).2.toList
    | .stop => v.write [match r.stopError with
        | none => (.info, "CSMS server stopped")
        | some e => (.error, "CSMS server stop failed: " ++ e)]

def buildReplacement (w : World Tls D) (r : Replacement D) : ModuleView Tls D :=
  match r.role with
  | .client => station (buildStation w r) w.instanceId w.ocpp
  | .server => csms (buildCsms w r) w.instanceId w.ocpp

/-- The other commands of the views leave what is modelled of them alone. -/
def handleCommand (expand : String → String) (w : World Tls D) (text : String) (v : ModuleView Tls D) :
    ModuleView Tls D :=
  match ViewCommand.parse text, v with
  | none, v => v
  | some c, link v => link (v.command expand w c)
  | some .start, monitor v => monitor (v.step expand (.start w.monitor))
  | some .stop, monitor v => monitor (v.step expand (.stop w.monitor))
  | some .restart, monitor v => monitor (v.step expand (.restart w.monitor))
  | some .reload, monitor v => monitor (v.step expand (.reload w.monitorLoaded w.monitor))
  | some .start, station v i h => station (v.handleStart w.station).1 i h
  | some .stop, station v i h => station v.handleStop i h
  | some .restart, station v i h => station (v.handleRestart w.station).1 i h
  | some .start, csms v i h => csms (v.handleStart w.csms).1 i h
  | some .stop, csms v i h => csms v.handleStop i h
  | some .restart, csms v i h => csms (v.handleRestart w.csms).1 i h
  | some .reload, v => v

def refresh (expand : String → String) (w : World Tls D) : ModuleView Tls D → ModuleView Tls D
  | link v => link (v.poll expand w)
  | monitor v =>
    let v := if w.ended then v.taskEnds w.endedTask else v
    monitor (v.refresh expand w.monitor w.monitorEdit)
  | station v i h =>
    let v := v.step (.online w.online)
    let v := if w.ended then v.step .taskEnds else v
    station (v.refresh w.station w.setup) i h
  | csms v i h =>
    let v := if w.ended then { v with backend := v.backend.taskEnds } else v
    csms (v.refresh w.csms w.setup) i h

def takeReplacement (w : World Tls D) : ModuleView Tls D → Option (ModuleView Tls D) × ModuleView Tls D
  | station v i h => (v.replacement.map (buildReplacement w), station { v with replacement := none } i h)
  | csms v i h => (v.replacement.map (buildReplacement w), csms { v with replacement := none } i h)
  | v => (none, v)

def takeHostChanged : ModuleView Tls D → Bool × ModuleView Tls D
  | link v => (v.hostChanged, link { v with hostChanged := false })
  | v => (false, v)

def moduleHost : ModuleView Tls D → Option ModuleHost
  | link v => some v.moduleHost
  | monitor _ => none
  | station _ i h => some (.ocppClient i h)
  | csms _ i h => some (.ocppServer i h)

end ModuleView

/-- The content views.  Keys reach dialogs, whose confirmed edits come with the next poll; focus, dialogs and scripts of a
view are left out. -/
def moduleViews (Tls D : Type) (expand : String → String) : Views where
  View := ModuleView Tls D
  Host := ModuleHost
  World := World Tls D
  name := ModuleView.name
  setFocused _ v := v
  isOverlayActive _ := false
  handleEvents _ _ _ v := v
  handleCommand := ModuleView.handleCommand expand
  refresh := ModuleView.refresh expand
  takeReplacement := ModuleView.takeReplacement
  takeHostChanged := ModuleView.takeHostChanged
  moduleHost := ModuleView.moduleHost
  setSerialPaths v := v
  copyScripts v _ := v

/-! ## Hosts and their signals -/

namespace LinkView

theorem spec_handleStart (v : TabView Tls) (x : TabAmbient) : (v.handleStart x).1.spec = v.spec := by
  rw [TabView.handleStart]
  split <;> rfl

theorem spec_handleStop (v : TabView Tls) (x : TabAmbient) : (v.handleStop x).spec = v.spec := by
  rw [TabView.handleStop]
  split
  · rfl
  · rfl
  · split <;> rfl

theorem spec_handleRestart (v : TabView Tls) (x : TabAmbient) : (v.handleRestart x).1.spec = v.spec := by
  rw [TabView.handleRestart]
  split
  · rfl
  · rfl
  · split <;> rfl

variable (expand : String → String)

theorem spec_handleReload (v : TabView Tls) (loaded : Except String (LinkSettings Tls))
    (x : TabAmbient) : (v.handleReload expand loaded x).1.spec = v.spec := by
  unfold TabView.handleReload
  split
  · rfl
  split
  · rfl
  split
  · rfl
  · rfl
  · split <;> rfl

theorem quiet_command (w : World Tls D) (c : ViewCommand) (v : LinkView Tls) (h : (v.command expand w c).hostChanged = false) :
    v.hostChanged = false ∧ (v.command expand w c).moduleHost = v.moduleHost := by
  cases c with
  | start => exact ⟨h, by simp only [command, moduleHost, spec_handleStart]⟩
  | stop => exact ⟨h, by simp only [command, moduleHost, spec_handleStop]⟩
  | restart => exact ⟨h, by simp only [command, moduleHost, spec_handleRestart]⟩
  | reload =>
    simp only [command] at h ⊢
    split at h
    · exact nomatch h
    · next hr =>
      rw [if_neg hr]
      exact ⟨h, by simp only [moduleHost, spec_handleReload]⟩

theorem quiet_poll (w : World Tls D) (v : LinkView Tls) (h : (v.poll expand w).hostChanged = false) :
    v.hostChanged = false ∧ (v.poll expand w).instanceId = v.instanceId ∧ (v.poll expand w).handles = v.handles := by
  simp only [poll] at h ⊢
  generalize (if w.ended then v.view.step expand .taskEnds else v.view) = before at h ⊢
  split at h
  · exact nomatch h
  · next hr =>
    rw [if_neg hr]
    exact ⟨h, rfl, rfl⟩

end LinkView

namespace ModuleView

def changed : ModuleView Tls D → Bool
  | link v => v.hostChanged
  | _ => false

def linkRole : ModuleView Tls D → Option ModuleRole
  | link v => some v.view.spec.role
  | _ => none

theorem moduleHost_refresh_iff (expand : String → String) (w : World Tls D) (v : ModuleView Tls D)
    (h : (v.refresh expand w).changed = false) :
    (v.refresh expand w).moduleHost = v.moduleHost ↔ (v.refresh expand w).linkRole = v.linkRole := by
  cases v with
  | link v =>
    obtain ⟨-, hid, hhandles⟩ := LinkView.quiet_poll expand w v h
    simp [refresh, moduleHost, LinkView.moduleHost, linkRole, hid, hhandles]
  | monitor v | station v i handles | csms v i handles => exact iff_of_true rfl rfl

theorem quiet_handleCommand (expand : String → String) (w : World Tls D) (text : String) (v : ModuleView Tls D)
    (h : (v.handleCommand expand w text).changed = false) :
    v.changed = false ∧ (v.handleCommand expand w text).moduleHost = v.moduleHost := by
  unfold handleCommand at h ⊢
  cases hc : ViewCommand.parse text with
  | none =>
    rw [hc] at h
    exact ⟨h, rfl⟩
  | some c =>
    rw [hc] at h
    cases v with
    | link v =>
      obtain ⟨hbefore, hhost⟩ := LinkView.quiet_command expand w c v h
      exact ⟨hbefore, congrArg some hhost⟩
    | monitor v | station v i handles | csms v i handles => cases c <;> exact ⟨rfl, rfl⟩

end ModuleView

def moduleSignals (Tls D : Type) (expand : String → String) : HostSignals (moduleViews Tls D expand) where
  changed := ModuleView.changed
  take_changed v := by cases v <;> rfl
  changed_take v := by cases v <;> rfl
  host_take v := by cases v <;> rfl
  host_serial _ := rfl
  quiet_command := ModuleView.quiet_handleCommand expand
  quiet_refresh w v h := by
    cases v with
    | link v => exact (LinkView.quiet_poll expand w v h).1
    | monitor v => rfl
    | station v i handles => rfl
    | csms v i handles => rfl
  quiet_replacement w v _ := by cases v <;> exact ⟨rfl, rfl⟩

/-! ## The directory -/

/-- The tabs of a session as they are built at startup: the names of all modules are resolved first, and a module whose
config does not load is skipped. -/
def startup {X : Views} (names : List String) (views : List (Option X.View)) : Shell X :=
  Shell.rebuildRegistry
    { titles := ((dedupeNames names).zip views).filterMap (fun p => p.2.map (Tab.newFromView p.1))
      active := 0
      registry := fun _ => none }

theorem nodup_startup {X : Views} (names : List String) (views : List (Option X.View)) :
    (startup (X := X) names views).names.Nodup := by
  have hsub : ∀ (ns : List String) (vs : List (Option X.View)),
      (((ns.zip vs).filterMap (fun p => p.2.map (Tab.newFromView p.1))).map (·.name)).Sublist ns := by
    intro ns
    induction ns with
    | nil => intro vs; exact List.Sublist.slnil
    | cons n ns ih =>
      intro vs
      cases vs with
      | nil => exact List.nil_sublist _
      | cons v vs =>
        cases v with
        | none => exact (ih vs).cons n
        | some v => exact (ih vs).cons_cons n
  rw [startup, Shell.names_rebuildRegistry]
  exact (hsub _ _).nodup (nodup_dedupeNames names)

theorem exact_startup {X : Views} (names : List String) (views : List (Option X.View)) :
    (startup (X := X) names views).Exact := by
  have hnames := nodup_startup (X := X) names views
  rw [startup, Shell.names_rebuildRegistry] at hnames
  exact Shell.exact_rebuildRegistry hnames

/-- Wherever a refresh adopts a switch of a link between client and server, something else is signalled in it: a tab
renamed, a view replaced or a module rebuilt. -/
def RolesSignalled {expand : String → String} (s : Shell (moduleViews Tls D expand))
    (w : ℕ → (moduleViews Tls D expand).World) : Prop :=
  s.stale w = false →
    ∀ i t, s.titles[i]? = some t → (ModuleView.refresh expand (w i) t.view).linkRole = ModuleView.linkRole t.view

theorem quiet_iff_rolesSignalled {expand : String → String} (s : Shell (moduleViews Tls D expand))
    (w : ℕ → (moduleViews Tls D expand).World) : s.Quiet w ↔ RolesSignalled s w := by
  refine forall_congr' fun hstale => forall_congr' fun i => forall_congr' fun t => forall_congr' fun ht => ?_
  obtain ⟨_, -, -, -, hchanged⟩ := Shell.polled_quiet (moduleSignals Tls D expand) hstale ht
  exact ModuleView.moduleHost_refresh_iff expand (w i) t.view hchanged

/-- **The module directory matches the tabs after every refresh exactly when every switch of a link's role is signalled**,
over all sequences of refreshes, creations, closings, swaps and commands from any session. -/
theorem directory_matches_iff (expand : String → String) (names : List String)
    (views : List (Option (moduleViews Tls D expand).View)) (es : List (Shell.Event (moduleViews Tls D expand))) :
    (∀ pre w, pre ++ [.refresh w] <+: es → ((pre.foldl Shell.step (startup names views)).refreshSnapshot w).1.Listed) ↔
      ∀ pre w, pre ++ [.refresh w] <+: es → RolesSignalled (pre.foldl Shell.step (startup names views)) w := by
  rw [Shell.listed_iff (moduleSignals Tls D expand) (nodup_startup names views) (exact_startup names views)]
  exact forall_congr' fun pre => forall_congr' fun w => forall_congr' fun _ => quiet_iff_rolesSignalled _ w

/-! ## A meter that changes sides -/

def meter : LinkView Unit where
  view := .new id ⟨"meter", "", .server, .tcp "127.0.0.1" 502⟩ ⟨none, none, none, none, ()⟩ .empty
  instanceId := 1
  handles := ⟨0, 1, 2, 3, 4⟩
  hostChanged := false

def switching : World Unit Unit where
  tab := ⟨0, .ok (), .cancelled⟩
  loaded := .error ""
  edit := some ⟨"meter", "", .client, .tcp "127.0.0.1" 502, none, none, none, none, none⟩
  monitor := ⟨0, .ok (), .cancelled⟩
  monitorLoaded := .error ""
  monitorEdit := none
  station := ⟨.ok (), .ok ()⟩
  csms := ⟨.ok false, false, .ok ()⟩
  setup := none
  ended := false
  endedTask := 0
  online := false
  instanceId := 2
  modbus := ⟨5, 6, 7, 8, 9⟩
  ocpp := ⟨5, 6, 7⟩

def meterSession : Shell (moduleViews Unit Unit id) :=
  startup ["meter"] [some (.link meter)]

/-- **The directory keeps the old role**: after the refresh that makes the meter a client, scripts still find a server. -/
theorem switched_role_not_listed : ¬ (meterSession.refreshSnapshot fun _ => switching).1.Listed := by
  intro hlisted
  have hnames := nodup_startup (X := moduleViews Unit Unit id) ["meter"] [some (.link meter)]
  have hmatch := (exact_startup (X := moduleViews Unit Unit id) ["meter"] [some (.link meter)]).toMatches (moduleSignals Unit Unit id)
  have hexact := (Shell.listed_iff_exact (Shell.nodup_refreshSnapshot hnames _)).1 hlisted
  have hroles := (quiet_iff_rolesSignalled _ _).1 ((Shell.exact_refreshSnapshot_iff hmatch _).1 hexact)
  have hrole := hroles (by rfl) 0 _ rfl
  exact absurd hrole (by decide)

end
end Ferrowl.Tui
