import Ferrowl.Lifecycle
import Ferrowl.SerialPaths
/-!
# TabLifecycle — starting, stopping and rebuilding a Modbus tab

`Instance` owns the task (`instance/mod.rs`), `ModbusModule` claims and releases the serial path around it, and `ModbusModuleView`
keeps the pending slot, applies confirmed edits and settles the slot on a refresh.

What the environment decides comes with each call (`Ambient`).  `Tls` is the type of TLS settings, which are only carried along;
`expand` is the expansion of the home directory in a path.  The registers and the simulation of the module are left out.
-/
namespace Ferrowl.Modbus

open Lifecycle

/-- The errors of an instance; a network error is given by its text. -/
inductive InstanceError where
  | net (text : String)
  | alreadyActive
  | notRunning
  | cancelFailed
  deriving DecidableEq, Repr

def InstanceError.text : InstanceError → String
  | .net text => "Network error: " ++ text
  | .alreadyActive => "Instance error: Instance is already active"
  | .notRunning => "Instance error: Instance is not running"
  | .cancelFailed => "Instance error: Failed to cancel instance"

def InstanceError.isNotRunning (e : InstanceError) : Bool := decide (e = .notRunning)

abbrev TabAmbient := Ambient InstanceError

inductive TaskState where
  | idle
  | running (handle : Task)
  | stopping (handle : ToldTask) (deadline : Nat)
  deriving DecidableEq, Repr

namespace TaskState

def handle : TaskState → Option Task
  | idle => none
  | running h => some h
  | stopping h _ => some h.toTask

def phase : TaskState → Phase
  | idle => .idle
  | running _ => .running
  | stopping _ _ => .stopping

def active (s : TaskState) : Bool := s.handle.any (fun h => !h.finished)

def start (s : TaskState) (spawned : Except InstanceError Unit) : TaskState × Except InstanceError Unit :=
  if s.active then (s, .error .alreadyActive)
  else
    match spawned with
    | .error e => (s, .error e)
    | .ok () => (running Task.fresh, .ok ())

def requestStop (s : TaskState) (now : Nat) : TaskState × Except InstanceError Unit :=
  match s with
  | running h => (stopping h.tell (now + 100), .ok ())
  | s => (s, .error .notRunning)

def pollStop (s : TaskState) (now : Nat) (joined : Joined InstanceError) : TaskState × Option (Except InstanceError Unit) :=
  match s with
  | stopping h deadline =>
    if h.finished = false ∧ now < deadline then (stopping h deadline, none)
    else (idle, some (if h.finished then .ok () else joined.result .cancelFailed))
  | s => (s, none)

def taskEnds : TaskState → TaskState
  | idle => idle
  | running h => running h.ended
  | stopping h deadline => stopping h.ended deadline

end TaskState

structure Timing where
  timeoutMs : Nat
  delayMs : Nat
  intervalMs : Nat
  reconnect : Bool
  deriving DecidableEq, Repr

section
variable {Tls : Type}

structure LinkSettings (Tls : Type) where
  timeoutMs : Option Nat
  delayMs : Option Nat
  intervalMs : Option Nat
  reconnect : Option Bool
  tls : Tls

def resolveTiming (device : LinkSettings Tls) : Timing where
  timeoutMs := device.timeoutMs.getD 3000
  delayMs := device.delayMs.getD 1000
  intervalMs := device.intervalMs.getD 1000
  reconnect := device.reconnect.getD true

structure InstanceConfig (Tls : Type) where
  role : ModuleRole
  endpoint : Endpoint
  timing : Timing
  tls : Tls

/-- The running side of a module: its instance and its place in the registry of serial paths. -/
structure LinkModule (Tls : Type) where
  name : String
  config : InstanceConfig Tls
  task : TaskState
  paths : SerialPathRegistry
  ownSerialPath : Option String

namespace LinkModule

/-- A module built for a spec; the registry is the session's, which every new module is attached to. -/
def new (expand : String → String) (spec : ModuleSpec) (device : LinkSettings Tls) (paths : SerialPathRegistry) :
    LinkModule Tls where
  name := spec.name
  config := ⟨spec.role, spec.endpoint, resolveTiming device, device.tls⟩
  task := .idle
  paths := paths
  ownSerialPath := endpointSerialPath expand spec.endpoint

def start (m : LinkModule Tls) (spawned : Except InstanceError Unit) : LinkModule Tls × Except InstanceError Unit :=
  match m.task.start spawned, m.ownSerialPath with
  | (task, .ok ()), some path => ({ m with task := task, paths := m.paths.claim m.name path }, .ok ())
  | (task, result), _ => ({ m with task := task }, result)

/-- The claim is released when the request fails because nothing is active. -/
def requestStop (m : LinkModule Tls) (now : Nat) : LinkModule Tls × Except InstanceError Unit :=
  match m.task.requestStop now with
  | (task, .error e) =>
    (if task.active then { m with task := task } else { m with task := task, paths := m.paths.release m.name }, .error e)
  | (task, .ok ()) => ({ m with task := task }, .ok ())

def pollStop (m : LinkModule Tls) (now : Nat) (joined : Joined InstanceError) :
    LinkModule Tls × Option (Except InstanceError Unit) :=
  match m.task.pollStop now joined with
  | (task, some result) => ({ m with task := task, paths := m.paths.release m.name }, some result)
  | (task, none) => ({ m with task := task }, none)

def claimed (m : LinkModule Tls) : SerialPathRegistry := m.ownSerialPath.elim m.paths (m.paths.claim m.name)

variable (m : LinkModule Tls)

theorem start_cases (spawned : Except InstanceError Unit) : ((m.task.active = false ∧ spawned = .ok ()) ∧
        m.start spawned = ({ m with task := .running Task.fresh, paths := m.claimed }, .ok ())) ∨
      (¬ (m.task.active = false ∧ spawned = .ok ()) ∧ ∃ e, m.start spawned = (m, .error e)) := by
  cases ha : m.task.active with
  | true => exact Or.inr ⟨(fun h => nomatch h.1), .alreadyActive, by simp [start, TaskState.start, ha]⟩
  | false =>
    cases spawned with
    | error e => exact Or.inr ⟨(fun h => nomatch h.2), e, by simp [start, TaskState.start, ha]⟩
    | ok =>
      refine Or.inl ⟨⟨rfl, rfl⟩, ?_⟩
      cases hp : m.ownSerialPath <;> simp [start, TaskState.start, ha, claimed, hp]

theorem requestStop_cases (now : Nat) : (∃ h, m.task = .running h ∧
        m.requestStop now = ({ m with task := .stopping h.tell (now + 100) }, .ok ())) ∨
      (m.task.phase ≠ .running ∧ m.requestStop now =
        ({ m with paths := if m.task.active then m.paths else m.paths.release m.name }, .error .notRunning)) := by
  cases ht : m.task with
  | running h => exact Or.inl ⟨h, rfl, by simp [requestStop, TaskState.requestStop, ht]⟩
  | idle => exact Or.inr ⟨nofun, by cases m; cases ht; rfl⟩
  | stopping h d =>
    refine Or.inr ⟨nofun, ?_⟩
    simp only [requestStop, TaskState.requestStop, ht]
    split <;> cases m <;> cases ht <;> rfl

theorem pollStop_cases (now : Nat) (joined : Joined InstanceError) :
    ((∀ h d, m.task = .stopping h d → h.finished = false ∧ now < d) ∧ m.pollStop now joined = (m, none)) ∨
      ∃ h d r, m.task = .stopping h d ∧ m.pollStop now joined =
        ({ m with task := .idle, paths := m.paths.release m.name }, some r) := by
  cases ht : m.task with
  | idle | running h => exact Or.inl ⟨nofun, by cases m; cases ht; rfl⟩
  | stopping h d =>
    by_cases hw : h.finished = false ∧ now < d
    · refine Or.inl ⟨fun h' d' he => by cases he; exact hw, ?_⟩
      cases m
      cases ht
      simp [pollStop, TaskState.pollStop, hw]
    · exact Or.inr ⟨h, d, _, rfl, by simp only [pollStop, TaskState.pollStop, ht, if_neg hw]; rfl⟩

/-- The instance is rebuilt; the name and the claim stay as they are. -/
def reconfigure (expand : String → String) (m : LinkModule Tls) (config : InstanceConfig Tls) : LinkModule Tls :=
  { m with config := config, task := .idle, ownSerialPath := endpointSerialPath expand config.endpoint }

/-- A module whose task is gone gives its path back. -/
def dropped (m : LinkModule Tls) : LinkModule Tls := { m with task := .idle, paths := m.paths.release m.name }

/-- What may come of a module and the spec of its tab when the task is gone: they stay, the module is started again or built
anew, or both take the edit of the given name. -/
inductive Follows (expand : String → String) (m : LinkModule Tls) (spec : ModuleSpec) (name : Option String) :
    LinkModule Tls → ModuleSpec → Prop where
  | left : Follows expand m spec name m spec
  | restarted (spawned : Except InstanceError Unit) : Follows expand m spec name (m.start spawned).1 spec
  | reloaded (device : LinkSettings Tls) (spawned : Except InstanceError Unit) (hn : name = none) :
    Follows expand m spec name ((LinkModule.new expand spec device m.paths).start spawned).1 spec
  | edited (config : InstanceConfig Tls) {spec' : ModuleSpec} (hn : name = some spec'.name) :
    Follows expand m spec name (m.reconfigure expand config) spec'
  | applied (config : InstanceConfig Tls) (spawned : Except InstanceError Unit) {spec' : ModuleSpec}
      (hn : name = some spec'.name) : Follows expand m spec name ((m.reconfigure expand config).start spawned).1 spec'

variable {m} in
theorem start_not_stopping (h : m.task.phase ≠ .stopping) (spawned : Except InstanceError Unit) :
    (m.start spawned).1.task.phase ≠ .stopping := by
  rcases m.start_cases spawned with ⟨-, hs⟩ | ⟨-, e, hs⟩ <;> rw [hs]
  · exact nofun
  · exact h

theorem Follows.not_stopping {expand : String → String} {m m' : LinkModule Tls} {spec spec' : ModuleSpec} {name : Option String}
    (h : m.Follows expand spec name m' spec') (hm : m.task.phase ≠ .stopping) : m'.task.phase ≠ .stopping := by
  cases h with
  | left => exact hm
  | restarted spawned => exact start_not_stopping hm spawned
  | reloaded device spawned | applied config spawned => exact start_not_stopping (by nofun) spawned
  | edited config => exact nofun

end LinkModule

structure SetupValues (Tls : Type) where
  name : String
  configPath : String
  role : ModuleRole
  endpoint : Endpoint
  timeoutMs : Option Nat
  delayMs : Option Nat
  intervalMs : Option Nat
  reconnect : Option Bool
  tls : Option Tls

structure SetupEdit (Tls : Type) where
  name : String
  configPath : String
  config : InstanceConfig Tls

structure Reload (Tls : Type) where
  path : String
  device : LinkSettings Tls

structure TabView (Tls : Type) where
  spec : ModuleSpec
  device : LinkSettings Tls
  module : LinkModule Tls
  pending : Option (PendingLifecycle (Reload Tls) (SetupEdit Tls))
  discardedEdit : Option String
  lastStop : Option StopOutcome
  log : List Line

namespace TabView

def new (expand : String → String) (spec : ModuleSpec) (device : LinkSettings Tls) (paths : SerialPathRegistry) :
    TabView Tls where
  spec := spec
  device := device
  module := .new expand spec device paths
  pending := none
  discardedEdit := none
  lastStop := none
  log := []

def write (v : TabView Tls) (lines : List Line) : TabView Tls := { v with log := v.log ++ lines }

def startedLine (spec : ModuleSpec) : Except InstanceError Unit → Line
  | .ok () => (.info, "Started " ++ spec.role.text ++ " on " ++ spec.endpoint.text)
  | .error e => (.error, "Start " ++ spec.role.text ++ " failed: " ++ e.text)

def stoppedLine (role : ModuleRole) : Except InstanceError Unit → Line
  | .ok () => (.info, "Stopped " ++ role.text)
  | .error e => (.error, "Stop " ++ role.text ++ " failed: " ++ e.text)

def restartedLine (spec : ModuleSpec) : Except InstanceError Unit → Line
  | .ok () => (.info, "Restarted " ++ spec.role.text ++ " on " ++ spec.endpoint.text)
  | .error e => (.error, "Restart " ++ spec.role.text ++ " failed: " ++ e.text)

def reloadedLine (path : String) : Except InstanceError Unit → Line
  | .ok () => (.info, ":reload done — '" ++ path ++ "'")
  | .error e => (.error, ":reload start error: " ++ e.text)

/-- A success line after a stop that failed: it is an error and says so. -/
def afterFailedStop (stopErr : Option InstanceError) : Line → Line
  | (.info, text) =>
    match stopErr with
    | none => (.info, text)
    | some e => (.error, text ++ ", but stop of previous instance failed: " ++ e.text)
  | line => line

def discardLine (name : String) : Line := (.warning, "Edit to '" ++ name ++ "' discarded by :reload")

def stopError : Except InstanceError Unit → Option InstanceError
  | .ok () => none
  | .error e => if e.isNotRunning then none else some e

def startModule (v : TabView Tls) (x : TabAmbient) : TabView Tls × Except InstanceError Unit :=
  ({ v with module := (v.module.start x.spawned).1 }, (v.module.start x.spawned).2)

def handleStart (v : TabView Tls) (x : TabAmbient) : TabView Tls × Option Line :=
  match v.pending with
  | some (.applySetup edit _) => ({ v with pending := some (.applySetup edit (some .start)) }, none)
  | _ => ((v.startModule x).1, some (startedLine v.spec (v.startModule x).2))

def handleStop (v : TabView Tls) (x : TabAmbient) : TabView Tls :=
  match v.pending with
  | some (.applySetup edit _) => { v with pending := some (.applySetup edit (some .stop)), lastStop := none }
  -- a stop is in flight already: only its follow-up is overwritten
  | some _ => { v with pending := some .stop, lastStop := none }
  | none =>
    match v.module.requestStop x.now with
    | (module, .ok ()) => { v with module := module, pending := some .stop, lastStop := none }
    | (module, .error e) => { v with module := module }.write [stoppedLine v.spec.role (.error e)]

def handleRestart (v : TabView Tls) (x : TabAmbient) : TabView Tls × Option Line :=
  match v.pending with
  | some (.applySetup edit _) => ({ v with pending := some (.applySetup edit (some .restart)) }, none)
  | some _ => ({ v with pending := some .restart }, none)
  | none =>
    match v.module.requestStop x.now with
    | (module, .ok ()) => ({ v with module := module, pending := some .restart }, none)
    | (module, .error _) =>
      let started := { v with module := module }.startModule x
      (started.1, some (restartedLine v.spec started.2))

def rebuild (expand : String → String) (v : TabView Tls) (device : LinkSettings Tls) : TabView Tls :=
  { v with module := .new expand v.spec device v.module.paths, device := device, log := [] }

def handleReload (expand : String → String) (v : TabView Tls) (loaded : Except String (LinkSettings Tls)) (x : TabAmbient) :
    TabView Tls × Option Line :=
  if v.spec.device = "" then (v, some (.warning, "No configuration file path configured. Reload aborted."))
  else
    match loaded with
    | .error e => (v, some (.error, ":reload failed to load '" ++ v.spec.device ++ "': " ++ e))
    | .ok device =>
      match v.pending with
      | some (.applySetup _ _) =>
        ({ v with pending := some (.reload ⟨v.spec.device, device⟩), discardedEdit := some v.spec.name }, none)
      | some _ => ({ v with pending := some (.reload ⟨v.spec.device, device⟩) }, none)
      | none =>
        match v.module.requestStop x.now with
        | (module, .ok ()) => ({ v with module := module, pending := some (.reload ⟨v.spec.device, device⟩) }, none)
        | (module, .error _) =>
          let started := ({ v with module := module }.rebuild expand device).startModule x
          (started.1, some (reloadedLine v.spec.device started.2))

def adopt (v : TabView Tls) (edit : SetupEdit Tls) : TabView Tls :=
  { v with spec := ⟨edit.name, edit.configPath, edit.config.role, edit.config.endpoint⟩ }

def reconfigure (expand : String → String) (v : TabView Tls) (config : InstanceConfig Tls) : TabView Tls :=
  { v with module := v.module.reconfigure expand config }

/-- The device config and the edit that the values of the dialog ask for. -/
def resolve (v : TabView Tls) (values : SetupValues Tls) : LinkSettings Tls × SetupEdit Tls :=
  let device : LinkSettings Tls :=
    ⟨values.timeoutMs, values.delayMs, values.intervalMs, values.reconnect.or v.device.reconnect, values.tls.getD v.device.tls⟩
  (device, ⟨values.name, values.configPath, ⟨values.role, values.endpoint, resolveTiming device, device.tls⟩⟩)

def applySetup (expand : String → String) (v : TabView Tls) (values : SetupValues Tls) (x : TabAmbient) : TabView Tls :=
  let edit := (v.resolve values).2
  let v := { v with device := (v.resolve values).1 }
  match v.pending with
  | some _ => { v with pending := some (.applySetup edit none) }
  | none =>
    match v.module.requestStop x.now with
    | (module, .ok ()) => { v with module := module, pending := some (.applySetup edit none) }
    | (module, .error _) =>
      let started := (({ v with module := module }.adopt edit).reconfigure expand edit.config).startModule x
      started.1.write [startedLine started.1.spec started.2]

def settleStop (v : TabView Tls) (stopped : Except InstanceError Unit) : TabView Tls :=
  let line := stoppedLine v.spec.role stopped
  { v with lastStop := some (.of line) }.write [line]

def settleRestart (v : TabView Tls) (stopped : Except InstanceError Unit) (x : TabAmbient) : TabView Tls :=
  let started := v.startModule x
  started.1.write [afterFailedStop (stopError stopped) (restartedLine v.spec started.2)]

def settleReload (expand : String → String) (v : TabView Tls) (what : Reload Tls) (discarded : Option String)
    (stopped : Except InstanceError Unit) (x : TabAmbient) : TabView Tls :=
  let v := (v.rebuild expand what.device).write (discarded.toList.map discardLine)
  let started := v.startModule x
  started.1.write [afterFailedStop (stopError stopped) (reloadedLine what.path started.2)]

def settleApply (expand : String → String) (v : TabView Tls) (edit : SetupEdit Tls) (next : Option MergedCommand)
    (stopped : Except InstanceError Unit) (x : TabAmbient) : TabView Tls :=
  let v := v.adopt edit
  match next with
  | none =>
    let started := (v.reconfigure expand edit.config).startModule x
    started.1.write [afterFailedStop (stopError stopped) (startedLine v.spec started.2)]
  | some command =>
    let stopLine := stoppedLine edit.config.role stopped
    let v := v.write ((stopError stopped).toList.map (fun e => (.error, "Settings update: stop failed: " ++ e.text)))
    let v := (v.reconfigure expand edit.config).write [(.info, "Settings updated")]
    match command with
    | .stop => { v with lastStop := some (.of stopLine) }.write [stopLine]
    | .start => (v.startModule x).1.write [startedLine v.spec (v.startModule x).2]
    | .restart => (v.startModule x).1.write [restartedLine v.spec (v.startModule x).2]

def follow (expand : String → String) (v : TabView Tls) (op : PendingLifecycle (Reload Tls) (SetupEdit Tls))
    (stopped : Except InstanceError Unit) (x : TabAmbient) : TabView Tls :=
  let discarded := v.discardedEdit
  let v := { v with pending := none, discardedEdit := none }
  match op with
  | .reload what => v.settleReload expand what discarded stopped x
  | .stop => (v.write (discarded.toList.map discardLine)).settleStop stopped
  | .restart => (v.write (discarded.toList.map discardLine)).settleRestart stopped x
  | .applySetup edit next => (v.write (discarded.toList.map discardLine)).settleApply expand edit next stopped x

def settle (expand : String → String) (v : TabView Tls) (x : TabAmbient) : TabView Tls :=
  match v.pending with
  | none => v
  | some op =>
    match v.module.pollStop x.now x.joined with
    | (module, none) => { v with module := module }
    | (module, some stopped) => { v with module := module }.follow expand op stopped x

def refresh (expand : String → String) (v : TabView Tls) (x : TabAmbient) (confirmed : Option (SetupValues Tls)) :
    TabView Tls :=
  match confirmed with
  | none => v.settle expand x
  | some values => (v.settle expand x).applySetup expand values x

inductive Event (Tls : Type) where
  | start (x : TabAmbient)
  | stop (x : TabAmbient)
  | restart (x : TabAmbient)
  | reload (loaded : Except String (LinkSettings Tls)) (x : TabAmbient)
  | refresh (x : TabAmbient) (confirmed : Option (SetupValues Tls))
  | taskEnds

def step (expand : String → String) (v : TabView Tls) : Event Tls → TabView Tls
  | .start x => (v.handleStart x).1
  | .stop x => v.handleStop x
  | .restart x => (v.handleRestart x).1
  | .reload loaded x => (v.handleReload expand loaded x).1
  | .refresh x confirmed => v.refresh expand x confirmed
  | .taskEnds => { v with module := { v.module with task := v.module.task.taskEnds } }

def Spawns (v : TabView Tls) (x : TabAmbient) : Prop := v.module.task.active = false ∧ x.spawned = .ok ()

def standing (v : TabView Tls) : Standing := ⟨v.pending.isSome, v.module.task.phase⟩

theorem startModule_standing (v : TabView Tls) (x : TabAmbient) :
    (v.Spawns x ∧ (v.startModule x).1.standing = ⟨v.pending.isSome, .running⟩) ∨ (¬ v.Spawns x ∧ (v.startModule x).1 = v) := by
  rcases v.module.start_cases x.spawned with ⟨hs, h⟩ | ⟨hs, e, h⟩
  · exact Or.inl ⟨hs, by simp only [startModule, h, standing, TaskState.phase]⟩
  · exact Or.inr ⟨hs, by simp only [startModule, h]⟩

variable {v : TabView Tls}

theorem quiet_startModule (h : v.standing.Quiet) (x : TabAmbient) : (v.startModule x).1.standing.Quiet := by
  rcases v.startModule_standing x with ⟨-, hs⟩ | ⟨-, hs⟩
  · rw [hs]
    exact ⟨h.1, nofun⟩
  · rw [hs]
    exact h

variable (expand : String → String)

def editName (v : TabView Tls) : Option String :=
  match v.pending with
  | some (.applySetup edit _) => some edit.name
  | _ => none

theorem editName_of_none (hp : v.pending = none) : v.editName = none := by
  rw [editName, hp]

/-- What a command or a refresh comes to: the module is kept, it is told to stop, or its task is gone and something follows.  The
name is that of an edit that comes with it. -/
inductive Acts (name : Option String) (v u : TabView Tls) : Prop where
  | kept (hm : u.module = v.module) (hs : u.spec = v.spec) (hp : u.pending.isSome = v.pending.isSome)
      (he : ∀ n, u.editName = some n → v.editName = some n ∨ name = some n)
  | begun (h : Task) (d : Nat) (hv : v.standing = ⟨false, .running⟩)
      (hm : u.module = { v.module with task := .stopping h.tell d }) (hs : u.spec = v.spec) (hp : u.pending.isSome = true)
      (he : ∀ n, u.editName = some n → v.editName = some n ∨ name = some n)
  | ended (hv : v.standing = ⟨true, .stopping⟩ ∨ v.standing = ⟨false, .idle⟩)
      (hf : v.module.dropped.Follows expand v.spec (v.editName.or name) u.module u.spec) (hp : u.pending = none)

variable {expand}

theorem Acts.moves {name : Option String} {u : TabView Tls} (h : v.Acts expand name u) : Moves v.standing u.standing := by
  cases h with
  | kept hm hs hp he =>
    rw [standing, standing, hm, hp]
  | begun h d hv hm hs hp he =>
    rw [hv, standing, hm, hp]
    exact Relation.ReflTransGen.single Move.begin
  | ended hv hf hp =>
    have hq : u.standing.Quiet := ⟨by rw [standing, hp]; rfl, hf.not_stopping nofun⟩
    rcases hv with hv | hv <;> rw [hv]
    · exact hq.settled
    · exact Standing.Quiet.moves ⟨rfl, nofun⟩ hq

variable (expand)

theorem follow_follows (op : PendingLifecycle (Reload Tls) (SetupEdit Tls)) (stopped : Except InstanceError Unit) (x : TabAmbient) :
    (v.follow expand op stopped x).pending = none ∧ v.module.Follows expand v.spec (editName { v with pending := some op })
      (v.follow expand op stopped x).module (v.follow expand op stopped x).spec := by
  cases op with
  | stop => exact ⟨rfl, .left⟩
  | restart => exact ⟨rfl, .restarted x.spawned⟩
  | reload what => exact ⟨rfl, .reloaded what.device x.spawned rfl⟩
  | applySetup edit next =>
    rcases next with _ | _ | _ | _
    · exact ⟨rfl, .applied edit.config x.spawned rfl⟩
    · exact ⟨rfl, .applied edit.config x.spawned rfl⟩
    · exact ⟨rfl, .edited edit.config rfl⟩
    · exact ⟨rfl, .applied edit.config x.spawned rfl⟩

theorem settle_acts (v : TabView Tls) (x : TabAmbient) : v.Acts expand none (v.settle expand x) := by
  rw [settle]
  cases hp : v.pending with
  | none => exact .kept rfl rfl rfl (fun _ => Or.inl)
  | some op =>
    rcases v.module.pollStop_cases x.now x.joined with ⟨-, h⟩ | ⟨h', d, r, ht, h⟩ <;> rw [h]
    · exact .kept rfl rfl (by rw [hp]) (fun n hn => Or.inl (by rwa [editName, hp] at *))
    · obtain ⟨hnone, hf⟩ := follow_follows expand (v := { v with module := v.module.dropped }) op r x
      refine .ended (Or.inl (by rw [standing, hp, ht]; rfl)) ?_ hnone
      rwa [Option.or_none, editName, hp]

theorem settle_moves (v : TabView Tls) (x : TabAmbient) : Moves v.standing (v.settle expand x).standing :=
  (v.settle_acts expand x).moves

theorem stop_or_idle (hv : v.standing.Awaited) (hp : v.pending = none) (now : Nat) :
    (∃ h : Task, v.module.requestStop now = ({ v.module with task := .stopping h.tell (now + 100) }, .ok ()) ∧
        v.standing = ⟨false, .running⟩) ∨
      v.module.requestStop now = (v.module.dropped, .error .notRunning) ∧ v.standing = ⟨false, .idle⟩ := by
  have hq : v.standing.Quiet := hv.quiet (by rw [standing, hp]; rfl)
  rcases v.module.requestStop_cases now with ⟨h, ht, hr⟩ | ⟨hn, hr⟩
  · exact Or.inl ⟨h, hr, by rw [standing, hp, ht]; rfl⟩
  cases ht : v.module.task with
  | idle =>
    refine Or.inr ⟨?_, by rw [standing, hp, ht]; rfl⟩
    rw [hr, LinkModule.dropped, ht]
    rfl
  | running h => exact absurd (by rw [ht]; rfl) hn
  | stopping h d => exact absurd (by rw [standing, ht]; rfl) hq.2

theorem applySetup_acts (hv : v.standing.Awaited) (values : SetupValues Tls) (x : TabAmbient) :
    v.Acts expand (some values.name) (v.applySetup expand values x) := by
  simp only [applySetup]
  cases hp : v.pending with
  | some op => exact .kept rfl rfl (by rw [hp]; rfl) (fun _ => Or.inr)
  | none =>
    rcases stop_or_idle hv hp x.now with ⟨h, hr, hs⟩ | ⟨hr, hs⟩ <;> rw [hr]
    · exact .begun h _ hs rfl rfl rfl (fun _ => Or.inr)
    · refine .ended (Or.inr hs) (.applied _ x.spawned ?_) rfl
      rw [editName_of_none hp]
      rfl

/-- A `:start` that would spawn a task meets nothing pending but an edit. -/
def Clear (v : TabView Tls) : Event Tls → Prop
  | .start x => v.Spawns x → ∀ op, v.pending = some op → ∃ edit next, op = .applySetup edit next
  | _ => True

theorem handleStop_acts (hv : v.standing.Awaited) (x : TabAmbient) : v.Acts expand none (v.handleStop x) := by
  rw [handleStop]
  cases hp : v.pending with
  | some op =>
    cases op with
    | applySetup edit next => exact .kept rfl rfl (by rw [hp]; rfl) (fun n hn => Or.inl (by rwa [editName, hp]))
    | _ => exact .kept rfl rfl (by simp [hp]) nofun
  | none =>
    rcases stop_or_idle hv hp x.now with ⟨h, hr, hs⟩ | ⟨hr, hs⟩ <;> rw [hr]
    · exact .begun h _ hs rfl rfl rfl nofun
    · exact .ended (Or.inr hs) .left rfl

theorem handleRestart_acts (hv : v.standing.Awaited) (x : TabAmbient) : v.Acts expand none (v.handleRestart x).1 := by
  rw [handleRestart]
  cases hp : v.pending with
  | some op =>
    cases op with
    | applySetup edit next => exact .kept rfl rfl (by rw [hp]; rfl) (fun n hn => Or.inl (by rwa [editName, hp]))
    | _ => exact .kept rfl rfl (by simp [hp]) nofun
  | none =>
    rcases stop_or_idle hv hp x.now with ⟨h, hr, hs⟩ | ⟨hr, hs⟩ <;> rw [hr]
    · exact .begun h _ hs rfl rfl rfl nofun
    · exact .ended (Or.inr hs) (.restarted x.spawned) rfl

theorem handleReload_acts (hv : v.standing.Awaited) (loaded : Except String (LinkSettings Tls))
    (x : TabAmbient) : v.Acts expand none (v.handleReload expand loaded x).1 := by
  unfold handleReload
  split
  · exact .kept rfl rfl rfl (fun _ => Or.inl)
  cases loaded with
  | error e => exact .kept rfl rfl rfl (fun _ => Or.inl)
  | ok device =>
    dsimp only
    cases hp : v.pending with
    | some op => cases op <;> exact .kept rfl rfl (by rw [hp]; rfl) nofun
    | none =>
      rcases stop_or_idle hv hp x.now with ⟨h, hr, hs⟩ | ⟨hr, hs⟩ <;> rw [hr]
      · exact .begun h _ hs rfl rfl rfl nofun
      · refine .ended (Or.inr hs) (.reloaded device x.spawned ?_) rfl
        rw [editName_of_none hp]
        rfl

theorem handleStart_moves (hv : v.standing.Awaited) (x : TabAmbient) (hc : v.Clear (.start x)) :
    Moves v.standing (v.handleStart x).1.standing := by
  cases hp : v.pending with
  | none =>
    have hq : v.standing.Quiet := hv.quiet (by rw [standing, hp]; rfl)
    rw [handleStart, hp]
    exact hq.moves (quiet_startModule hq x)
  | some op =>
    rcases v.startModule_standing x with ⟨hs, -⟩ | ⟨-, h⟩
    · obtain ⟨edit, next, rfl⟩ := hc hs op hp
      rw [handleStart, hp, standing, hp]
      exact Relation.ReflTransGen.refl
    · rw [handleStart, h, standing, hp]
      cases op <;> simp only [standing, hp] <;> exact Relation.ReflTransGen.refl

theorem taskEnds_phase (s : TaskState) : s.taskEnds.phase = s.phase := by
  cases s <;> rfl

theorem step_moves (hv : v.standing.Awaited) (e : Event Tls) (hc : v.Clear e) : Moves v.standing (v.step expand e).standing := by
  cases e with
  | start x => exact handleStart_moves hv x hc
  | stop x => exact (handleStop_acts expand hv x).moves
  | restart x => exact (handleRestart_acts expand hv x).moves
  | reload loaded x => exact (handleReload_acts expand hv loaded x).moves
  | refresh x confirmed =>
    have hs := v.settle_moves expand x
    cases confirmed with
    | none => exact hs
    | some values => exact hs.trans (applySetup_acts expand (hs.awaited hv) values x).moves
  | taskEnds =>
    rw [standing, standing, step, taskEnds_phase]

/-- **A step that is not clear strands what is pending**: the new task runs, and no stop of it was asked for. -/
theorem step_stranded {e : Event Tls} (hc : ¬ v.Clear e) : (v.step expand e).standing.Stranded := by
  cases e with
  | start x =>
    simp only [Clear, Classical.not_imp, not_forall] at hc
    obtain ⟨hs, op, hp, hop⟩ := hc
    have hst : (v.handleStart x).1 = (v.startModule x).1 := by
      rw [handleStart, hp]
      cases op with
      | applySetup edit next => exact absurd ⟨edit, next, rfl⟩ hop
      | _ => rfl
    rcases v.startModule_standing x with ⟨-, h⟩ | ⟨hn, -⟩
    · rw [step, hst, h, hp]
      exact ⟨rfl, nofun⟩
    · exact absurd hs hn
  | _ => exact absurd trivial hc

structure Responsive (expand : String → String) (v : TabView Tls) : Prop where
  backed : v.pending.isSome = true → v.module.task.phase = .stopping
  settles : ∀ x, v.module.task.active = false → (v.refresh expand x none).pending = none
  settles_late : ∃ deadline, ∀ x : TabAmbient, deadline ≤ x.now → (v.refresh expand x none).pending = none
  logs_stop : ∀ x, v.pending = some .stop → (v.refresh expand x none).pending = none →
    ∃ stopped, (v.refresh expand x none).log.getLast? = some (stoppedLine v.spec.role stopped)
  logs_restart : ∀ x, v.pending = some .restart → (v.refresh expand x none).pending = none →
    ∃ stopped started, (v.refresh expand x none).log.getLast? =
      some (afterFailedStop (stopError stopped) (restartedLine v.spec started))
  reached : ∀ x task, (v.handleStop x).module.task.handle = some task → task.told = true

variable {x : TabAmbient}

theorem settle_pending {h : ToldTask} {d : Nat} (ht : v.module.task = .stopping h d)
    (hw : ¬ (h.finished = false ∧ x.now < d)) : (v.settle expand x).pending = none := by
  rw [settle]
  cases hp : v.pending with
  | none => exact hp
  | some op =>
    rcases v.module.pollStop_cases x.now x.joined with ⟨hw', -⟩ | ⟨h', d', r, -, hr⟩
    · exact absurd (hw' h d ht) hw
    · rw [hr]
      exact (follow_follows expand op r x).1

theorem settle_follows {op : PendingLifecycle (Reload Tls) (SetupEdit Tls)}
    (hp : v.pending = some op) (hs : (v.settle expand x).pending = none) :
    ∃ module stopped, v.settle expand x = { v with module := module }.follow expand op stopped x := by
  rcases hr : v.module.pollStop x.now x.joined with ⟨module, _ | stopped⟩
  · rw [settle, hp] at hs
    simp only [hr] at hs
    exact nomatch hs
  · exact ⟨module, stopped, by rw [settle, hp]; simp only [hr]⟩

theorem exists_stopping (hb : v.standing.Backed) {op : PendingLifecycle (Reload Tls) (SetupEdit Tls)} (hp : v.pending = some op) :
    ∃ h d, v.module.task = .stopping h d := by
  have ht : v.module.task.phase = .stopping := hb (by rw [standing, hp]; rfl)
  cases hs : v.module.task with
  | stopping h d => exact ⟨h, d, rfl⟩
  | idle | running h => exact nomatch hs ▸ ht

theorem refresh_of_none (hp : v.pending = none) (x : TabAmbient) : (v.refresh expand x none).pending = none := by
  simp only [refresh, settle, hp]

theorem handleStop_told (hb : v.standing.Backed) {task : Task}
    (ht : (v.handleStop x).module.task.handle = some task) : task.told = true := by
  -- no task is held in the running state any more
  suffices hs : (v.handleStop x).module.task.phase ≠ .running by
    cases hst : (v.handleStop x).module.task with
    | idle => exact nomatch hst ▸ ht
    | running h => exact absurd (hst ▸ rfl) hs
    | stopping h d =>
      rw [hst] at ht
      cases ht
      exact h.isTold
  rw [handleStop]
  cases hp : v.pending with
  | some op =>
    obtain ⟨h, d, hst⟩ := exists_stopping hb hp
    cases op <;> simp only [hst] <;> exact nofun
  | none =>
    rcases v.module.requestStop_cases x.now with ⟨h, -, hr⟩ | ⟨hn, hr⟩
    · rw [hr]
      exact nofun
    · rw [hr]
      exact hn

theorem responsive_iff (v : TabView Tls) : v.Responsive expand ↔ v.standing.Backed := by
  refine ⟨Responsive.backed, fun hb =>
    ⟨hb, fun x ha => ?_, ?_, fun x hp hs => ?_, fun x hp hs => ?_, fun x task => handleStop_told hb⟩⟩
  · cases hp : v.pending with
    | none => exact refresh_of_none expand hp x
    | some op =>
      obtain ⟨h, d, ht⟩ := exists_stopping hb hp
      refine settle_pending expand ht fun hw => ?_
      simp [TaskState.active, TaskState.handle, ht, hw.1] at ha
  · cases hp : v.pending with
    | none => exact ⟨0, fun x _ => refresh_of_none expand hp x⟩
    | some op =>
      obtain ⟨h, d, ht⟩ := exists_stopping hb hp
      exact ⟨d, fun x hd => settle_pending expand ht fun hw => absurd hw.2 (Nat.not_lt.2 hd)⟩
  · obtain ⟨module, stopped, h⟩ := settle_follows expand hp hs
    exact ⟨stopped, by rw [refresh, h]; simp [follow, settleStop, write]⟩
  · obtain ⟨module, stopped, h⟩ := settle_follows expand hp hs
    exact ⟨stopped, _, by rw [refresh, h]; simp [follow, settleRestart, write, startModule]; rfl⟩

theorem run_responsive_iff (spec : ModuleSpec) (device : LinkSettings Tls) (paths : SerialPathRegistry) {es : List (Event Tls)}
    (h : Run (fun v e u => u = v.step expand e) (TabView.new expand spec device paths) es v) :
    v.Responsive expand ↔ ∀ pre e u, pre ++ [e] <+: es →
      Run (fun v e u => u = v.step expand e) (TabView.new expand spec device paths) pre u → u.Clear e := by
  rw [responsive_iff]
  exact run_backed_iff standing Clear (fun _ e ht hc => step_moves expand ht e hc)
    (fun _ _ hc => step_stranded expand hc) h ⟨rfl, nofun⟩

end TabView
end

end Ferrowl.Modbus
