import Ferrowl.TabLifecycle
/-!
# MonitorLifecycle — starting and stopping a Modbus monitor tab

`ModbusMonitorModule` has no `Instance` under it: it keeps the handle of its receive task next to the deadline of a stop, and a
start puts a new task in place whatever it finds there.  A task the module no longer tracks goes to `past` with what became of it:
dropping its sender closes its command channel, an abort ends it.

The interpretations, the observed table and the message view of the tab are left out.
-/
namespace Ferrowl.Modbus

open List

open Lifecycle

inductive MonitorError where
  | net (text : String)
  | transport (label : String)
  | cancelFailed
  deriving DecidableEq, Repr

def MonitorError.text : MonitorError → String
  | .net text => "Network error: " ++ text
  | .transport label => "monitor role requires transport rtu or ascii, got " ++ label
  | .cancelFailed => "Failed to cancel monitor task"

abbrev MonitorAmbient := Ambient MonitorError

structure ReceiveTask where
  id : Nat
  told : Bool
  closed : Bool
  aborted : Bool
  finished : Bool
  deriving DecidableEq, Repr

namespace ReceiveTask

def fresh (id : Nat) : ReceiveTask := ⟨id, false, false, false, false⟩

def close (t : ReceiveTask) : ReceiveTask := { t with closed := true }

def abort (t : ReceiveTask) : ReceiveTask := if t.finished then t else { t with aborted := true, finished := true }

def endOf (id : Nat) (t : ReceiveTask) : ReceiveTask := if t.id = id then { t with finished := true } else t

end ReceiveTask

structure MonitorModule where
  name : String
  endpoint : Endpoint
  reconnect : Bool
  task : Option ReceiveTask
  stopDeadline : Option Nat
  paths : SerialPathRegistry
  spawned : Nat
  past : List ReceiveTask

/-- The transports a monitor cannot listen on, by the label of the error. -/
def monitorTransportError : Endpoint → Option String
  | .rtu _ | .ascii _ => none
  | .tcp _ _ => some "tcp"
  | .rtuOverTcp _ _ => some "rtu_over_tcp"
  | .udp _ _ => some "udp"
  | .asciiOverTcp _ _ => some "ascii_over_tcp"

namespace MonitorModule

def new (spec : ModuleSpec) (reconnect : Option Bool) (paths : SerialPathRegistry) (spawned : Nat)
    (past : List ReceiveTask) : MonitorModule where
  name := spec.name
  endpoint := spec.endpoint
  reconnect := reconnect.getD true
  task := none
  stopDeadline := none
  paths := paths
  spawned := spawned
  past := past

def letGo (m : MonitorModule) : List ReceiveTask := m.past ++ (m.task.map ReceiveTask.close).toList

def start (expand : String → String) (m : MonitorModule) (x : MonitorAmbient) : MonitorModule × Except MonitorError Unit :=
  match monitorTransportError m.endpoint, x.spawned with
  | some label, _ => (m, .error (.transport label))
  | none, .error e => (m, .error e)
  | none, .ok () =>
    ({ m with
        task := some (.fresh m.spawned)
        spawned := m.spawned + 1
        past := m.letGo
        paths := (endpointSerialPath expand m.endpoint).elim m.paths (m.paths.claim m.name) }, .ok ())

def requestStop (m : MonitorModule) (now : Nat) : MonitorModule :=
  match m.stopDeadline with
  | some _ => m
  | none => { m with task := m.task.map (fun t => { t with told := true }), stopDeadline := some (now + 100) }

def isRunning (m : MonitorModule) : Bool := m.task.any (fun t => !t.finished)

def pollStop (m : MonitorModule) (x : MonitorAmbient) : MonitorModule × Option (Except MonitorError Unit) :=
  match m.stopDeadline with
  | none => (m, none)
  | some deadline =>
    if m.isRunning = true ∧ x.now < deadline then (m, none)
    else
      ({ m with
          task := none
          stopDeadline := none
          past := m.past ++ (m.task.map (fun t => t.close.abort)).toList
          paths := m.paths.release m.name }, some (if m.isRunning then x.joined.result .cancelFailed else .ok ()))

def settled (m : MonitorModule) : MonitorModule :=
  { m with
    task := none
    stopDeadline := none
    past := m.past ++ (m.task.map (fun t => t.close.abort)).toList
    paths := m.paths.release m.name }

theorem pollStop_cases (m : MonitorModule) (x : MonitorAmbient) :
    m.pollStop x = (m, none) ∨ ∃ stopped, m.pollStop x = (m.settled, some stopped) := by
  rw [pollStop]
  cases m.stopDeadline with
  | none => exact Or.inl rfl
  | some deadline =>
    dsimp only
    by_cases hw : m.isRunning = true ∧ x.now < deadline
    · rw [if_pos hw]
      exact Or.inl rfl
    · rw [if_neg hw]
      exact Or.inr ⟨_, rfl⟩

/-- The module rebuilt for an edited spec; it is not started. -/
def reconfigure (m : MonitorModule) (spec : ModuleSpec) (reconnect : Option Bool) : MonitorModule :=
  .new spec reconnect m.paths m.spawned m.letGo

theorem start_cases (expand : String → String) (m : MonitorModule) (x : MonitorAmbient) :
    ((monitorTransportError m.endpoint = none ∧ x.spawned = .ok ()) ∧ m.start expand x = ({ m with
          task := some (.fresh m.spawned)
          spawned := m.spawned + 1
          past := m.letGo
          paths := (endpointSerialPath expand m.endpoint).elim m.paths (m.paths.claim m.name) }, .ok ())) ∨
      (¬ (monitorTransportError m.endpoint = none ∧ x.spawned = .ok ()) ∧ ∃ e, m.start expand x = (m, .error e)) := by
  rw [start]
  cases monitorTransportError m.endpoint with
  | some label => exact Or.inr ⟨(fun h => nomatch h.1), _, rfl⟩
  | none =>
    cases x.spawned with
    | error e => exact Or.inr ⟨(fun h => nomatch h.2), _, rfl⟩
    | ok => exact Or.inl ⟨⟨rfl, rfl⟩, rfl⟩

/-- What may come of a module and the spec of its tab after a stop: they stay, or the module is built anew, for an edit of the
given name or not; and it may be started. -/
inductive Follows (expand : String → String) (m : MonitorModule) (spec : ModuleSpec) (name : Option String) :
    MonitorModule → ModuleSpec → Prop where
  | left : Follows expand m spec name m spec
  | restarted (x : MonitorAmbient) : Follows expand m spec name (m.start expand x).1 spec
  | rebuilt (reconnect : Option Bool) {spec' : ModuleSpec} (hn : spec' = spec ∨ name = some spec'.name) :
    Follows expand m spec name (m.reconfigure spec' reconnect) spec'
  | renewed (reconnect : Option Bool) (x : MonitorAmbient) {spec' : ModuleSpec} (hn : spec' = spec ∨ name = some spec'.name) :
    Follows expand m spec name ((m.reconfigure spec' reconnect).start expand x).1 spec'

/-- No stop is in flight any more, and a task was started or not. -/
structure Rested (m m' : MonitorModule) : Prop where
  deadline : m'.stopDeadline = none
  past : m'.past = m.past
  task : m'.task = none ∧ m'.spawned = m.spawned ∨ m'.task = some (.fresh m.spawned) ∧ m'.spawned = m.spawned + 1

variable {expand : String → String} {m m' : MonitorModule}

theorem Rested.start (h : m.Rested m') (ht : m'.task = none) (hs : m'.spawned = m.spawned) (x : MonitorAmbient) :
    m.Rested (m'.start expand x).1 := by
  rcases m'.start_cases expand x with ⟨-, hst⟩ | ⟨-, e, hst⟩ <;> rw [hst]
  · refine ⟨h.deadline, ?_, Or.inr ⟨by rw [hs], by rw [hs]⟩⟩
    simp [letGo, ht, h.past]
  · exact h

theorem Follows.rested {spec spec' : ModuleSpec} {name : Option String} (h : m.Follows expand spec name m' spec')
    (ht : m.task = none) (hd : m.stopDeadline = none) : m.Rested m' := by
  have hnew : ∀ spec reconnect, m.Rested (m.reconfigure spec reconnect) := fun _ _ =>
    ⟨rfl, by simp [reconfigure, new, letGo, ht], Or.inl ⟨rfl, rfl⟩⟩
  cases h with
  | left => exact ⟨hd, rfl, Or.inl ⟨ht, rfl⟩⟩
  | restarted x => exact Rested.start ⟨hd, rfl, Or.inl ⟨ht, rfl⟩⟩ ht rfl x
  | rebuilt reconnect => exact hnew _ _
  | renewed reconnect x => exact (hnew _ _).start rfl rfl x

end MonitorModule

structure MonitorReload where
  path : String
  reconnect : Option Bool

structure MonitorEdit where
  spec : ModuleSpec
  reconnect : Option Bool

structure MonitorView where
  spec : ModuleSpec
  reconnect : Option Bool
  module : MonitorModule
  pending : Option (PendingLifecycle MonitorReload MonitorEdit)
  discardedEdit : Option String
  lastStop : Option StopOutcome
  log : List Line

namespace MonitorView

def new (spec : ModuleSpec) (reconnect : Option Bool) (paths : SerialPathRegistry) : MonitorView where
  spec := spec
  reconnect := reconnect
  module := .new spec reconnect paths 0 []
  pending := none
  discardedEdit := none
  lastStop := none
  log := []

def write (v : MonitorView) (lines : List Line) : MonitorView := { v with log := v.log ++ lines }

def startedLine (spec : ModuleSpec) : Except MonitorError Unit → Line
  | .ok () => (.info, "Started monitor on " ++ spec.endpoint.text)
  | .error e => (.error, "Start monitor failed: " ++ e.text)

def stoppedLine : Except MonitorError Unit → Line
  | .ok () => (.info, "Stopped monitor")
  | .error e => (.error, "Stop monitor failed: " ++ e.text)

def restartedLine (spec : ModuleSpec) : Except MonitorError Unit → Line
  | .ok () => (.info, "Restarted monitor on " ++ spec.endpoint.text)
  | .error e => (.error, "Restart monitor failed: " ++ e.text)

def reloadedLine (path : String) : Except MonitorError Unit → Line
  | .ok () => (.info, ":reload done — '" ++ path ++ "'")
  | .error e => (.error, ":reload start error: " ++ e.text)

def updatedLine : Except MonitorError Unit → Line
  | .ok () => (.info, "Settings updated")
  | .error e => (.error, "Settings update: stop failed: " ++ e.text)

def startModule (expand : String → String) (v : MonitorView) (x : MonitorAmbient) :
    MonitorView × Except MonitorError Unit :=
  ({ v with module := (v.module.start expand x).1 }, (v.module.start expand x).2)

def handleStart (expand : String → String) (v : MonitorView) (x : MonitorAmbient) : MonitorView × Option Line :=
  match v.pending with
  | some (.applySetup edit _) => ({ v with pending := some (.applySetup edit (some .start)) }, none)
  -- the deadline of a stop in flight is neither checked nor cleared
  | _ => ((v.startModule expand x).1, some (startedLine v.spec (v.startModule expand x).2))

def handleStop (v : MonitorView) (x : MonitorAmbient) : MonitorView :=
  match v.pending with
  | some (.applySetup edit _) => { v with pending := some (.applySetup edit (some .stop)), lastStop := none }
  | _ => { v with module := v.module.requestStop x.now, pending := some .stop, lastStop := none }

def handleRestart (v : MonitorView) (x : MonitorAmbient) : MonitorView :=
  match v.pending with
  | some (.applySetup edit _) => { v with pending := some (.applySetup edit (some .restart)) }
  | _ => { v with module := v.module.requestStop x.now, pending := some .restart }

def handleReload (v : MonitorView) (loaded : Except String (Option Bool)) (x : MonitorAmbient) : MonitorView × Option Line :=
  if v.spec.device = "" then (v, some (.warning, "No configuration file path configured. Reload aborted."))
  else
    match loaded with
    | .error e => (v, some (.error, ":reload failed to load '" ++ v.spec.device ++ "': " ++ e))
    | .ok reconnect =>
      let discarded :=
        match v.pending with
        | some (.applySetup _ _) => some v.spec.name
        | _ => v.discardedEdit
      ({ v with
          module := v.module.requestStop x.now
          pending := some (.reload ⟨v.spec.device, reconnect⟩)
          discardedEdit := discarded }, none)

/-- An edit confirmed in the dialog waits for a stop, whether or not a task runs. -/
def applyEdit (v : MonitorView) (edit : MonitorEdit) (x : MonitorAmbient) : MonitorView :=
  match v.pending with
  | some _ => { v with pending := some (.applySetup edit none) }
  | none => { v with module := v.module.requestStop x.now, pending := some (.applySetup edit none) }

def settleStop (v : MonitorView) (stopped : Except MonitorError Unit) : MonitorView :=
  { v with lastStop := some (.of (stoppedLine stopped)) }.write [stoppedLine stopped]

def settleRestart (expand : String → String) (v : MonitorView) (x : MonitorAmbient) : MonitorView :=
  (v.startModule expand x).1.write [restartedLine v.spec (v.startModule expand x).2]

def rebuild (v : MonitorView) (reconnect : Option Bool) : MonitorView :=
  { v with
    module := .new v.spec reconnect v.module.paths v.module.spawned v.module.letGo
    reconnect := reconnect
    log := [] }

def settleReload (expand : String → String) (v : MonitorView) (what : MonitorReload) (discarded : Option String)
    (x : MonitorAmbient) : MonitorView :=
  let v := (v.rebuild what.reconnect).write (discarded.toList.map TabView.discardLine)
  (v.startModule expand x).1.write [reloadedLine what.path (v.startModule expand x).2]

def adopt (v : MonitorView) (edit : MonitorEdit) : MonitorView :=
  { v with
    spec := edit.spec
    module := v.module.reconfigure edit.spec edit.reconnect
    reconnect := edit.reconnect }

def settleApply (expand : String → String) (v : MonitorView) (edit : MonitorEdit) (next : Option MergedCommand)
    (stopped : Except MonitorError Unit) (x : MonitorAmbient) : MonitorView :=
  let v := (v.adopt edit).write [updatedLine stopped]
  match next with
  | none => v
  | some .stop => v.settleStop stopped
  | some .start => (v.startModule expand x).1.write [startedLine v.spec (v.startModule expand x).2]
  | some .restart => v.settleRestart expand x

def follow (expand : String → String) (v : MonitorView) (op : PendingLifecycle MonitorReload MonitorEdit)
    (stopped : Except MonitorError Unit) (x : MonitorAmbient) : MonitorView :=
  let discarded := v.discardedEdit
  let v := { v with pending := none, discardedEdit := none }
  match op with
  | .reload what => v.settleReload expand what discarded x
  | .stop => (v.write (discarded.toList.map TabView.discardLine)).settleStop stopped
  | .restart => (v.write (discarded.toList.map TabView.discardLine)).settleRestart expand x
  | .applySetup edit next => (v.write (discarded.toList.map TabView.discardLine)).settleApply expand edit next stopped x

def settle (expand : String → String) (v : MonitorView) (x : MonitorAmbient) : MonitorView :=
  match v.pending with
  | none => v
  | some op =>
    match v.module.pollStop x with
    | (module, none) => { v with module := module }
    | (module, some stopped) => { v with module := module }.follow expand op stopped x

def refresh (expand : String → String) (v : MonitorView) (x : MonitorAmbient) (confirmed : Option MonitorEdit) :
    MonitorView :=
  match confirmed with
  | none => v.settle expand x
  | some edit => (v.settle expand x).applyEdit edit x

inductive Event where
  | start (x : MonitorAmbient)
  | stop (x : MonitorAmbient)
  | restart (x : MonitorAmbient)
  | reload (loaded : Except String (Option Bool)) (x : MonitorAmbient)
  | refresh (x : MonitorAmbient) (confirmed : Option MonitorEdit)
  | taskEnds (id : Nat)

def taskEnds (v : MonitorView) (id : Nat) : MonitorView :=
  { v with module := { v.module with
      task := v.module.task.map (.endOf id), past := v.module.past.map (.endOf id) } }

def step (expand : String → String) (v : MonitorView) : Event → MonitorView
  | .start x => (v.handleStart expand x).1
  | .stop x => v.handleStop x
  | .restart x => v.handleRestart x
  | .reload loaded x => (v.handleReload loaded x).1
  | .refresh x confirmed => v.refresh expand x confirmed
  | .taskEnds id => v.taskEnds id

def Spawns (v : MonitorView) (x : MonitorAmbient) : Prop :=
  monitorTransportError v.module.endpoint = none ∧ x.spawned = .ok ()

def editName (v : MonitorView) : Option String :=
  match v.pending with
  | some (.applySetup edit _) => some edit.spec.name
  | _ => none

def Event.newName : Event → Option String
  | .refresh _ (some edit) => some edit.spec.name
  | _ => none

variable (expand : String → String)

/-- What a command or a refresh comes to: the module is kept, it is asked to stop, or a stop is over and something follows.  The
name is that of an edit that comes with it. -/
inductive Acts (name : Option String) (v u : MonitorView) : Prop where
  | kept (hm : u.module = v.module) (hs : u.spec = v.spec) (hp : u.pending.isSome = v.pending.isSome)
      (he : ∀ n, u.editName = some n → v.editName = some n ∨ name = some n)
  | asked (now : Nat) (hm : u.module = v.module.requestStop now) (hs : u.spec = v.spec) (hp : u.pending.isSome = true)
      (he : ∀ n, u.editName = some n → v.editName = some n ∨ name = some n)
  | ended (hf : v.module.settled.Follows expand v.spec v.editName u.module u.spec) (hp : u.pending = none)

inductive Steps (v : MonitorView) (e : Event) (u : MonitorView) : Prop where
  | acts (ha : v.Acts expand e.newName u)
  | edited {w : MonitorView} (hw : v.Acts expand none w) (ha : w.Acts expand e.newName u)
  | started (x : MonitorAmbient) (he : e = .start x) (hp : ∀ edit next, v.pending ≠ some (.applySetup edit next))
      (hu : u = (v.startModule expand x).1)
  | ends (id : Nat) (hu : u = v.taskEnds id)

def EndsStopped (op : PendingLifecycle MonitorReload MonitorEdit) : Prop :=
  op = .stop ∨ ∃ edit, op = .applySetup edit (some .stop)

variable {v u : MonitorView}

theorem follow_follows (op : PendingLifecycle MonitorReload MonitorEdit) (stopped : Except MonitorError Unit)
    (x : MonitorAmbient) : (v.follow expand op stopped x).pending = none ∧
      v.module.Follows expand v.spec (editName { v with pending := some op }) (v.follow expand op stopped x).module
        (v.follow expand op stopped x).spec := by
  cases op with
  | stop => exact ⟨rfl, .left⟩
  | restart => exact ⟨rfl, .restarted x⟩
  | reload what => exact ⟨rfl, .renewed what.reconnect x (Or.inl rfl)⟩
  | applySetup edit next =>
    rcases next with _ | _ | _ | _
    · exact ⟨rfl, .rebuilt edit.reconnect (Or.inr rfl)⟩
    · exact ⟨rfl, .renewed edit.reconnect x (Or.inr rfl)⟩
    · exact ⟨rfl, .rebuilt edit.reconnect (Or.inr rfl)⟩
    · exact ⟨rfl, .renewed edit.reconnect x (Or.inr rfl)⟩

theorem settle_cases (v : MonitorView) (x : MonitorAmbient) :
    v.settle expand x = v ∨ ∃ op, v.pending = some op ∧ (v.settle expand x).pending = none ∧
      v.module.settled.Follows expand v.spec v.editName (v.settle expand x).module (v.settle expand x).spec ∧
      (EndsStopped op → (v.settle expand x).module.task = none) := by
  rw [settle]
  cases hp : v.pending with
  | none => exact Or.inl rfl
  | some op =>
    rcases v.module.pollStop_cases x with h | ⟨stopped, h⟩ <;> rw [h]
    · exact Or.inl (by cases v; cases hp; rfl)
    obtain ⟨hnone, hf⟩ := follow_follows expand (v := { v with module := v.module.settled }) op stopped x
    refine Or.inr ⟨op, rfl, ?_, ?_, ?_⟩
    · rwa [hp] at hnone
    · rw [editName, hp]
      rwa [hp] at hf
    · rintro (rfl | ⟨edit, rfl⟩) <;> rfl

theorem settle_acts (v : MonitorView) (x : MonitorAmbient) : v.Acts expand none (v.settle expand x) := by
  rcases v.settle_cases expand x with h | ⟨op, -, hp, hf, -⟩
  · rw [h]
    exact .kept rfl rfl rfl (fun _ => Or.inl)
  · exact .ended hf hp

theorem step_steps (v : MonitorView) (e : Event) : v.Steps expand e (v.step expand e) := by
  -- a command that comes while an edit waits is merged into it
  have hmerge : ∀ {edit next next'} (u : MonitorView) {name : Option String}, v.pending = some (.applySetup edit next) →
      u.module = v.module → u.spec = v.spec → u.pending = some (.applySetup edit next') → v.Acts expand name u := by
    intro edit next next' u name hp hm hs hu
    refine .kept hm hs (by rw [hu, hp]; rfl) fun n hn => Or.inl ?_
    rw [editName, hu] at hn
    rwa [editName, hp]
  cases e with
  | start x =>
    rw [step, handleStart]
    split
    · rename_i hp
      exact .acts (hmerge _ hp rfl rfl rfl)
    · rename_i hp
      exact .started x rfl (fun edit next => hp edit next) rfl
  | stop x =>
    rw [step, handleStop]
    split
    · rename_i hp
      exact .acts (hmerge _ hp rfl rfl rfl)
    · exact .acts (.asked x.now rfl rfl rfl nofun)
  | restart x =>
    rw [step, handleRestart]
    split
    · rename_i hp
      exact .acts (hmerge _ hp rfl rfl rfl)
    · exact .acts (.asked x.now rfl rfl rfl nofun)
  | reload loaded x =>
    rw [step]
    unfold handleReload
    split
    · exact .acts (.kept rfl rfl rfl (fun _ => Or.inl))
    · cases loaded with
      | error e => exact .acts (.kept rfl rfl rfl (fun _ => Or.inl))
      | ok reconnect => exact .acts (.asked x.now rfl rfl rfl nofun)
  | refresh x confirmed =>
    cases confirmed with
    | none => exact .acts (v.settle_acts expand x)
    | some edit =>
      refine .edited (v.settle_acts expand x) ?_
      simp only [step, refresh, applyEdit]
      split
      · rename_i hp
        exact .kept rfl rfl (by rw [hp]; rfl) (fun _ => Or.inr)
      · exact .asked x.now rfl rfl rfl (fun _ => Or.inr)
  | taskEnds id => exact .ends id rfl

theorem requestStop_deadline (m : MonitorModule) (now : Nat) : (m.requestStop now).stopDeadline.isSome = true := by
  rw [MonitorModule.requestStop]
  cases hd : m.stopDeadline with
  | none => rfl
  | some d => rw [hd]; rfl

theorem requestStop_past (m : MonitorModule) (now : Nat) : (m.requestStop now).past = m.past := by
  rw [MonitorModule.requestStop]
  cases m.stopDeadline <;> rfl

theorem requestStop_spawned (m : MonitorModule) (now : Nat) : (m.requestStop now).spawned = m.spawned := by
  rw [MonitorModule.requestStop]
  cases m.stopDeadline <;> rfl

def Untouched (t : ReceiveTask) : Prop := t.told = false ∧ t.closed = false ∧ t.aborted = false

variable {t : ReceiveTask}

theorem untouched_endOf (h : Untouched t) (id : Nat) : Untouched (t.endOf id) := by
  rw [ReceiveTask.endOf]
  split_ifs <;> exact h

/-- What holds in every run: a task that is let go lost its command channel, an operation is pending as long as a stop is
in flight, and only a stop touches the tracked task. -/
structure Sound (v : MonitorView) : Prop where
  closed : ∀ t ∈ v.module.past, t.closed = true
  armed : v.pending.isSome = v.module.stopDeadline.isSome
  untouched : v.module.stopDeadline = none → ∀ t, v.module.task = some t → Untouched t

variable {m : MonitorModule}

theorem mem_letGo : t ∈ m.letGo ↔ t ∈ m.past ∨ ∃ u, m.task = some u ∧ u.close = t := by
  simp [MonitorModule.letGo]

theorem mem_settled_past : t ∈ m.settled.past ↔ t ∈ m.past ∨ ∃ u, m.task = some u ∧ u.close.abort = t := by
  simp [MonitorModule.settled]

theorem abort_closed (t : ReceiveTask) : t.abort.closed = t.closed := by
  rw [ReceiveTask.abort]
  split_ifs <;> rfl

theorem abort_finished (t : ReceiveTask) : t.abort.finished = true := by
  rw [ReceiveTask.abort]
  split_ifs with h
  · exact h
  · rfl

theorem endOf_closed (t : ReceiveTask) (id : Nat) : (t.endOf id).closed = t.closed := by
  rw [ReceiveTask.endOf]
  split_ifs <;> rfl

theorem endOf_finished (h : t.finished = true) (id : Nat) : (t.endOf id).finished = true := by
  rw [ReceiveTask.endOf]
  split_ifs
  · rfl
  · exact h

theorem sound_startModule (h : v.Sound) (x : MonitorAmbient) : (v.startModule expand x).1.Sound := by
  rw [startModule]
  rcases v.module.start_cases expand x with ⟨-, hs⟩ | ⟨-, e, hs⟩ <;> rw [hs]
  · refine ⟨fun t hm => ?_, h.armed, fun _ t hst => ?_⟩
    · rcases mem_letGo.1 hm with hm | ⟨u, -, rfl⟩
      · exact h.closed t hm
      · rfl
    · cases hst
      exact ⟨rfl, rfl, rfl⟩
  · exact h

variable {expand} in
theorem Acts.sound {name : Option String} (ha : v.Acts expand name u) (h : v.Sound) : u.Sound := by
  cases ha with
  | kept hm hs hp he => exact ⟨hm ▸ h.closed, hp.trans (hm ▸ h.armed), hm ▸ h.untouched⟩
  | asked now hm hs hp he =>
    have hd : u.module.stopDeadline.isSome = true := hm ▸ requestStop_deadline v.module now
    refine ⟨fun t ht => ?_, hp.trans hd.symm, fun hn => by rw [hn] at hd; cases hd⟩
    rw [hm, requestStop_past] at ht
    exact h.closed t ht
  | ended hf hp =>
    obtain ⟨hdead, hpast, htask⟩ := hf.rested rfl rfl
    refine ⟨fun t hm => ?_, by rw [hp, hdead]; rfl, fun _ t ht => ?_⟩
    · rw [hpast, mem_settled_past] at hm
      rcases hm with hm | ⟨u, -, rfl⟩
      · exact h.closed t hm
      · exact abort_closed _
    · rcases htask with ⟨hn, -⟩ | ⟨hs, -⟩
      · rw [hn] at ht
        cases ht
      · rw [hs] at ht
        cases ht
        exact ⟨rfl, rfl, rfl⟩

theorem sound_taskEnds (h : v.Sound) (id : Nat) : (v.taskEnds id).Sound := by
  refine ⟨fun t hm => ?_, h.armed, fun hd t ht => ?_⟩
  · obtain ⟨u, hu, rfl⟩ := mem_map.1 hm
    rw [endOf_closed]
    exact h.closed u hu
  · obtain ⟨u, hu, rfl⟩ := Option.map_eq_some_iff.1 ht
    exact untouched_endOf (h.untouched hd u hu) id

theorem sound_step (h : v.Sound) (e : Event) : (v.step expand e).Sound := by
  cases v.step_steps expand e with
  | acts ha => exact ha.sound h
  | edited hw ha => exact ha.sound (hw.sound h)
  | started x he hp hu => exact hu ▸ sound_startModule expand h x
  | ends id hu => exact hu ▸ sound_taskEnds h id

/-- **Whatever comes when, a monitor tab is sound.** -/
theorem monitor_run_sound (spec : ModuleSpec) (reconnect : Option Bool) (paths : SerialPathRegistry) (es : List Event) :
    (es.foldl (step expand) (.new spec reconnect paths)).Sound :=
  foldlRecOn es _ ⟨nofun, rfl, nofun⟩ fun _ hv e _ => sound_step expand hv e

/-- A `:start` that would spawn a task meets a pending edit, or no stop in flight and no running task. -/
def Clear (v : MonitorView) : Event → Prop
  | .start x => v.Spawns x → (∃ edit next, v.pending = some (.applySetup edit next)) ∨
      (v.module.stopDeadline = none ∧ v.module.isRunning = false)
  | _ => True

def Lonely (v : MonitorView) : Prop := ∀ t ∈ v.module.past, t.finished = true

theorem isRunning_eq_false : m.isRunning = false ↔ ∀ t, m.task = some t → t.finished = true := by
  cases h : m.task <;> simp [MonitorModule.isRunning, h]

variable {expand} in
theorem Acts.lonely {name : Option String} (ha : v.Acts expand name u) (h : v.Lonely) : u.Lonely := by
  cases ha with
  | kept hm hs hp he => exact fun t ht => h t (hm ▸ ht)
  | asked now hm hs hp he =>
    intro t ht
    rw [hm, requestStop_past] at ht
    exact h t ht
  | ended hf hp =>
    intro t hm
    rw [(hf.rested rfl rfl).past, mem_settled_past] at hm
    rcases hm with hm | ⟨u, -, rfl⟩
    · exact h t hm
    · exact abort_finished _

variable {e : Event}

theorem lonely_step (h : v.Lonely) (hc : v.Clear e) : (v.step expand e).Lonely := by
  cases v.step_steps expand e with
  | acts ha => exact ha.lonely h
  | edited hw ha => exact ha.lonely (hw.lonely h)
  | started x he hp hu =>
    subst he
    rw [hu, startModule, Lonely]
    rcases v.module.start_cases expand x with ⟨hs, hst⟩ | ⟨-, e, hst⟩ <;> rw [hst]
    · rcases hc hs with ⟨edit, next, he⟩ | ⟨-, hrun⟩
      · exact absurd he (hp edit next)
      intro t hm
      rcases mem_letGo.1 hm with hm | ⟨u, hu, rfl⟩
      · exact h t hm
      · exact isRunning_eq_false.1 hrun u hu
    · exact h
  | ends id hu =>
    intro t hm
    rw [hu] at hm
    obtain ⟨u, hu, rfl⟩ := mem_map.1 hm
    exact endOf_finished (h u hu) id

/-- Nothing but the passing of time: refreshes without an edit, and tasks that end. -/
def Idle : Event → Prop
  | .refresh _ none | .taskEnds _ => True
  | _ => False

theorem clear_idle (v : MonitorView) (he : Idle e) : v.Clear e := by
  cases e with
  | start x => exact he.elim
  | _ => trivial

theorem idle_cases (v : MonitorView) (he : Idle e) :
    (∃ id, v.step expand e = v.taskEnds id) ∨ (∃ x, v.step expand e = v.settle expand x) := by
  cases e with
  | refresh x confirmed =>
    cases confirmed with
    | none => exact Or.inr ⟨x, rfl⟩
    | some edit => exact he.elim
  | taskEnds id => exact Or.inl ⟨id, rfl⟩
  | _ => exact he.elim

def Stopping (v : MonitorView) : Prop :=
  (∃ op, v.pending = some op ∧ EndsStopped op) ∨ v.pending = none ∧ v.module.task = none

theorem stopping_idle (h : v.Stopping) (he : Idle e) : (v.step expand e).Stopping := by
  rcases v.idle_cases expand he with ⟨id, hs⟩ | ⟨x, hs⟩ <;> rw [hs]
  · exact h.imp (fun h => h) (fun h => ⟨h.1, by rw [taskEnds, h.2]; rfl⟩)
  rcases v.settle_cases expand x with hv | ⟨op, hp, hnone, -, hend⟩
  · rw [hv]
    exact h
  rcases h with ⟨op', hp', ho⟩ | ⟨hn, -⟩
  · cases hp.symm.trans hp'
    exact Or.inr ⟨hnone, hend ho⟩
  · rw [hn] at hp
    cases hp

/-- The task with a number is tracked and untouched, and nothing is pending. -/
def Placed (n : Nat) (v : MonitorView) : Prop :=
  v.pending = none ∧ ∃ t, v.module.task = some t ∧ t.id = n ∧ Untouched t

theorem placed_idle {n : Nat} (h : v.Placed n) (he : Idle e) : (v.step expand e).Placed n := by
  obtain ⟨hp, t, ht, hn, hu⟩ := h
  rcases v.idle_cases expand he with ⟨id, hs⟩ | ⟨x, hs⟩ <;> rw [hs]
  · refine ⟨hp, t.endOf id, by rw [taskEnds, ht]; rfl, ?_, untouched_endOf hu id⟩
    rw [ReceiveTask.endOf]
    split_ifs <;> exact hn
  · rw [settle, hp]
    exact ⟨hp, t, ht, hn, hu⟩

/-- A restart was asked for last, when `n` tasks had been spawned. -/
def Restarting (n : Nat) (v : MonitorView) : Prop :=
  v.pending.isSome = true ∧ v.module.spawned = n ∨ v.pending = none ∧ v.module.spawned = n ∨ v.Placed n

theorem restarting_idle {n : Nat} (h : v.Restarting n) (he : Idle e) : (v.step expand e).Restarting n := by
  rcases h with h | h | h
  · rcases v.idle_cases expand he with ⟨id, hs⟩ | ⟨x, hs⟩ <;> rw [hs]
    · exact Or.inl h
    rcases v.settle_cases expand x with hv | ⟨op, hp, hnone, hf, -⟩
    · rw [hv]
      exact Or.inl h
    · rcases (hf.rested rfl rfl).task with ⟨-, hsp⟩ | ⟨ht, -⟩
      · exact Or.inr (Or.inl ⟨hnone, hsp.trans h.2⟩)
      · exact Or.inr (Or.inr ⟨hnone, _, ht, h.2, rfl, rfl, rfl⟩)
  · rcases v.idle_cases expand he with ⟨id, hs⟩ | ⟨x, hs⟩ <;> rw [hs]
    · exact Or.inr (Or.inl h)
    · rw [settle, h.1]
      exact Or.inr (Or.inl h)
  · exact Or.inr (Or.inr (placed_idle expand h he))

theorem idle_foldl {P : MonitorView → Prop} (hP : ∀ v e, P v → Idle e → P (v.step expand e))
    {es : List Event} (hes : ∀ e ∈ es, Idle e) (h : P v) : P (es.foldl (step expand) v) := by
  induction es generalizing v with
  | nil => exact h
  | cons e es ih =>
    exact ih (fun e' he' => hes e' (mem_cons_of_mem e he')) (hP v e h (hes e mem_cons_self))

theorem stopping_handleStop (v : MonitorView) (x : MonitorAmbient) : (v.handleStop x).Stopping := by
  rw [handleStop]
  split
  · exact Or.inl ⟨_, rfl, Or.inr ⟨_, rfl⟩⟩
  · exact Or.inl ⟨_, rfl, Or.inl rfl⟩

theorem restarting_handleRestart (v : MonitorView) (x : MonitorAmbient) : (v.handleRestart x).Restarting v.module.spawned := by
  rw [handleRestart]
  split
  · exact Or.inl ⟨rfl, rfl⟩
  · exact Or.inl ⟨rfl, requestStop_spawned _ _⟩

theorem placed_handleStart (hv : v.Sound) {x : MonitorAmbient} (hc : v.Clear (.start x))
    (hok : (v.handleStart expand x).2 = some (startedLine v.spec (.ok ()))) :
    (v.handleStart expand x).1.Placed v.module.spawned := by
  rw [handleStart] at hok ⊢
  split at hok
  · cases hok
  rename_i hp
  rw [startModule] at hok ⊢
  rcases v.module.start_cases expand x with ⟨hs, hst⟩ | ⟨-, e, hst⟩ <;> rw [hst] at hok ⊢
  · rcases hc hs with ⟨edit, next, he⟩ | ⟨hd, -⟩
    · exact absurd he (hp edit next)
    have hnone : v.pending = none := by
      rw [← Option.not_isSome_iff_eq_none, hv.armed, hd]
      exact Bool.false_ne_true
    exact ⟨hnone, _, rfl, rfl, rfl, rfl, rfl⟩
  · simp [startedLine] at hok

end MonitorView

open MonitorView

/-- **The last lifecycle command wins on a monitor tab**, as long as no `:start` puts a task in place of a running one or
under a stop in flight; and in every run a task that is no longer tracked has lost its command channel. -/
theorem last_lifecycle_command_wins (expand : String → String) (spec : ModuleSpec) (reconnect : Option Bool)
    (paths : SerialPathRegistry) {es : List Event} {v : MonitorView}
    (h : Run (fun v e u => u = v.step expand e) (MonitorView.new spec reconnect paths) es v) :
    (∀ t ∈ v.module.past, t.told = true ∨ t.closed = true) ∧ ((∀ pre e u, pre ++ [e] <+: es →
        Run (fun v e u => u = v.step expand e) (MonitorView.new spec reconnect paths) pre u → u.Clear e) →
      ∀ (c : Event) (rest : List Event), v.Clear c → (∀ e ∈ rest, Idle e) →
        ∀ w, w = rest.foldl (step expand) (v.step expand c) → w.pending = none →
          ((∃ x, c = .stop x) → ∀ t ∈ w.module.past ++ w.module.task.toList, t.finished = true) ∧
          ((∃ x, c = .start x ∧ (v.handleStart expand x).2 = some (startedLine v.spec (.ok ()))) → w.Placed v.module.spawned) ∧
          ((∃ x, c = .restart x) → v.module.spawned < w.module.spawned → w.Placed v.module.spawned)) := by
  have hsound : v.Sound := by
    refine h.invariant (I := Sound) ?_ ⟨nofun, rfl, nofun⟩
    rintro t e u ht rfl
    exact sound_step expand ht e
  refine ⟨fun t ht => Or.inr (hsound.closed t ht), fun hclear c rest hc hrest w hw hp => ⟨?_, ?_, ?_⟩⟩
  · rintro ⟨x, rfl⟩ t ht
    have hlonely : w.Lonely := by
      have hv : v.Lonely := by
        refine h.invariant_of_steps (I := Lonely) (C := Clear) ?_ hclear nofun
        rintro t e u ht hc rfl
        exact lonely_step expand ht hc
      rw [hw]
      exact idle_foldl expand (P := Lonely) (fun u e hu he => lonely_step expand hu (clear_idle u he)) hrest
        (lonely_step expand hv hc)
    have hstop : w.Stopping :=
      hw ▸ idle_foldl expand (P := Stopping) (fun u e hu he => stopping_idle expand hu he) hrest (v.stopping_handleStop x)
    rcases hstop with ⟨op, hop, -⟩ | ⟨-, hnone⟩
    · rw [hp] at hop
      cases hop
    · rw [hnone, Option.toList_none, append_nil] at ht
      exact hlonely t ht
  · rintro ⟨x, rfl, hok⟩
    exact hw ▸ idle_foldl expand (P := Placed v.module.spawned) (fun u e hu he => placed_idle expand hu he) hrest
      (placed_handleStart expand hsound hc hok)
  · rintro ⟨x, rfl⟩ hlt
    have hre : w.Restarting v.module.spawned :=
      hw ▸ idle_foldl expand (P := Restarting v.module.spawned) (fun u e hu he => restarting_idle expand hu he) hrest
        (v.restarting_handleRestart x)
    rcases hre with ⟨hsome, -⟩ | ⟨-, heq⟩ | hplaced
    · rw [hp] at hsome
      cases hsome
    · exact absurd heq (Nat.ne_of_gt hlt)
    · exact hplaced

def demoLine : SerialLine := ⟨"/dev/ttyUSB0", 9600, none, none, none⟩

def demoMonitor : MonitorView := MonitorView.new ⟨"monitor", "", .monitor, .rtu demoLine⟩ none .empty

def at_ (now : Nat) : MonitorAmbient := ⟨now, .ok (), .cancelled⟩

def settledMonitor : MonitorView :=
  [Event.start (at_ 0), .stop (at_ 1), .taskEnds 0, .refresh (at_ 2) none].foldl (step id) demoMonitor

/-- Started again, it keeps its new task. -/
theorem started_after_settling_placed : ((settledMonitor.step id (.start (at_ 4))).step id (.refresh (at_ 5) none)).Placed 1 := by
  have hrun : Run (fun v e u => u = MonitorView.step id v e) demoMonitor _ settledMonitor := Run.of_foldl _ _ _
  have hclear : ∀ pre e u, pre ++ [e] <+: [.start (at_ 0), .stop (at_ 1), .taskEnds 0, .refresh (at_ 2) none] →
      Run (fun v e u => u = MonitorView.step id v e) demoMonitor pre u → u.Clear e := by
    refine Run.forall_of_head (C := Clear) (fun _ => Or.inr ⟨rfl, rfl⟩) ?_
    rintro e he u
    simp only [mem_cons, not_mem_nil, or_false] at he
    rcases he with rfl | rfl | rfl <;> trivial
  have hidle : ∀ e ∈ [Event.refresh (at_ 5) none], Idle e := by
    rintro e he
    rw [mem_singleton.1 he]
    trivial
  exact ((last_lifecycle_command_wins id _ none .empty hrun).2 hclear (.start (at_ 4)) [.refresh (at_ 5) none]
    (fun _ => Or.inr ⟨rfl, rfl⟩) hidle _ rfl rfl).2.1 ⟨at_ 4, rfl, rfl⟩

/-- A `:start` between the end of the task and the refresh that settles its `:stop` reports success, and its task is aborted
when that `:stop` settles; a `:start` in place of a running task leaves that task alive through a `:stop`. -/
theorem settling_stop_aborts_new_task :
    (∃ v, Run (fun v e u => u = MonitorView.step id v e) demoMonitor [.start (at_ 0), .stop (at_ 1), .taskEnds 0] v ∧
      (v.handleStart id (at_ 2)).2 = some (startedLine v.spec (.ok ())) ∧
      ∃ w, w = [Event.refresh (at_ 101) none].foldl (step id) (v.step id (.start (at_ 2))) ∧ w.pending = none ∧
        w.module.task = none ∧ ∃ t ∈ w.module.past, t.id = v.module.spawned ∧ t.aborted = true) ∧
    (∃ v, Run (fun v e u => u = MonitorView.step id v e) demoMonitor [.start (at_ 0), .start (at_ 1)] v ∧
      ∃ w, w = [Event.taskEnds 1, .refresh (at_ 3) none].foldl (step id) (v.step id (.stop (at_ 2))) ∧
        w.pending = none ∧ ∃ t ∈ w.module.past, t.finished = false) :=
  ⟨⟨_, Run.of_foldl _ _ _, rfl, _, rfl, rfl, rfl, _, .tail _ (.head _), rfl, rfl⟩,
    ⟨_, Run.of_foldl _ _ _, _, rfl, rfl, _, .head _, rfl⟩⟩

end Ferrowl.Modbus
