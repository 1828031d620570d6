import Ferrowl.TabLifecycle
/-!
# StationLifecycle — starting and stopping an OCPP charging-station tab

`OcppClient` owns the client task, the flag that says whether the station is connected and the cell with the command sender;
`ClientView` keeps the pending slot.  A start with a stale task waits for that task to end, so the call that is modelled is the
one that returns.  `D` is the type of device configs, which are only carried along; the payloads, the heartbeats and the tables
of the view are left out.
-/
namespace Ferrowl
namespace Ocpp

open Lifecycle

inductive OcppVersion where
  | v1_6
  | v2_0_1
  | v2_1
  deriving DecidableEq, Repr

inductive OcppRole where
  | client
  | server
  deriving DecidableEq, Repr

inductive OcppProtocol where
  | ws
  | wss
  deriving DecidableEq, Repr

def OcppProtocol.text : OcppProtocol → String
  | .ws => "ws://"
  | .wss => "wss://"

structure OcppSpec where
  name : String
  version : OcppVersion
  role : OcppRole
  protocol : OcppProtocol
  ip : String
  port : Nat
  path : String
  deriving DecidableEq, Repr

def OcppSpec.url (s : OcppSpec) : String := s.protocol.text ++ s.ip ++ ":" ++ toString s.port ++ s.path

inductive OcppError where
  | notRunning
  | other (text : String)
  deriving DecidableEq, Repr

def OcppError.text : OcppError → String
  | .notRunning => "the core task is not running"
  | .other text => text

/-- What the environment decides during a call: whether the client can be spawned and how the ended task is joined. -/
structure StationAmbient where
  spawned : Except OcppError Unit
  joined : Except OcppError Unit

inductive CsState where
  | idle
  | running (client : Task)
  | stopping (client : ToldTask)
  deriving DecidableEq, Repr

def CsState.phase : CsState → Phase
  | idle => .idle
  | running _ => .running
  | stopping _ => .stopping

def CsState.handle : CsState → Option Task
  | idle => none
  | running t => some t
  | stopping t => some t.toTask

def CsState.taskEnds : CsState → CsState
  | idle => idle
  | running t => running t.ended
  | stopping t => stopping t.ended

structure OcppClient where
  client : CsState
  online : Bool
  cmdTx : Bool
  deriving DecidableEq, Repr

namespace OcppClient

def requestStop (b : OcppClient) : OcppClient × Except OcppError Unit :=
  match b.client with
  | .running t => (⟨.stopping t.tell, false, false⟩, .ok ())
  | _ => (b, .error .notRunning)

def pollStop (b : OcppClient) (x : StationAmbient) : OcppClient × Option (Except OcppError Unit) :=
  match b.client with
  | .stopping t => if t.finished then ({ b with client := .idle }, some x.joined) else (b, none)
  | _ => (b, none)

def taskEnds (b : OcppClient) : OcppClient := { b with client := b.client.taskEnds }

def stop (b : OcppClient) (x : StationAmbient) : OcppClient :=
  match b.client with
  | .idle => b
  | .running _ => (b.requestStop.1.taskEnds.pollStop x).1
  | .stopping _ => (b.taskEnds.pollStop x).1

def spawn (b : OcppClient) (x : StationAmbient) : OcppClient × Except OcppError Unit :=
  match x.spawned with
  | .error e => (b, .error e)
  | .ok () => ({ b with client := .running Task.fresh, cmdTx := true }, .ok ())

def start (b : OcppClient) (x : StationAmbient) : OcppClient × Except OcppError Unit :=
  match b.client with
  | .idle => b.spawn x
  -- connected already: nothing to do; a stale handle is torn down first
  | _ => if b.online then (b, .ok ()) else (b.stop x).spawn x

variable (b : OcppClient)

theorem requestStop_cases : (∃ t, b.client = .running t ∧ b.requestStop = (⟨.stopping t.tell, false, false⟩, .ok ())) ∨
      (b.client.phase ≠ .running ∧ b.requestStop = (b, .error .notRunning)) := by
  cases hb : b.client with
  | running t => exact Or.inl ⟨t, rfl, by simp only [requestStop, hb]⟩
  | idle | stopping t => exact Or.inr ⟨nofun, by simp only [requestStop, hb]⟩

theorem pollStop_cases (x : StationAmbient) : ((∀ t, b.client = .stopping t → t.finished = false) ∧ b.pollStop x = (b, none)) ∨
      ∃ t, b.client = .stopping t ∧ b.pollStop x = ({ b with client := .idle }, some x.joined) := by
  cases hb : b.client with
  | idle | running t => exact Or.inl ⟨nofun, by simp only [pollStop, hb]⟩
  | stopping t =>
    cases hf : t.finished with
    | false => exact Or.inl ⟨fun t' ht => by cases ht; exact hf, by simp [pollStop, hb, hf]⟩
    | true => exact Or.inr ⟨t, rfl, by simp [pollStop, hb, hf]⟩

theorem stop_client (x : StationAmbient) : (b.stop x).client = .idle := by
  rw [stop]
  cases hb : b.client with
  | idle => exact hb
  | running t => simp [requestStop, hb, taskEnds, CsState.taskEnds, ToldTask.ended, Task.ended, pollStop]
  | stopping t => simp [taskEnds, CsState.taskEnds, ToldTask.ended, Task.ended, pollStop, hb]

theorem spawn_phase {b : OcppClient} (hb : b.client = .idle) (x : StationAmbient) : (b.spawn x).1.client.phase ≠ .stopping := by
  rw [spawn]
  cases x.spawned with
  | error e => exact hb ▸ nofun
  | ok => exact nofun

theorem start_cases (x : StationAmbient) : ((b.client ≠ .idle ∧ b.online = true) ∧ b.start x = (b, .ok ())) ∨
      (¬ (b.client ≠ .idle ∧ b.online = true) ∧ (b.start x).1.client.phase ≠ .stopping) := by
  have hstale : (if b.online then (b, Except.ok ()) else (b.stop x).spawn x) = (b, .ok ()) ∧ b.online = true ∨
      b.online = false ∧ ((if b.online then (b, Except.ok ()) else (b.stop x).spawn x).1).client.phase ≠ .stopping := by
    cases ho : b.online with
    | true => exact Or.inl ⟨rfl, rfl⟩
    | false => exact Or.inr ⟨rfl, spawn_phase (b.stop_client x) x⟩
  cases hb : b.client with
  | idle => exact Or.inr ⟨fun h => h.1 rfl, by rw [start, hb]; exact spawn_phase hb x⟩
  | running t | stopping t =>
    rw [start, hb]
    exact hstale.imp (fun h => ⟨⟨nofun, h.2⟩, h.1⟩) (fun h => ⟨(fun h' => nomatch h.1.symm.trans h'.2), h.2⟩)

end OcppClient

section
variable {D : Type}

inductive SetupFollowUp (D : Type) where
  | replace (role : OcppRole) (spec : OcppSpec) (path : String) (device : D)
  | inPlace (spec : OcppSpec) (path : String) (device : D) (wasOnline : Bool)

structure Replacement (D : Type) where
  role : OcppRole
  spec : OcppSpec
  path : String
  device : D
  next : Option MergedCommand
  stopError : Option String

structure ConfirmedSetup (D : Type) where
  spec : OcppSpec
  path : String
  device : D
  scripts : Bool

structure StationView (D : Type) where
  spec : OcppSpec
  device : D
  devicePath : String
  backend : OcppClient
  pending : Option (PendingLifecycle Empty (SetupFollowUp D))
  replacement : Option (Replacement D)
  lastStop : Option StopOutcome
  log : List Line

namespace StationView

def new (spec : OcppSpec) (devicePath : String) (device : D) : StationView D where
  spec := spec
  device := device
  devicePath := devicePath
  backend := ⟨.idle, false, false⟩
  pending := none
  replacement := none
  lastStop := none
  log := []

def write (v : StationView D) (lines : List Line) : StationView D := { v with log := v.log ++ lines }

def connectedLine (spec : OcppSpec) : Except OcppError Unit → Line
  | .ok () => (.info, "Connecting to " ++ spec.url)
  | .error e => (.error, "Connect failed: " ++ e.text)

def disconnectedLine : Except OcppError Unit → Line
  | .ok () => (.info, "Disconnected")
  | .error e => (.error, "Disconnect failed: " ++ e.text)

def reconnectedLine : Except OcppError Unit → Line
  | .ok () => (.info, "Reconnecting")
  | .error e => (.error, "Reconnect failed: " ++ e.text)

def stopFailedLine (what : String) : Except OcppError Unit → List Line
  | .ok () => []
  | .error e => [(.error, what ++ ": stop failed: " ++ e.text)]

def startBackend (v : StationView D) (x : StationAmbient) : StationView D × Except OcppError Unit :=
  ({ v with backend := (v.backend.start x).1 }, (v.backend.start x).2)

def handleStart (v : StationView D) (x : StationAmbient) : StationView D × Option Line :=
  match v.pending with
  | some (.applySetup edit _) => ({ v with pending := some (.applySetup edit (some .start)) }, none)
  | _ => ((v.startBackend x).1, some (connectedLine v.spec (v.startBackend x).2))

def handleStop (v : StationView D) : StationView D :=
  match v.pending with
  | some (.applySetup edit _) => { v with pending := some (.applySetup edit (some .stop)), lastStop := none }
  -- a stop is in flight already: only its follow-up is overwritten
  | some _ => { v with pending := some .stop, lastStop := none }
  | none =>
    match v.backend.requestStop with
    | (backend, .ok ()) => { v with backend := backend, pending := some .stop, lastStop := none }
    | (backend, .error e) => { v with backend := backend }.write [disconnectedLine (.error e)]

def handleRestart (v : StationView D) (x : StationAmbient) : StationView D × Option Line :=
  match v.pending with
  | some (.applySetup edit _) => ({ v with pending := some (.applySetup edit (some .restart)) }, none)
  | some _ => ({ v with pending := some .restart }, none)
  | none =>
    match v.backend.requestStop with
    | (backend, .ok ()) => ({ v with backend := backend, pending := some .restart }, none)
    | (backend, .error .notRunning) =>
      let started := { v with backend := backend }.startBackend x
      (started.1, some (reconnectedLine started.2))
    | (backend, .error e) => ({ v with backend := backend }, some (.error, "Restart failed: " ++ e.text))

def adopt (v : StationView D) (spec : OcppSpec) (path : String) (device : D) : StationView D :=
  { v with spec := spec, device := device, devicePath := path }.write [(.info, "Settings updated")]

def reconnect (v : StationView D) (wasOnline : Bool) (x : StationAmbient) : StationView D :=
  if wasOnline then
    match v.startBackend x with
    | (v, .ok ()) => v
    | (v, .error e) => v.write [(.error, "Restart after settings update failed: " ++ e.text)]
  else v

/-- An edit waits for a stop when one is or can be in flight, and runs at once otherwise. -/
def applySetupFollowUp (v : StationView D) (followUp : SetupFollowUp D) (x : StationAmbient) : StationView D :=
  match v.pending with
  | some _ => { v with pending := some (.applySetup followUp none) }
  | none =>
    match v.backend.requestStop with
    | (backend, .ok ()) => { v with backend := backend, pending := some (.applySetup followUp none) }
    | (backend, .error _) =>
      let v := { v with backend := backend }
      match followUp with
      | .replace role spec path device => { v with replacement := some ⟨role, spec, path, device, none, none⟩ }
      | .inPlace spec path device wasOnline => (v.adopt spec path device).reconnect wasOnline x

def applySetup (v : StationView D) (setup : ConfirmedSetup D) (x : StationAmbient) : StationView D :=
  if setup.spec.role = .server then
    v.applySetupFollowUp (.replace .server setup.spec setup.path setup.device) x
  else if setup.spec.version ≠ v.spec.version then
    let warning : Line := (.warning, "Version switched: scripts kept but may call actions the new version lacks")
    (v.write (if setup.scripts then [warning] else [])).applySetupFollowUp
      (.replace .client setup.spec setup.path setup.device) x
  else v.applySetupFollowUp (.inPlace setup.spec setup.path setup.device v.backend.online) x

def settleStop (v : StationView D) (stopped : Except OcppError Unit) : StationView D :=
  let line := disconnectedLine stopped
  { v with lastStop := some (.of line) }.write [line]

def settleRestart (v : StationView D) (stopped : Except OcppError Unit) (x : StationAmbient) : StationView D :=
  let started := (v.write (stopFailedLine "Reconnect" stopped)).startBackend x
  started.1.write [reconnectedLine started.2]

def settleApply (v : StationView D) (followUp : SetupFollowUp D) (next : Option MergedCommand)
    (stopped : Except OcppError Unit) (x : StationAmbient) : StationView D :=
  let stopError : Option String :=
    match stopped with
    | .ok () => none
    | .error e => some e.text
  let v := v.write (stopFailedLine "Settings update" stopped)
  match followUp with
  | .replace role spec path device => { v with replacement := some ⟨role, spec, path, device, next, stopError⟩ }
  | .inPlace spec path device wasOnline =>
    let v := v.adopt spec path device
    match next with
    | none => v.reconnect wasOnline x
    | some .stop =>
      let line := disconnectedLine stopped
      { v with lastStop := some (.of line) }.write [line]
    | some .start => (v.startBackend x).1.write [connectedLine v.spec (v.startBackend x).2]
    | some .restart => (v.startBackend x).1.write [reconnectedLine (v.startBackend x).2]

def follow (v : StationView D) (op : PendingLifecycle Empty (SetupFollowUp D)) (stopped : Except OcppError Unit)
    (x : StationAmbient) : StationView D :=
  let v := { v with pending := none }
  match op with
  | .stop => v.settleStop stopped
  | .restart => v.settleRestart stopped x
  | .applySetup followUp next => v.settleApply followUp next stopped x

def settle (v : StationView D) (x : StationAmbient) : StationView D :=
  match v.pending with
  | none => v
  | some op =>
    match v.backend.pollStop x with
    | (backend, none) => { v with backend := backend }
    | (backend, some stopped) => { v with backend := backend }.follow op stopped x

def refresh (v : StationView D) (x : StationAmbient) (confirmed : Option (ConfirmedSetup D)) : StationView D :=
  match confirmed with
  | none => v.settle x
  | some setup => (v.settle x).applySetup setup x

/-- What can happen to a tab; `online` is a callback of the client task. -/
inductive Event (D : Type) where
  | start (x : StationAmbient)
  | stop
  | restart (x : StationAmbient)
  | refresh (x : StationAmbient) (confirmed : Option (ConfirmedSetup D))
  | taskEnds
  | online (connected : Bool)

def step (v : StationView D) : Event D → StationView D
  | .start x => (v.handleStart x).1
  | .stop => v.handleStop
  | .restart x => (v.handleRestart x).1
  | .refresh x confirmed => v.refresh x confirmed
  | .taskEnds => { v with backend := v.backend.taskEnds }
  | .online connected => { v with backend := { v.backend with online := connected } }

def standing (v : StationView D) : Standing := ⟨v.pending.isSome, v.backend.client.phase⟩

variable {v : StationView D}

theorem quiet_startBackend (h : v.standing.Quiet) (x : StationAmbient) : (v.startBackend x).1.standing.Quiet := by
  refine ⟨h.1, ?_⟩
  rcases v.backend.start_cases x with ⟨-, hs⟩ | ⟨-, hs⟩
  · simp only [startBackend, hs]
    exact h.2
  · exact hs

theorem quiet_reconnect (h : v.standing.Quiet) (wasOnline : Bool) (x : StationAmbient) :
    (v.reconnect wasOnline x).standing.Quiet := by
  rw [reconnect]
  cases wasOnline with
  | false => exact h
  | true =>
    have hq := quiet_startBackend h x
    rcases hs : v.startBackend x with ⟨u, _ | _⟩ <;> rw [hs] at hq <;> exact hq

theorem quiet_follow (ht : v.backend.client = .idle)
    (op : PendingLifecycle Empty (SetupFollowUp D)) (stopped : Except OcppError Unit)
    (x : StationAmbient) : (v.follow op stopped x).standing.Quiet := by
  have hidle : v.backend.client.phase ≠ .stopping := by
    rw [ht]
    exact nofun
  cases op with
  | stop => exact ⟨rfl, hidle⟩
  | restart => exact quiet_startBackend (v := write { v with pending := none } _) ⟨rfl, hidle⟩ x
  | reload what => exact what.elim
  | applySetup followUp next =>
    cases followUp with
    | replace role spec path device => exact ⟨rfl, hidle⟩
    | inPlace spec path device wasOnline =>
      cases next with
      | none => exact quiet_reconnect (v := adopt (write { v with pending := none } _) spec path device) ⟨rfl, hidle⟩ _ x
      | some command =>
        cases command with
        | stop => exact ⟨rfl, hidle⟩
        | start | restart =>
          exact quiet_startBackend (v := adopt (write { v with pending := none } _) spec path device) ⟨rfl, hidle⟩ x

theorem settle_moves (v : StationView D) (x : StationAmbient) : Moves v.standing (v.settle x).standing := by
  rw [settle]
  cases hp : v.pending with
  | none => exact Relation.ReflTransGen.refl
  | some op =>
    rcases v.backend.pollStop_cases x with ⟨-, h⟩ | ⟨t, ht, h⟩
    · rw [h, standing, hp]
      exact Relation.ReflTransGen.refl
    · rw [h]
      rw [show v.standing = ⟨true, .stopping⟩ by rw [standing, hp, ht]; rfl]
      exact (quiet_follow rfl op x.joined x).settled

theorem stop_or_quiet (hv : v.standing.Awaited) (hp : v.pending = none) :
    (∃ t : Task, v.backend.requestStop = (⟨.stopping t.tell, false, false⟩, .ok ()) ∧ Moves v.standing ⟨true, .stopping⟩) ∨
      (v.backend.requestStop = (v.backend, .error .notRunning) ∧ v.standing.Quiet) := by
  rcases v.backend.requestStop_cases with ⟨t, ht, hr⟩ | ⟨-, hr⟩
  · refine Or.inl ⟨t, hr, ?_⟩
    rw [standing, hp, ht]
    exact Relation.ReflTransGen.single Move.begin
  · refine Or.inr ⟨hr, hv.quiet ?_⟩
    rw [standing, hp]
    rfl

theorem applySetupFollowUp_moves (hv : v.standing.Awaited) (followUp : SetupFollowUp D)
    (x : StationAmbient) : Moves v.standing (v.applySetupFollowUp followUp x).standing := by
  rw [applySetupFollowUp]
  cases hp : v.pending with
  | some op =>
    rw [standing, hp]
    exact Relation.ReflTransGen.refl
  | none =>
    rcases stop_or_quiet hv hp with ⟨t, hr, hm⟩ | ⟨hr, hq⟩
    · rw [hr]
      exact hm
    rw [hr]
    cases followUp with
    | replace role spec path device => exact hq.moves ⟨rfl, hq.2⟩
    | inPlace spec path device wasOnline =>
      refine hq.moves (quiet_reconnect (v := adopt _ spec path device) ?_ wasOnline x)
      exact ⟨rfl, hq.2⟩

theorem applySetup_moves (hv : v.standing.Awaited) (setup : ConfirmedSetup D) (x : StationAmbient) :
    Moves v.standing (v.applySetup setup x).standing := by
  rw [applySetup]
  split
  · exact applySetupFollowUp_moves hv _ x
  · split
    · exact applySetupFollowUp_moves (v := v.write _) hv _ x
    · exact applySetupFollowUp_moves hv _ x

/-- A `:start` meets nothing pending but an edit, or a client that is connected again. -/
def Clear (v : StationView D) : Event D → Prop
  | .start _ => ∀ op, v.pending = some op →
      (∃ edit next, op = .applySetup edit next) ∨ (v.backend.client ≠ .idle ∧ v.backend.online = true)
  | _ => True

theorem handleStop_moves (hv : v.standing.Awaited) : Moves v.standing v.handleStop.standing := by
  rw [handleStop]
  cases hp : v.pending with
  | some op =>
    rw [standing, hp]
    cases op <;> exact Relation.ReflTransGen.refl
  | none =>
    rcases stop_or_quiet hv hp with ⟨t, hr, hm⟩ | ⟨hr, hq⟩
    · rw [hr]
      exact hm
    · rw [hr]
      exact hq.moves ⟨rfl, hq.2⟩

theorem handleRestart_moves (hv : v.standing.Awaited) (x : StationAmbient) : Moves v.standing (v.handleRestart x).1.standing := by
  rw [handleRestart]
  cases hp : v.pending with
  | some op =>
    rw [standing, hp]
    cases op <;> exact Relation.ReflTransGen.refl
  | none =>
    rcases stop_or_quiet hv hp with ⟨t, hr, hm⟩ | ⟨hr, hq⟩
    · rw [hr]
      exact hm
    · rw [hr]
      refine hq.moves (quiet_startBackend ?_ x)
      exact ⟨rfl, hq.2⟩

theorem handleStart_moves (hv : v.standing.Awaited) (x : StationAmbient) (hc : v.Clear (.start x)) :
    Moves v.standing (v.handleStart x).1.standing := by
  cases hp : v.pending with
  | none =>
    have hq : v.standing.Quiet := hv.quiet (by rw [standing, hp]; rfl)
    rw [handleStart, hp]
    exact hq.moves (quiet_startBackend hq x)
  | some op =>
    rcases hc op hp with ⟨edit, next, rfl⟩ | hon
    · rw [handleStart, hp, standing, hp]
      exact Relation.ReflTransGen.refl
    rcases v.backend.start_cases x with ⟨-, h⟩ | ⟨hn, -⟩
    · rw [handleStart, standing, hp]
      cases op <;> simp only [startBackend, h, standing, hp] <;> exact Relation.ReflTransGen.refl
    · exact absurd hon hn

theorem taskEnds_phase (s : CsState) : s.taskEnds.phase = s.phase := by
  cases s <;> rfl

theorem step_moves (hv : v.standing.Awaited) (e : Event D) (hc : v.Clear e) : Moves v.standing (v.step e).standing := by
  cases e with
  | start x => exact handleStart_moves hv x hc
  | stop => exact handleStop_moves hv
  | restart x => exact handleRestart_moves hv x
  | refresh x confirmed =>
    have hs := v.settle_moves x
    cases confirmed with
    | none => exact hs
    | some setup => exact hs.trans (applySetup_moves (hs.awaited hv) setup x)
  | taskEnds => rw [standing, standing, step, OcppClient.taskEnds, taskEnds_phase]
  | online connected => exact Relation.ReflTransGen.refl

/-- **A step that is not clear strands what is pending**: the stopped task is gone, and with it the stop in flight. -/
theorem step_stranded {e : Event D} (hc : ¬ v.Clear e) : (v.step e).standing.Stranded := by
  cases e with
  | start x =>
    simp only [Clear, Classical.not_imp, not_forall, not_or] at hc
    obtain ⟨op, hp, hop, hoff⟩ := hc
    have hst : (v.handleStart x).1 = (v.startBackend x).1 := by
      rw [handleStart, hp]
      cases op with
      | applySetup edit next => exact absurd ⟨edit, next, rfl⟩ hop
      | _ => rfl
    rcases v.backend.start_cases x with ⟨hon, -⟩ | ⟨-, h⟩
    · exact absurd hon hoff
    · rw [step, hst]
      exact ⟨by rw [standing, startBackend, hp]; rfl, h⟩
  | _ => exact absurd trivial hc

structure Responsive (v : StationView D) : Prop where
  backed : v.pending.isSome = true → v.backend.client.phase = .stopping
  settles : ∀ x, v.backend.client.handle.all Task.finished = true → (v.refresh x none).pending = none
  logs_stop : ∀ x, v.pending = some .stop → (v.refresh x none).pending = none →
    ∃ stopped, (v.refresh x none).log.getLast? = some (disconnectedLine stopped)
  logs_restart : ∀ x, v.pending = some .restart → (v.refresh x none).pending = none →
    ∃ started, (v.refresh x none).log.getLast? = some (reconnectedLine started)
  reached : ∀ task, v.handleStop.backend.client.handle = some task → task.told = true

theorem exists_stopping (hb : v.standing.Backed) {op : PendingLifecycle Empty (SetupFollowUp D)}
    (hp : v.pending = some op) : ∃ t, v.backend.client = .stopping t := by
  have ht : v.backend.client.phase = .stopping := hb (by rw [standing, hp]; rfl)
  cases hs : v.backend.client with
  | stopping t => exact ⟨t, rfl⟩
  | idle | running t => exact nomatch hs ▸ ht

theorem settle_pending {x : StationAmbient} {t : ToldTask} (ht : v.backend.client = .stopping t)
    (hf : t.finished = true) : (v.settle x).pending = none := by
  rw [settle]
  cases hp : v.pending with
  | none => exact hp
  | some op =>
    rcases v.backend.pollStop_cases x with ⟨hw, -⟩ | ⟨t', -, hr⟩
    · exact nomatch (hw t ht).symm.trans hf
    · rw [hr]
      exact Option.not_isSome_iff_eq_none.1 (Bool.eq_false_iff.1 (quiet_follow rfl op x.joined x).1)

theorem settle_follows {x : StationAmbient} {op : PendingLifecycle Empty (SetupFollowUp D)}
    (hp : v.pending = some op) (hs : (v.settle x).pending = none) :
    ∃ backend stopped, v.settle x = { v with backend := backend }.follow op stopped x := by
  rcases hr : v.backend.pollStop x with ⟨backend, _ | stopped⟩
  · rw [settle, hp] at hs
    simp only [hr] at hs
    exact nomatch hs
  · exact ⟨backend, stopped, by rw [settle, hp]; simp only [hr]⟩

theorem handleStop_told (hb : v.standing.Backed) {task : Task}
    (ht : v.handleStop.backend.client.handle = some task) : task.told = true := by
  -- no task is held in the running state any more
  suffices hs : v.handleStop.backend.client.phase ≠ .running by
    cases hst : v.handleStop.backend.client with
    | idle => exact nomatch hst ▸ ht
    | running t => exact absurd (hst ▸ rfl) hs
    | stopping t =>
      rw [hst] at ht
      cases ht
      exact t.isTold
  rw [handleStop]
  cases hp : v.pending with
  | some op =>
    obtain ⟨t, hst⟩ := exists_stopping hb hp
    cases op <;> simp only [hst] <;> exact nofun
  | none =>
    rcases v.backend.requestStop_cases with ⟨t, -, hr⟩ | ⟨hn, hr⟩
    · rw [hr]
      exact nofun
    · rw [hr]
      exact hn

theorem responsive_iff (v : StationView D) : v.Responsive ↔ v.standing.Backed := by
  refine ⟨Responsive.backed, fun hb =>
    ⟨hb, fun x ha => ?_, fun x hp hs => ?_, fun x hp hs => ?_, fun task => handleStop_told hb⟩⟩
  · cases hp : v.pending with
    | none => simp only [refresh, settle, hp]
    | some op =>
      obtain ⟨t, ht⟩ := exists_stopping hb hp
      rw [ht] at ha
      exact settle_pending ht ha
  · obtain ⟨backend, stopped, h⟩ := settle_follows hp hs
    exact ⟨stopped, by rw [refresh, h]; simp [follow, settleStop, write]⟩
  · obtain ⟨backend, stopped, h⟩ := settle_follows hp hs
    exact ⟨_, by rw [refresh, h]; simp [follow, settleRestart, write, startBackend]; rfl⟩

theorem run_responsive_iff (spec : OcppSpec) (path : String) (device : D) {es : List (Event D)}
    (h : Run (fun v e u => u = v.step e) (StationView.new spec path device) es v) : v.Responsive ↔ ∀ pre e u, pre ++ [e] <+: es →
      Run (fun v e u => u = v.step e) (StationView.new spec path device) pre u → u.Clear e := by
  rw [responsive_iff]
  exact run_backed_iff standing Clear (fun _ e ht hc => step_moves ht e hc) (fun _ _ hc => step_stranded hc) h
    ⟨rfl, nofun⟩

end StationView
end

end Ocpp

namespace Lifecycle

open Modbus (TabView ModuleSpec LinkSettings SerialPathRegistry)
open Ocpp (StationView OcppSpec)

/-- **Pending operations of Modbus and charging-station tabs are backed by a stop in flight, with all that follows, exactly
as long as no `:start` takes the task from under a pending operation.** -/
theorem pending_backed_iff_starts_clear (Tls D : Type) :
    (∀ (expand : String → String) (spec : ModuleSpec) (device : LinkSettings Tls) (paths : SerialPathRegistry)
      (es : List (TabView.Event Tls)) (v : TabView Tls),
      Run (fun v e u => u = v.step expand e) (TabView.new expand spec device paths) es v →
        (v.Responsive expand ↔ ∀ pre e u, pre ++ [e] <+: es →
          Run (fun v e u => u = v.step expand e) (TabView.new expand spec device paths) pre u → u.Clear e)) ∧
    (∀ (spec : OcppSpec) (path : String) (device : D) (es : List (StationView.Event D)) (v : StationView D),
      Run (fun v e u => u = v.step e) (StationView.new spec path device) es v → (v.Responsive ↔ ∀ pre e u, pre ++ [e] <+: es →
          Run (fun v e u => u = v.step e) (StationView.new spec path device) pre u → u.Clear e)) :=
  ⟨fun expand spec device paths _ _ h => TabView.run_responsive_iff expand spec device paths h,
    fun spec path device _ _ h => StationView.run_responsive_iff spec path device h⟩

def demoSpec : ModuleSpec := ⟨"demo", "", .server, .tcp "127.0.0.1" 502⟩

def demoLink : LinkSettings Unit := ⟨none, none, none, none, ()⟩

def demoTab : TabView Unit := TabView.new id demoSpec demoLink .empty

def demoStation : StationView Unit := StationView.new ⟨"cp", .v1_6, .client, .ws, "127.0.0.1", 9000, "/cp"⟩ "" ()

def calm : Modbus.TabAmbient := ⟨0, .ok (), .cancelled⟩

def calmStation : Ocpp.StationAmbient := ⟨.ok (), .ok ()⟩

/-- Tabs that are started, stopped and refreshed. -/
theorem stopped_tabs_responsive :
    ([TabView.Event.start calm, .stop calm, .taskEnds, .refresh calm none].foldl (TabView.step id) demoTab).Responsive id ∧
    ([StationView.Event.start calmStation, .stop, .taskEnds].foldl StationView.step demoStation).Responsive := by
  refine ⟨((pending_backed_iff_starts_clear Unit Unit).1 id demoSpec demoLink .empty _ _ (Run.of_foldl _ _ _)).2
      (Run.forall_of_head (C := TabView.Clear) (fun _ _ => nofun) ?_),
    ((pending_backed_iff_starts_clear Unit Unit).2 _ _ _ _ _ (Run.of_foldl _ _ _)).2
      (Run.forall_of_head (C := StationView.Clear) (fun _ => nofun) ?_)⟩
  · rintro e he u
    simp only [List.mem_cons, List.not_mem_nil, or_false] at he
    rcases he with rfl | rfl | rfl <;> trivial
  · rintro e he u
    simp only [List.mem_cons, List.not_mem_nil, or_false] at he
    rcases he with rfl | rfl <;> trivial

/-- A `:start` between the end of the task and the next refresh: the new task runs under a pending stop, which no refresh
settles, and the next `:stop` does not reach it.  On a station any `:start` while the stop is pending does this. -/
theorem start_strands_pending_stop :
    (∃ v, Run (fun v e u => u = TabView.step id v e) demoTab [.start calm, .stop calm, .taskEnds, .start calm] v ∧
      v.pending = some .stop ∧ v.module.task = .running .fresh ∧ (v.refresh id calm none).pending = some .stop ∧
      (v.handleStop calm).module.task = .running .fresh) ∧
    (∃ v, Run (fun v e u => u = StationView.step v e) demoStation [.start calmStation, .stop, .start calmStation] v ∧
      v.pending = some .stop ∧ v.backend.client = .running .fresh ∧
      (v.refresh calmStation none).pending = some .stop ∧ v.handleStop.backend.client = .running .fresh) :=
  ⟨⟨_, Run.of_foldl _ _ _, rfl, rfl, rfl, rfl⟩, ⟨_, Run.of_foldl _ _ _, rfl, rfl, rfl, rfl⟩⟩

end Lifecycle
end Ferrowl
