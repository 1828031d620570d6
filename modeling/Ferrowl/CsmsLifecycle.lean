import Ferrowl.StationLifecycle
/-!
# CsmsLifecycle — starting and stopping an OCPP server tab

The server's side of `StationLifecycle`: `OcppServer` owns the listening task, `ServerView` keeps the pending slot and the wish
to run, which binds the listener on a refresh.  The entries of the stations are left out (they are in `CsmsView`), as are the
scripts.
-/
namespace Ferrowl.Ocpp

open Lifecycle

inductive CsmsState where
  | idle
  | running (server : Task)
  | stopping (server : ToldTask)
  deriving DecidableEq, Repr

/-- What the environment decides during a call: whether the listener can be bound, and then whether on an ephemeral
certificate, whether it is bound already, and how the ended task is joined. -/
structure CsmsAmbient where
  bound : Except OcppError Bool
  online : Bool
  joined : Except OcppError Unit

namespace CsmsState

def requestStop : CsmsState → CsmsState × Except OcppError Unit
  | running t => (stopping t.tell, .ok ())
  | s => (s, .error .notRunning)

def pollStop (s : CsmsState) (x : CsmsAmbient) : CsmsState × Option (Except OcppError Unit) :=
  match s with
  | stopping t => if t.finished then (idle, some x.joined) else (stopping t, none)
  | s => (s, none)

/-- A listener that is there already is left alone, whatever it does; the binding it reports is that of the spec. -/
def start (s : CsmsState) (x : CsmsAmbient) (selfSigned : Bool) : CsmsState × Except OcppError Bool :=
  match s with
  | idle =>
    match x.bound with
    | .ok selfSigned => (running Task.fresh, .ok selfSigned)
    | .error e => (idle, .error e)
  | s => (s, .ok selfSigned)

def taskEnds : CsmsState → CsmsState
  | idle => idle
  | running t => running t.ended
  | stopping t => stopping t.ended

end CsmsState

section
variable {D : Type}

inductive CsmsFollowUp (D : Type) where
  | replace (role : OcppRole) (spec : OcppSpec) (path : String) (device : D)
  | inPlace (spec : OcppSpec) (path : String) (device : D)

structure CsmsTab (D : Type) where
  spec : OcppSpec
  device : D
  devicePath : String
  backend : CsmsState
  wantRunning : Bool
  pending : Option (PendingLifecycle Empty (CsmsFollowUp D))
  replacement : Option (Replacement D)
  lastStop : Option StopOutcome
  log : List Line

namespace CsmsTab

def new (spec : OcppSpec) (devicePath : String) (device : D) (wantRunning : Bool) : CsmsTab D where
  spec := spec
  device := device
  devicePath := devicePath
  backend := .idle
  wantRunning := wantRunning
  pending := none
  replacement := none
  lastStop := none
  log := []

def write (v : CsmsTab D) (lines : List Line) : CsmsTab D := { v with log := v.log ++ lines }

def startedLine (verb : String) : Except OcppError Bool → Line
  | .ok true =>
    (.info, "CSMS server " ++ verb ++ " (wss without certificates: using an ephemeral self-signed certificate)")
  | .ok false => (.info, "CSMS server " ++ verb)
  | .error e => (.error, "listen failed: " ++ e.text)

def stoppedLine : Except OcppError Unit → Line
  | .ok () => (.info, "CSMS server stopped")
  | .error e => (.error, "CSMS server stop failed: " ++ e.text)

def startBackend (v : CsmsTab D) (x : CsmsAmbient) : CsmsTab D × Except OcppError Bool :=
  let started := v.backend.start x (x.bound.toOption.getD false)
  ({ v with backend := started.1 }, started.2)

def handleStart (v : CsmsTab D) (x : CsmsAmbient) : CsmsTab D × Option Line :=
  let v := { v with wantRunning := true }
  match v.pending with
  | some (.applySetup edit _) => ({ v with pending := some (.applySetup edit (some .start)) }, none)
  | _ => ((v.startBackend x).1, some (startedLine "started" (v.startBackend x).2))

def handleStop (v : CsmsTab D) : CsmsTab D :=
  let v := { v with wantRunning := false }
  match v.pending with
  | some (.applySetup edit _) => { v with pending := some (.applySetup edit (some .stop)), lastStop := none }
  | some _ => { v with pending := some .stop, lastStop := none }
  | none =>
    match v.backend.requestStop with
    | (backend, .ok ()) => { v with backend := backend, pending := some .stop, lastStop := none }
    | (backend, .error e) => { v with backend := backend }.write [stoppedLine (.error e)]

def handleRestart (v : CsmsTab D) (x : CsmsAmbient) : CsmsTab D × Option Line :=
  match v.pending with
  | some (.applySetup edit _) => ({ v with pending := some (.applySetup edit (some .restart)) }, none)
  | some _ => ({ v with pending := some .restart }, none)
  | none =>
    match v.backend.requestStop with
    | (backend, .ok ()) => ({ v with backend := backend, pending := some .restart }, none)
    | (backend, .error .notRunning) =>
      let started := { v with backend := backend, wantRunning := true }.startBackend x
      (started.1, some (startedLine "restarted" started.2))
    | (backend, .error e) => ({ v with backend := backend }, some (.error, "Restart failed: " ++ e.text))

def adopt (v : CsmsTab D) (spec : OcppSpec) (path : String) (device : D) : CsmsTab D :=
  { v with spec := spec, device := device, devicePath := path }.write [(.info, "Settings updated")]

/-- An edit waits for a stop when one is or can be in flight, and runs at once otherwise; with whether it waits. -/
def applySetupFollowUp (v : CsmsTab D) (followUp : CsmsFollowUp D) : Bool × CsmsTab D :=
  match v.pending with
  | some _ => (true, { v with pending := some (.applySetup followUp none) })
  | none =>
    match v.backend.requestStop with
    | (backend, .ok ()) => (true, { v with backend := backend, pending := some (.applySetup followUp none) })
    | (backend, .error _) =>
      let v := { v with backend := backend }
      match followUp with
      | .replace role spec path device => (false, { v with replacement := some ⟨role, spec, path, device, none, none⟩ })
      | .inPlace spec path device => (false, v.adopt spec path device)

def applySetup (v : CsmsTab D) (setup : ConfirmedSetup D) : Bool × CsmsTab D :=
  if setup.spec.role = .client then
    (false, (v.applySetupFollowUp (.replace .client setup.spec setup.path setup.device)).2)
  else if setup.spec.version ≠ v.spec.version then
    (false, (v.applySetupFollowUp (.replace .server setup.spec setup.path setup.device)).2)
  else
    let applied := v.applySetupFollowUp (.inPlace setup.spec setup.path setup.device)
    (!applied.1, applied.2)

def settleApply (v : CsmsTab D) (followUp : CsmsFollowUp D) (next : Option MergedCommand)
    (stopped : Except OcppError Unit) (x : CsmsAmbient) : CsmsTab D :=
  let stopError : Option String :=
    match stopped with
    | .ok () => none
    | .error e => some e.text
  let v := v.write (StationView.stopFailedLine "Settings update" stopped)
  match followUp with
  | .replace role spec path device => { v with replacement := some ⟨role, spec, path, device, next, stopError⟩ }
  | .inPlace spec path device =>
    let v := v.adopt spec path device
    match next with
    | none => v
    | some .stop => { v with lastStop := some (.of (stoppedLine stopped)) }.write [stoppedLine stopped]
    | some .start =>
      let started := { v with wantRunning := true }.startBackend x
      started.1.write [startedLine "started" started.2]
    | some .restart =>
      let started := { v with wantRunning := true }.startBackend x
      started.1.write [startedLine "restarted" started.2]

def settle (v : CsmsTab D) (x : CsmsAmbient) : CsmsTab D :=
  match v.pending with
  | none => v
  | some op =>
    match v.backend.pollStop x with
    | (backend, none) => { v with backend := backend }
    | (backend, some stopped) =>
      let v := { v with backend := backend, pending := none }
      match op with
      | .stop => { v with lastStop := some (.of (stoppedLine stopped)) }.write [stoppedLine stopped]
      | .restart =>
        let v := v.write (StationView.stopFailedLine "Restart" stopped)
        let started := { v with wantRunning := true }.startBackend x
        started.1.write [startedLine "restarted" started.2]
      | .applySetup followUp next => v.settleApply followUp next stopped x

def autoBind (v : CsmsTab D) (x : CsmsAmbient) : CsmsTab D :=
  if v.wantRunning ∧ x.online = false ∧ v.pending.isNone then
    match v.startBackend x with
    | (v, .ok _) => v
    | (v, .error e) => { v with wantRunning := false }.write [(.error, "listen failed: " ++ e.text)]
  else v

def refresh (v : CsmsTab D) (x : CsmsAmbient) (confirmed : Option (ConfirmedSetup D)) : CsmsTab D :=
  let v := v.settle x
  match confirmed with
  | none => v.autoBind x
  | some setup =>
    let applied := v.applySetup setup
    if applied.1 then applied.2.autoBind x else applied.2

end CsmsTab
end
end Ferrowl.Ocpp
