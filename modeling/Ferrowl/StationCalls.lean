import Ferrowl.CodecText
import Ferrowl.OcppEndings
import Ferrowl.OcppFields
/-!
# StationCalls — the calls a station of version 1.6 is sent

`CsStateHandler` (`client/v1_6/handler.rs`) answers every call of the CSMS from the state of the station and its store of
configuration keys.  A call whose request names a connector the station does not have is refused before it is looked at; the
actions without a rule of their own are accepted.

A request has the fields the handler reads, and the rest of a profile is JSON.  The text of a float is a parameter; the log of the
messages is in `MessageTee`.
-/
namespace Ferrowl.Ocpp

open Wire (Value CallError)

namespace V16

/-! ## Requests and responses -/

structure ConfigKey where
  key : String
  value : String
  readonly : Bool
  deriving DecidableEq, Repr

inductive AvailabilityType where
  | operative
  | inoperative
  deriving DecidableEq, Repr

inductive Action where
  | getConfiguration (key : Option (List String))
  | changeConfiguration (key value : String)
  | setChargingProfile (connectorId : Int) (csChargingProfiles : Value)
  | changeAvailability (connectorId : Int) (kind : AvailabilityType)
  | remoteStartTransaction (connectorId : Option Int)
  | clearChargingProfile (connectorId : Option Int) (chargingProfilePurpose : Option String)
  | unlockConnector (connectorId : Int)
  /-- `ReserveNow` and `CancelReservation`. -/
  | reservation (call : ReservationCall)
  /-- `RemoteStopTransaction` and `Reset`. -/
  | ending (call : EndingCall)
  | other (name : String) (request : Value)

def Action.connectorId : Action → Option Int
  | setChargingProfile id _ | changeAvailability id _ | unlockConnector id => some id
  | remoteStartTransaction id | clearChargingProfile id _ => id
  | reservation (.reserveNow id _ _) => some id
  | other _ request => (request.index "connectorId").asI64
  | _ => none

inductive ConfigurationStatus where
  | accepted
  | rejected
  deriving DecidableEq, Repr

inductive Response where
  | default (action : String)
  | getConfiguration (configurationKey : Option (List ConfigKey)) (unknownKey : Option (List String))
  | changeConfiguration (status : ConfigurationStatus)
  | rejectedChargingProfile
  deriving DecidableEq, Repr

structure Reply where
  result : Except CallError Response
  context : String

def Reply.ofAnswer (a : Answer) : Reply := ⟨a.result.map .default, a.context⟩

def actionNames : List String :=
  ["Authorize", "BootNotification", "CancelReservation", "ChangeAvailability", "ChangeConfiguration", "ClearCache",
    "ClearChargingProfile", "DataTransfer", "DiagnosticsStatusNotification", "FirmwareStatusNotification",
    "GetCompositeSchedule", "GetConfiguration", "GetDiagnostics", "GetLocalListVersion", "Heartbeat", "MeterValues",
    "RemoteStartTransaction", "RemoteStopTransaction", "ReserveNow", "Reset", "SendLocalList", "SetChargingProfile",
    "StartTransaction", "StatusNotification", "StopTransaction", "TriggerMessage", "UnlockConnector", "UpdateFirmware"]

def defaultResponse (name : String) : Option Response := if name ∈ actionNames then some (.default name) else none

/-! ## The handler -/

namespace ConnectorState

def limited (purpose : String) (limit : BitVec 64) (unit : String) (c : ConnectorState) : ConnectorState :=
  match purpose with
  | "TxDefaultProfile" => { c with defaultLimit := some limit, defaultLimitUnit := unit }
  | "ChargePointMaxProfile" => { c with maxLimit := some limit, maxLimitUnit := unit }
  | _ => { c with limit := some limit, limitUnit := unit }

def clearLimitByPurpose (purpose : Option String) (c : ConnectorState) : ConnectorState :=
  match purpose with
  | some "TxProfile" => { c with limit := none }
  | some "TxDefaultProfile" => { c with defaultLimit := none }
  | some "ChargePointMaxProfile" => { c with maxLimit := none }
  | some _ => c
  | none => { c with limit := none, defaultLimit := none, maxLimit := none }

def withStatus (status : String) (c : ConnectorState) : ConnectorState := { c with status := status }

end ConnectorState

structure Station where
  state : CsState
  config : List ConfigKey
  deriving DecidableEq, Repr

structure Outcome where
  reply : Reply
  station : Station
  spawned : Option Scope

namespace Station

def onConnectors (st : Station) (f : List ConnectorState → List ConnectorState) : Station :=
  { st with state := { st.state with connectors := f st.state.connectors } }

def unknownConnector (st : Station) (action : Action) : Option Int :=
  action.connectorId.filter fun id => !(decide (id = 0) || (st.state.connectors.find? (hasId id)).isSome)

def configuration (config : List ConfigKey) : Option (List String) → List ConfigKey × List String
  | some wanted => (wanted.filterMap fun k => config.find? fun c => decide (c.key = k),
      wanted.filter fun k => (config.find? fun c => decide (c.key = k)).isNone)
  | none => (config, [])

def nonEmpty {α : Type} (l : List α) : Option (List α) := if l.isEmpty then none else some l

def changed (config : List ConfigKey) (key value : String) : ConfigurationStatus × List ConfigKey :=
  match config.find? fun c => decide (c.key = key) with
  | some c =>
    if c.readonly then (.rejected, config)
    else (.accepted, updateFirst (fun c => decide (c.key = key)) (fun c => { c with value := value }) config)
  | none => (.accepted, config ++ [⟨key, value, false⟩])

def maxStack (config : List ConfigKey) : Option Int :=
  (config.find? fun c => decide (c.key = "ChargeProfileMaxStackLevel")).bind fun c =>
    (Codec.intFromStr 64 c.value.toList).map BitVec.toInt

section
variable (showF64 : BitVec 64 → String)

def acceptProfile (st : Station) (connectorId : Int) (profile : Value) : Outcome :=
  let purpose := (profile.index "chargingProfilePurpose").asStr.getD "TxProfile"
  let schedule := profile.index "chargingSchedule"
  let period := (schedule.index "chargingSchedulePeriod").elem 0
  match (period.index "limit").asF64 with
  | some limit =>
    let unit := (schedule.index "chargingRateUnit").asStr.getD "A"
    ⟨⟨.ok (.default "SetChargingProfile"), purpose ++ " limit " ++ showF64 limit ++ " " ++ unit⟩,
      { st with state := st.state.onConnector (.ofConnector connectorId) (·.limited purpose limit unit) }, none⟩
  | none => ⟨⟨.ok (.default "SetChargingProfile"), "no limit in profile"⟩, st, none⟩

def setChargingProfile (st : Station) (connectorId : Int) (profile : Value) : Outcome :=
  let stack := (profile.index "stackLevel").asI64.getD 0
  match maxStack st.config with
  | some max =>
    if max < stack then
      ⟨⟨.ok .rejectedChargingProfile, "rejected: stackLevel " ++ toString stack ++ " > max " ++ toString max⟩, st, none⟩
    else acceptProfile showF64 st connectorId profile
  | none => acceptProfile showF64 st connectorId profile

def changeAvailability (st : Station) (connectorId : Int) (kind : AvailabilityType) : Outcome :=
  let status := match kind with
    | .operative => "Available"
    | .inoperative => "Unavailable"
  -- connector 0 is every connector
  let change : List ConnectorState → List ConnectorState :=
    if connectorId = 0 then List.map (·.withStatus status) else updateFirst (hasId connectorId) (·.withStatus status)
  ⟨⟨.ok (.default "ChangeAvailability"), "connector " ++ toString connectorId ++ " -> " ++ status⟩, st.onConnectors change, none⟩

def remoteStartTransaction (st : Station) (connectorId : Option Int) : Outcome :=
  let scope := connectorId.elim Scope.cs .ofConnector
  match (st.state.connectorIndex scope).bind (st.state.connectors[·]?) with
  | some c =>
    ⟨⟨.ok (.default "RemoteStartTransaction"), "starting tx on connector " ++ toString c.connectorId⟩, st, some scope⟩
  | none => ⟨⟨.ok (.default "RemoteStartTransaction"), "no connector to start"⟩, st, none⟩

def clearChargingProfile (st : Station) (connectorId : Option Int) (purpose : Option String) : Outcome :=
  let change : List ConnectorState → List ConnectorState := match connectorId with
    | some id => updateFirst (hasId id) (·.clearLimitByPurpose purpose)
    | none => List.map (·.clearLimitByPurpose purpose)
  ⟨⟨.ok (.default "ClearChargingProfile"), "charging profile cleared"⟩, st.onConnectors change, none⟩

def respond (st : Station) : Action → Outcome
  | .getConfiguration key =>
    let (keys, unknown) := configuration st.config key
    ⟨⟨.ok (.getConfiguration (nonEmpty keys) (nonEmpty unknown)), "answered from config"⟩, st, none⟩
  | .changeConfiguration key value =>
    let (status, config) := changed st.config key value
    ⟨⟨.ok (.changeConfiguration status), key ++ " = " ++ value⟩, { st with config := config }, none⟩
  | .setChargingProfile connectorId profile => st.setChargingProfile showF64 connectorId profile
  | .changeAvailability connectorId kind => st.changeAvailability connectorId kind
  | .remoteStartTransaction connectorId => st.remoteStartTransaction connectorId
  | .clearChargingProfile connectorId purpose => st.clearChargingProfile connectorId purpose
  | .unlockConnector connectorId =>
    ⟨⟨.ok (.default "UnlockConnector"), "connector " ++ toString connectorId ++ " unlocked"⟩,
      st.onConnectors (updateFirst (hasId connectorId) (·.withStatus "Available")), none⟩
  | .reservation call =>
    let (answer, state) := V16.respond st.state call
    ⟨.ofAnswer answer, { st with state := state }, none⟩
  | .ending call =>
    let (answer, state) := respondEnding st.state call
    ⟨.ofAnswer answer, { st with state := state }, none⟩
  | .other name _ =>
    match defaultResponse name with
    | some resp => ⟨⟨.ok resp, "default-accepted"⟩, st, none⟩
    | none =>
      ⟨⟨.error (.new .notImplemented "action not handled by the charging-station simulator"), "not implemented"⟩, st, none⟩

def handleCall (st : Station) (action : Action) : Outcome :=
  match st.unknownConnector action with
  | some id =>
    ⟨⟨.error (.new .propertyConstraintViolation "unknown connectorId"), "unknown connector " ++ toString id⟩, st, none⟩
  | none => st.respond showF64 action

end

/-- The end of a remote start: the response to its `StartTransaction`, if the call was sent and answered. -/
def finishRemoteStart (st : Station) (scope : Scope) : Option Value → Station
  | some response => { st with state := applyPostSend st.state "StartTransaction" scope response }
  | none => st

/-! ## What a call changes -/

/-- **Of two states of a station, the second differs only in the connector `k`.** -/
structure TouchesOnly (k : Int) (st st' : Station) : Prop where
  station : st' = st.onConnectors fun _ => st'.state.connectors
  ids : st'.state.ids = st.state.ids
  others : ∀ (j : Nat) c, st.state.connectors[j]? = some c → c.connectorId ≠ k → st'.state.connectors[j]? = some c

/-- The station of the outcome differs in the connector `k` only, and a start that was spawned is for this one. -/
structure ConcernsOnly (k : Int) (st : Station) (out : Outcome) : Prop where
  touches : TouchesOnly k st out.station
  spawns : ∀ scope, out.spawned = some scope → scope = .ofConnector k

section
variable {k : Int} {st : Station}

theorem TouchesOnly.concerns {st' : Station} (h : TouchesOnly k st st') (reply : Reply) :
    ConcernsOnly k st ⟨reply, st', none⟩ := ⟨h, nofun⟩

theorem TouchesOnly.rfl : TouchesOnly k st st := ⟨Eq.refl _, Eq.refl _, fun _ _ hc _ => hc⟩

theorem touchesOnly_updateFirst {f : ConnectorState → ConnectorState} (hf : ∀ c, (f c).connectorId = c.connectorId) :
    TouchesOnly k st (st.onConnectors (updateFirst (hasId k) f)) where
  station := Eq.refl _
  ids := by
    show (updateFirst (hasId k) f st.state.connectors).map (·.connectorId) = _
    rw [updateFirst]
    split
    · exact CsState.ids_modify hf _ _
    · rfl
  others j c hc hk := getElem?_updateFirst_of_not hc (decide_eq_false hk) f

theorem onConnector_of_isSome (hk : (st.state.connectors.find? (hasId k)).isSome) (f : ConnectorState → ConnectorState) :
    { st with state := st.state.onConnector (.ofConnector k) f } = st.onConnectors (updateFirst (hasId k) f) := by
  obtain ⟨i, hi⟩ : ∃ i, st.state.connectors.findIdx? (hasId k) = some i := by
    rw [← Option.isSome_iff_exists, List.findIdx?_isSome]
    exact List.any_eq_true.2 (List.find?_isSome.1 hk)
  have hindex : st.state.connectorIndex (.ofConnector k) = some i := by
    rw [CsState.connectorIndex]
    show (st.state.connectors.findIdx? (hasId k)).or _ = some i
    rw [hi, Option.some_or]
  rw [CsState.onConnector, hindex, onConnectors, updateFirst_of_some hi]

theorem touchesOnly_onConnector (hk : (st.state.connectors.find? (hasId k)).isSome) {f : ConnectorState → ConnectorState}
    (hf : ∀ c, (f c).connectorId = c.connectorId) :
    TouchesOnly k st { st with state := st.state.onConnector (.ofConnector k) f } := by
  rw [onConnector_of_isSome hk]
  exact touchesOnly_updateFirst hf

section
variable (showF64 : BitVec 64 → String)

theorem concernsOnly_acceptProfile (hk : (st.state.connectors.find? (hasId k)).isSome) (profile : Value) :
    ConcernsOnly k st (st.acceptProfile showF64 k profile) := by
  unfold acceptProfile
  dsimp only
  split
  · refine (touchesOnly_onConnector hk fun c => ?_).concerns _
    unfold ConnectorState.limited
    split <;> rfl
  · exact TouchesOnly.rfl.concerns _

theorem concernsOnly_setChargingProfile (hk : (st.state.connectors.find? (hasId k)).isSome) (profile : Value) :
    ConcernsOnly k st (st.setChargingProfile showF64 k profile) := by
  unfold setChargingProfile
  dsimp only
  split
  · split
    · exact TouchesOnly.rfl.concerns _
    · exact concernsOnly_acceptProfile showF64 hk profile
  · exact concernsOnly_acceptProfile showF64 hk profile

theorem concernsOnly_changeAvailability (h0 : k ≠ 0) (kind : AvailabilityType) :
    ConcernsOnly k st (st.changeAvailability k kind) := by
  unfold changeAvailability
  dsimp only
  rw [if_neg h0]
  refine (touchesOnly_updateFirst fun c => ?_).concerns _
  rfl

theorem concernsOnly_remoteStartTransaction : ConcernsOnly k st (st.remoteStartTransaction (some k)) := by
  unfold remoteStartTransaction
  dsimp only
  split
  · exact ⟨TouchesOnly.rfl, fun scope h => (Option.some.inj h).symm⟩
  · exact TouchesOnly.rfl.concerns _

theorem concernsOnly_reserveNow {id : Nat} (hk : (st.state.connectors.find? (hasId id)).isSome) (h0 : (id : Int) ≠ 0)
    (idTag : String) (reservationId : Int) :
    ConcernsOnly id st (st.respond showF64 (.reservation (.reserveNow id idTag reservationId))) := by
  have hid : id ≠ 0 := fun h => h0 (congrArg Nat.cast h)
  obtain ⟨c, hc⟩ := Option.isSome_iff_exists.1 hk
  simp only [respond, V16.respond, if_neg hid, hc]
  refine (touchesOnly_updateFirst fun c => ?_).concerns _
  rfl

theorem concernsOnly_other (name : String) (request : Value) : ConcernsOnly k st (st.respond showF64 (.other name request)) := by
  simp only [respond]
  split <;> exact TouchesOnly.rfl.concerns _

theorem concernsOnly_respond (hk : (st.state.connectors.find? (hasId k)).isSome) (h0 : k ≠ 0) {action : Action}
    (haction : action.connectorId = some k) : ConcernsOnly k st (st.respond showF64 action) := by
  cases action with
  | getConfiguration key => cases haction
  | changeConfiguration key value => cases haction
  | setChargingProfile connectorId profile =>
    cases haction
    exact concernsOnly_setChargingProfile showF64 hk profile
  | changeAvailability connectorId kind =>
    cases haction
    exact concernsOnly_changeAvailability h0 kind
  | remoteStartTransaction connectorId =>
    cases haction
    exact concernsOnly_remoteStartTransaction
  | clearChargingProfile connectorId purpose =>
    cases haction
    refine (touchesOnly_updateFirst fun c => ?_).concerns _
    unfold ConnectorState.clearLimitByPurpose
    split <;> rfl
  | unlockConnector connectorId =>
    cases haction
    refine (touchesOnly_updateFirst fun c => ?_).concerns _
    rfl
  | reservation call =>
    cases call with
    | reserveNow connectorId idTag reservationId =>
      cases haction
      exact concernsOnly_reserveNow showF64 hk h0 idTag reservationId
    | cancelReservation reservationId => cases haction
  | ending call => cases call <;> cases haction
  | other name request => exact concernsOnly_other showF64 name request

theorem touchesOnly_finishRemoteStart (hk : (st.state.connectors.find? (hasId k)).isSome) (response : Option Value) :
    TouchesOnly k st (st.finishRemoteStart (.ofConnector k) response) := by
  cases response with
  | none => exact TouchesOnly.rfl
  | some response => exact touchesOnly_onConnector hk fun _ => rfl

/-- **A call touches only the connector it names**, and the start it may spawn too, at whatever later state its reply is taken
up; it is refused if the station has no such connector. -/
theorem call_touches_named_connector (st : Station) (action : Action) (haction : action.connectorId = some k) (h0 : k ≠ 0) :
    ((∀ c ∈ st.state.connectors, c.connectorId ≠ k) →
      (st.handleCall showF64 action).reply.result = .error (.new .propertyConstraintViolation "unknown connectorId") ∧
        (st.handleCall showF64 action).station = st ∧ (st.handleCall showF64 action).spawned = none) ∧
    ((∃ c ∈ st.state.connectors, c.connectorId = k) → TouchesOnly k st (st.handleCall showF64 action).station ∧
        ∀ scope later response, (st.handleCall showF64 action).spawned = some scope →
          (∃ c ∈ later.state.connectors, c.connectorId = k) → TouchesOnly k later (later.finishRemoteStart scope response)) := by
  have hknown : ∀ {st : Station}, (∃ c ∈ st.state.connectors, c.connectorId = k) →
      (st.state.connectors.find? (hasId k)).isSome := by
    rintro st ⟨c, hc, hid⟩
    exact List.find?_isSome.2 ⟨c, hc, decide_eq_true hid⟩
  constructor
  · intro hnone
    have hfind : st.state.connectors.find? (hasId k) = none :=
      List.find?_eq_none.2 fun c hc h => hnone c hc (of_decide_eq_true h)
    have hunknown : st.unknownConnector action = some k := by
      rw [unknownConnector, haction]
      simp [hfind, h0]
    rw [handleCall, hunknown]
    exact ⟨rfl, rfl, rfl⟩
  intro hsome
  have hunknown : st.unknownConnector action = none := by
    rw [unknownConnector, haction, Option.filter_some, hknown hsome, Bool.or_true]
    rfl
  rw [handleCall, hunknown]
  obtain ⟨htouches, hspawns⟩ := concernsOnly_respond showF64 (hknown hsome) h0 haction
  refine ⟨htouches, fun scope later response hscope hlater => ?_⟩
  rw [hspawns scope hscope]
  exact touchesOnly_finishRemoteStart (hknown hlater) response

theorem unlock_touches_connector_two :
    TouchesOnly 2 ⟨twoConnectors, []⟩ (handleCall (fun _ => "") ⟨twoConnectors, []⟩ (.unlockConnector 2)).station ∧
      (handleCall (fun _ => "") ⟨twoConnectors, []⟩ (.unlockConnector 3)).station = ⟨twoConnectors, []⟩ :=
  ⟨((call_touches_named_connector (fun _ => "") ⟨twoConnectors, []⟩ (.unlockConnector 2) rfl (by decide)).2
      (by decide)).1,
    ((call_touches_named_connector (fun _ => "") ⟨twoConnectors, []⟩ (.unlockConnector 3) rfl (by decide)).1
      (by decide)).2.1⟩

end

end

end Station

end V16
end Ferrowl.Ocpp
