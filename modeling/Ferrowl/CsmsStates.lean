import Ferrowl.CsmsView
/-!
# CsmsStates — what a CSMS observes of stations and connectors

The two versions of the protocol as a CSMS sees them (`server/v1_6`, `server/v2_0_1` and `server/v2_common.rs`; version 2.1 has
the states and rules of 2.0.1).  The clock, the text of a float and the division by 1000 are parameters.
-/
namespace Ferrowl.Ocpp.Csms

open Wire (Value)

structure Platform where
  now : String
  showF64 : BitVec 64 → String
  perThousand : BitVec 64 → BitVec 64

def takeStr (v : Value) (old : String) : String := v.asStr.getD old

/-! ## Metering -/

structure Meter where
  voltage : BitVec 64
  current : Vector (BitVec 64) 3
  power : BitVec 64
  frequency : BitVec 64
  totalEnergy : BitVec 64
  sessionEnergy : BitVec 64
  soc : BitVec 64
  temperature : BitVec 64
  deriving DecidableEq, Repr

namespace Meter

def zero : Meter := ⟨0, .replicate 3 0, 0, 0, 0, 0, 0, 0⟩

section
variable (p : Platform)

def sample (m : Meter) (s : Value) (value : BitVec 64) : Meter :=
  match (s.index "measurand").asStr.getD "Energy.Active.Import.Register" with
  | "Voltage" => { m with voltage := value }
  | "Power.Active.Import" => { m with power := value }
  | "Frequency" => { m with frequency := value }
  | "Temperature" => { m with temperature := value }
  | "SoC" => { m with soc := value }
  | "Energy.Active.Import.Register" => { m with totalEnergy := p.perThousand value }
  | "Energy.Active.Import.Interval" => { m with sessionEnergy := p.perThousand value }
  | "Current.Import" =>
    match (s.index "phase").asStr with
    | some "L2" => { m with current := m.current.set 1 value }
    | some "L3" => { m with current := m.current.set 2 value }
    | _ => { m with current := m.current.set 0 value }
  | _ => m

def applyMeterValues (read : Value → Option (BitVec 64)) (m : Meter) (request : Value) : Meter :=
  match (request.index "meterValue").asArray with
  | none => m
  | some values => values.foldl (fun m mv =>
      match (mv.index "sampledValue").asArray with
      | none => m
      | some samples => samples.foldl (fun m s => m.sample p s ((read (s.index "value")).getD 0)) m) m

def getFieldStr (m : Meter) : String → Option String
  | "Voltage" => some (p.showF64 m.voltage)
  | "CurrentL1" => some (p.showF64 m.current[0])
  | "CurrentL2" => some (p.showF64 m.current[1])
  | "CurrentL3" => some (p.showF64 m.current[2])
  | "Power" => some (p.showF64 m.power)
  | "Frequency" => some (p.showF64 m.frequency)
  | "TotalEnergy" => some (p.showF64 m.totalEnergy)
  | "SessionEnergy" => some (p.showF64 m.sessionEnergy)
  | "Soc" => some (p.showF64 m.soc)
  | "Temperature" => some (p.showF64 m.temperature)
  | _ => none

end

end Meter

/-! ## Version 1.6 -/

namespace V16

structure CsLevelState where
  model : String
  vendor : String
  firmwareVersion : String
  serialNumber : String
  iccid : String
  lastHeartbeat : String
  deriving DecidableEq, Repr

structure ConnectorState where
  connectorId : Int
  phases : String
  meter : Meter
  status : String
  rfid : String
  transactionId : Option Int
  /-- The limits of the profiles that were sent and accepted; this one lasts as long as the transaction. -/
  limit : Option (BitVec 64)
  limitUnit : String
  defaultLimit : Option (BitVec 64)
  defaultLimitUnit : String
  maxLimit : Option (BitVec 64)
  maxLimitUnit : String
  deriving DecidableEq, Repr

section
variable (p : Platform)

namespace CsLevelState

def default : CsLevelState := ⟨"", "", "", "", "", ""⟩

def applyInbound (s : CsLevelState) (name : String) (request _response : Value) : CsLevelState :=
  match name with
  | "BootNotification" => { s with
      model := takeStr (request.index "chargePointModel") s.model
      vendor := takeStr (request.index "chargePointVendor") s.vendor
      firmwareVersion := takeStr (request.index "firmwareVersion") s.firmwareVersion
      serialNumber := takeStr (request.index "chargePointSerialNumber") s.serialNumber
      iccid := takeStr (request.index "iccid") s.iccid }
  | "Heartbeat" => { s with lastHeartbeat := p.now }
  | "FirmwareStatusNotification" =>
    match (request.index "status").asStr with
    | some status => { s with firmwareVersion := s.firmwareVersion ++ " (" ++ status ++ ")" }
    | none => s
  | _ => s

def getFieldStr (s : CsLevelState) : String → Option String
  | "Model" => some s.model
  | "Vendor" => some s.vendor
  | "FirmwareVersion" => some s.firmwareVersion
  | "SerialNumber" => some s.serialNumber
  | "Iccid" => some s.iccid
  | "LastHeartbeat" => some s.lastHeartbeat
  | _ => none

end CsLevelState

namespace ConnectorState

def default : ConnectorState where
  connectorId := 0
  phases := "L1,L2,L3"
  meter := .zero
  status := "Unknown"
  rfid := ""
  transactionId := none
  limit := none
  limitUnit := "A"
  defaultLimit := none
  defaultLimitUnit := "A"
  maxLimit := none
  maxLimitUnit := "A"

def stopped (c : ConnectorState) : ConnectorState := { c with transactionId := none, limit := none, status := "Available" }

def applyInbound (c : ConnectorState) (name : String) (request response : Value) : ConnectorState :=
  let c := { c with connectorId := (request.index "connectorId").asI64.getD c.connectorId }
  match name with
  | "StatusNotification" => { c with status := takeStr (request.index "status") c.status }
  -- the CSMS gives out the number of a transaction in its response
  | "StartTransaction" => { c with
      rfid := takeStr (request.index "idTag") c.rfid
      transactionId := (response.index "transactionId").asI64.or c.transactionId
      status := "Charging" }
  | "StopTransaction" => c.stopped
  | "MeterValues" =>
    let read := fun (v : Value) => v.asStr.bind fun s => f64FromStr s.toList
    { c with meter := c.meter.applyMeterValues p read request }
  | _ => c

def applyOutbound (c : ConnectorState) (name : String) (request response : Value) : ConnectorState :=
  if name ≠ "SetChargingProfile" ∨ (response.index "status").asStr ≠ some "Accepted" then c
  else
    let profile := request.index "csChargingProfiles"
    let schedule := profile.index "chargingSchedule"
    match (((schedule.index "chargingSchedulePeriod").elem 0).index "limit").asF64 with
    | none => c
    | some limit =>
      let unit := (schedule.index "chargingRateUnit").asStr.getD "A"
      match (profile.index "chargingProfilePurpose").asStr with
      | some "TxDefaultProfile" => { c with defaultLimit := some limit, defaultLimitUnit := unit }
      | some "ChargePointMaxProfile" => { c with maxLimit := some limit, maxLimitUnit := unit }
      | _ => { c with limit := some limit, limitUnit := unit }

def getFieldStr (c : ConnectorState) : String → Option String
  | "ConnectorId" => some (toString c.connectorId)
  | "Phases" => some c.phases
  | "Status" => some c.status
  | "Rfid" => some c.rfid
  | "TransactionId" => some ((c.transactionId.map toString).getD "")
  | "ChargeLimit" => c.limit.map p.showF64
  | "DefaultChargeLimit" => c.defaultLimit.map p.showF64
  | "MaxChargeLimit" => c.maxLimit.map p.showF64
  | name => c.meter.getFieldStr p name

end ConnectorState

def inboundConnector (_name : String) (request : Value) : Scope :=
  match (request.get "connectorId").bind Value.asI64 with
  | some c => if 1 ≤ c then .ofConnector c else .cs
  | none => .cs

def stoppedTx (name : String) (request : Value) : Option Int :=
  if name = "StopTransaction" then (request.index "transactionId").asI64 else none

def parseConfig (response : Value) : List (String × String × Bool) :=
  ((response.index "configurationKey").asArray.getD []).filterMap (fun k =>
      (k.index "key").asStr.map fun name =>
        (name, (k.index "value").asStr.getD "", (k.index "readonly").asBool.getD false)) ++
    ((response.index "unknownKey").asArray.getD []).filterMap fun k => k.asStr.map fun name => (name, "<unknown>", false)

def version : ServerVersion where
  cs := ⟨CsLevelState, .default, CsLevelState.applyInbound p, fun s _ _ _ => s, CsLevelState.getFieldStr⟩
  conn := ⟨ConnectorState, .default, ConnectorState.applyInbound p, ConnectorState.applyOutbound, ConnectorState.getFieldStr p⟩
  inboundConnector := inboundConnector
  stopTxId name request := (stoppedTx name request).map toString
  configAction := "GetConfiguration"
  parseConfig := parseConfig

end

end V16

/-! ## Version 2.x -/

namespace V2

structure CsLevelState where
  model : String
  vendor : String
  firmwareVersion : String
  serialNumber : String
  lastHeartbeat : String
  deriving DecidableEq, Repr

structure ConnectorState where
  evseId : Int
  meter : Meter
  status : String
  rfid : String
  transactionId : Option String
  limit : Option (BitVec 64)
  limitUnit : String
  defaultLimit : Option (BitVec 64)
  defaultLimitUnit : String
  maxLimit : Option (BitVec 64)
  maxLimitUnit : String
  externalLimit : Option (BitVec 64)
  externalLimitUnit : String
  deriving DecidableEq, Repr

def evseId (request : Value) : Option Int := ((request.index "evse").index "id").asI64.or (request.index "evseId").asI64

def evseOf (request : Value) : Option Int := (evseId request).or (request.index "connectorId").asI64

section
variable (p : Platform)

namespace CsLevelState

def default : CsLevelState := ⟨"", "", "", "", ""⟩

def applyInbound (s : CsLevelState) (name : String) (request _response : Value) : CsLevelState :=
  match name with
  | "BootNotification" =>
    let cs := request.index "chargingStation"
    { s with
      model := takeStr (cs.index "model") s.model
      vendor := takeStr (cs.index "vendorName") s.vendor
      firmwareVersion := takeStr (cs.index "firmwareVersion") s.firmwareVersion
      serialNumber := takeStr (cs.index "serialNumber") s.serialNumber }
  | "Heartbeat" => { s with lastHeartbeat := p.now }
  | _ => s

def getFieldStr (s : CsLevelState) : String → Option String
  | "Model" => some s.model
  | "Vendor" => some s.vendor
  | "FirmwareVersion" => some s.firmwareVersion
  | "SerialNumber" => some s.serialNumber
  | "LastHeartbeat" => some s.lastHeartbeat
  | _ => none

end CsLevelState

namespace ConnectorState

def default : ConnectorState where
  evseId := 0
  meter := .zero
  status := "Unknown"
  rfid := ""
  transactionId := none
  limit := none
  limitUnit := "A"
  defaultLimit := none
  defaultLimitUnit := "A"
  maxLimit := none
  maxLimitUnit := "A"
  externalLimit := none
  externalLimitUnit := "A"

def stopped (c : ConnectorState) : ConnectorState := { c with transactionId := none, limit := none, status := "Available" }

def applyInbound (c : ConnectorState) (name : String) (request _response : Value) : ConnectorState :=
  let c := { c with evseId := (evseOf request).getD c.evseId }
  match name with
  | "StatusNotification" => { c with status := takeStr (request.index "connectorStatus") c.status }
  | "TransactionEvent" =>
    let c := { c with rfid := takeStr ((request.index "idToken").index "idToken") c.rfid }
    match (request.index "eventType").asStr with
    | some "Started" =>
      { c with transactionId := ((request.index "transactionInfo").index "transactionId").asStr, status := "Charging" }
    | some "Ended" => c.stopped
    | _ => c
  | "MeterValues" =>
    let read := fun (v : Value) => v.asF64.or (v.asStr.bind fun s => f64FromStr s.toList)
    { c with meter := c.meter.applyMeterValues p read request }
  | _ => c

def applyOutbound (c : ConnectorState) (name : String) (request response : Value) : ConnectorState :=
  if name ≠ "SetChargingProfile" ∨ (response.index "status").asStr ≠ some "Accepted" then c
  else
    let profile := request.index "chargingProfile"
    let schedule := (profile.index "chargingSchedule").elem 0
    match (((schedule.index "chargingSchedulePeriod").elem 0).index "limit").asF64 with
    | none => c
    | some limit =>
      let unit := (schedule.index "chargingRateUnit").asStr.getD "A"
      match (profile.index "chargingProfilePurpose").asStr with
      | some "TxDefaultProfile" => { c with defaultLimit := some limit, defaultLimitUnit := unit }
      | some "ChargingStationMaxProfile" => { c with maxLimit := some limit, maxLimitUnit := unit }
      | some "ChargingStationExternalConstraints" => { c with externalLimit := some limit, externalLimitUnit := unit }
      | _ => { c with limit := some limit, limitUnit := unit }

def getFieldStr (c : ConnectorState) : String → Option String
  | "EvseId" => some (toString c.evseId)
  | "Status" => some c.status
  | "Rfid" => some c.rfid
  | "TransactionId" => some (c.transactionId.getD "")
  | "ChargeLimit" => c.limit.map p.showF64
  | "DefaultChargeLimit" => c.defaultLimit.map p.showF64
  | "MaxChargeLimit" => c.maxLimit.map p.showF64
  | "ExternalChargeLimit" => c.externalLimit.map p.showF64
  | name => c.meter.getFieldStr p name

end ConnectorState

def inboundConnector (_name : String) (request : Value) : Scope :=
  match evseId request with
  | some e => if 1 ≤ e then .ofEvse e none else .cs
  | none => .cs

def stoppedTx (name : String) (request : Value) : Option String :=
  if name = "TransactionEvent" ∧ (request.index "eventType").asStr = some "Ended" then
    ((request.index "transactionInfo").index "transactionId").asStr
  else none

def parseConfig (response : Value) : List (String × String × Bool) :=
  ((response.index "getVariableResult").asArray.getD []).map fun r =>
    let component := ((r.index "component").index "name").asStr.getD ""
    let name := ((r.index "variable").index "name").asStr.getD ""
    let status := (r.index "attributeStatus").asStr.getD "Unknown"
    let value := if status = "Accepted" then (r.index "attributeValue").asStr.getD "" else "<" ++ status ++ ">"
    (component ++ "/" ++ name, value, false)

def version : ServerVersion where
  cs := ⟨CsLevelState, .default, CsLevelState.applyInbound p, fun s _ _ _ => s, CsLevelState.getFieldStr⟩
  conn := ⟨ConnectorState, .default, ConnectorState.applyInbound p, ConnectorState.applyOutbound, ConnectorState.getFieldStr p⟩
  inboundConnector := inboundConnector
  stopTxId := stoppedTx
  configAction := "GetVariables"
  parseConfig := parseConfig

end

end V2

end Ferrowl.Ocpp.Csms
