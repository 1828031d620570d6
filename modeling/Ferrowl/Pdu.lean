import Ferrowl.CodecFormat
/-!
# Pdu — function codes, and requests, responses and exceptions on the wire

`ferrowl-modbus`'s `key.rs`: a request's slave id and function code name the region of the shared memory it reads or writes.  The
function codes are those the source names; every other code is `other`.

The protocol data units are as the server, the bridge and the monitor see them.  Quantities of a write are those of its values.
-/
namespace Ferrowl.Modbus

open Store (Word)
open Codec (Kind)

abbrev UnitId := BitVec 8

inductive FunctionCode where
  | readCoils
  | readDiscreteInputs
  | readHoldingRegisters
  | readInputRegisters
  | writeSingleCoil
  | writeSingleRegister
  | writeMultipleCoils
  | writeMultipleRegisters
  | readWriteMultipleRegisters
  | maskWriteRegister
  | other (code : BitVec 8)
  deriving DecidableEq, Repr

structure SlaveKey where
  slaveId : UnitId
  kind : Kind
  deriving DecidableEq, Repr

def SlaveKey.fromSlaveFn (slaveId : UnitId) (fnCode : FunctionCode) : SlaveKey where
  slaveId := slaveId
  kind :=
    match fnCode with
    | .readCoils | .writeSingleCoil | .writeMultipleCoils => .coil
    | .readDiscreteInputs => .discreteInput
    | .readHoldingRegisters | .writeSingleRegister | .writeMultipleRegisters => .holdingRegister
    | .readInputRegisters => .inputRegister
    | _ => .holdingRegister

/-- A request; `other` is every function without a variant of its own here. -/
inductive RequestPdu where
  | readCoils (address quantity : BitVec 16)
  | readDiscreteInputs (address quantity : BitVec 16)
  | readInputRegisters (address quantity : BitVec 16)
  | readHoldingRegisters (address quantity : BitVec 16)
  | writeMultipleRegisters (address : BitVec 16) (registers : List Word)
  | writeSingleRegister (address : BitVec 16) (value : Word)
  | writeMultipleCoils (address : BitVec 16) (coils : List Bool)
  | writeSingleCoil (address : BitVec 16) (value : Bool)
  | readWriteMultipleRegisters (readAddress readQuantity writeAddress : BitVec 16) (registers : List Word)
  | other (function : FunctionCode)
  deriving DecidableEq, Repr

inductive ExceptionCode where
  | illegalFunction
  | illegalDataAddress
  | gatewayPathUnavailable
  | gatewayTargetDeviceFailedToRespond
  | other (code : BitVec 8)
  deriving DecidableEq, Repr

inductive ResponsePdu where
  | readCoils (coils : List Bool)
  | readDiscreteInputs (inputs : List Bool)
  | readInputRegisters (registers : List Word)
  | readHoldingRegisters (registers : List Word)
  | writeMultipleRegisters (address quantity : BitVec 16)
  | writeSingleRegister (address : BitVec 16) (value : Word)
  | writeMultipleCoils (address quantity : BitVec 16)
  | writeSingleCoil (address : BitVec 16) (value : Bool)
  | readWriteMultipleRegisters (registers : List Word)
  | exception (function : FunctionCode) (exception : ExceptionCode)
  | other (function : FunctionCode)
  deriving DecidableEq, Repr

def RequestPdu.function : RequestPdu → FunctionCode
  | .readCoils _ _ => .readCoils
  | .readDiscreteInputs _ _ => .readDiscreteInputs
  | .readInputRegisters _ _ => .readInputRegisters
  | .readHoldingRegisters _ _ => .readHoldingRegisters
  | .writeMultipleRegisters _ _ => .writeMultipleRegisters
  | .writeSingleRegister _ _ => .writeSingleRegister
  | .writeMultipleCoils _ _ => .writeMultipleCoils
  | .writeSingleCoil _ _ => .writeSingleCoil
  | .readWriteMultipleRegisters _ _ _ _ => .readWriteMultipleRegisters
  | .other function => function

/-- The function a response answers; an exception names the function that failed. -/
def ResponsePdu.function : ResponsePdu → FunctionCode
  | .readCoils _ => .readCoils
  | .readDiscreteInputs _ => .readDiscreteInputs
  | .readInputRegisters _ => .readInputRegisters
  | .readHoldingRegisters _ => .readHoldingRegisters
  | .writeMultipleRegisters _ _ => .writeMultipleRegisters
  | .writeSingleRegister _ _ => .writeSingleRegister
  | .writeMultipleCoils _ _ => .writeMultipleCoils
  | .writeSingleCoil _ _ => .writeSingleCoil
  | .readWriteMultipleRegisters _ => .readWriteMultipleRegisters
  | .exception function _ => function
  | .other function => function

def coilWord (b : Bool) : Word := if b then 1 else 0

end Ferrowl.Modbus
