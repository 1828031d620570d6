import Ferrowl.FloatBits
/-!
# OcppFrame — OCPP-J envelopes and their JSON arrays

`ferrowl-ocpp`'s `ocppj`: a call is `[2, id, action, payload]`, its result `[3, id, payload]` and its rejection `[4, id, code,
description, details]`.  The parser of JSON is a parameter; its values are those of `serde_json`, with numbers as unsigned or
negative integers of 64 bits or as floats, of which only the text is kept.
-/
namespace Ferrowl.Ocpp.Wire

inductive Number where
  | posInt (n : Fin (2 ^ 64))
  | negInt (n : Fin (2 ^ 63))
  | float (text : String)
  deriving DecidableEq, Repr

/-- `negInt n` is the number `-(n + 1)`. -/
def Number.asI64 : Number → Option Int
  | posInt n => if n.val < 2 ^ 63 then some n.val else none
  | negInt n => some (-(n.val + 1))
  | float _ => none

inductive Value where
  | null
  | bool (b : Bool)
  | number (n : Number)
  | string (s : String)
  | array (vs : List Value)
  | object (fields : List (String × Value))

namespace Value

def asArray : Value → Option (List Value)
  | array vs => some vs
  | _ => none

def asI64 : Value → Option Int
  | number n => n.asI64
  | _ => none

def asStr : Value → Option String
  | string s => some s
  | _ => none

def emptyObject : Value := object []

def int (n : Int) : Value :=
  if 0 ≤ n then number (.posInt (Fin.ofNat _ n.toNat)) else number (.negInt (Fin.ofNat _ (-n - 1).toNat))

def asU64 : Value → Option Nat
  | number (.posInt n) => some n
  | _ => none

/-- The value of an object under a key; the keys of an object are distinct. -/
def get (v : Value) (key : String) : Option Value :=
  match v with
  | object fields => fields.lookup key
  | _ => none

def asBool : Value → Option Bool
  | bool b => some b
  | _ => none

def asF64 : Value → Option (BitVec 64)
  | number (.posInt n) => some (i128AsF64 n)
  | number (.negInt n) => some (i128AsF64 (-(n.val + 1)))
  | number (.float text) => f64FromStr text.toList
  | _ => none

def index (v : Value) (key : String) : Value := (v.get key).getD null

def elem (v : Value) (i : Nat) : Value := (v.asArray.bind (·[i]?)).getD null

def insertField : List (String × Value) → String → Value → List (String × Value)
  | [], key, v => [(key, v)]
  | p :: fields, key, v => if p.1 = key then (key, v) :: fields else p :: insertField fields key v

theorem lookup_cons_ite (fields : List (String × Value)) (key k : String) (v : Value) :
    ((key, v) :: fields).lookup k = if k = key then some v else fields.lookup k := by
  rw [List.lookup_cons]
  split
  · rename_i hk
    rw [if_pos (beq_iff_eq.1 hk)]
  · rename_i hk
    rw [if_neg (beq_eq_false_iff_ne.1 hk)]

theorem lookup_insertField (fields : List (String × Value)) (key k : String) (v : Value) :
    (insertField fields key v).lookup k = if k = key then some v else fields.lookup k := by
  induction fields with
  | nil => exact lookup_cons_ite [] key k v
  | cons p fields ih =>
    obtain ⟨key', w⟩ := p
    rw [insertField, lookup_cons_ite fields key']
    split
    · rename_i hp
      cases (show key' = key from hp)
      rw [lookup_cons_ite]
      split <;> rfl
    rename_i hp
    rw [lookup_cons_ite, ih]
    by_cases hk : k = key
    · rw [if_neg (fun h => hp (h.symm.trans hk)), if_pos hk, if_pos hk]
    · rw [if_neg hk, if_neg hk]

end Value

/-- The errors of the protocol, with their spelling on the wire. -/
inductive CallErrorCode where
  | notImplemented
  | notSupported
  | internalError
  | protocolError
  | securityError
  | formationViolation
  | propertyConstraintViolation
  | occurenceConstraintViolation
  | typeConstraintViolation
  | genericError
  deriving DecidableEq, Repr

def CallErrorCode.asStr : CallErrorCode → String
  | notImplemented => "NotImplemented"
  | notSupported => "NotSupported"
  | internalError => "InternalError"
  | protocolError => "ProtocolError"
  | securityError => "SecurityError"
  | formationViolation => "FormationViolation"
  | propertyConstraintViolation => "PropertyConstraintViolation"
  | occurenceConstraintViolation => "OccurenceConstraintViolation"
  | typeConstraintViolation => "TypeConstraintViolation"
  | genericError => "GenericError"

def CallErrorCode.fromWire (s : String) : CallErrorCode :=
  match s with
  | "NotImplemented" => .notImplemented
  | "NotSupported" => .notSupported
  | "InternalError" => .internalError
  | "ProtocolError" => .protocolError
  | "SecurityError" => .securityError
  | "FormationViolation" => .formationViolation
  | "PropertyConstraintViolation" => .propertyConstraintViolation
  | "OccurenceConstraintViolation" => .occurenceConstraintViolation
  | "TypeConstraintViolation" => .typeConstraintViolation
  | _ => .genericError

structure CallError where
  code : CallErrorCode
  description : String
  details : Value

def CallError.new (code : CallErrorCode) (description : String) : CallError := ⟨code, description, .emptyObject⟩

inductive OcppJMessage where
  | call (id action : String) (payload : Value)
  | callResult (id : String) (payload : Value)
  | callError (id : String) (error : CallError)

namespace OcppJMessage

def id : OcppJMessage → String
  | call id _ _ | callResult id _ | callError id _ => id

def isReply : OcppJMessage → Bool
  | call _ _ _ => false
  | _ => true

def typeId (n : Fin (2 ^ 64)) : Value := .number (.posInt n)

def encode : OcppJMessage → Value
  | call id action payload => .array [typeId 2, .string id, .string action, payload]
  | callResult id payload => .array [typeId 3, .string id, payload]
  | callError id e => .array [typeId 4, .string id, .string e.code.asStr, .string e.description, e.details]

end OcppJMessage

inductive FramingError where
  | notAnArray
  | badArity (n : Nat)
  | unknownMessageType (n : Int)
  | badFieldType (field : String)
  | json (text : String)
  deriving DecidableEq, Repr

def FramingError.text : FramingError → String
  | notAnArray => "OCPP-J frame is not a JSON array"
  | badArity n => "OCPP-J frame has invalid arity: " ++ toString n ++ " elements"
  | unknownMessageType n => "OCPP-J frame has unknown message type id: " ++ toString n
  | badFieldType field => "OCPP-J frame field " ++ field ++ " has the wrong JSON type"
  | json text => "OCPP-J frame is not valid JSON: " ++ text

def strAt (arr : List Value) (idx : Nat) (field : String) : Except FramingError String :=
  match arr[idx]?.bind Value.asStr with
  | some s => .ok s
  | none => .error (.badFieldType field)

def decodeValue (value : Value) : Except FramingError OcppJMessage :=
  match value.asArray with
  | none => .error .notAnArray
  | some arr =>
    match arr.head?.bind Value.asI64 with
    | none => .error (.badFieldType "messageTypeId")
    | some typeId =>
      if typeId = 2 then
        if arr.length ≠ 4 then .error (.badArity arr.length)
        else do
          let id ← strAt arr 1 "uniqueId"
          let action ← strAt arr 2 "action"
          .ok (.call id action (arr[3]?.getD .null))
      else if typeId = 3 then
        if arr.length ≠ 3 then .error (.badArity arr.length)
        else do
          let id ← strAt arr 1 "uniqueId"
          .ok (.callResult id (arr[2]?.getD .null))
      else if typeId = 4 then
        if arr.length ≠ 5 then .error (.badArity arr.length)
        else do
          let id ← strAt arr 1 "uniqueId"
          let code ← strAt arr 2 "errorCode"
          let description ← strAt arr 3 "errorDescription"
          .ok (.callError id ⟨.fromWire code, description, arr[4]?.getD .null⟩)
      else .error (.unknownMessageType typeId)

section
variable (parse : String → Except String Value)

def decode (text : String) : Except FramingError OcppJMessage :=
  match parse text with
  | .error e => .error (.json e)
  | .ok value => decodeValue value

def recoverCallId (text : String) : Option String :=
  match parse text with
  | .error _ => none
  | .ok value =>
    match value.asArray with
    | none => none
    | some arr =>
      match arr.head?.bind Value.asI64 with
      | none => none
      | some typeId => if typeId ≠ 2 then none else arr[1]?.bind Value.asStr

/-- The text is an array of JSON that starts with the message type of a call and an id. -/
def CallFrame (text id : String) : Prop :=
  ∃ rest, parse text = .ok (.array (.number (.posInt 2) :: .string id :: rest))

end

theorem fromWire_asStr (code : CallErrorCode) : CallErrorCode.fromWire code.asStr = code := by
  cases code <;> rfl

theorem decodeValue_encode (m : OcppJMessage) : decodeValue m.encode = .ok m := by
  cases m with
  | call id action payload => rfl
  | callResult id payload => rfl
  | callError id e =>
    -- the code goes over the wire by its name
    have hcode : decodeValue (OcppJMessage.callError id e).encode =
        .ok (.callError id { e with code := .fromWire e.code.asStr }) := rfl
    rw [hcode, fromWire_asStr]

theorem asI64_eq_two {v : Value} : v.asI64 = some 2 ↔ v = .number (.posInt 2) := by
  constructor
  · intro h
    cases v with
    | number n =>
      cases n with
      | posInt n =>
        simp only [Value.asI64, Number.asI64] at h
        split_ifs at h
        have hn : n.val = 2 := by
          rw [Option.some_inj] at h
          omega
        rw [show n = 2 from Fin.ext hn]
      | negInt n =>
        simp only [Value.asI64, Number.asI64, Option.some_inj] at h
        omega
      | float text => cases h
    | _ => cases h
  · rintro rfl
    rfl

theorem asStr_eq_some {v : Value} {s : String} : v.asStr = some s ↔ v = .string s := by
  cases v <;> simp [Value.asStr]

theorem strAt_bind_ok {arr : List Value} {idx : Nat} {field : String} {f : String → Except FramingError OcppJMessage}
    {m : OcppJMessage} (h : (strAt arr idx field >>= f) = .ok m) : ∃ s, arr[idx]?.bind Value.asStr = some s ∧ f s = .ok m := by
  rw [strAt] at h
  split at h
  · rename_i s hs
    exact ⟨s, hs, h⟩
  · cases h

variable {parse : String → Except String Value}

theorem recoverCallId_eq_some {text id : String} : recoverCallId parse text = some id ↔ CallFrame parse text id := by
  rw [recoverCallId, CallFrame]
  cases hp : parse text with
  | error e => simp
  | ok value =>
    cases value with
    | array arr =>
      dsimp only [Value.asArray]
      constructor
      · intro h
        rcases arr with _ | ⟨head, arr⟩
        · cases h
        dsimp only [List.head?_cons, Option.bind_some] at h
        split at h
        · cases h
        rename_i typeId ht
        split_ifs at h with h2
        rw [not_not.1 h2] at ht
        obtain ⟨second, hsecond, hstr⟩ := Option.bind_eq_some_iff.1 h
        rcases arr with _ | ⟨second', rest⟩
        · cases hsecond
        · cases hsecond
          exact ⟨rest, by rw [asI64_eq_two.1 ht, asStr_eq_some.1 hstr]⟩
      · rintro ⟨rest, h⟩
        cases h
        rfl
    | _ => simp [Value.asArray]

theorem recoverCallId_of_decode {text : String} {m : OcppJMessage} (h : decode parse text = .ok m) :
    recoverCallId parse text = if m.isReply then none else some m.id := by
  rw [decode] at h
  rw [recoverCallId]
  cases hp : parse text with
  | error e =>
    rw [hp] at h
    cases h
  | ok value =>
    rw [hp] at h
    dsimp only [decodeValue] at h ⊢
    cases ha : value.asArray with
    | none =>
      rw [ha] at h
      cases h
    | some arr =>
      rw [ha] at h
      dsimp only at h ⊢
      cases ht : arr.head?.bind Value.asI64 with
      | none =>
        rw [ht] at h
        cases h
      | some typeId =>
        rw [ht] at h
        dsimp only at h ⊢
        by_cases h2 : typeId = 2
        · rw [if_pos h2] at h
          rw [if_neg (not_not.2 h2)]
          split_ifs at h
          obtain ⟨id, hid, h⟩ := strAt_bind_ok h
          obtain ⟨action, -, h⟩ := strAt_bind_ok h
          cases h
          exact hid
        rw [if_neg h2] at h
        rw [if_pos h2]
        -- the other types are those of replies
        split_ifs at h
        · obtain ⟨id, -, h⟩ := strAt_bind_ok h
          cases h
          rfl
        obtain ⟨id, -, h⟩ := strAt_bind_ok h
        obtain ⟨code, -, h⟩ := strAt_bind_ok h
        obtain ⟨description, -, h⟩ := strAt_bind_ok h
        cases h
        rfl

def errorFrame (id code description : String) (details : Value) : Value :=
  .array [OcppJMessage.typeId 4, .string id, .string code, .string description, details]

theorem fromWire_of_unknown {code : String} (h : ∀ c : CallErrorCode, c.asStr ≠ code) :
    CallErrorCode.fromWire code = .genericError := by
  unfold CallErrorCode.fromWire
  split
  case h_1 => exact absurd rfl (h .notImplemented)
  case h_2 => exact absurd rfl (h .notSupported)
  case h_3 => exact absurd rfl (h .internalError)
  case h_4 => exact absurd rfl (h .protocolError)
  case h_5 => exact absurd rfl (h .securityError)
  case h_6 => exact absurd rfl (h .formationViolation)
  case h_7 => exact absurd rfl (h .propertyConstraintViolation)
  case h_8 => exact absurd rfl (h .occurenceConstraintViolation)
  case h_9 => exact absurd rfl (h .typeConstraintViolation)
  case h_10 => rfl

theorem decode_errorFrame {text id code description : String} {details : Value}
    (h : parse text = .ok (errorFrame id code description details)) :
    decode parse text = .ok (.callError id ⟨.fromWire code, description, details⟩) := by
  rw [decode, h]
  rfl

/-- **A frame is read back as it was sent**: where the text of its JSON is parsed back, every envelope comes back as it is, and
a rejection whose code is none of the ten comes in as a generic error, with its id, description and details. -/
theorem decode_encode (render : Value → String) :
    (∀ m : OcppJMessage, parse (render m.encode) = .ok m.encode → decode parse (render m.encode) = .ok m) ∧
      ∀ id code description details, (∀ c : CallErrorCode, c.asStr ≠ code) →
        parse (render (errorFrame id code description details)) = .ok (errorFrame id code description details) →
        decode parse (render (errorFrame id code description details)) =
          .ok (.callError id ⟨.genericError, description, details⟩) := by
  refine ⟨fun m hjson => ?_, fun id code description details hcode hjson => ?_⟩
  · rw [decode, hjson]
    exact decodeValue_encode m
  · rw [decode_errorFrame hjson, fromWire_of_unknown hcode]

theorem security_error_read_back : decode (fun _ => .ok (OcppJMessage.callError "1" (.new .securityError "denied")).encode)
      "[4,\"1\",\"SecurityError\",\"denied\",\x7b\x7d]" = .ok (.callError "1" (.new .securityError "denied")) :=
  (decode_encode fun _ => "[4,\"1\",\"SecurityError\",\"denied\",\x7b\x7d]").1 _ rfl

/-- A code of a later version of the protocol is not kept: no envelope is sent with it, and a frame that has it is read as one
that goes out with another. -/
theorem future_code_forgotten : (∀ m : OcppJMessage, m.encode ≠ errorFrame "1" "SomeFutureCode" "" .emptyObject) ∧
    decodeValue (errorFrame "1" "SomeFutureCode" "" .emptyObject) =
      decodeValue (errorFrame "1" "GenericError" "" .emptyObject) := by
  refine ⟨fun m h => ?_, rfl⟩
  have hback := decodeValue_encode m
  rw [h] at hback
  cases hback
  exact absurd h (by simp [OcppJMessage.encode, errorFrame, CallErrorCode.asStr, CallErrorCode.fromWire])

end Ferrowl.Ocpp.Wire
