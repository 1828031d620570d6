import Ferrowl.MonitorStore
/-!
# Monitor — pairing requests and responses on the bus

`process_frame` of `monitor/core.rs` and what it calls.  The framing is a parameter: any two functions that decode a frame as a
request or as a response.

Log lines are left out.  A frame carries the two clock readings its records may need.
-/
namespace Ferrowl.Modbus.Monitor

open List

open Store (Word)
open Codec (Kind)

structure Framing where
  decodeRequest : List (BitVec 8) → Except String (UnitId × RequestPdu)
  decodeResponse : List (BitVec 8) → Except String (UnitId × ResponsePdu)

inductive MatchState where
  | expectRequest
  | expectResponse (slave : UnitId) (function : FunctionCode) (request : RequestPdu)
  deriving DecidableEq, Repr

structure Frame where
  bytes : List (BitVec 8)
  resolvedAt : Nat
  broadcastAt : Nat

structure MonitorState where
  state : MatchState
  table : ObservedTable
  records : RecordLog

def MonitorState.initial : MonitorState := ⟨.expectRequest, .empty, .empty⟩

def TableShape.span (kind : Kind) (address quantity : BitVec 16) (values : List Word) : TableShape :=
  ⟨kind, address, quantity, none, none, values⟩

def shapeFromPair : RequestPdu → ResponsePdu → Option TableShape
  | .readCoils address quantity, .readCoils coils => some (.span .coil address quantity (coils.map coilWord))
  | .readDiscreteInputs address quantity, .readDiscreteInputs inputs =>
    some (.span .discreteInput address quantity (inputs.map coilWord))
  | .readHoldingRegisters address quantity, .readHoldingRegisters registers =>
    some (.span .holdingRegister address quantity registers)
  | .readInputRegisters address quantity, .readInputRegisters registers =>
    some (.span .inputRegister address quantity registers)
  | .writeSingleCoil address value, .writeSingleCoil _ _ => some (.span .coil address 1 [coilWord value])
  | .writeSingleRegister address value, .writeSingleRegister _ _ => some (.span .holdingRegister address 1 [value])
  | .writeMultipleCoils address coils, .writeMultipleCoils _ _ =>
    some (.span .coil address (.ofNat 16 coils.length) (coils.map coilWord))
  | .writeMultipleRegisters address registers, .writeMultipleRegisters _ _ =>
    some (.span .holdingRegister address (.ofNat 16 registers.length) registers)
  | .readWriteMultipleRegisters readAddress readQuantity writeAddress registers, .readWriteMultipleRegisters values =>
    some ⟨.holdingRegister, readAddress, readQuantity, some writeAddress, some (.ofNat 16 registers.length), values⟩
  | _, _ => none

def shapeFromBroadcast : RequestPdu → Option TableShape
  | .writeSingleCoil address value => some (.span .coil address 1 [coilWord value])
  | .writeSingleRegister address value => some (.span .holdingRegister address 1 [value])
  | .writeMultipleCoils address coils => some (.span .coil address (.ofNat 16 coils.length) (coils.map coilWord))
  | .writeMultipleRegisters address registers =>
    some (.span .holdingRegister address (.ofNat 16 registers.length) registers)
  | .readWriteMultipleRegisters _ _ writeAddress registers =>
    some (.span .holdingRegister writeAddress (.ofNat 16 registers.length) registers)
  | _ => none

def shapeAddressOnly : RequestPdu → Option TableShape
  | .readCoils address quantity => some (.span .coil address quantity [])
  | .readDiscreteInputs address quantity => some (.span .discreteInput address quantity [])
  | .readHoldingRegisters address quantity => some (.span .holdingRegister address quantity [])
  | .readInputRegisters address quantity => some (.span .inputRegister address quantity [])
  | .writeSingleCoil address _ => some (.span .coil address 1 [])
  | .writeSingleRegister address _ => some (.span .holdingRegister address 1 [])
  | .writeMultipleCoils address coils => some (.span .coil address (.ofNat 16 coils.length) [])
  | .writeMultipleRegisters address registers => some (.span .holdingRegister address (.ofNat 16 registers.length) [])
  | .readWriteMultipleRegisters readAddress readQuantity writeAddress registers =>
    some ⟨.holdingRegister, readAddress, readQuantity, some writeAddress, some (.ofNat 16 registers.length), []⟩
  | .other _ => none

def matchedRecord (now : Nat) (request : RequestPdu) (response : ResponsePdu) : MonitorRecord :=
  match response with
  | .exception _ code => ⟨now, .exception code, request.function, shapeAddressOnly request⟩
  | _ => ⟨now, .ok, request.function, shapeFromPair request response⟩

def unmatchedRecord (now : Nat) (request : RequestPdu) : MonitorRecord :=
  ⟨now, .unmatched, request.function, shapeAddressOnly request⟩

def broadcastRecord (now : Nat) (request : RequestPdu) : MonitorRecord :=
  ⟨now, .ok, request.function, shapeFromBroadcast request⟩

def pushMatchedRecord (now : Nat) (slave : UnitId) (request : RequestPdu) (response : ResponsePdu) (records : RecordLog) :
    RecordLog := records.push slave (matchedRecord now request response)

def pushUnmatchedRecord (now : Nat) (slave : UnitId) (request : RequestPdu) (records : RecordLog) : RecordLog :=
  records.push slave (unmatchedRecord now request)

def pushBroadcastRecord (now : Nat) (slave : UnitId) (request : RequestPdu) (records : RecordLog) : RecordLog :=
  records.push slave (broadcastRecord now request)

def writeWords (slave : UnitId) (kind : Kind) (address : BitVec 16) (words : List Word) (table : ObservedTable) :
    ObservedTable := table.writeWords ⟨slave, kind⟩ address words

def writeBits (slave : UnitId) (kind : Kind) (address : BitVec 16) (bits : List Bool) (table : ObservedTable) :
    ObservedTable := writeWords slave kind address (bits.map coilWord) table

/-- An exception has no words, so it falls under the last case as well. -/
def applyMatched (slave : UnitId) (request : RequestPdu) (response : ResponsePdu) (table : ObservedTable) : ObservedTable :=
  match request, response with
  | .readCoils address _, .readCoils coils => writeBits slave .coil address coils table
  | .readDiscreteInputs address _, .readDiscreteInputs inputs => writeBits slave .discreteInput address inputs table
  | .readHoldingRegisters address _, .readHoldingRegisters registers =>
    writeWords slave .holdingRegister address registers table
  | .readInputRegisters address _, .readInputRegisters registers =>
    writeWords slave .inputRegister address registers table
  | .writeSingleCoil address value, .writeSingleCoil _ _ => writeBits slave .coil address [value] table
  | .writeSingleRegister address value, .writeSingleRegister _ _ =>
    writeWords slave .holdingRegister address [value] table
  | .writeMultipleCoils address coils, .writeMultipleCoils _ _ => writeBits slave .coil address coils table
  | .writeMultipleRegisters address registers, .writeMultipleRegisters _ _ =>
    writeWords slave .holdingRegister address registers table
  | .readWriteMultipleRegisters readAddress _ writeAddress registers, .readWriteMultipleRegisters values =>
    writeWords slave .holdingRegister writeAddress registers
      (writeWords slave .holdingRegister readAddress values table)
  | _, _ => table

def applyBroadcast (slave : UnitId) (request : RequestPdu) (table : ObservedTable) : ObservedTable :=
  match request with
  | .writeSingleCoil address value => writeBits slave .coil address [value] table
  | .writeSingleRegister address value => writeWords slave .holdingRegister address [value] table
  | .writeMultipleCoils address coils => writeBits slave .coil address coils table
  | .writeMultipleRegisters address registers => writeWords slave .holdingRegister address registers table
  | .readWriteMultipleRegisters _ _ writeAddress registers =>
    writeWords slave .holdingRegister writeAddress registers table
  | _ => table

def handleNewRequest (now : Nat) (slave : UnitId) (request : RequestPdu) (table : ObservedTable) (records : RecordLog) :
    MonitorState :=
  let table := table.markSeen slave
  if slave = 0 then
    ⟨.expectRequest, applyBroadcast slave request table, pushBroadcastRecord now slave request records⟩
  else ⟨.expectResponse slave request.function request, table, records⟩

variable (F : Framing)

def awaitedResponse (slave : UnitId) (function : FunctionCode) (bytes : List (BitVec 8)) : Option ResponsePdu :=
  match F.decodeResponse bytes with
  | .ok (respSlave, response) => if respSlave = slave ∧ response.function = function then some response else none
  | .error _ => none

def processFrame (frame : Frame) (m : MonitorState) : MonitorState :=
  match m.state with
  | .expectRequest =>
    match F.decodeRequest frame.bytes with
    | .error _ => m
    | .ok (slave, request) => handleNewRequest frame.broadcastAt slave request m.table m.records
  | .expectResponse slave function request =>
    match awaitedResponse F slave function frame.bytes with
    | some response =>
      ⟨.expectRequest, applyMatched slave request response m.table,
        pushMatchedRecord frame.resolvedAt slave request response m.records⟩
    | none =>
      match F.decodeRequest frame.bytes with
      | .ok (newSlave, newRequest) =>
        handleNewRequest frame.broadcastAt newSlave newRequest m.table
          (pushUnmatchedRecord frame.resolvedAt slave request m.records)
      | .error _ => m

def processFrames (frames : List Frame) : MonitorState := frames.foldl (fun m frame => processFrame F frame m) .initial

/-! ## The account of the requests -/

def takenRequest (state : MatchState) (bytes : List (BitVec 8)) : Option (UnitId × RequestPdu) :=
  match state with
  | .expectRequest => (F.decodeRequest bytes).toOption
  | .expectResponse slave function _ =>
    match awaitedResponse F slave function bytes with
    | some _ => none
    | none => (F.decodeRequest bytes).toOption

def takenFrom (m : MonitorState) : List Frame → List (UnitId × RequestPdu)
  | [] => []
  | frame :: frames => (takenRequest F m.state frame.bytes).toList ++ takenFrom (processFrame F frame m) frames

def MatchState.pending : MatchState → List (UnitId × RequestPdu)
  | .expectRequest => []
  | .expectResponse slave _ request => [(slave, request)]

/-- What the record of a request to a slave says: a broadcast is complete by itself; any other request is unmatched, or was
answered in one of the frames, by an exception or not. -/
inductive Describes (frames : List Frame) (slave : UnitId) (request : RequestPdu) : MonitorRecord → Prop
  | broadcast (now : Nat) (h : slave = 0) : Describes frames slave request (broadcastRecord now request)
  | unmatched (now : Nat) (h : slave ≠ 0) : Describes frames slave request (unmatchedRecord now request)
  | matched (now : Nat) (h : slave ≠ 0) {frame : Frame} {response : ResponsePdu} (hf : frame ∈ frames)
      (hd : F.decodeResponse frame.bytes = .ok (slave, response)) (hfn : response.function = request.function) :
      Describes frames slave request (matchedRecord now request response)

def requestsTo (slave : UnitId) (requests : List (UnitId × RequestPdu)) : List RequestPdu :=
  (requests.filter (fun p => decide (p.1 = slave))).map Prod.snd

/-- Every slave's log has one record for each of the requests to it, in their order. -/
def RecordsFor (frames : List Frame) (requests : List (UnitId × RequestPdu)) (records : RecordLog) : Prop :=
  ∀ slave, ∃ history, List.Forall₂ (Describes F frames slave) (requestsTo slave requests) history ∧
    (records.records slave).Holds history

variable {F}

theorem requestsTo_concat (slave other : UnitId) (request : RequestPdu) (requests : List (UnitId × RequestPdu)) :
    requestsTo other (requests ++ [(slave, request)]) = requestsTo other requests ++ if slave = other then [request] else [] := by
  unfold requestsTo
  rw [filter_append, map_append]
  by_cases h : slave = other <;> simp [h]

variable {frames : List Frame} {records : RecordLog} {slave : UnitId}

theorem recordsFor_push {requests : List (UnitId × RequestPdu)}
    (h : RecordsFor F frames requests records) {request : RequestPdu} {record : MonitorRecord}
    (hd : Describes F frames slave request record) :
    RecordsFor F frames (requests ++ [(slave, request)]) (records.push slave record) := by
  intro other
  obtain ⟨history, hall, hholds⟩ := h other
  rw [requestsTo_concat]
  by_cases ho : other = slave
  · subst ho
    rw [if_pos rfl, RecordLog.records_push_self]
    exact ⟨history ++ [record], rel_append hall (.cons hd .nil), hholds.push record⟩
  · rw [if_neg (Ne.symm ho), append_nil, RecordLog.records_push_of_ne _ ho]
    exact ⟨history, hall, hholds⟩

theorem Describes.mono {frames' : List Frame} (hsub : frames ⊆ frames') {request : RequestPdu}
    {record : MonitorRecord} (h : Describes F frames slave request record) : Describes F frames' slave request record := by
  cases h with
  | broadcast now h => exact .broadcast now h
  | unmatched now h => exact .unmatched now h
  | matched now h hf hd hfn => exact .matched now h (hsub hf) hd hfn

theorem recordsFor_mono {frames' : List Frame} (hsub : frames ⊆ frames')
    {requests : List (UnitId × RequestPdu)} (h : RecordsFor F frames requests records) :
    RecordsFor F frames' requests records := by
  intro slave
  obtain ⟨history, hall, hholds⟩ := h slave
  exact ⟨history, hall.imp (fun _ _ hd => hd.mono hsub), hholds⟩

variable (F) in
/-- The requests taken are those with a record and the pending one, which is not a broadcast. -/
structure Accounted (frames : List Frame) (taken : List (UnitId × RequestPdu)) (m : MonitorState) : Prop where
  awaits : ∀ slave function request, m.state = .expectResponse slave function request →
    slave ≠ 0 ∧ function = request.function
  records : ∃ resolved, taken = resolved ++ m.state.pending ∧ RecordsFor F frames resolved m.records

theorem awaits_nothing (slave : UnitId) (function : FunctionCode) (request : RequestPdu)
    (h : MatchState.expectRequest = .expectResponse slave function request) : slave ≠ 0 ∧ function = request.function := nomatch h

theorem accounted_handleNewRequest {taken : List (UnitId × RequestPdu)}
    (h : RecordsFor F frames taken records) (now : Nat) (slave : UnitId) (request : RequestPdu) (table : ObservedTable) :
    Accounted F frames (taken ++ [(slave, request)]) (handleNewRequest now slave request table records) := by
  unfold handleNewRequest
  by_cases hs : slave = 0
  · rw [if_pos hs]
    exact ⟨awaits_nothing, taken ++ [(slave, request)], (append_nil _).symm, recordsFor_push h (.broadcast now hs)⟩
  rw [if_neg hs]
  refine ⟨fun _ _ _ he => ?_, taken, rfl, h⟩
  cases he
  exact ⟨hs, rfl⟩

theorem awaitedResponse_eq_some {function : FunctionCode} {bytes : List (BitVec 8)}
    {response : ResponsePdu} (h : awaitedResponse F slave function bytes = some response) :
    F.decodeResponse bytes = .ok (slave, response) ∧ response.function = function := by
  unfold awaitedResponse at h
  split at h
  · rename_i respSlave resp hd
    split at h <;> cases h
    rename_i hm
    exact ⟨hm.1 ▸ hd, hm.2⟩
  · cases h

theorem accounted_processFrame {taken : List (UnitId × RequestPdu)} {m : MonitorState}
    (h : Accounted F frames taken m) (frame : Frame) :
    Accounted F (frames ++ [frame]) (taken ++ (takenRequest F m.state frame.bytes).toList) (processFrame F frame m) := by
  obtain ⟨resolved, htaken, hrec⟩ := h.records
  replace hrec := recordsFor_mono (subset_append_left frames [frame]) hrec
  have hsame : Accounted F (frames ++ [frame]) (taken ++ []) m :=
    ⟨h.awaits, resolved, (append_nil _).trans htaken, hrec⟩
  unfold processFrame takenRequest
  cases hstate : m.state with
  | expectRequest =>
    rw [hstate] at htaken
    cases hq : F.decodeRequest frame.bytes with
    | error e => exact hsame
    | ok p =>
      rw [show taken = resolved from htaken.trans (append_nil _)]
      exact accounted_handleNewRequest hrec _ _ _ _
  | expectResponse slave function request =>
    obtain ⟨hslave, hfn⟩ := h.awaits _ _ _ hstate
    rw [hstate] at htaken
    dsimp only
    cases ha : awaitedResponse F slave function frame.bytes with
    | some response =>
      obtain ⟨hd, hf⟩ := awaitedResponse_eq_some ha
      have hmatched : Describes F (frames ++ [frame]) slave request (matchedRecord frame.resolvedAt request response) :=
        .matched _ hslave (mem_append_right _ mem_cons_self) hd (hf.trans hfn)
      have hdone : RecordsFor F (frames ++ [frame]) taken (pushMatchedRecord frame.resolvedAt slave request response
          m.records) := htaken ▸ recordsFor_push hrec hmatched
      exact ⟨awaits_nothing, taken, rfl, hdone⟩
    | none =>
      cases hq : F.decodeRequest frame.bytes with
      | error e => exact hsame
      | ok p =>
        rw [htaken]
        exact accounted_handleNewRequest (recordsFor_push hrec (.unmatched _ hslave)) _ _ _ _

theorem accounted_frames : ∀ (frames seen : List Frame) (taken : List (UnitId × RequestPdu)) (m : MonitorState),
    Accounted F seen taken m →
      Accounted F (seen ++ frames) (taken ++ takenFrom F m frames) (frames.foldl (fun m f => processFrame F f m) m)
  | [], seen, taken, m, h => by
    rw [takenFrom, append_nil, append_nil]
    exact h
  | frame :: frames, seen, taken, m, h => by
    rw [takenFrom, ← append_assoc, append_cons, foldl_cons]
    exact accounted_frames frames _ _ _ (accounted_processFrame h frame)

def Unrecognised (F : Framing) (m : MonitorState) (bytes : List (BitVec 8)) : Prop :=
  (∀ slave function request, m.state = .expectResponse slave function request →
    awaitedResponse F slave function bytes = none) ∧ ∀ p, F.decodeRequest bytes ≠ .ok p

theorem processFrame_unrecognised {m : MonitorState} {frame : Frame} (h : Unrecognised F m frame.bytes) :
    processFrame F frame m = m := by
  unfold processFrame
  cases hq : F.decodeRequest frame.bytes with
  | ok p => exact absurd hq (h.2 p)
  | error e =>
    cases hstate : m.state with
    | expectRequest => rfl
    | expectResponse slave function request =>
      dsimp only
      rw [h.1 _ _ _ hstate]

/-- **Every request is accounted for exactly once**: the requests taken are those with a record and at most one pending; each
slave's log has the latest of its records in their order, and the generation counts all. -/
theorem requests_recorded_once (F : Framing) (frames : List Frame) :
    (∃ resolved, takenFrom F .initial frames = resolved ++ (processFrames F frames).state.pending ∧
      (∀ p ∈ (processFrames F frames).state.pending, p.1 ≠ 0) ∧
      ∀ slave, ∃ history, List.Forall₂ (Describes F frames slave) (requestsTo slave resolved) history ∧
        (processFrames F frames).records.recordsFor slave = history.rtake recordRingCapacity ∧
        (processFrames F frames).records.generationFor slave = history.length) ∧
    ∀ m frame, Unrecognised F m frame.bytes → processFrame F frame m = m := by
  have h₀ : Accounted F [] [] .initial := ⟨awaits_nothing, [], rfl, fun _ => ⟨[], .nil, rfl, rfl⟩⟩
  have h : Accounted F frames (takenFrom F .initial frames) (processFrames F frames) := accounted_frames frames [] [] _ h₀
  obtain ⟨resolved, htaken, hrec⟩ := h.records
  refine ⟨⟨resolved, htaken, fun p hp => ?_, hrec⟩, fun _ _ => processFrame_unrecognised⟩
  cases hstate : (processFrames F frames).state with
  | expectRequest =>
    rw [hstate] at hp
    cases hp
  | expectResponse slave function request =>
    rw [hstate] at hp
    rw [mem_singleton.1 hp]
    exact (h.awaits _ _ _ hstate).1

end Ferrowl.Modbus.Monitor
