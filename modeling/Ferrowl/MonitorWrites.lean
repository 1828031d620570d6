import Ferrowl.Monitor
/-!
# MonitorWrites — where a matched pair writes

`apply_matched` of `monitor/core.rs` over `write_words` of `monitor/table.rs`, address by address.  A request names the range it
reads and the range it writes; the words of the response are written from the start of the first on, as many as there are.
-/
namespace Ferrowl.Modbus.Monitor

open Function Option

open Store (Word)
open Codec (Kind)

/-! ## Words of the observed table -/

def ObservedTable.word (table : ObservedTable) (key : SlaveKey) (a : BitVec 16) : Option Word :=
  (table.values key).bind (fun region => region a)

@[simp] theorem word_empty (key : SlaveKey) (a : BitVec 16) : ObservedTable.empty.word key a = none := rfl

structure Stretch where
  kind : Kind
  address : BitVec 16
  words : List Word

def Stretch.wordAt (s : Stretch) (kind : Kind) (a : BitVec 16) : Option Word :=
  if s.kind = kind ∧ s.address.toNat ≤ a.toNat then s.words[a.toNat - s.address.toNat]? else none

theorem Stretch.wordAt_isSome_iff {s : Stretch} {kind : Kind} {a : BitVec 16} : (s.wordAt kind a).isSome ↔
      s.kind = kind ∧ s.address.toNat ≤ a.toNat ∧ a.toNat < s.address.toNat + s.words.length := by
  unfold Stretch.wordAt
  by_cases h : s.kind = kind ∧ s.address.toNat ≤ a.toNat
  · rw [if_pos h, isSome_getElem?]
    exact ⟨fun hlt => ⟨h.1, h.2, by omega⟩, fun ⟨_, hle, hlt⟩ => by omega⟩
  · rw [if_neg h]
    exact ⟨fun hn => (Bool.false_ne_true hn).elim, fun ⟨hk, hle, _⟩ => absurd ⟨hk, hle⟩ h⟩

theorem writeRegion_apply (address a : BitVec 16) :
    ∀ (words : List Word) (offset : Nat) (region : BitVec 16 → Option Word), offset + words.length ≤ 2 ^ 16 →
      writeRegion address region offset words a =
        if address.toNat + offset ≤ a.toNat then (words[a.toNat - (address.toNat + offset)]?).or (region a) else region a
  | [], offset, region, _ => by simp [writeRegion]
  | word :: words, offset, region, hlen => by
    rw [List.length_cons] at hlen
    have hmod : offset % 2 ^ 16 = offset := Nat.mod_eq_of_lt (by omega)
    rw [writeRegion, hmod]
    by_cases hin : address.toNat + offset < 2 ^ 16
    · rw [if_pos hin, writeRegion_apply address a words (offset + 1) _ (by omega)]
      have hto : (address + BitVec.ofNat 16 offset).toNat = address.toNat + offset := by
        rw [BitVec.toNat_add, BitVec.toNat_ofNat, hmod, Nat.mod_eq_of_lt hin]
      by_cases ha : a = address + BitVec.ofNat 16 offset
      · -- the address of the first word, which the later ones leave
        have hat : a.toNat = address.toNat + offset := by rw [ha, hto]
        rw [if_neg (by omega), if_pos (by omega), ha, update_self, hto, Nat.sub_self]
        rfl
      have hne : a.toNat ≠ address.toNat + offset := by
        intro h
        exact ha (BitVec.eq_of_toNat_eq (h.trans hto.symm))
      rw [update_of_ne ha]
      by_cases hle : address.toNat + offset ≤ a.toNat
      · rw [if_pos (by omega), if_pos hle,
          show a.toNat - (address.toNat + offset) = a.toNat - (address.toNat + (offset + 1)) + 1 by omega,
          List.getElem?_cons_succ]
      · rw [if_neg (by omega), if_neg hle]
    · -- no address is as high
      have hlt := a.isLt
      rw [if_neg hin, if_neg (by omega)]

def writeStretch (slave : UnitId) (table : ObservedTable) (s : Stretch) : ObservedTable :=
  writeWords slave s.kind s.address s.words table

theorem word_writeStretch (slave : UnitId) (table : ObservedTable) {s : Stretch} (hlen : s.words.length < 2 ^ 16)
    (key : SlaveKey) (a : BitVec 16) :
    (writeStretch slave table s).word key a =
      if key.slaveId = slave then (s.wordAt key.kind a).or (table.word key a) else table.word key a := by
  obtain ⟨id, kind⟩ := key
  unfold writeStretch writeWords ObservedTable.writeWords ObservedTable.word Stretch.wordAt
  by_cases hkey : (⟨id, kind⟩ : SlaveKey) = ⟨slave, s.kind⟩
  · cases hkey
    have hold : ((table.values ⟨slave, s.kind⟩).getD (fun _ => none)) a =
        (table.values ⟨slave, s.kind⟩).bind (fun region => region a) := by
      cases table.values ⟨slave, s.kind⟩ <;> rfl
    simp only [update_self, if_true, bind_some, true_and]
    rw [writeRegion_apply _ _ _ 0 _ (by omega), hold, Nat.add_zero]
    split <;> rfl
  simp only [update_of_ne hkey]
  by_cases hs : id = slave
  · have hk : s.kind ≠ kind := by
      rintro rfl
      exact hkey (congrArg (fun i => SlaveKey.mk i s.kind) hs)
    rw [if_pos hs, if_neg (fun h => hk h.1)]
    rfl
  · rw [if_neg hs]

/-! ## The ranges of a request -/

def readRange : RequestPdu → Option (Kind × BitVec 16 × BitVec 16)
  | .readCoils address quantity => some (.coil, address, quantity)
  | .readDiscreteInputs address quantity => some (.discreteInput, address, quantity)
  | .readHoldingRegisters address quantity => some (.holdingRegister, address, quantity)
  | .readInputRegisters address quantity => some (.inputRegister, address, quantity)
  | .readWriteMultipleRegisters readAddress readQuantity _ _ => some (.holdingRegister, readAddress, readQuantity)
  | _ => none

def written : RequestPdu → Option Stretch
  | .writeSingleCoil address value => some ⟨.coil, address, [coilWord value]⟩
  | .writeSingleRegister address value => some ⟨.holdingRegister, address, [value]⟩
  | .writeMultipleCoils address coils => some ⟨.coil, address, coils.map coilWord⟩
  | .writeMultipleRegisters address registers => some ⟨.holdingRegister, address, registers⟩
  | .readWriteMultipleRegisters _ _ writeAddress registers => some ⟨.holdingRegister, writeAddress, registers⟩
  | _ => none

def returned : ResponsePdu → List Word
  | .readCoils coils => coils.map coilWord
  | .readDiscreteInputs inputs => inputs.map coilWord
  | .readHoldingRegisters registers => registers
  | .readInputRegisters registers => registers
  | .readWriteMultipleRegisters registers => registers
  | _ => []

def readBack (request : RequestPdu) (response : ResponsePdu) : Option Stretch :=
  (readRange request).map (fun range => ⟨range.1, range.2.1, returned response⟩)

def InReadRange (request : RequestPdu) (kind : Kind) (a : BitVec 16) : Prop :=
  ∃ address quantity, readRange request = some (kind, address, quantity) ∧ address.toNat ≤ a.toNat ∧
    a.toNat < address.toNat + quantity.toNat

def InWriteRange (request : RequestPdu) (kind : Kind) (a : BitVec 16) : Prop :=
  ∃ s, written request = some s ∧ s.kind = kind ∧ s.address.toNat ≤ a.toNat ∧ a.toNat < s.address.toNat + s.words.length

def writtenAt (request : RequestPdu) (kind : Kind) (a : BitVec 16) : Option Word :=
  (written request).bind (fun s => s.wordAt kind a)

def readAt (request : RequestPdu) (response : ResponsePdu) (kind : Kind) (a : BitVec 16) : Option Word :=
  (readBack request response).bind (fun s => s.wordAt kind a)

variable {request : RequestPdu}

theorem writtenAt_isSome_iff {kind : Kind} {a : BitVec 16} : (writtenAt request kind a).isSome ↔ InWriteRange request kind a := by
  unfold writtenAt InWriteRange
  cases written request with
  | none => exact ⟨fun h => (Bool.false_ne_true h).elim, fun ⟨_, h, _⟩ => nomatch h⟩
  | some s =>
    rw [bind_some, Stretch.wordAt_isSome_iff]
    exact ⟨fun h => ⟨s, rfl, h⟩, fun ⟨_, hs, h⟩ => Option.some.inj hs ▸ h⟩

/-! ## What a framing decodes -/

def tableFunctions : List FunctionCode :=
  [.readCoils, .readDiscreteInputs, .readHoldingRegisters, .readInputRegisters, .writeSingleCoil, .writeSingleRegister,
    .writeMultipleCoils, .writeMultipleRegisters, .readWriteMultipleRegisters]

structure RequestFits (request : RequestPdu) : Prop where
  variant : ∀ function, request = .other function → function ∉ tableFunctions
  few : ∀ s, written request = some s → s.words.length < 2 ^ 16

structure ResponseFits (response : ResponsePdu) : Prop where
  variant : ∀ function, response = .other function → function ∉ tableFunctions
  few : (returned response).length < 2 ^ 16

/-- A framing of the protocol: a function with a variant of its own is decoded as that variant.  The byte count of a frame is one
byte, so that no frame has 2 ^ 16 values. -/
structure Framing.Regular (F : Framing) : Prop where
  request : ∀ {bytes slave request}, F.decodeRequest bytes = .ok (slave, request) → RequestFits request
  response : ∀ {bytes slave response}, F.decodeResponse bytes = .ok (slave, response) → ResponseFits response

def pairFraming (slave : UnitId) (request : RequestPdu) (response : ResponsePdu) : Framing where
  decodeRequest _ := .ok (slave, request)
  decodeResponse _ := .ok (slave, response)

variable {response : ResponsePdu}

theorem pairFraming_regular {slave : UnitId} (hq : RequestFits request)
    (hr : ResponseFits response) : (pairFraming slave request response).Regular where
  request := by
    rintro _ _ _ ⟨⟩
    exact hq
  response := by
    rintro _ _ _ ⟨⟩
    exact hr

inductive Answers : RequestPdu → ResponsePdu → Prop
  | readCoils {address quantity coils} : Answers (.readCoils address quantity) (.readCoils coils)
  | readDiscreteInputs {address quantity inputs} :
      Answers (.readDiscreteInputs address quantity) (.readDiscreteInputs inputs)
  | readHoldingRegisters {address quantity registers} :
      Answers (.readHoldingRegisters address quantity) (.readHoldingRegisters registers)
  | readInputRegisters {address quantity registers} :
      Answers (.readInputRegisters address quantity) (.readInputRegisters registers)
  | writeSingleCoil {address value address' value'} :
      Answers (.writeSingleCoil address value) (.writeSingleCoil address' value')
  | writeSingleRegister {address value address' value'} :
      Answers (.writeSingleRegister address value) (.writeSingleRegister address' value')
  | writeMultipleCoils {address coils address' quantity'} :
      Answers (.writeMultipleCoils address coils) (.writeMultipleCoils address' quantity')
  | writeMultipleRegisters {address registers address' quantity'} :
      Answers (.writeMultipleRegisters address registers) (.writeMultipleRegisters address' quantity')
  | readWriteMultipleRegisters {readAddress readQuantity writeAddress registers values} :
      Answers (.readWriteMultipleRegisters readAddress readQuantity writeAddress registers)
        (.readWriteMultipleRegisters values)
  | other {function function'} : Answers (.other function) (.other function')

theorem answers_of_function (hq : RequestFits request) (hr : ResponseFits response)
    (hf : response.function = request.function) (hne : ∀ f e, response ≠ .exception f e) : Answers request response := by
  cases request with
  | other function =>
    have hout : response.function ∉ tableFunctions := hf ▸ hq.variant function rfl
    cases response with
    | other function' => exact .other
    | exception f e => exact absurd rfl (hne f e)
    | _ => exact absurd (by simp [tableFunctions, ResponsePdu.function]) hout
  | _ =>
    cases response with
    | exception f e => exact absurd rfl (hne f e)
    | other function' =>
      have hout : function' ∉ tableFunctions := hr.variant function' rfl
      change function' = _ at hf
      subst hf
      exact absurd (by simp [tableFunctions, RequestPdu.function]) hout
    | _ => first | constructor | cases hf

/-! ## A matched pair -/

theorem applyMatched_eq (h : Answers request response) (slave : UnitId) (table : ObservedTable) :
    applyMatched slave request response table =
      ((readBack request response).toList ++ (written request).toList).foldl (writeStretch slave) table := by
  cases h <;> rfl

theorem word_applyMatched (h : Answers request response) (hq : RequestFits request)
    (hr : ResponseFits response) (slave : UnitId) (table : ObservedTable) (key : SlaveKey)
    (a : BitVec 16) : (applyMatched slave request response table).word key a =
      if key.slaveId = slave then
        (writtenAt request key.kind a).or ((readAt request response key.kind a).or (table.word key a))
      else table.word key a := by
  rw [applyMatched_eq h, List.foldl_append]
  have hread : ((readBack request response).toList.foldl (writeStretch slave) table).word key a =
      if key.slaveId = slave then (readAt request response key.kind a).or (table.word key a) else table.word key a := by
    unfold readAt readBack
    cases readRange request with
    | none => simp
    | some range => exact word_writeStretch slave table hr.few key a
  unfold writtenAt
  cases hw : written request with
  | none =>
    rw [bind_none, none_or]
    exact hread
  | some s =>
    rw [toList_some, List.foldl_cons, List.foldl_nil, word_writeStretch slave _ (hq.few s hw), hread, bind_some]
    by_cases hs : key.slaveId = slave
    · rw [if_pos hs, if_pos hs, if_pos hs]
    · rw [if_neg hs, if_neg hs, if_neg hs]

/-- The values of a pair are recorded at the addresses the request names, and nothing else changes. -/
structure RecordedAsRequested (slave : UnitId) (request : RequestPdu) (response : ResponsePdu)
    (before after : ObservedTable) : Prop where
  only : ∀ key a, after.word key a ≠ before.word key a →
    key.slaveId = slave ∧ (InReadRange request key.kind a ∨ InWriteRange request key.kind a)
  written : ∀ kind a w, writtenAt request kind a = some w → after.word ⟨slave, kind⟩ a = some w
  read : ∀ kind a w, InReadRange request kind a → ¬ InWriteRange request kind a →
    readAt request response kind a = some w → after.word ⟨slave, kind⟩ a = some w

theorem processFrame_matched {F : Framing} {slave : UnitId} {frame : Frame}
    (h : awaitedResponse F slave request.function frame.bytes = some response) (table : ObservedTable) (records : RecordLog) :
    (processFrame F frame ⟨.expectResponse slave request.function request, table, records⟩).table =
      applyMatched slave request response table := by
  simp only [processFrame, h]

/-- **The monitor records where the request points** exactly when every address that the response has a value for is in the
range read or in the range written. -/
theorem recorded_where_requested_iff {F : Framing} (hF : F.Regular) {slave : UnitId} {request : RequestPdu}
    {response : ResponsePdu} {asked answered : List (BitVec 8)} (hreq : F.decodeRequest asked = .ok (slave, request))
    (hresp : awaitedResponse F slave request.function answered = some response) (hne : ∀ f e, response ≠ .exception f e) :
    (∀ table records resolvedAt broadcastAt, RecordedAsRequested slave request response table
      (processFrame F ⟨answered, resolvedAt, broadcastAt⟩
        ⟨.expectResponse slave request.function request, table, records⟩).table) ↔
    ∀ kind a, (readAt request response kind a).isSome → InReadRange request kind a ∨ InWriteRange request kind a := by
  obtain ⟨hdec, hf⟩ := awaitedResponse_eq_some hresp
  have hq := hF.request hreq
  have hr := hF.response hdec
  have hword := word_applyMatched (answers_of_function hq hr hf hne) hq hr slave
  constructor
  · intro h kind a hsome
    obtain ⟨w, hw⟩ := isSome_iff_exists.1 hsome
    have hrec := h .empty .empty 0 0
    rw [processFrame_matched hresp] at hrec
    -- over the empty table every word of the response shows
    have hchanged : (applyMatched slave request response .empty).word ⟨slave, kind⟩ a ≠
        ObservedTable.empty.word ⟨slave, kind⟩ a := by
      rw [hword, if_pos rfl, hw, word_empty]
      cases writtenAt request kind a <;> exact some_ne_none _
    exact (hrec.only ⟨slave, kind⟩ a hchanged).2
  intro h table records resolvedAt broadcastAt
  rw [processFrame_matched hresp]
  refine ⟨fun key a hchanged => ?_, fun kind a w hw => ?_, fun kind a w _ hout hw => ?_⟩
  · rw [hword] at hchanged
    by_cases hs : key.slaveId = slave
    · refine ⟨hs, ?_⟩
      rw [if_pos hs] at hchanged
      cases hwr : writtenAt request key.kind a with
      | some w => exact .inr (writtenAt_isSome_iff.1 (by rw [hwr]; rfl))
      | none =>
        cases hrd : readAt request response key.kind a with
        | some w => exact h key.kind a (by rw [hrd]; rfl)
        | none =>
          rw [hwr, hrd] at hchanged
          exact absurd rfl hchanged
    · rw [if_neg hs] at hchanged
      exact absurd rfl hchanged
  · rw [hword, if_pos rfl, hw]
    rfl
  · have hnone : writtenAt request kind a = none := by
      rw [← not_isSome_iff_eq_none, writtenAt_isSome_iff]
      exact hout
    rw [hword, if_pos rfl, hnone, hw]
    rfl

/-- Two registers asked for and two returned. -/
theorem two_registers_recorded : RecordedAsRequested 1 (.readHoldingRegisters 10 2) (.readHoldingRegisters [5, 6]) .empty
      (processFrame (pairFraming 1 (.readHoldingRegisters 10 2) (.readHoldingRegisters [5, 6])) ⟨[], 0, 0⟩
        ⟨.expectResponse 1 .readHoldingRegisters (.readHoldingRegisters 10 2), .empty, .empty⟩).table := by
  have hq : RequestFits (.readHoldingRegisters 10 2) := ⟨nofun, nofun⟩
  have hr : ResponseFits (.readHoldingRegisters [5, 6]) := ⟨nofun, by decide⟩
  have hreq : (pairFraming 1 (.readHoldingRegisters 10 2) (.readHoldingRegisters [5, 6])).decodeRequest [] =
      .ok (1, .readHoldingRegisters 10 2) := rfl
  have hresp : awaitedResponse (pairFraming 1 (.readHoldingRegisters 10 2) (.readHoldingRegisters [5, 6])) 1
      (RequestPdu.readHoldingRegisters 10 2).function [] = some (.readHoldingRegisters [5, 6]) := rfl
  refine (recorded_where_requested_iff (pairFraming_regular hq hr) hreq hresp nofun).2 ?_ .empty .empty 0 0
  intro kind a hsome
  obtain ⟨hkind, hle, hlt⟩ := Stretch.wordAt_isSome_iff.1 hsome
  subst hkind
  exact .inl ⟨10, 2, rfl, hle, hlt⟩

/-- **The bits that fill a byte are recorded as coils.**  A slave answers a request for coil 10 with a byte.  Coil 11, known to be
on, is off in the table from then on. -/
theorem padded_bits_recorded :
    let before := ObservedTable.empty.writeWords ⟨1, .coil⟩ 11 [1]
    let response := ResponsePdu.readCoils [true, false, false, false, false, false, false, false]
    let after := (processFrame (pairFraming 1 (.readCoils 10 1) response) ⟨[], 0, 0⟩
      ⟨.expectResponse 1 .readCoils (.readCoils 10 1), before, .empty⟩).table
    before.word ⟨1, .coil⟩ 11 = some 1 ∧ after.word ⟨1, .coil⟩ 11 = some 0 ∧
      ¬ InReadRange (.readCoils 10 1) .coil 11 ∧ ¬ InWriteRange (.readCoils 10 1) .coil 11 := by
  refine ⟨rfl, rfl, ?_, nofun⟩
  rintro ⟨address, quantity, ⟨⟩, _, hlt⟩
  exact absurd hlt (by decide)

end Ferrowl.Modbus.Monitor
