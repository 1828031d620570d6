import Ferrowl.MonitorWrites
/-!
# MonitorRecency — markers of the addresses seen lately

`recency_active_at` of `monitor/record.rs` over the records of a run of `monitor/core.rs`.  A marker is drawn from the address
and the quantity of the shape alone, which for a request that reads are those of the range read (`recency_marks_writes`).

Time is in nanoseconds.
-/
namespace Ferrowl.Modbus.Monitor

open List

open Store (Word)
open Codec (Kind)

/-! ## The marker -/

def recencyWindow : Nat := 2000000000

def TableShape.covers (s : TableShape) (kind : Kind) (address : BitVec 16) : Bool :=
  decide (s.kind = kind) && decide (address.toNat ≥ s.address.toNat) &&
    decide (address.toNat < s.address.toNat + s.quantity.toNat)

def recencyActiveAt (records : List MonitorRecord) (kind : Kind) (address : BitVec 16) (now : Nat) : Bool :=
  records.reverse.any (fun r =>
    decide (now - r.timestamp < recencyWindow) && r.shape.any (fun s => s.covers kind address))

variable {s : TableShape} {kind : Kind} {a : BitVec 16}

theorem TableShape.covers_iff : s.covers kind a = true ↔
      s.kind = kind ∧ s.address.toNat ≤ a.toNat ∧ a.toNat < s.address.toNat + s.quantity.toNat := by
  simp [TableShape.covers, and_assoc]

theorem recencyActiveAt_of_mem {records : List MonitorRecord} {r : MonitorRecord}
    (hr : r ∈ records) {now : Nat} (hnow : now - r.timestamp < recencyWindow)
    (hc : r.shape.any (fun s => s.covers kind a) = true) : recencyActiveAt records kind a now = true := by
  refine any_eq_true.2 ⟨r, mem_reverse.2 hr, ?_⟩
  rw [decide_eq_true hnow, hc]
  rfl

/-! ## Transactions -/

/-- A request with a record: answered, given up or complete by itself. -/
inductive Transaction where
  | matched (now : Nat) (slave : UnitId) (request : RequestPdu) (response : ResponsePdu)
  | unmatched (now : Nat) (slave : UnitId) (request : RequestPdu)
  | broadcast (now : Nat) (request : RequestPdu)

namespace Transaction

def slave : Transaction → UnitId
  | matched _ slave _ _ => slave
  | unmatched _ slave _ => slave
  | broadcast _ _ => 0

def record : Transaction → MonitorRecord
  | matched now _ request response => matchedRecord now request response
  | unmatched now _ request => unmatchedRecord now request
  | broadcast now request => broadcastRecord now request

def apply (table : ObservedTable) : Transaction → ObservedTable
  | matched _ slave request response => applyMatched slave request response table
  | unmatched _ _ _ => table
  | broadcast _ request => applyBroadcast 0 request table

/-- The transaction writes the word at an address: it leaves one in an empty table. -/
def Writes (t : Transaction) (kind : Kind) (a : BitVec 16) : Prop :=
  ((t.apply .empty).word ⟨t.slave, kind⟩ a).isSome

/-- A request that reads writes to the table in the range read only. -/
def Covered (t : Transaction) : Prop :=
  match t with
  | matched _ _ request _ => (readRange request).isSome → ∀ kind a, t.Writes kind a → InReadRange request kind a
  | _ => True

end Transaction

variable (F : Framing)

def newTransactions (now : Nat) (slave : UnitId) (request : RequestPdu) : List Transaction :=
  if slave = 0 then [.broadcast now request] else []

def completed (m : MonitorState) (frame : Frame) : List Transaction :=
  match m.state with
  | .expectRequest =>
    match F.decodeRequest frame.bytes with
    | .error _ => []
    | .ok (slave, request) => newTransactions frame.broadcastAt slave request
  | .expectResponse slave function request =>
    match awaitedResponse F slave function frame.bytes with
    | some response => [.matched frame.resolvedAt slave request response]
    | none =>
      match F.decodeRequest frame.bytes with
      | .ok (newSlave, newRequest) =>
        .unmatched frame.resolvedAt slave request :: newTransactions frame.broadcastAt newSlave newRequest
      | .error _ => []

def completedFrom (m : MonitorState) : List Frame → List Transaction
  | [] => []
  | frame :: frames => completed F m frame ++ completedFrom (processFrame F frame m) frames

def transactionsOf (slave : UnitId) (ts : List Transaction) : List Transaction :=
  ts.filter (fun t => decide (t.slave = slave))

/-! ## Words and shapes of a transaction -/

def Transaction.Fits : Transaction → Prop
  | matched _ _ request response => RequestFits request ∧ ResponseFits response ∧ response.function = request.function
  | unmatched _ _ _ => True
  | broadcast _ request => RequestFits request

theorem applyMatched_exception (slave : UnitId) (request : RequestPdu) (f : FunctionCode) (e : ExceptionCode)
    (table : ObservedTable) : applyMatched slave request (.exception f e) table = table := by
  cases request <;> rfl

variable {request : RequestPdu}

theorem word_applyBroadcast (hq : RequestFits request) (slave : UnitId) (table : ObservedTable)
    (key : SlaveKey) (a : BitVec 16) : (applyBroadcast slave request table).word key a =
      if key.slaveId = slave then (writtenAt request key.kind a).or (table.word key a) else table.word key a := by
  have heq : applyBroadcast slave request table = (written request).toList.foldl (writeStretch slave) table := by
    cases request <;> rfl
  rw [heq]
  unfold writtenAt
  cases hw : written request with
  | none => simp
  | some s => exact word_writeStretch slave table (hq.few s hw) key a

def Transaction.wordAt : Transaction → Kind → BitVec 16 → Option Word
  | matched _ _ _ (.exception _ _), _, _ => none
  | matched _ _ request response, kind, a => (writtenAt request kind a).or (readAt request response kind a)
  | unmatched _ _ _, _, _ => none
  | broadcast _ request, kind, a => writtenAt request kind a

variable {response : ResponsePdu}

theorem Transaction.wordAt_matched {now : Nat} {slave : UnitId}
    (hne : ∀ f e, response ≠ .exception f e) (kind : Kind) (a : BitVec 16) : (matched now slave request response).wordAt kind a =
      (writtenAt request kind a).or (readAt request response kind a) := by
  cases response with
  | exception f e => exact absurd rfl (hne f e)
  | _ => rfl

variable {t : Transaction}

theorem Transaction.word_apply (ht : t.Fits) (table : ObservedTable) (key : SlaveKey)
    (a : BitVec 16) :
    (t.apply table).word key a =
      if key.slaveId = t.slave then (t.wordAt key.kind a).or (table.word key a) else table.word key a := by
  cases t with
  | unmatched now slave request => exact (ite_self _).symm
  | broadcast now request => exact word_applyBroadcast ht 0 table key a
  | matched now slave request response =>
    obtain ⟨hq, hr, hf⟩ := ht
    by_cases hne : ∀ f e, response ≠ .exception f e
    · rw [wordAt_matched hne, Option.or_assoc]
      exact word_applyMatched (answers_of_function hq hr hf hne) hq hr slave table key a
    push Not at hne
    obtain ⟨f, e, rfl⟩ := hne
    rw [Transaction.apply, applyMatched_exception]
    exact (ite_self _).symm

theorem Transaction.writes_iff (ht : t.Fits) : t.Writes kind a ↔ (t.wordAt kind a).isSome := by
  rw [Transaction.Writes, t.word_apply ht, if_pos rfl, word_empty, Option.or_none]

theorem covers_read (h : readRange request = some (s.kind, s.address, s.quantity)) :
    s.covers kind a = true ↔ InReadRange request kind a := by
  rw [TableShape.covers_iff]
  constructor
  · rintro ⟨rfl, hin⟩
    exact ⟨s.address, s.quantity, h, hin⟩
  · rintro ⟨address, quantity, hr, hin⟩
    cases h.symm.trans hr
    exact ⟨rfl, hin⟩

theorem covers_written (hq : RequestFits request) {w : Stretch} (h : written request = some w)
    (hkind : s.kind = w.kind) (haddress : s.address = w.address) (hquantity : s.quantity = .ofNat 16 w.words.length) :
    s.covers kind a = true ↔ InWriteRange request kind a := by
  have hlen : s.quantity.toNat = w.words.length := by
    rw [hquantity, BitVec.toNat_ofNat, Nat.mod_eq_of_lt (hq.few w h)]
  rw [TableShape.covers_iff, hkind, haddress, hlen]
  constructor
  · intro hin
    exact ⟨w, h, hin⟩
  · rintro ⟨w', hw, hin⟩
    cases h.symm.trans hw
    exact hin

theorem shapeFromPair_covers (h : Answers request response) (hq : RequestFits request) :
    (shapeFromPair request response).any (fun s => s.covers kind a) = true ↔
      if (readRange request).isSome then InReadRange request kind a else InWriteRange request kind a := by
  cases h with
  | writeSingleCoil | writeSingleRegister | writeMultipleRegisters => exact covers_written hq rfl rfl rfl rfl
  | writeMultipleCoils => exact covers_written hq rfl rfl rfl (by rw [length_map]; rfl)
  | other => exact ⟨nofun, nofun⟩
  | _ => exact covers_read rfl

theorem shapeFromBroadcast_covers (hq : RequestFits request) :
    (shapeFromBroadcast request).any (fun s => s.covers kind a) = true ↔ InWriteRange request kind a := by
  cases request with
  | writeSingleCoil address value
  | writeSingleRegister address value
  | writeMultipleRegisters address registers
  | readWriteMultipleRegisters readAddress readQuantity writeAddress registers =>
    exact covers_written hq rfl rfl rfl rfl
  | writeMultipleCoils address coils => exact covers_written hq rfl rfl rfl (by rw [length_map]; rfl)
  | _ => exact ⟨nofun, nofun⟩

theorem matchedRecord_shape (hne : ∀ f e, response ≠ .exception f e) (now : Nat) (request : RequestPdu) :
    (matchedRecord now request response).shape = shapeFromPair request response := by
  cases response with
  | exception f e => exact absurd rfl (hne f e)
  | _ => rfl

theorem Transaction.Writes.answered {now : Nat} {slave : UnitId}
    (h : (matched now slave request response).Writes kind a) (f : FunctionCode)
    (e : ExceptionCode) : response ≠ .exception f e := by
  rintro rfl
  rw [Transaction.Writes, Transaction.apply, applyMatched_exception] at h
  cases h

/-- **The record of a transaction covers what it writes** exactly when a request that reads writes in the range read only. -/
theorem Transaction.record_covers_iff (ht : t.Fits) :
    (∀ kind a, t.Writes kind a → t.record.shape.any (fun s => s.covers kind a) = true) ↔ t.Covered := by
  cases t with
  | unmatched now slave request => exact ⟨fun _ => trivial, fun _ _ _ hw => nomatch hw⟩
  | broadcast now request =>
    refine ⟨fun _ => trivial, fun _ kind a hw => ?_⟩
    rw [writes_iff ht] at hw
    exact (shapeFromBroadcast_covers ht).2 (writtenAt_isSome_iff.1 hw)
  | matched now slave request response =>
    have hcovers : ∀ kind a, (matched now slave request response).Writes kind a →
        ((matched now slave request response).record.shape.any (fun s => s.covers kind a) = true ↔
          if (readRange request).isSome then InReadRange request kind a else InWriteRange request kind a) := by
      intro kind a hw
      rw [Transaction.record, matchedRecord_shape hw.answered]
      exact shapeFromPair_covers (answers_of_function ht.1 ht.2.1 ht.2.2 hw.answered) ht.1
    constructor
    · intro h hread kind a hw
      have hin := (hcovers kind a hw).1 (h kind a hw)
      rw [if_pos hread] at hin
      exact hin
    intro h kind a hw
    refine (hcovers kind a hw).2 ?_
    by_cases hread : (readRange request).isSome
    · rw [if_pos hread]
      exact h hread kind a hw
    -- nothing is read, so the word is one written
    rw [if_neg hread]
    have hnone : readAt request response kind a = none := by
      rw [Option.not_isSome_iff_eq_none] at hread
      rw [readAt, readBack, hread]
      rfl
    have hword := (writes_iff ht).1 hw
    rw [wordAt_matched hw.answered, hnone, Option.or_none] at hword
    exact writtenAt_isSome_iff.1 hword

/-! ## Runs -/

def MatchState.Fits : MatchState → Prop
  | .expectRequest => True
  | .expectResponse _ function request => function = request.function ∧ RequestFits request

/-- The table and the records are those of the transactions: each slave's ring has their latest records, and every word observed
was written by one of them. -/
structure Explained (ts : List Transaction) (table : ObservedTable) (records : RecordLog) : Prop where
  fits : ∀ t ∈ ts, t.Fits
  records : ∀ slave, (records.records slave).Holds ((transactionsOf slave ts).map Transaction.record)
  words : ∀ slave kind a, (table.word ⟨slave, kind⟩ a).isSome → ∃ t ∈ transactionsOf slave ts, t.Writes kind a

theorem transactionsOf_concat (slave : UnitId) (ts : List Transaction) (t : Transaction) :
    transactionsOf slave (ts ++ [t]) = transactionsOf slave ts ++ if t.slave = slave then [t] else [] := by
  unfold transactionsOf
  rw [filter_append]
  by_cases h : t.slave = slave <;> simp [h]

theorem explained_initial : Explained [] .empty .empty where
  fits t ht := absurd ht not_mem_nil
  records slave := by
    refine ⟨?_, rfl⟩
    rw [transactionsOf, filter_nil, map_nil, rtake_nil]
    rfl
  words slave kind a h := by
    rw [word_empty] at h
    cases h

variable {ts : List Transaction} {table : ObservedTable} {records : RecordLog}

theorem Explained.transaction (h : Explained ts table records) (ht : t.Fits) :
    Explained (ts ++ [t]) (t.apply table) (records.push t.slave t.record) where
  fits := by
    intro u hu
    rcases mem_append.1 hu with hu | hu
    · exact h.fits u hu
    · rw [mem_singleton.1 hu]
      exact ht
  records := by
    intro slave
    rw [transactionsOf_concat, map_append]
    by_cases hs : t.slave = slave
    · subst hs
      rw [if_pos rfl, RecordLog.records_push_self]
      exact (h.records t.slave).push t.record
    · rw [if_neg hs, RecordLog.records_push_of_ne _ (Ne.symm hs), map_nil, append_nil]
      exact h.records slave
  words := by
    intro slave kind a hsome
    rw [transactionsOf_concat]
    have hold : (table.word ⟨slave, kind⟩ a).isSome →
        ∃ u ∈ transactionsOf slave ts ++ (if t.slave = slave then [t] else []), u.Writes kind a := by
      intro hword
      obtain ⟨u, hu, hw⟩ := h.words slave kind a hword
      exact ⟨u, mem_append_left _ hu, hw⟩
    rw [Transaction.word_apply ht] at hsome
    by_cases hs : slave = t.slave
    · rw [if_pos hs, Option.isSome_or, Bool.or_eq_true] at hsome
      rcases hsome with hnew | hword
      · rw [if_pos hs.symm]
        exact ⟨t, mem_append_right _ mem_cons_self, (Transaction.writes_iff ht).2 hnew⟩
      · exact hold hword
    · rw [if_neg hs] at hsome
      exact hold hsome

theorem Explained.markSeen (h : Explained ts table records) (slave : UnitId) : Explained ts (table.markSeen slave) records :=
  ⟨h.fits, h.records, h.words⟩

structure Observing (ts : List Transaction) (m : MonitorState) : Prop where
  state : m.state.Fits
  explained : Explained ts m.table m.records

theorem observing_handleNewRequest (h : Explained ts table records) (hq : RequestFits request) (now : Nat) (slave : UnitId) :
    Observing (ts ++ newTransactions now slave request) (handleNewRequest now slave request table records) := by
  unfold handleNewRequest newTransactions
  by_cases hs : slave = 0
  · subst hs
    rw [if_pos rfl, if_pos rfl]
    exact ⟨trivial, (h.markSeen 0).transaction (t := .broadcast now request) hq⟩
  · rw [if_neg hs, if_neg hs, append_nil]
    exact ⟨⟨rfl, hq⟩, h.markSeen slave⟩

variable {F}

theorem observing_processFrame (hF : F.Regular) {m : MonitorState} (h : Observing ts m)
    (frame : Frame) : Observing (ts ++ completed F m frame) (processFrame F frame m) := by
  obtain ⟨hstate, hexp⟩ := h
  have hsame : Observing (ts ++ []) m := ⟨hstate, (append_nil ts).symm ▸ hexp⟩
  unfold processFrame completed
  cases hm : m.state with
  | expectRequest =>
    cases hq : F.decodeRequest frame.bytes with
    | error e => exact hsame
    | ok p => exact observing_handleNewRequest hexp (hF.request hq) _ _
  | expectResponse slave function request =>
    rw [hm] at hstate
    obtain ⟨hfn, hfits⟩ := hstate
    dsimp only
    cases ha : awaitedResponse F slave function frame.bytes with
    | some response =>
      obtain ⟨hd, hf⟩ := awaitedResponse_eq_some ha
      exact ⟨trivial, hexp.transaction (t := .matched frame.resolvedAt slave request response)
        ⟨hfits, hF.response hd, hf.trans hfn⟩⟩
    | none =>
      cases hq : F.decodeRequest frame.bytes with
      | error e => exact hsame
      | ok p =>
        rw [append_cons]
        exact observing_handleNewRequest
          (hexp.transaction (t := .unmatched frame.resolvedAt slave request) trivial) (hF.request hq) _ _

theorem observing_frames (hF : F.Regular) : ∀ (frames : List Frame) (ts : List Transaction) (m : MonitorState),
    Observing ts m → Observing (ts ++ completedFrom F m frames) (frames.foldl (fun m f => processFrame F f m) m)
  | [], ts, m, h => by
    rw [completedFrom, append_nil]
    exact h
  | frame :: frames, ts, m, h => by
    rw [completedFrom, ← append_assoc, foldl_cons]
    exact observing_frames hF frames _ _ (observing_processFrame hF h frame)

/-- **Recency markers.** Every word observed was written by a transaction; of those whose record is in the ring and less than
two seconds old, a covered one has all addresses it wrote marked as active, and one that is not covered wrote an address that
its record does not mark. -/
theorem recency_marks_writes (hF : F.Regular) (frames : List Frame) (slave : UnitId) (now : Nat) :
    (∀ kind a, ((processFrames F frames).table.word ⟨slave, kind⟩ a).isSome →
      ∃ t ∈ transactionsOf slave (completedFrom F .initial frames), t.Writes kind a) ∧
    ∀ t ∈ (transactionsOf slave (completedFrom F .initial frames)).rtake recordRingCapacity,
      now - t.record.timestamp < recencyWindow → (t.Covered → ∀ kind a, t.Writes kind a →
          recencyActiveAt ((processFrames F frames).records.recordsFor slave) kind a now = true) ∧
        (¬ t.Covered → ∃ kind a, t.Writes kind a ∧ recencyActiveAt [t.record] kind a now = false) := by
  have hrun : Observing (completedFrom F .initial frames) (processFrames F frames) :=
    observing_frames hF frames [] .initial ⟨trivial, explained_initial⟩
  refine ⟨hrun.explained.words slave, fun t ht hnow => ?_⟩
  have hmem : t ∈ completedFrom F .initial frames := mem_of_mem_filter (mem_of_mem_drop ht)
  have hfits := hrun.explained.fits t hmem
  have hring : (processFrames F frames).records.recordsFor slave =
      ((transactionsOf slave (completedFrom F .initial frames)).rtake recordRingCapacity).map Transaction.record := by
    refine (hrun.explained.records slave).1.trans ?_
    unfold List.rtake
    rw [length_map, map_drop]
  constructor
  · intro hc kind a hw
    rw [hring]
    exact recencyActiveAt_of_mem (mem_map_of_mem ht) hnow ((Transaction.record_covers_iff hfits).2 hc kind a hw)
  intro hc
  rw [← Transaction.record_covers_iff hfits] at hc
  push Not at hc
  obtain ⟨kind, a, hw, hout⟩ := hc
  refine ⟨kind, a, hw, ?_⟩
  simp [recencyActiveAt, hout]

/-- Two registers read at time 0 and looked at a second later. -/
theorem two_registers_active :
    recencyActiveAt ((processFrames (pairFraming 1 (.readHoldingRegisters 10 2) (.readHoldingRegisters [5, 6]))
      [⟨[], 0, 0⟩, ⟨[], 0, 0⟩]).records.recordsFor 1) .holdingRegister 11 1000000000 = true := by
  have hq : RequestFits (.readHoldingRegisters 10 2) := ⟨nofun, nofun⟩
  have hr : ResponseFits (.readHoldingRegisters [5, 6]) := ⟨nofun, by decide⟩
  have hF : (pairFraming 1 (.readHoldingRegisters 10 2) (.readHoldingRegisters [5, 6])).Regular := pairFraming_regular hq hr
  have h := recency_marks_writes hF [⟨[], 0, 0⟩, ⟨[], 0, 0⟩] 1 1000000000
  have ht : (Transaction.matched 0 1 (.readHoldingRegisters 10 2) (.readHoldingRegisters [5, 6])).Fits := ⟨hq, hr, rfl⟩
  refine (h.2 _ mem_cons_self (by decide)).1 ?_ _ _ rfl
  intro _ kind a hw
  obtain ⟨hkind, hle, hlt⟩ := Stretch.wordAt_isSome_iff.1 ((Transaction.writes_iff ht).1 hw)
  subst hkind
  exact ⟨10, 2, rfl, hle, hlt⟩

/-- **The registers that a request reads and writes at once are not marked where it writes.** -/
theorem written_register_not_marked :
    let F := pairFraming 1 (.readWriteMultipleRegisters 10 1 50 [7]) (.readWriteMultipleRegisters [5])
    let m := processFrames F [⟨[], 0, 0⟩, ⟨[], 0, 0⟩]
    m.table.word ⟨1, .holdingRegister⟩ 50 = some 7 ∧
      (∃ r, m.records.recordsFor 1 = [r] ∧ r.timestamp = 0 ∧ r.status = .ok) ∧
      recencyActiveAt (m.records.recordsFor 1) .holdingRegister 50 0 = false :=
  ⟨rfl, ⟨_, rfl, rfl, rfl⟩, by decide⟩

end Ferrowl.Modbus.Monitor
