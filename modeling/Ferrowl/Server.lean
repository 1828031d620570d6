import Ferrowl.Pdu
import Ferrowl.StoreFlat
/-!
# Server — Modbus requests answered from the shared memory

`answer_request` of `server_core.rs` and the handlers it shares between function codes.  A request names its region by slave and
function code and reads or writes it through the sliced memory.

Log lines are left out.  The key type is the server's own parameter.
-/
namespace Ferrowl.Modbus

open Store (Range CellType Memory MemoryError Word WriteSource TapCall FlatStore)
open Codec (Kind)

/-- How a key is made from what a request names. -/
class KeyParams (K : Type) where
  fromSlaveFn : UnitId → FunctionCode → K
  allKindsFor : UnitId → List K

instance : KeyParams SlaveKey where
  fromSlaveFn := SlaveKey.fromSlaveFn
  allKindsFor slaveId := [.coil, .discreteInput, .holdingRegister, .inputRegister].map (SlaveKey.mk slaveId)

def coilsOf (words : List Word) : List Bool := words.map (fun w => w != 0)

section
variable {K : Type} [DecidableEq K] [KeyParams K]

/-- A result, the memory after it and the calls of the write tap. -/
abbrev Outcome (K α : Type) := Except ExceptionCode α × Memory K × List (TapCall K)

def handleRead (slave : UnitId) (fc : FunctionCode) (cell : CellType) (addr cnt : BitVec 16) (m : Memory K) :
    Except ExceptionCode (List Word) :=
  match m.read (KeyParams.fromSlaveFn slave fc) cell (Range.new addr.toNat cnt.toNat) with
  | .ok v => .ok v
  | .error _ => .error .illegalDataAddress

def storeRemote (key : K) (cell : CellType) (range : Range) (values : List Word) (m : Memory K) : Outcome K Unit :=
  match m.writeFrom WriteSource.remote key cell range values with
  | (.ok (), m', calls) => (.ok (), m', calls)
  | (.error _, m', calls) => (.error .illegalDataAddress, m', calls)

/-- The shared body of the two multi-write function codes; the result is the count written. -/
def handleWriteMulti (slave : UnitId) (fc : FunctionCode) (cell : CellType) (addr : BitVec 16) (values : List Word)
    (m : Memory K) : Outcome K (BitVec 16) :=
  let res := storeRemote (KeyParams.fromSlaveFn slave fc) cell (Range.new addr.toNat values.length) values m
  (res.1.map (fun _ => BitVec.ofNat 16 values.length), res.2)

def handleWriteSingle (slave : UnitId) (fc : FunctionCode) (cell : CellType) (addr : BitVec 16) (stored : Word)
    (m : Memory K) : Outcome K Unit :=
  storeRemote (KeyParams.fromSlaveFn slave fc) cell (Range.new addr.toNat 1) [stored] m

/-- The checks and operations of a combined request, under one guard. -/
def handleReadWrite (slave : UnitId) (readAddr cnt writeAddr : BitVec 16) (values : List Word) (m : Memory K) :
    Outcome K (List Word) :=
  let key : K := KeyParams.fromSlaveFn slave .readWriteMultipleRegisters
  let readRange := Range.new readAddr.toNat cnt.toNat
  let writeRange := Range.new writeAddr.toNat values.length
  match m.readable key .register readRange with
  | .error _ => (.error .illegalDataAddress, m, [])
  | .ok () =>
    match m.writable key .register writeRange with
    | .error _ => (.error .illegalDataAddress, m, [])
    | .ok () =>
      match m.read key .register readRange with
      | .error _ => (.error .illegalDataAddress, m, [])
      | .ok v =>
        let res := storeRemote key .register writeRange values m
        (res.1.map (fun _ => v), res.2)

def answerRequest (slave : UnitId) (request : RequestPdu) (m : Memory K) : Outcome K ResponsePdu :=
  match request with
  | .readCoils address quantity =>
    ((handleRead slave .readCoils .coil address quantity m).map (fun v => .readCoils (coilsOf v)), m, [])
  | .readDiscreteInputs address quantity =>
    ((handleRead slave .readDiscreteInputs .coil address quantity m).map (fun v => .readDiscreteInputs (coilsOf v)), m, [])
  | .readInputRegisters address quantity =>
    ((handleRead slave .readInputRegisters .register address quantity m).map .readInputRegisters, m, [])
  | .readHoldingRegisters address quantity =>
    ((handleRead slave .readHoldingRegisters .register address quantity m).map .readHoldingRegisters, m, [])
  | .writeMultipleRegisters address registers =>
    let res := handleWriteMulti slave .writeMultipleRegisters .register address registers m
    (res.1.map (fun len => .writeMultipleRegisters address len), res.2)
  | .writeSingleRegister address value =>
    let res := handleWriteSingle slave .writeSingleRegister .register address value m
    (res.1.map (fun _ => .writeSingleRegister address value), res.2)
  | .writeMultipleCoils address coils =>
    let res := handleWriteMulti slave .writeMultipleCoils .coil address (coils.map coilWord) m
    (res.1.map (fun len => .writeMultipleCoils address len), res.2)
  | .writeSingleCoil address value =>
    let res := handleWriteSingle slave .writeSingleCoil .coil address (coilWord value) m
    (res.1.map (fun _ => .writeSingleCoil address value), res.2)
  | .readWriteMultipleRegisters readAddress readQuantity writeAddress registers =>
    let res := handleReadWrite slave readAddress readQuantity writeAddress registers m
    (res.1.map .readWriteMultipleRegisters, res.2)
  | .other _ => (.error .illegalFunction, m, [])

def answerAll (m : Memory K) : List (UnitId × RequestPdu) → List (Except ExceptionCode ResponsePdu) × Memory K
  | [] => ([], m)
  | r :: requests =>
    let res := answerRequest r.1 r.2 m
    let rest := answerAll res.2.1 requests
    (res.1 :: rest.1, rest.2)

/-! ## The flat machine -/

/-- What a supported request is about: one region, read as and written as one cell type. -/
structure Access (K : Type) where
  key : K
  ty : CellType
  reads : Option Range
  writes : Option (Range × List Word)
  reply : List Word → ResponsePdu

def accessOf (slave : UnitId) : RequestPdu → Option (Access K)
  | .readCoils a n => some ⟨KeyParams.fromSlaveFn slave .readCoils, .coil, some (Range.new a.toNat n.toNat), none,
      fun v => .readCoils (coilsOf v)⟩
  | .readDiscreteInputs a n => some ⟨KeyParams.fromSlaveFn slave .readDiscreteInputs, .coil,
      some (Range.new a.toNat n.toNat), none, fun v => .readDiscreteInputs (coilsOf v)⟩
  | .readInputRegisters a n => some ⟨KeyParams.fromSlaveFn slave .readInputRegisters, .register,
      some (Range.new a.toNat n.toNat), none, .readInputRegisters⟩
  | .readHoldingRegisters a n => some ⟨KeyParams.fromSlaveFn slave .readHoldingRegisters, .register,
      some (Range.new a.toNat n.toNat), none, .readHoldingRegisters⟩
  | .writeMultipleRegisters a vs => some ⟨KeyParams.fromSlaveFn slave .writeMultipleRegisters, .register, none,
      some (Range.new a.toNat vs.length, vs), fun _ => .writeMultipleRegisters a (BitVec.ofNat 16 vs.length)⟩
  | .writeSingleRegister a v => some ⟨KeyParams.fromSlaveFn slave .writeSingleRegister, .register, none,
      some (Range.new a.toNat 1, [v]), fun _ => .writeSingleRegister a v⟩
  | .writeMultipleCoils a bs => some ⟨KeyParams.fromSlaveFn slave .writeMultipleCoils, .coil, none,
      some (Range.new a.toNat bs.length, bs.map coilWord), fun _ => .writeMultipleCoils a (BitVec.ofNat 16 bs.length)⟩
  | .writeSingleCoil a b => some ⟨KeyParams.fromSlaveFn slave .writeSingleCoil, .coil, none,
      some (Range.new a.toNat 1, [coilWord b]), fun _ => .writeSingleCoil a b⟩
  | .readWriteMultipleRegisters ra n wa vs => some ⟨KeyParams.fromSlaveFn slave .readWriteMultipleRegisters, .register,
      some (Range.new ra.toNat n.toNat), some (Range.new wa.toNat vs.length, vs), .readWriteMultipleRegisters⟩
  | .other _ => none

/-- The region is known, and every addressed cell is declared and has the access the request needs. -/
def Access.Granted (p : Access K) (s : FlatStore K) : Prop :=
  (s p.key).isSome = true ∧ (∀ r ∈ p.reads, s.Readable p.key p.ty r) ∧ ∀ w ∈ p.writes, s.Writable p.key p.ty w.1

instance (p : Access K) (s : FlatStore K) : Decidable (p.Granted s) :=
  inferInstanceAs (Decidable (_ ∧ _ ∧ _))

def valuesIn (s : FlatStore K) (key : K) (range : Range) : List Word :=
  range.addrs.map (fun a => ((s.cellAt key a).map (·.value)).getD 0)

/-- **The server as one map per region**: a granted request is answered with the values the map holds before it and writes
its own range of its region; any other supported request answers an illegal address and changes nothing, and so does an
unsupported one with an illegal function. -/
def serveFlat (s : FlatStore K) (slave : UnitId) (request : RequestPdu) :
    Except ExceptionCode ResponsePdu × FlatStore K :=
  match (accessOf slave request : Option (Access K)) with
  | none => (.error .illegalFunction, s)
  | some p =>
    if p.Granted s then
      (.ok (p.reply ((p.reads.map (valuesIn s p.key)).getD [])),
        match p.writes with
        | none => s
        | some w => s.setRange p.key w.1 w.2)
    else (.error .illegalDataAddress, s)

def serveFlatAll (s : FlatStore K) : List (UnitId × RequestPdu) →
    List (Except ExceptionCode ResponsePdu) × FlatStore K
  | [] => ([], s)
  | r :: requests =>
    let res := serveFlat s r.1 r.2
    let rest := serveFlatAll res.2 requests
    (res.1 :: rest.1, rest.2)

/-! ## The server refines the flat machine -/

variable (slave : UnitId)

omit [DecidableEq K] in
theorem handleRead_eq (fc : FunctionCode) (cell : CellType) (addr cnt : BitVec 16) (m : Memory K) :
    handleRead slave fc cell addr cnt m =
      if (m.abs (KeyParams.fromSlaveFn slave fc)).isSome = true ∧
          m.abs.Readable (KeyParams.fromSlaveFn slave fc) cell (Range.new addr.toNat cnt.toNat) then
        .ok (valuesIn m.abs (KeyParams.fromSlaveFn slave fc) (Range.new addr.toNat cnt.toNat))
      else .error .illegalDataAddress := by
  unfold handleRead
  generalize (KeyParams.fromSlaveFn slave fc : K) = key
  generalize Range.new addr.toNat cnt.toNat = range
  by_cases h : (m.abs key).isSome = true ∧ m.abs.Readable key cell range
  · rw [if_pos h, Memory.read_of_readable (Memory.readable_iff_abs.2 h)]
    exact congrArg Except.ok (List.map_congr_left (fun a _ => m.valueAt_abs key a))
  rw [if_neg h]
  cases hr : m.read key cell range with
  | ok v => exact absurd (Memory.readable_iff_abs.1 (Memory.read_ok.1 hr).1) h
  | error e => rfl

omit [KeyParams K] in
theorem storeRemote_eq (m : Memory K) (key : K) (cell : CellType) {range : Range} {values : List Word}
    (hlen : range.length = values.length) :
    ((storeRemote key cell range values m).1, (storeRemote key cell range values m).2.1.abs) =
      if (m.abs key).isSome = true ∧ m.abs.Writable key cell range then (.ok (), m.abs.setRange key range values)
      else (.error .illegalDataAddress, m.abs) := by
  have hw := m.writeFrom_eq WriteSource.remote key cell range values
  unfold storeRemote
  generalize m.writeFrom WriteSource.remote key cell range values = out at hw
  obtain ⟨res, m', calls⟩ := out
  have hiff : (m.write key cell range values).1 = .ok () ↔ _ := Memory.write_ok_iff_abs
  by_cases h : (m.abs key).isSome = true ∧ m.abs.Writable key cell range
  · have hok := hiff.2 ⟨h.1, hlen, h.2⟩
    have habs := Memory.abs_write_of_ok hok
    rw [← hw] at hok habs
    cases hok
    rw [if_pos h]
    exact congrArg (Prod.mk _) habs
  rw [if_neg h]
  cases res with
  | ok u =>
    rw [← hw] at hiff
    exact absurd (hiff.1 rfl) (fun h' => h ⟨h'.1, h'.2.2⟩)
  | error e =>
    have hm : (m.write key cell range values).2 = m := Memory.write_error (e := e) (by rw [← hw])
    rw [← hw] at hm
    exact congrArg (fun m => (_, Memory.abs m)) hm

section
variable {s : FlatStore K} {key : K} {ty : CellType} {reply : List Word → ResponsePdu}

omit [DecidableEq K] [KeyParams K]

theorem granted_read {range : Range} : (⟨key, ty, some range, none, reply⟩ : Access K).Granted s ↔
    (s key).isSome = true ∧ s.Readable key ty range := by
  simp [Access.Granted]

theorem granted_write {w : Range × List Word} : (⟨key, ty, none, some w, reply⟩ : Access K).Granted s ↔
    (s key).isSome = true ∧ s.Writable key ty w.1 := by
  simp [Access.Granted]

end

omit [DecidableEq K] in
theorem refines_read (fc : FunctionCode) (cell : CellType) (addr cnt : BitVec 16) (m : Memory K)
    (reply : List Word → ResponsePdu) :
    ((handleRead slave fc cell addr cnt m).map reply, m.abs) =
      if (⟨KeyParams.fromSlaveFn slave fc, cell, some (Range.new addr.toNat cnt.toNat), none, reply⟩ :
          Access K).Granted m.abs then
        (.ok (reply (valuesIn m.abs (KeyParams.fromSlaveFn slave fc) (Range.new addr.toNat cnt.toNat))), m.abs)
      else (.error .illegalDataAddress, m.abs) := by
  rw [handleRead_eq]
  simp only [granted_read]
  split <;> rfl

omit [KeyParams K] in
theorem refines_write (m : Memory K) (key : K) (cell : CellType) {range : Range} {values : List Word}
    (hlen : range.length = values.length) (reply : ResponsePdu) :
    ((storeRemote key cell range values m).1.map (fun _ => reply), (storeRemote key cell range values m).2.1.abs) =
      if (⟨key, cell, none, some (range, values), fun _ => reply⟩ : Access K).Granted m.abs then
        (.ok reply, m.abs.setRange key range values)
      else (.error .illegalDataAddress, m.abs) := by
  have h := congrArg (fun p => (p.1.map (fun _ => reply), p.2)) (storeRemote_eq m key cell hlen)
  simp only [granted_write]
  split
  · rename_i hg
    rw [if_pos hg] at h
    exact h
  · rename_i hg
    rw [if_neg hg] at h
    exact h

theorem refines_writeMulti (fc : FunctionCode) (cell : CellType) (addr : BitVec 16)
    (values : List Word) (m : Memory K) (reply : BitVec 16 → ResponsePdu) :
    ((handleWriteMulti slave fc cell addr values m).1.map reply, (handleWriteMulti slave fc cell addr values m).2.1.abs) =
      if (⟨KeyParams.fromSlaveFn slave fc, cell, none, some (Range.new addr.toNat values.length, values),
          fun _ => reply (BitVec.ofNat 16 values.length)⟩ : Access K).Granted m.abs then
        (.ok (reply (BitVec.ofNat 16 values.length)),
          m.abs.setRange (KeyParams.fromSlaveFn slave fc) (Range.new addr.toNat values.length) values)
      else (.error .illegalDataAddress, m.abs) := by
  rw [← refines_write m _ cell (Range.new_length addr.toNat values.length)]
  unfold handleWriteMulti
  generalize storeRemote (KeyParams.fromSlaveFn slave fc) cell (Range.new addr.toNat values.length) values m = out
  obtain ⟨res, out⟩ := out
  cases res <;> rfl

theorem refines_readWrite (readAddr cnt writeAddr : BitVec 16) (values : List Word) (m : Memory K) :
    (((handleReadWrite slave readAddr cnt writeAddr values m).1.map .readWriteMultipleRegisters,
        (handleReadWrite slave readAddr cnt writeAddr values m).2.1.abs) : Except ExceptionCode ResponsePdu × FlatStore K) =
      serveFlat m.abs slave (.readWriteMultipleRegisters readAddr cnt writeAddr values) := by
  simp only [serveFlat, accessOf, handleReadWrite, Access.Granted, Option.mem_def, Option.some.injEq, forall_eq']
  generalize (KeyParams.fromSlaveFn slave .readWriteMultipleRegisters : K) = key
  generalize hwr : Range.new writeAddr.toNat values.length = writeRange
  generalize Range.new readAddr.toNat cnt.toNat = readRange
  have hlen : writeRange.length = values.length := by rw [← hwr, Range.new_length]
  -- the two checks decide the request; the read and the write after them cannot fail
  cases hr : m.readable key .register readRange with
  | error e =>
    rw [if_neg (fun h => by
      have := Memory.readable_iff_abs.2 ⟨h.1, h.2.1⟩
      rw [hr] at this
      cases this)]
    rfl
  | ok u =>
    have hread := Memory.readable_iff_abs.1 hr
    cases hw : m.writable key .register writeRange with
    | error e =>
      rw [if_neg (fun h => by
        have := Memory.writable_iff_abs.2 ⟨h.1, h.2.2⟩
        rw [hw] at this
        cases this)]
      rfl
    | ok u =>
      have hwrite := Memory.writable_iff_abs.1 hw
      have hstore := storeRemote_eq m key .register hlen
      rw [if_pos hwrite] at hstore
      obtain ⟨h1, h2⟩ := Prod.mk.inj hstore
      simp only [Memory.read_of_readable hr]
      rw [if_pos ⟨hread.1, hread.2, hwrite.2⟩, h1, h2]
      refine Prod.ext (congrArg (fun v => Except.ok (ResponsePdu.readWriteMultipleRegisters v)) ?_) rfl
      exact List.map_congr_left (fun a _ => m.valueAt_abs key a)

theorem answerRequest_refines (request : RequestPdu) (m : Memory K) :
    ((answerRequest slave request m).1, (answerRequest slave request m).2.1.abs) = serveFlat m.abs slave request := by
  cases request with
  | readCoils a n => exact refines_read slave .readCoils .coil a n m _
  | readDiscreteInputs a n => exact refines_read slave .readDiscreteInputs .coil a n m _
  | readInputRegisters a n => exact refines_read slave .readInputRegisters .register a n m _
  | readHoldingRegisters a n => exact refines_read slave .readHoldingRegisters .register a n m _
  | writeMultipleRegisters a vs => exact refines_writeMulti slave .writeMultipleRegisters .register a vs m _
  | writeSingleRegister a v => exact refines_write m _ .register (Range.new_length a.toNat 1) (.writeSingleRegister a v)
  | writeMultipleCoils a bs =>
    have h := refines_writeMulti slave .writeMultipleCoils .coil a (bs.map coilWord) m (.writeMultipleCoils a)
    simp only [List.length_map] at h
    exact h
  | writeSingleCoil a b => exact refines_write m _ .coil (Range.new_length a.toNat 1) (.writeSingleCoil a b)
  | readWriteMultipleRegisters ra n wa vs => exact refines_readWrite slave ra n wa vs m
  | other f => rfl

theorem answerAll_refines : ∀ (requests : List (UnitId × RequestPdu)) (m : Memory K),
    ((answerAll m requests).1, (answerAll m requests).2.abs) = serveFlatAll m.abs requests
  | [], _ => rfl
  | r :: requests, m => by
    obtain ⟨h1, h2⟩ := Prod.mk.inj ((answerRequest_refines r.1 r.2 m).trans (Prod.eta _).symm)
    obtain ⟨h3, h4⟩ := Prod.mk.inj ((answerAll_refines requests (answerRequest r.1 r.2 m).2.1).trans (Prod.eta _).symm)
    rw [h2] at h3 h4
    simp only [answerAll, serveFlatAll, h1, h3, h4]

/-! ## What a request leaves alone -/

theorem serveFlat_changes {s : FlatStore K} {slave : UnitId} {request : RequestPdu} {key : K} {a : Nat}
    (h : (serveFlat s slave request).2.cellAt key a ≠ s.cellAt key a) :
    ∃ p w, accessOf slave request = some p ∧ p.Granted s ∧ p.writes = some w ∧ key = p.key ∧ a ∈ w.1 := by
  unfold serveFlat at h
  split at h
  · exact absurd rfl h
  rename_i p hp
  split at h
  · rename_i hg
    split at h
    · exact absurd rfl h
    rename_i w hw
    rw [FlatStore.cellAt_setRange] at h
    unfold Store.setValues at h
    split at h
    · rename_i hin
      exact ⟨p, w, hp, hg, hw, hin.1, hin.2⟩
    · exact absurd rfl h
  · exact absurd rfl h

theorem serveFlat_error {s : FlatStore K} {slave : UnitId} {request : RequestPdu} {e : ExceptionCode}
    (h : (serveFlat s slave request).1 = .error e) : (serveFlat s slave request).2 = s := by
  unfold serveFlat at h ⊢
  split at h
  · rfl
  split at h
  · cases h
  · rename_i hg
    rw [if_neg hg]

/-- **The server is a sequential store machine**: requests get the answers of the flat machine and leave its map; there an
exception changes nothing, and a request nothing outside the range it writes. -/
theorem server_is_sequential_store (m : Memory K) (requests : List (UnitId × RequestPdu)) :
    ((answerAll m requests).1, (answerAll m requests).2.abs) = serveFlatAll m.abs requests ∧
    ∀ (s : FlatStore K) (slave : UnitId) (request : RequestPdu),
      (∀ e, (serveFlat s slave request).1 = .error e → (serveFlat s slave request).2 = s) ∧
      ∀ key a, (serveFlat s slave request).2.cellAt key a ≠ s.cellAt key a →
        ∃ p w, accessOf slave request = some p ∧ p.Granted s ∧ p.writes = some w ∧ key = p.key ∧ a ∈ w.1 :=
  ⟨answerAll_refines requests m, fun _ _ _ => ⟨fun _ => serveFlat_error, fun _ _ => serveFlat_changes⟩⟩

end

section
variable {s t : FlatStore SlaveKey} {u v : UnitId} {p : Access SlaveKey}

theorem accessOf_slave {request : RequestPdu} (h : accessOf u request = some p) : p.key.slaveId = u := by
  cases request <;> cases h <;> rfl

theorem serveFlat_other (h : v ≠ u) (request : RequestPdu) (kind : Kind) : (serveFlat s v request).2 ⟨u, kind⟩ = s ⟨u, kind⟩ := by
  unfold serveFlat
  split
  · rfl
  rename_i p hp
  have hne : (⟨u, kind⟩ : SlaveKey) ≠ p.key := fun hk => h ((accessOf_slave hp).symm.trans (hk ▸ rfl))
  split_ifs
  · split
    · rfl
    · refine Eq.trans (Option.map_congr fun f hf => funext fun a => ?_) Option.map_id'
      simp [Store.setValues, hne, FlatStore.cellAt, Option.mem_def.1 hf]
  · rfl

theorem serveFlat_own (h : ∀ kind, s ⟨u, kind⟩ = t ⟨u, kind⟩) (request : RequestPdu) :
    (serveFlat s u request).1 = (serveFlat t u request).1 ∧
      ∀ kind, (serveFlat s u request).2 ⟨u, kind⟩ = (serveFlat t u request).2 ⟨u, kind⟩ := by
  unfold serveFlat
  split
  · exact ⟨rfl, h⟩
  rename_i p hp
  have hkey : s p.key = t p.key := by
    rw [← accessOf_slave hp] at h
    exact h p.key.kind
  have hgranted : p.Granted s ↔ p.Granted t := by
    simp only [Access.Granted, FlatStore.Readable, FlatStore.Writable, FlatStore.cellAt, hkey]
  have hvalues : valuesIn s p.key = valuesIn t p.key := by simp [funext_iff, valuesIn, FlatStore.cellAt, hkey]
  simp only [hgranted, hvalues]
  split_ifs
  · refine ⟨rfl, fun kind => ?_⟩
    split
    · exact h kind
    · refine (congrArg _ (h kind)).trans (Option.map_congr fun _ _ => funext fun a => ?_)
      simp only [Store.setValues, FlatStore.cellAt, h]
  · exact ⟨rfl, h⟩

theorem serveFlatAll_own (u : UnitId) : ∀ (requests : List (UnitId × RequestPdu)) {s t : FlatStore SlaveKey},
    (∀ kind, s ⟨u, kind⟩ = t ⟨u, kind⟩) →
    ((requests.zip (serveFlatAll s requests).1).filter (·.1.1 = u)).map Prod.snd =
      (serveFlatAll t (requests.filter (·.1 = u))).1
  | [], _, _, _ => rfl
  | (v, request) :: requests, s, t, h => by
    by_cases hv : v = u
    · subst hv
      obtain ⟨hanswer, hnext⟩ := serveFlat_own h request
      simp [serveFlatAll, hanswer, serveFlatAll_own v requests hnext]
    · have hnext := fun kind => (serveFlat_other (s := s) hv request kind).trans (h kind)
      simp [serveFlatAll, hv, serveFlatAll_own u requests hnext]

/-- **Slaves do not interfere**: whatever requests to other slaves come between, a slave's are answered as if they came alone. -/
theorem slaves_served_apart (m : Memory SlaveKey) (u : UnitId) (requests : List (UnitId × RequestPdu)) :
    ((requests.zip (answerAll m requests).1).filter (·.1.1 = u)).map Prod.snd =
      (answerAll m (requests.filter (·.1 = u))).1 := by
  rw [congrArg Prod.fst (answerAll_refines requests m), congrArg Prod.fst (answerAll_refines (requests.filter _) m)]
  exact serveFlatAll_own u requests fun _ => rfl

end

def fourRegisters : Memory SlaveKey :=
  ((Memory.empty SlaveKey).addRanges ⟨1, .holdingRegister⟩ ⟨.register, .readWrite⟩ [Range.new 0 4]).2

/-- A read of no cells is granted on a declared table and refused on one of the same slave that was never declared, though
it addresses no cell there. -/
theorem empty_read_of_unknown_table_refused : (Range.new (0 : BitVec 16).toNat (0 : BitVec 16).toNat).addrs = [] ∧
      (answerRequest 1 (.readHoldingRegisters 0 0) fourRegisters).1 = .ok (.readHoldingRegisters []) ∧
      (answerRequest 1 (.readCoils 0 0) fourRegisters).1 = .error .illegalDataAddress := by
  decide

/-! ## Unknown slaves on a serial line

`handle_request` over `answer_request`: on a physical serial line the server shares the bus with the slaves it does not play, so a
request for one of them gets no answer.  The server decides this after the fact, from the exception the lookup ended in and the
regions of the slave. -/

section
variable {K : Type} [DecidableEq K] [KeyParams K]

def slaveHasNoRegion (slave : UnitId) (m : Memory K) : Bool := (KeyParams.allKindsFor slave).all (fun id => !m.containsKey id)

def handleRequest (physicalSerial : Bool) (slave : UnitId) (request : RequestPdu) (m : Memory K) :
    Outcome K (Option ResponsePdu) :=
  let res := answerRequest slave request m
  (match res.1 with
    | .ok pdu => .ok (some pdu)
    | .error .illegalDataAddress =>
      if physicalSerial && slaveHasNoRegion slave res.2.1 then .ok none else .error .illegalDataAddress
    | .error e => .error e, res.2)

theorem containsKey_of_refused {m : Memory K} {slave : UnitId} {request : RequestPdu} {e : ExceptionCode}
    (h : (answerRequest slave request m).1 = .error e) (key : K) :
    (answerRequest slave request m).2.1.containsKey key = m.containsKey key := by
  have href := answerRequest_refines slave request m
  have hfst : (serveFlat m.abs slave request).1 = .error e := by rw [← href]; exact h
  have hsnd : (answerRequest slave request m).2.1.abs = m.abs := by
    have hs := congrArg Prod.snd href
    rw [serveFlat_error hfst] at hs
    exact hs
  rw [← Memory.abs_isSome, ← Memory.abs_isSome, hsnd]

end

/-! ## The tables of a slave -/

theorem slaveHasNoRegion_iff {slave : UnitId} {m : Memory SlaveKey} :
    slaveHasNoRegion slave m = true ↔ ∀ kind, m.containsKey ⟨slave, kind⟩ = false := by
  simp only [slaveHasNoRegion, KeyParams.allKindsFor, List.all_map, List.all_eq_true, Function.comp_apply, Bool.not_eq_true']
  constructor
  · intro h kind
    refine h kind ?_
    cases kind <;> decide
  · intro h kind _
    exact h kind

theorem accessOf_supported (slave : UnitId) {request : RequestPdu} (h : ∀ f, request ≠ .other f) :
    ∃ p : Access SlaveKey, accessOf slave request = some p ∧ p.key.slaveId = slave := by
  cases request with
  | other f => exact absurd rfl (h f)
  | _ => exact ⟨_, rfl, rfl⟩

theorem answerRequest_unknown {m : Memory SlaveKey} {slave : UnitId} (hm : ∀ kind, m.containsKey ⟨slave, kind⟩ = false)
    {request : RequestPdu} (h : ∀ f, request ≠ .other f) : (answerRequest slave request m).1 = .error .illegalDataAddress := by
  obtain ⟨p, hp, hkey⟩ := accessOf_supported slave h
  have hno : ¬ p.Granted m.abs := by
    rintro ⟨hsome, -⟩
    have hnone : m.containsKey p.key = false := by
      subst hkey
      exact hm p.key.kind
    rw [Memory.abs_isSome, hnone] at hsome
    cases hsome
  have href := congrArg Prod.fst (answerRequest_refines slave request m)
  rw [serveFlat, hp] at href
  simp only [if_neg hno] at href
  exact href

/-- **Silence on a serial line**: a slave without a region is answered with nothing exactly for the functions that are
supported; for a slave with a region the server does what it does on any other line. -/
theorem serial_silence_iff (m : Memory SlaveKey) (slave : UnitId) (request : RequestPdu) :
    ((∀ kind, m.containsKey ⟨slave, kind⟩ = false) →
      ((handleRequest true slave request m).1 = .ok none ↔ ∀ f, request ≠ .other f)) ∧
    ((∃ kind, m.containsKey ⟨slave, kind⟩ = true) →
      handleRequest true slave request m = handleRequest false slave request m) := by
  constructor
  · intro hm
    constructor
    · rintro h f rfl
      cases h
    intro hsup
    have hrefused := answerRequest_unknown hm hsup
    have hnone : slaveHasNoRegion slave (answerRequest slave request m).2.1 = true :=
      slaveHasNoRegion_iff.2 (fun kind => (containsKey_of_refused hrefused _).trans (hm kind))
    simp [handleRequest, hrefused, hnone]
  rintro ⟨kind, hkind⟩
  cases hres : (answerRequest slave request m).1 with
  | ok pdu => simp only [handleRequest, hres]
  | error e =>
    have hsome : slaveHasNoRegion slave (answerRequest slave request m).2.1 = false := by
      rw [Bool.eq_false_iff]
      intro h
      have hk := slaveHasNoRegion_iff.1 h kind
      rw [containsKey_of_refused hres, hkind] at hk
      cases hk
    cases e <;> simp [handleRequest, hres, hsome]

/-- **A function the server does not support is answered for a slave it does not play.** -/
theorem unsupported_function_answered : (∀ kind, (Memory.empty SlaveKey).containsKey ⟨5, kind⟩ = false) ∧
      (handleRequest true 5 (.other .maskWriteRegister) (Memory.empty SlaveKey)).1 = .error .illegalFunction :=
  ⟨fun _ => rfl, rfl⟩

end Ferrowl.Modbus
