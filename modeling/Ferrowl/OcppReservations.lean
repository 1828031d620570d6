import Ferrowl.OcppStation
/-!
# OcppReservations — reserving a station and cancelling the reservation

A station holds at most one reservation for itself and one for each connector.  `ReserveNow` writes the level it names, over what
is there; `CancelReservation` carries only an id and clears the first level that holds it, the station before its connectors
(`v1_6/handler.rs`, `v2_0_1/inbound.rs`).  Both versions are a `Reserving`: their calls act on the list of levels as `LevelOp`s.
-/
namespace Ferrowl.Ocpp

open List

open Wire (CallError)

structure Answer where
  result : Except CallError String
  context : String

/-! ## Version 1.6 -/

namespace V16

namespace ConnectorState

def reserved (rfid : String) (id : Int) (c : ConnectorState) : ConnectorState :=
  { c with reservedRfid := some rfid, reservationId := some id }

def released (c : ConnectorState) : ConnectorState := { c with reservedRfid := none, reservationId := none }

end ConnectorState

inductive ReservationCall where
  | reserveNow (connectorId : Nat) (idTag : String) (reservationId : Int)
  | cancelReservation (reservationId : Int)
  deriving DecidableEq, Repr

def holds (id : Int) (c : ConnectorState) : Bool := decide (c.reservationId = some id)

/-- Connector `0` is the charge point itself. -/
def unknownConnector (s : CsState) : ReservationCall → Option Int
  | .reserveNow connectorId _ _ =>
    if connectorId = 0 ∨ (s.connectors.find? (hasId connectorId)).isSome then none else some connectorId
  | .cancelReservation _ => none

def respond (s : CsState) : ReservationCall → Answer × CsState
  | .reserveNow connectorId idTag reservationId =>
    if connectorId = 0 then
      (⟨.ok "ReserveNow", "reserved CS for " ++ idTag⟩,
        { s with reservedRfid := some idTag, reservationId := some reservationId })
    else
      match s.connectors.find? (hasId connectorId) with
      | some _ =>
        (⟨.ok "ReserveNow", "reserved connector " ++ toString connectorId ++ " for " ++ idTag⟩,
          { s with connectors := updateFirst (hasId connectorId) (·.reserved idTag reservationId) s.connectors })
      | none => (⟨.ok "ReserveNow", "unknown connector " ++ toString connectorId⟩, s)
  | .cancelReservation reservationId =>
    if s.reservationId = some reservationId then
      (⟨.ok "CancelReservation", "cancelled CS reservation " ++ toString reservationId⟩,
        { s with reservedRfid := none, reservationId := none })
    else
      match s.connectors.find? (holds reservationId) with
      | some c =>
        (⟨.ok "CancelReservation", "cancelled connector " ++ toString c.connectorId ++ " reservation " ++ toString reservationId⟩,
          { s with connectors := updateFirst (holds reservationId) (·.released) s.connectors })
      | none => (⟨.ok "CancelReservation", "no reservation " ++ toString reservationId⟩, s)

def handleCall (s : CsState) (call : ReservationCall) : Answer × CsState :=
  match unknownConnector s call with
  | some id =>
    (⟨.error (.new .propertyConstraintViolation "unknown connectorId"), "unknown connector " ++ toString id⟩, s)
  | none => respond s call

end V16

/-! ## Version 2.0.1 -/

namespace V2

def ConnectorState.reserved (rfid : String) (id : Int) (c : ConnectorState) : ConnectorState :=
  { c with reservedRfid := some rfid, reservationId := some id }

def ConnectorState.released (c : ConnectorState) : ConnectorState := { c with reservedRfid := none, reservationId := none }

inductive ReservationCall where
  | reserveNow (evseId : Option Int) (idToken : String) (id : Int)
  | cancelReservation (reservationId : Int)
  deriving DecidableEq, Repr

def holds (id : Int) (c : ConnectorState) : Bool := decide (c.reservationId = some id)

/-- EVSE `0` is the station itself. -/
def unknownEvse (s : CsState) : ReservationCall → Option Int
  | .reserveNow evseId _ _ => evseId.bind fun e => if e = 0 ∨ s.connectors.any (CsState.onEvse e) then none else some e
  | .cancelReservation _ => none

def respond (s : CsState) : ReservationCall → Answer × CsState
  | .reserveNow evseId idToken id =>
    match evseId.filter (fun e => decide (e ≠ 0)) with
    | some e =>
      match s.connectorByEvse e with
      | some _ =>
        (⟨.ok "ReserveNow", "reserved evse " ++ toString e ++ " for " ++ idToken⟩, s.connectorMutByEvse e (·.reserved idToken id))
      | none => (⟨.ok "ReserveNow", "unknown evse " ++ toString e⟩, s)
    | none =>
      (⟨.ok "ReserveNow", "reserved CS for " ++ idToken⟩, { s with reservedRfid := some idToken, reservationId := some id })
  | .cancelReservation reservationId =>
    if s.reservationId = some reservationId then
      (⟨.ok "CancelReservation", "cancelled CS reservation " ++ toString reservationId⟩,
        { s with reservedRfid := none, reservationId := none })
    else
      match s.connectors.find? (holds reservationId) with
      | some c =>
        (⟨.ok "CancelReservation", "cancelled evse " ++ toString c.evseId ++ " reservation " ++ toString reservationId⟩,
          { s with connectors := updateFirst (holds reservationId) (·.released) s.connectors })
      | none => (⟨.ok "CancelReservation", "no matching reservation"⟩, s)

def handleCall (s : CsState) (call : ReservationCall) : Answer × CsState :=
  match unknownEvse s call with
  | some e => (⟨.error (.new .propertyConstraintViolation "unknown evseId"), "unknown evse " ++ toString e⟩, s)
  | none => respond s call

end V2

/-! ## Levels -/

structure Level where
  reservationId : Option Int
  reservedRfid : Option String
  deriving DecidableEq, Repr

def Level.free : Level := ⟨none, none⟩

def Level.has (id : Int) (l : Level) : Bool := decide (l.reservationId = some id)

inductive LevelOp where
  | reserve (level : Nat) (id : Int) (rfid : String)
  | cancel (id : Int)
  | nothing

def LevelOp.apply : LevelOp → List Level → List Level
  | reserve level id rfid, ls => ls.set level ⟨some id, some rfid⟩
  | cancel id, ls => updateFirst (Level.has id) (fun _ => .free) ls
  | nothing, ls => ls

/-- **A station that can be reserved**: its calls act on its levels, and a cancellation is always accepted. -/
structure Reserving where
  State : Type
  Call : Type
  levels : State → List Level
  handle : State → Call → Answer × State
  op : State → Call → LevelOp
  cancel : Int → Call
  levels_handle : ∀ s call, levels (handle s call).2 = (op s call).apply (levels s)
  op_cancel : ∀ s id, op s (cancel id) = .cancel id
  accepts : ∀ s id, (handle s (cancel id)).1.result = .ok "CancelReservation"

theorem exists_find?_of_findIdx? {α : Type} {p : α → Bool} {l : List α} {k : Nat} (h : l.findIdx? p = some k) :
    ∃ x, l.find? p = some x := by
  obtain ⟨hk, hp, -⟩ := List.findIdx?_eq_some_iff_getElem.1 h
  exact Option.isSome_iff_exists.1 (List.find?_isSome.2 ⟨_, getElem_mem hk, hp⟩)

theorem find?_eq_none_of_findIdx? {α : Type} {p : α → Bool} {l : List α} (h : l.findIdx? p = none) : l.find? p = none :=
  List.find?_eq_none.2 fun x hx hp => Bool.false_ne_true ((List.findIdx?_eq_none_iff.1 h x hx).symm.trans hp)

theorem reserve_levels {C : Type} (level : C → Level) {p : C → Bool} {reserve : C → C} {id : Int} {rfid : String}
    (hr : ∀ c, level (reserve c) = ⟨some id, some rfid⟩) (l : Level) {cs : List C} {k : Nat} (h : cs.findIdx? p = some k) :
    (LevelOp.reserve (k + 1) id rfid).apply (l :: cs.map level) = l :: (updateFirst p reserve cs).map level := by
  rw [LevelOp.apply, set_cons_succ, map_updateFirst_of_some hr h]

theorem cancel_levels {C : Type} (level : C → Level) (holds : C → Bool) (release : C → C) {id : Int}
    (hh : ∀ c, Level.has id (level c) = holds c) (hr : ∀ c, level (release c) = .free) (l : Level) (cs : List C) :
    (LevelOp.cancel id).apply (l :: cs.map level) =
      if l.reservationId = some id then .free :: cs.map level else l :: (updateFirst holds release cs).map level := by
  have hmap : (updateFirst holds release cs).map level = updateFirst (Level.has id) (fun _ => .free) (cs.map level) :=
    map_updateFirst hh hr cs
  rw [LevelOp.apply, updateFirst_cons, hmap]
  simp [Level.has]

namespace V16

def ConnectorState.level (c : ConnectorState) : Level := ⟨c.reservationId, c.reservedRfid⟩

def CsState.levels (s : CsState) : List Level := ⟨s.reservationId, s.reservedRfid⟩ :: s.connectors.map (·.level)

def op (s : CsState) : ReservationCall → LevelOp
  | .reserveNow connectorId idTag reservationId =>
    if connectorId = 0 then .reserve 0 reservationId idTag
    else
      match s.connectors.findIdx? (hasId connectorId) with
      | some k => .reserve (k + 1) reservationId idTag
      | none => .nothing
  | .cancelReservation reservationId => .cancel reservationId

theorem handleCall_cancel (s : CsState) (id : Int) :
    (handleCall s (.cancelReservation id)).2 =
      if s.reservationId = some id then { s with reservedRfid := none, reservationId := none }
      else { s with connectors := updateFirst (holds id) (·.released) s.connectors } := by
  simp only [handleCall, unknownConnector, respond]
  split
  · rfl
  split
  · rfl
  · rename_i hnone
    rw [updateFirst_of_find?_none hnone]

theorem levels_handleCall (s : CsState) (call : ReservationCall) : (handleCall s call).2.levels = (op s call).apply s.levels := by
  cases call with
  | reserveNow connectorId idTag reservationId =>
    by_cases h0 : connectorId = 0
    · simp only [handleCall, unknownConnector, h0, true_or, if_true, respond, op]
      rfl
    cases hk : s.connectors.findIdx? (hasId connectorId) with
    | none =>
      simp only [handleCall, unknownConnector, h0, find?_eq_none_of_findIdx? hk, op, hk]
      rfl
    | some k =>
      obtain ⟨c, hc⟩ := exists_find?_of_findIdx? hk
      simp only [handleCall, unknownConnector, h0, hc, respond, op, hk, Option.isSome_some, or_true, if_true, if_false]
      exact (reserve_levels ConnectorState.level (fun _ => rfl) ⟨s.reservationId, s.reservedRfid⟩ hk).symm
  | cancelReservation id =>
    rw [handleCall_cancel, apply_ite CsState.levels, op]
    exact (cancel_levels ConnectorState.level (holds id) (·.released) (fun _ => rfl) (fun _ => rfl)
      ⟨s.reservationId, s.reservedRfid⟩ s.connectors).symm

def reserving : Reserving where
  State := CsState
  Call := ReservationCall
  levels := CsState.levels
  handle := handleCall
  op := op
  cancel := .cancelReservation
  levels_handle := levels_handleCall
  op_cancel := fun _ _ => rfl
  accepts := fun s id => by
    simp only [handleCall, unknownConnector, respond]
    split
    · rfl
    · split <;> rfl

end V16

namespace V2

def ConnectorState.level (c : ConnectorState) : Level := ⟨c.reservationId, c.reservedRfid⟩

def CsState.levels (s : CsState) : List Level := ⟨s.reservationId, s.reservedRfid⟩ :: s.connectors.map (·.level)

def op (s : CsState) : ReservationCall → LevelOp
  | .reserveNow evseId idToken id =>
    match evseId.filter (fun e => decide (e ≠ 0)) with
    | none => .reserve 0 id idToken
    | some e =>
      match s.connectors.findIdx? (CsState.onEvse e) with
      | some k => .reserve (k + 1) id idToken
      | none => .nothing
  | .cancelReservation reservationId => .cancel reservationId

theorem handleCall_cancel (s : CsState) (id : Int) :
    (handleCall s (.cancelReservation id)).2 =
      if s.reservationId = some id then { s with reservedRfid := none, reservationId := none }
      else { s with connectors := updateFirst (holds id) (·.released) s.connectors } := by
  simp only [handleCall, unknownEvse, respond]
  split
  · rfl
  split
  · rfl
  · rename_i hnone
    rw [updateFirst_of_find?_none hnone]

theorem unknownEvse_of_none {s : CsState} {evseId : Option Int} (h : evseId.filter (fun e => decide (e ≠ 0)) = none)
    (idToken : String) (id : Int) : unknownEvse s (.reserveNow evseId idToken id) = none := by
  cases evseId with
  | none => rfl
  | some e =>
    have he : e = 0 := by simpa [Option.filter_some] using h
    simp [unknownEvse, he]

theorem levels_handleCall (s : CsState) (call : ReservationCall) : (handleCall s call).2.levels = (op s call).apply s.levels := by
  cases call with
  | reserveNow evseId idToken id =>
    cases hf : evseId.filter (fun e => decide (e ≠ 0)) with
    | none =>
      simp only [handleCall, unknownEvse_of_none hf, respond, op, hf]
      rfl
    | some e =>
      obtain ⟨rfl, he⟩ := Option.filter_eq_some_iff.1 hf
      have he0 : e ≠ 0 := of_decide_eq_true he
      cases hk : s.connectors.findIdx? (CsState.onEvse e) with
      | none =>
        have hunknown : unknownEvse s (.reserveNow (some e) idToken id) = some e := by
          have hany : s.connectors.any (CsState.onEvse e) = false :=
            any_eq_false.2 fun c hc => by simp [List.findIdx?_eq_none_iff.1 hk c hc]
          simp only [unknownEvse, Option.bind_some, he0, hany, Bool.false_eq_true, or_self, if_false]
        simp only [handleCall, hunknown, op, hf, hk]
        rfl
      | some k =>
        obtain ⟨c, hc⟩ := exists_find?_of_findIdx? hk
        have hknown : unknownEvse s (.reserveNow (some e) idToken id) = none := by
          have hany : s.connectors.any (CsState.onEvse e) = true :=
            any_eq_true.2 ⟨c, mem_of_find?_eq_some hc, List.find?_some hc⟩
          simp only [unknownEvse, Option.bind_some, hany, or_true, if_true]
        simp only [handleCall, hknown, respond, op, hf, hk, CsState.connectorByEvse, hc, CsState.connectorMutByEvse]
        exact (reserve_levels ConnectorState.level (fun _ => rfl) ⟨s.reservationId, s.reservedRfid⟩ hk).symm
  | cancelReservation id =>
    rw [handleCall_cancel, apply_ite CsState.levels, op]
    exact (cancel_levels ConnectorState.level (holds id) (·.released) (fun _ => rfl) (fun _ => rfl)
      ⟨s.reservationId, s.reservedRfid⟩ s.connectors).symm

def reserving : Reserving where
  State := CsState
  Call := ReservationCall
  levels := CsState.levels
  handle := handleCall
  op := op
  cancel := .cancelReservation
  levels_handle := levels_handleCall
  op_cancel := fun _ _ => rfl
  accepts := fun s id => by
    simp only [handleCall, unknownEvse, respond]
    split
    · rfl
    · split <;> rfl

end V2

/-! ## Histories of calls -/

namespace Reserving

variable (r : Reserving)

abbrev History : r.State → List r.Call → r.State → Prop := Run fun s call t => t = (r.handle s call).2

def Fresh (s : r.State) : Prop := ∀ l ∈ r.levels s, l.reservationId = none

/-- Level `k` holds a reservation with the id; level `0` is the station. -/
def Holds (s : r.State) (id : Int) (k : Nat) : Prop := FitsAt (Level.has id) (r.levels s) k

/-- No level but the one it writes holds the id of a reservation that is made. -/
def Unheld (s : r.State) (call : r.Call) : Prop :=
  ∀ k id rfid, r.op s call = .reserve k id rfid → ∀ k', r.Holds s id k' → k' = k

def Distinct (s : r.State) : Prop := ∀ id k k', r.Holds s id k → r.Holds s id k' → k = k'

variable {r}

variable {s : r.State}

theorem holds_cancel_iff {id : Int} {k : Nat} :
    r.Holds (r.handle s (r.cancel id)).2 id k ↔ r.Holds s id k ∧ ∃ k' < k, r.Holds s id k' := by
  rw [Holds, r.levels_handle, r.op_cancel]
  exact fitsAt_updateFirst_iff (fun _ => rfl)

theorem fitsAt_set {ls : List Level} {l : Level} {id : Int} {j k : Nat} (h : FitsAt (Level.has id) (ls.set j l) k) :
    k ≠ j ∧ FitsAt (Level.has id) ls k ∨ k = j ∧ l.reservationId = some id := by
  obtain ⟨x, hx, hhas⟩ := h
  rw [List.getElem?_set] at hx
  split at hx
  · rename_i hjk
    split at hx
    · cases hx
      exact Or.inr ⟨hjk.symm, of_decide_eq_true hhas⟩
    · cases hx
  · rename_i hjk
    exact Or.inl ⟨fun h => hjk h.symm, x, hx, hhas⟩

theorem distinct_handle {call : r.Call} (hd : r.Distinct s) (hu : r.Unheld s call) : r.Distinct (r.handle s call).2 := by
  intro id k k'
  rw [Holds, Holds, r.levels_handle]
  cases hop : r.op s call with
  | reserve j id' rfid =>
    intro hk hk'
    rcases fitsAt_set hk with ⟨hkj, hold⟩ | ⟨hkj, hid⟩
    · rcases fitsAt_set hk' with ⟨-, hold'⟩ | ⟨-, hid⟩
      · exact hd id k k' hold hold'
      · cases hid
        exact absurd (hu j _ rfid hop k hold) hkj
    rcases fitsAt_set hk' with ⟨hkj', hold'⟩ | ⟨hkj', -⟩
    · cases hid
      exact absurd (hu j _ rfid hop k' hold') hkj'
    · exact hkj.trans hkj'.symm
  | cancel id' =>
    have hfree : ∀ _ : Level, Level.has id .free = false := fun _ => rfl
    exact fun hk hk' => hd id k k' (hk.of_updateFirst hfree) (hk'.of_updateFirst hfree)
  | nothing => exact hd id k k'

theorem not_holds_of_fresh (h : r.Fresh s) (id : Int) (k : Nat) : ¬r.Holds s id k := by
  rintro ⟨x, hx, hhas⟩
  rw [Level.has, h x (mem_of_getElem? hx)] at hhas
  cases hhas

theorem distinct_of_history {t : r.State} {calls : List r.Call} (h0 : r.Fresh s) (h : r.History s calls t)
    (hu : ∀ pre call u, pre ++ [call] <+: calls → r.History s pre u → r.Unheld u call) : r.Distinct t := by
  refine Run.invariant_of_steps ?_ h hu (fun id k _ hk => absurd hk (not_holds_of_fresh h0 id k))
  rintro u call _ hd hcall rfl
  exact distinct_handle hd hcall

end Reserving

inductive ReservingVersion where
  | v1_6
  | v2_0_1
  deriving DecidableEq, Repr

def ReservingVersion.station : ReservingVersion → Reserving
  | v1_6 => V16.reserving
  | v2_0_1 => V2.reserving

end Ferrowl.Ocpp
