import Ferrowl.OcppReader
/-!
# OcppStation — the state of a simulated charging station

`scope.rs`, `v1_6/state.rs` and `v2_0_1/state.rs`.  A scope names a level of a station: the station itself, a connector of version
1.6, or an EVSE of versions 2.0.1 and 2.1, which share their state.  Floats are bit patterns.  The store of configuration keys is
left out; of a 2.x connector the transaction, the limits and the reservation are kept, the meter readings other than the energy of
the session are not.
-/
namespace Ferrowl

/-! ## The first that fits -/

section
open List Option

variable {α : Type}

def updateFirst (p : α → Bool) (f : α → α) (l : List α) : List α :=
  match l.findIdx? p with
  | some i => l.modify i f
  | none => l

variable {p : α → Bool} {l : List α}

theorem updateFirst_of_some {i : Nat} (h : l.findIdx? p = some i) (f : α → α) : updateFirst p f l = l.modify i f := by
  rw [updateFirst, h]

theorem updateFirst_of_none (h : l.findIdx? p = none) (f : α → α) : updateFirst p f l = l := by
  rw [updateFirst, h]

theorem updateFirst_of_find?_none (h : l.find? p = none) (f : α → α) : updateFirst p f l = l :=
  updateFirst_of_none (List.findIdx?_eq_none_iff.2 fun x hx => Bool.eq_false_iff.2 (List.find?_eq_none.1 h x hx)) f

theorem updateFirst_cons (p : α → Bool) (f : α → α) (x : α) (l : List α) :
    updateFirst p f (x :: l) = if p x then f x :: l else x :: updateFirst p f l := by
  rw [updateFirst, List.findIdx?_cons]
  split
  · rename_i i h
    split at h
    · rename_i hp
      cases h
      rw [if_pos hp]
      rfl
    rename_i hp
    obtain ⟨k, hk, rfl⟩ := map_eq_some_iff.1 h
    rw [if_neg hp, updateFirst_of_some hk]
    rfl
  · rename_i h
    split at h
    · cases h
    · rename_i hp
      rw [if_neg hp, updateFirst_of_none (map_eq_none_iff.1 h)]

variable {f : α → α}

theorem map_modify_comm {β : Type} {g : α → β} {h : β → β} (hf : ∀ x, g (f x) = h (g x)) (k : Nat)
    (l : List α) : (l.modify k f).map g = (l.map g).modify k h := by
  refine List.ext_getElem? fun i => ?_
  simp only [List.getElem?_map, List.getElem?_modify]
  cases l[i]? with
  | none => rfl
  | some x =>
    simp only [Option.map_eq_map, Option.map_some]
    split
    · rw [hf]
    · rfl

theorem map_updateFirst {β : Type} {q : β → Bool} {g : α → β} {f' : β → β}
    (hp : ∀ x, q (g x) = p x) (hf : ∀ x, g (f x) = f' (g x)) (l : List α) :
    (updateFirst p f l).map g = updateFirst q f' (l.map g) := by
  induction l with
  | nil => rfl
  | cons x l ih =>
    rw [updateFirst_cons, map_cons, updateFirst_cons, hp]
    split
    · rw [map_cons, hf]
    · rw [map_cons, ih]

variable {k : Nat}

theorem map_updateFirst_of_some {β : Type} {g : α → β} {b : β} (hf : ∀ x, g (f x) = b)
    (h : l.findIdx? p = some k) : (updateFirst p f l).map g = (l.map g).set k b := by
  obtain ⟨hk, -⟩ := List.findIdx?_eq_some_iff_getElem.1 h
  rw [updateFirst_of_some h, List.modify_eq_set_getElem?, List.getElem?_eq_getElem hk, Option.map_eq_map, Option.map_some,
    Option.getD_some, List.map_set, hf]

theorem getElem?_updateFirst_of_not {x : α} (hx : l[k]? = some x) (hp : p x = false) (f : α → α) :
    (updateFirst p f l)[k]? = some x := by
  cases h : l.findIdx? p with
  | none => rw [updateFirst_of_none h, hx]
  | some i =>
    obtain ⟨hi, hpi, -⟩ := List.findIdx?_eq_some_iff_getElem.1 h
    have hne : i ≠ k := by
      rintro rfl
      cases (List.getElem?_eq_getElem hi).symm.trans hx
      exact Bool.false_ne_true (hp.symm.trans hpi)
    rw [updateFirst_of_some h, List.getElem?_modify_ne f l hne, hx]

def FitsAt (p : α → Bool) (l : List α) (k : Nat) : Prop := ∃ x, l[k]? = some x ∧ p x = true

theorem FitsAt.of_updateFirst {q : α → Bool} (hf : ∀ x, q (f x) = false) (h : FitsAt q (updateFirst p f l) k) : FitsAt q l k := by
  obtain ⟨x, hx, hq⟩ := h
  cases hi : l.findIdx? p with
  | none =>
    rw [updateFirst_of_none hi] at hx
    exact ⟨x, hx, hq⟩
  | some i =>
    rw [updateFirst_of_some hi, List.getElem?_modify, Option.map_eq_map, Option.map_eq_some_iff] at hx
    obtain ⟨y, hy, rfl⟩ := hx
    split at hq
    · exact absurd ((hf y).symm.trans hq) Bool.false_ne_true
    · rename_i hne
      exact ⟨y, hy, hq⟩

theorem fitsAt_updateFirst_iff (hf : ∀ x, p (f x) = false) :
    FitsAt p (updateFirst p f l) k ↔ FitsAt p l k ∧ ∃ k' < k, FitsAt p l k' := by
  cases h : l.findIdx? p with
  | none =>
    have hnone : ∀ k, ¬FitsAt p l k := fun k ⟨x, hx, hp⟩ =>
      Bool.false_ne_true ((List.findIdx?_eq_none_iff.1 h x (mem_of_getElem? hx)).symm.trans hp)
    rw [updateFirst_of_none h]
    exact iff_of_false (hnone k) (fun h' => hnone k h'.1)
  | some i =>
    obtain ⟨hi, hpi, hfirst⟩ := List.findIdx?_eq_some_iff_getElem.1 h
    have hfit : FitsAt p l i := ⟨_, List.getElem?_eq_getElem hi, hpi⟩
    have hle : ∀ k', FitsAt p l k' → i ≤ k' := by
      rintro k' ⟨x, hx, hp⟩
      by_contra hlt
      obtain ⟨hk, rfl⟩ := List.getElem?_eq_some_iff.1 hx
      exact hfirst k' (by omega) hp
    constructor
    · intro hk
      refine ⟨hk.of_updateFirst hf, i, Nat.lt_of_le_of_ne (hle k (hk.of_updateFirst hf)) ?_, hfit⟩
      rintro rfl
      obtain ⟨x, hx, hp⟩ := hk
      rw [updateFirst_of_some h, List.getElem?_modify_eq, Option.map_eq_map, Option.map_eq_some_iff] at hx
      obtain ⟨y, -, rfl⟩ := hx
      exact Bool.false_ne_true ((hf y).symm.trans hp)
    · rintro ⟨⟨x, hx, hp⟩, k', hlt, hk'⟩
      have hne : i ≠ k := by
        have := hle k' hk'
        omega
      rw [updateFirst_of_some h]
      exact ⟨x, (List.getElem?_modify_ne f l hne).trans hx, hp⟩

end

namespace Ocpp

/-! ## Scopes -/

structure Scope where
  evse : Option Int
  connector : Option Int
  deriving DecidableEq, Repr

namespace Scope

def cs : Scope := ⟨none, none⟩

def ofConnector (connector : Int) : Scope := ⟨none, some connector⟩

def ofEvse (evse : Int) (connector : Option Int) : Scope := ⟨some evse, connector⟩

def isConnector (s : Scope) : Bool := s.evse.isSome || s.connector.isSome

end Scope

/-! ## Version 1.6 -/

namespace V16

structure ConnectorState where
  connectorId : Int
  phases : String
  voltage : BitVec 64
  current : Vector (BitVec 64) 3
  power : BitVec 64
  frequency : BitVec 64
  totalEnergy : BitVec 64
  sessionEnergy : BitVec 64
  soc : BitVec 64
  temperature : BitVec 64
  status : String
  rfid : String
  transactionId : Option Int
  /-- The limit of the latest `TxProfile`; it lasts as long as the transaction. -/
  limit : Option (BitVec 64)
  limitUnit : String
  defaultLimit : Option (BitVec 64)
  defaultLimitUnit : String
  maxLimit : Option (BitVec 64)
  maxLimitUnit : String
  reservedRfid : Option String
  reservationId : Option Int
  deriving DecidableEq, Repr

def ConnectorState.new (connectorId : Int) : ConnectorState where
  connectorId := connectorId
  phases := "L1,L2,L3"
  voltage := 0x406CC00000000000#64 -- 230.0
  current := .replicate 3 0
  power := 0
  frequency := 0x4049000000000000#64 -- 50.0
  totalEnergy := 0
  sessionEnergy := 0
  soc := 0
  temperature := 0x4039000000000000#64 -- 25.0
  status := "Available"
  rfid := "DEADBEEF"
  transactionId := none
  limit := none
  limitUnit := "A"
  defaultLimit := none
  defaultLimitUnit := "A"
  maxLimit := none
  maxLimitUnit := "A"
  reservedRfid := none
  reservationId := none

structure CsState where
  model : String
  vendor : String
  firmwareVersion : String
  serialNumber : String
  iccid : String
  imsi : String
  meterSerialNumber : String
  meterType : String
  reservedRfid : Option String
  reservationId : Option Int
  heartbeatIntervalSecs : Option Nat
  connectors : List ConnectorState
  deriving DecidableEq, Repr

def hasId (id : Int) (c : ConnectorState) : Bool := decide (c.connectorId = id)

namespace CsState

def default : CsState where
  model := "Ferrowl-EVSE"
  vendor := "Ferrowl"
  firmwareVersion := "1.0.0"
  serialNumber := "FERROWL-0001"
  iccid := ""
  imsi := ""
  meterSerialNumber := ""
  meterType := ""
  reservedRfid := none
  reservationId := none
  heartbeatIntervalSecs := none
  connectors := [.new 1]

def connectorIndex (s : CsState) (scope : Scope) : Option Nat :=
  (scope.connector.bind fun id => s.connectors.findIdx? (hasId id)).or (if s.connectors.isEmpty then none else some 0)

def onConnector (s : CsState) (scope : Scope) (f : ConnectorState → ConnectorState) : CsState :=
  match s.connectorIndex scope with
  | some i => { s with connectors := s.connectors.modify i f }
  | none => s

end CsState

end V16

/-! ## Version 2.x -/

namespace V2

structure ConnectorState where
  evseId : Int
  connectorId : Int
  sessionEnergy : BitVec 64
  status : String
  rfid : String
  transactionId : Option String
  /-- Set once the CSMS has acknowledged the start of the transaction. -/
  txConfirmed : Bool
  seqNo : Int
  txCounter : Nat
  /-- The limit of the latest `TxProfile`; it lasts as long as the transaction. -/
  limit : Option (BitVec 64)
  limitUnit : String
  defaultLimit : Option (BitVec 64)
  defaultLimitUnit : String
  maxLimit : Option (BitVec 64)
  maxLimitUnit : String
  externalLimit : Option (BitVec 64)
  externalLimitUnit : String
  reservedRfid : Option String
  reservationId : Option Int
  deriving DecidableEq, Repr

namespace ConnectorState

def new (evseId connectorId : Int) : ConnectorState where
  evseId := evseId
  connectorId := connectorId
  sessionEnergy := 0
  status := "Available"
  rfid := "DEADBEEF"
  transactionId := none
  txConfirmed := false
  seqNo := 0
  txCounter := 0
  limit := none
  limitUnit := "A"
  defaultLimit := none
  defaultLimitUnit := "A"
  maxLimit := none
  maxLimitUnit := "A"
  externalLimit := none
  externalLimitUnit := "A"
  reservedRfid := none
  reservationId := none

def nextTx (c : ConnectorState) : String := "ferrowl-tx-" ++ toString c.connectorId ++ "-" ++ toString c.txCounter

def startTx (c : ConnectorState) : String × ConnectorState :=
  (c.nextTx, { c with txCounter := c.txCounter + 1, seqNo := 0, transactionId := some c.nextTx, txConfirmed := false })

def nextSeq (c : ConnectorState) : Int × ConnectorState := (c.seqNo, { c with seqNo := c.seqNo + 1 })

end ConnectorState

structure CsState where
  reservedRfid : Option String
  reservationId : Option Int
  heartbeatIntervalSecs : Option Nat
  connectors : List ConnectorState
  deriving DecidableEq, Repr

namespace CsState

def default : CsState := ⟨none, none, none, [.new 1 1]⟩

/-- The connector on an EVSE is the first that carries its id. -/
def onEvse (evse : Int) (c : ConnectorState) : Bool := decide (c.evseId = evse)

def connectorByEvse (s : CsState) (evse : Int) : Option ConnectorState := s.connectors.find? (onEvse evse)

def connectorMutByEvse (s : CsState) (evse : Int) (f : ConnectorState → ConnectorState) : CsState :=
  { s with connectors := updateFirst (onEvse evse) f s.connectors }

def connectorIndex (s : CsState) (scope : Scope) : Option Nat :=
  (scope.evse.bind fun e => s.connectors.findIdx? (onEvse e)).or (if s.connectors.isEmpty then none else some 0)

end CsState

end V2

end Ocpp

end Ferrowl
