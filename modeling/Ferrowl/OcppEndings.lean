import Ferrowl.OcppReservations
import Ferrowl.OcppTransactions
/-!
# OcppEndings — the ends of a transaction and the limits of its connector

A connector holds at most one transaction and one charging limit for each purpose of a profile; the limit of a `TxProfile` belongs
to the transaction.  A transaction ends where the CSMS stops it or resets the station, where the operator or a script stops it (in
version 1.6 when the reply arrives, `apply_post_send`; in version 2.x when the stop is sent, `stop_event`), and where a start that
failed is taken back (`rollback_tx`; version 1.6 has nothing to take back).

Both versions are a `Charging`: their ends act on the list of sessions as `EndOp`s.
-/
namespace Ferrowl.Ocpp

open List Option

open Wire (Value)

/-! ## Version 1.6 -/

namespace V16

def runs (tx : Int) (c : ConnectorState) : Bool := decide (c.transactionId = some tx)

namespace ConnectorState

def stopped (c : ConnectorState) : ConnectorState := { c with transactionId := none, limit := none, status := "Available" }

def reset (c : ConnectorState) : ConnectorState := { c with status := "Available", transactionId := none, sessionEnergy := 0 }

end ConnectorState

inductive EndingCall where
  | remoteStopTransaction (transactionId : Int)
  | reset
  deriving DecidableEq, Repr

def respondEnding (s : CsState) : EndingCall → Answer × CsState
  | .remoteStopTransaction tx =>
    match s.connectors.find? (runs tx) with
    | some c =>
      (⟨.ok "RemoteStopTransaction", "stopped tx " ++ toString tx ++ " on connector " ++ toString c.connectorId⟩,
        { s with connectors := updateFirst (runs tx) (·.stopped) s.connectors })
    | none => (⟨.ok "RemoteStopTransaction", "no active tx " ++ toString tx⟩, s)
  | .reset => (⟨.ok "Reset", "state reset"⟩, { s with connectors := s.connectors.map (·.reset) })

def afterSend (name : String) (response : Value) (c : ConnectorState) : ConnectorState :=
  if name = "StartTransaction" then
    { c with transactionId := (response.get "transactionId").bind Value.asI64, status := "Charging", sessionEnergy := 0 }
  else if name = "StopTransaction" then c.stopped
  else c

def applyPostSend (s : CsState) (name : String) (scope : Scope) (response : Value) : CsState :=
  if name = "BootNotification" then { s with heartbeatIntervalSecs := V2.bootInterval response }
  else s.onConnector scope (afterSend name response)

/-- A transaction ends by a call of the CSMS, or by the reply to a stop that was built in an earlier state. -/
inductive Ending where
  | call (call : EndingCall)
  | stopReply (sent : CsState) (scope : Scope) (response : Value)

def finish (s : CsState) : Ending → CsState
  | .call call => (respondEnding s call).2
  | .stopReply _ scope response => applyPostSend s "StopTransaction" scope response

/-- The transaction that is named in the payload of a stop. -/
def stopTx (s : CsState) (scope : Scope) : Option Int :=
  (s.connectorIndex scope).bind fun i => s.connectors[i]?.bind (·.transactionId)

def Ending.Of (_ : CsState) : Ending → Int → Prop
  | .call (.remoteStopTransaction tx), tx' => tx = tx'
  | .call .reset, _ => True
  | .stopReply sent scope _, tx' => stopTx sent scope = some tx'

end V16

/-! ## Version 2.0.1 -/

namespace V2

def runs (tx : String) (c : ConnectorState) : Bool := decide (c.transactionId = some tx)

namespace ConnectorState

def stopped (c : ConnectorState) : ConnectorState := { c with transactionId := none, limit := none, status := "Available" }

def reset (c : ConnectorState) : ConnectorState := { c with status := "Available", transactionId := none, sessionEnergy := 0 }

def ended (c : ConnectorState) : ConnectorState :=
  { c.nextSeq.2 with status := "Available", transactionId := none, limit := none, txConfirmed := false }

end ConnectorState

inductive EndingCall where
  | requestStopTransaction (transactionId : String)
  | reset
  deriving DecidableEq, Repr

def respondEnding (s : CsState) : EndingCall → Answer × CsState
  | .requestStopTransaction tx =>
    match s.connectors.find? (runs tx) with
    | some c =>
      (⟨.ok "RequestStopTransaction", "stopped tx " ++ tx ++ " on evse " ++ toString c.evseId⟩,
        { s with connectors := updateFirst (runs tx) (·.stopped) s.connectors })
    | none => (⟨.ok "RequestStopTransaction", "no active tx " ++ tx⟩, s)
  | .reset => (⟨.ok "Reset", "state reset"⟩, { s with connectors := s.connectors.map (·.reset) })

def endedPayload (now tx : String) (seq : Int) (c : ConnectorState) : Value :=
  .object [("eventType", .string "Ended"), ("timestamp", .string now), ("triggerReason", .string "StopAuthorized"),
    ("seqNo", .int seq), ("transactionInfo", .object [("transactionId", .string tx)]),
    ("idToken", .object [("idToken", .string c.rfid), ("type", .string "Central")])]

def stopEvent (now : String) (s : CsState) (scope : Scope) : Option Value × CsState :=
  match s.connectorIndex scope with
  | none => (none, s)
  | some i =>
    match s.connectors[i]? with
    | none => (none, s)
    | some c =>
      match c.transactionId with
      | none => (none, s)
      | some tx =>
        (some (endedPayload now tx c.nextSeq.1 c.ended), { s with connectors := s.connectors.set i c.ended })

/-- A transaction ends by a call of the CSMS, by a stop that is sent, or because its start failed. -/
inductive Ending where
  | call (call : EndingCall)
  | stop (now : String) (scope : Scope)
  | rollback (scope : Scope) (startedTx : Option String)

def finish (s : CsState) : Ending → CsState
  | .call call => (respondEnding s call).2
  | .stop now scope => (stopEvent now s scope).2
  | .rollback scope startedTx => rollbackTx s scope startedTx

def stopTx (s : CsState) (scope : Scope) : Option String :=
  (s.connectorIndex scope).bind fun i => s.connectors[i]?.bind (·.transactionId)

def Ending.Of (s : CsState) : Ending → String → Prop
  | .call (.requestStopTransaction tx), tx' => tx = tx'
  | .call .reset, _ => True
  | .stop _ scope, tx' => stopTx s scope = some tx'
  | .rollback _ startedTx, tx' => startedTx = some tx'

end V2

/-! ## Sessions -/

/-- What a connector holds of a transaction: the limit that was set for it, and those that outlive it. -/
structure Session (T : Type) where
  transaction : Option T
  limit : Option (BitVec 64)
  limitUnit : String
  standing : List (Option (BitVec 64) × String)

namespace Session

variable {T : Type}

def ended (c : Session T) : Session T := { c with transaction := none, limit := none }

def dropped (c : Session T) : Session T := { c with transaction := none }

def limits (c : Session T) : List (Option (BitVec 64) × String) := (c.limit, c.limitUnit) :: c.standing

end Session

/-- What an end does to the sessions of a station: end that of one connector, or drop all transactions. -/
inductive EndOp where
  | stop (connector : Option Nat)
  | reset
  deriving DecidableEq, Repr

def EndOp.apply {T : Type} : EndOp → List (Session T) → List (Session T)
  | stop (some k), cs => cs.modify k (·.ended)
  | stop none, cs => cs
  | reset, cs => cs.map (·.dropped)

/-- The operation ends the transaction of connector `j`, whose session is `c`, with all that belongs to it. -/
def EndOp.Clears {T : Type} (j : Nat) (c : Session T) : EndOp → Prop
  | stop connector => connector = some j
  | reset => c.limit = none

/-- **A station that charges**: its transactions end by operations on its sessions. -/
structure Charging where
  State : Type
  Tx : Type
  Ending : Type
  sessions : State → List (Session Tx)
  finish : State → Ending → State
  /-- The transactions an end is meant for. -/
  Of : State → Ending → Tx → Prop
  /-- The end finds the connector at a position. -/
  Finds : State → Ending → Nat → Prop
  resets : Ending → Bool
  op : State → Ending → EndOp
  sessions_finish : ∀ s e, sessions (finish s e) = (op s e).apply (sessions s)
  clears_iff : ∀ {s e tx j c}, Of s e tx → (sessions s)[j]? = some c → c.transaction = some tx →
    ((op s e).Clears j c ↔ Finds s e j ∧ (resets e = true → c.limit = none))

/-- **The transaction of connector `j` has ended**: it is gone and its limit with it, the other limits of the connector stand,
and so do all limits of every other connector that keeps its transaction. -/
structure Ended {T : Type} (before : List (Session T)) (j : Nat) (after : List (Session T)) : Prop where
  connectors : after.length = before.length
  cleared : ∃ c c', before[j]? = some c ∧ after[j]? = some c' ∧ c'.transaction = none ∧ c'.limit = none ∧
    c'.standing = c.standing
  others : ∀ k c c', k ≠ j → before[k]? = some c → after[k]? = some c' → c.transaction.isSome = true →
    c'.transaction = c.transaction → c'.limits = c.limits

section
variable {T : Type} {cs : List (Session T)} {j : Nat} {c : Session T}

theorem EndOp.length_apply (op : EndOp) : (op.apply cs).length = cs.length := by
  unfold EndOp.apply
  split
  · exact length_modify _ _ _
  · rfl
  · exact length_map _

theorem EndOp.limits_apply (op : EndOp) {k : Nat} {d d' : Session T} (hd : cs[k]? = some d) (hd' : (op.apply cs)[k]? = some d')
    (htx : d.transaction.isSome = true) (hkeep : d'.transaction = d.transaction) : d'.limits = d.limits := by
  have hne : d.transaction ≠ none := isSome_iff_ne_none.1 htx
  unfold EndOp.apply at hd'
  split at hd'
  · rw [List.getElem?_modify, hd, Option.map_eq_map, Option.map_some, Option.some_inj] at hd'
    split at hd'
    · subst hd'
      exact absurd hkeep.symm hne
    · rw [← hd']
  · cases hd.symm.trans hd'
    rfl
  · rw [List.getElem?_map, hd, map_some, some_inj] at hd'
    subst hd'
    exact absurd hkeep.symm hne

/-- **An operation on the sessions ends a transaction exactly when it is a stop of its connector or a reset of a connector
without a limit.** -/
theorem EndOp.ended_iff (op : EndOp) (hc : cs[j]? = some c) (htx : c.transaction.isSome = true) :
    Ended cs j (op.apply cs) ↔ op.Clears j c := by
  have hothers : ∀ k d d', k ≠ j → cs[k]? = some d → (op.apply cs)[k]? = some d' → d.transaction.isSome = true →
      d'.transaction = d.transaction → d'.limits = d.limits := fun _ _ _ _ hd hd' => op.limits_apply hd hd'
  constructor
  · rintro ⟨-, ⟨d, d', hd, hd', hgone, hlimit, -⟩, -⟩
    cases hc.symm.trans hd
    have hne : d'.transaction ≠ c.transaction := fun h => by rw [← h, hgone] at htx; cases htx
    cases op with
    | stop connector =>
      cases connector with
      | none => exact absurd (congrArg (Option.map Session.transaction) (hd'.symm.trans hc)) (by simpa using hne)
      | some k =>
        by_cases hkj : k = j
        · exact congrArg some hkj
        · rw [EndOp.apply, List.getElem?_modify_ne _ _ hkj] at hd'
          cases hc.symm.trans hd'
          exact absurd rfl hne
    | reset =>
      rw [EndOp.apply, List.getElem?_map, hc, map_some, some_inj] at hd'
      subst hd'
      exact hlimit
  · intro h
    refine ⟨op.length_apply, ?_, hothers⟩
    cases op with
    | stop connector =>
      cases h
      refine ⟨c, c.ended, hc, ?_, rfl, rfl, rfl⟩
      rw [EndOp.apply, List.getElem?_modify_eq, hc]
      rfl
    | reset =>
      refine ⟨c, c.dropped, hc, ?_, rfl, h, rfl⟩
      rw [EndOp.apply, List.getElem?_map, hc]
      rfl

end

section
variable {C T : Type} (session : C → Session T) {f : C → C} (hf : ∀ c, session (f c) = (session c).ended)

include hf

theorem map_modify_ended (k : Nat) (cs : List C) : (cs.modify k f).map session = (EndOp.stop (some k)).apply (cs.map session) :=
  map_modify_comm hf k cs

theorem map_updateFirst_ended (p : C → Bool) (cs : List C) :
    (updateFirst p f cs).map session = (EndOp.stop (cs.findIdx? p)).apply (cs.map session) := by
  cases h : cs.findIdx? p with
  | none => rw [updateFirst_of_none h, EndOp.apply]
  | some k => rw [updateFirst_of_some h, map_modify_ended session hf]

end

namespace V16

def ConnectorState.session (c : ConnectorState) : Session Int where
  transaction := c.transactionId
  limit := c.limit
  limitUnit := c.limitUnit
  standing := [(c.defaultLimit, c.defaultLimitUnit), (c.maxLimit, c.maxLimitUnit)]

def CsState.sessions (s : CsState) : List (Session Int) := s.connectors.map (·.session)

def endOp (s : CsState) : Ending → EndOp
  | .call (.remoteStopTransaction tx) => .stop (s.connectors.findIdx? (runs tx))
  | .call .reset => .reset
  | .stopReply _ scope _ => .stop (s.connectorIndex scope)

/-- The end finds connector `j`. -/
def Finds (s : CsState) : Ending → Nat → Prop
  | .call (.remoteStopTransaction tx), j => s.connectors.findIdx? (runs tx) = some j
  | .call .reset, _ => True
  | .stopReply _ scope _, j => s.connectorIndex scope = some j

def Ending.resets : Ending → Bool
  | .call .reset => true
  | _ => false

theorem endOp_clears_iff {s : CsState} {e : Ending} {j : Nat} {c : Session Int} :
    (endOp s e).Clears j c ↔ Finds s e j ∧ (e.resets = true → c.limit = none) := by
  unfold endOp Finds Ending.resets
  split <;> simp [EndOp.Clears]

theorem sessions_finish (s : CsState) (e : Ending) : (finish s e).sessions = (endOp s e).apply s.sessions := by
  cases e with
  | call call =>
    cases call with
    | remoteStopTransaction tx =>
      simp only [finish, respondEnding, endOp, CsState.sessions]
      cases h : s.connectors.findIdx? (runs tx) with
      | none =>
        rw [find?_eq_none_of_findIdx? h]
        rfl
      | some k =>
        obtain ⟨c, hc⟩ := exists_find?_of_findIdx? h
        rw [hc, ← h]
        exact map_updateFirst_ended ConnectorState.session (fun _ => rfl) (runs tx) s.connectors
    | reset =>
      simp only [finish, respondEnding, endOp, CsState.sessions, EndOp.apply, List.map_map]
      rfl
  | stopReply sent scope response =>
    have hstop : afterSend "StopTransaction" response = ConnectorState.stopped := rfl
    simp only [finish, applyPostSend, endOp, hstop, CsState.sessions, CsState.onConnector]
    rw [if_neg (by decide)]
    cases s.connectorIndex scope with
    | none => rfl
    | some i => exact map_modify_ended ConnectorState.session (fun _ => rfl) i s.connectors

def charging : Charging where
  State := CsState
  Tx := Int
  Ending := Ending
  sessions := CsState.sessions
  finish := finish
  Of := fun s e tx => e.Of s tx
  Finds := Finds
  resets := Ending.resets
  op := endOp
  sessions_finish := sessions_finish
  clears_iff := fun _ _ _ => endOp_clears_iff

end V16

namespace V2

def ConnectorState.session (c : ConnectorState) : Session String where
  transaction := c.transactionId
  limit := c.limit
  limitUnit := c.limitUnit
  standing := [(c.defaultLimit, c.defaultLimitUnit), (c.maxLimit, c.maxLimitUnit), (c.externalLimit, c.externalLimitUnit)]

def CsState.sessions (s : CsState) : List (Session String) := s.connectors.map (·.session)

def stopIndex (s : CsState) (scope : Scope) : Option Nat :=
  (s.connectorIndex scope).filter fun i => s.connectors[i]?.any (·.transactionId.isSome)

def rollbackIndex (s : CsState) (scope : Scope) (startedTx : Option String) : Option Nat :=
  startedTx.bind fun tx => (scope.evse.bind fun e => s.connectors.findIdx? (CsState.onEvse e)).filter fun i =>
    s.connectors[i]?.any (runs tx)

def endOp (s : CsState) : Ending → EndOp
  | .call (.requestStopTransaction tx) => .stop (s.connectors.findIdx? (runs tx))
  | .call .reset => .reset
  | .stop _ scope => .stop (stopIndex s scope)
  | .rollback scope startedTx => .stop (rollbackIndex s scope startedTx)

theorem sessions_stopEvent (now : String) (s : CsState) (scope : Scope) :
    (stopEvent now s scope).2.sessions = (EndOp.stop (stopIndex s scope)).apply s.sessions := by
  unfold stopEvent stopIndex
  cases s.connectorIndex scope with
  | none => rfl
  | some i =>
    cases hc : s.connectors[i]? with
    | none =>
      simp only [filter_some, hc]
      rfl
    | some c =>
      cases htx : c.transactionId with
      | none =>
        simp only [filter_some, hc, any_some, htx]
        rfl
      | some tx =>
        have hset : s.connectors.set i c.ended = s.connectors.modify i (·.ended) := by
          rw [modify_eq_set_getElem?, hc]
          rfl
        simp only [filter_some, hc, any_some, htx, isSome_some, if_true, hset]
        exact map_modify_ended ConnectorState.session (fun _ => rfl) i s.connectors

theorem modify_eq_of_getElem? {α : Type} {l : List α} {i : Nat} {x : α} {f g : α → α} (hx : l[i]? = some x) (h : f x = g x) :
    l.modify i f = l.modify i g := by
  rw [modify_eq_set_getElem?, modify_eq_set_getElem?, hx]
  exact congrArg (l.set i) h

theorem sessions_onTx (s : CsState) (scope : Scope) (startedTx : Option String) {f : ConnectorState → ConnectorState}
    (hf : ∀ c, (f c).session = c.session.ended) :
    (s.onTx scope startedTx f).sessions = (EndOp.stop (rollbackIndex s scope startedTx)).apply s.sessions := by
  unfold CsState.onTx rollbackIndex
  cases startedTx with
  | none => rfl
  | some tx =>
    cases scope.evse with
    | none => rfl
    | some e =>
      simp only [CsState.connectorMutByEvse, CsState.sessions, bind_some]
      cases h : s.connectors.findIdx? (CsState.onEvse e) with
      | none =>
        rw [updateFirst_of_none h]
        rfl
      | some i =>
        obtain ⟨hi, -⟩ := List.findIdx?_eq_some_iff_getElem.1 h
        have hc := List.getElem?_eq_getElem hi
        rw [updateFirst_of_some h, filter_some, hc, any_some, runs]
        by_cases htx : s.connectors[i].transactionId = some tx
        · have hends : s.connectors.modify i (fun c => if c.transactionId = some tx then f c else c) =
              s.connectors.modify i f := modify_eq_of_getElem? hc (if_pos htx)
          rw [hends, decide_eq_true htx, if_pos rfl]
          exact map_modify_ended ConnectorState.session hf i s.connectors
        have hstays : s.connectors.modify i (fun c => if c.transactionId = some tx then f c else c) =
            s.connectors.modify i id := modify_eq_of_getElem? hc (if_neg htx)
        rw [hstays, modify_id, decide_eq_false htx]
        rfl

/-- The end finds connector `j`. -/
def Finds (s : CsState) : Ending → Nat → Prop
  | .call (.requestStopTransaction tx), j => s.connectors.findIdx? (runs tx) = some j
  | .call .reset, _ => True
  | .stop _ scope, j => s.connectorIndex scope = some j
  | .rollback scope _, j => Resolves s scope j

def Ending.resets : Ending → Bool
  | .call .reset => true
  | _ => false

theorem endOp_clears_iff {s : CsState} {e : Ending} {tx : String} {j : Nat} {c : Session String} (hof : e.Of s tx)
    (hc : s.sessions[j]? = some c) (htx : c.transaction = some tx) :
    (endOp s e).Clears j c ↔ Finds s e j ∧ (e.resets = true → c.limit = none) := by
  obtain ⟨d, hd, rfl⟩ : ∃ d, s.connectors[j]? = some d ∧ d.session = c := by
    rwa [CsState.sessions, List.getElem?_map, map_eq_some_iff] at hc
  have htx' : d.transactionId = some tx := htx
  cases e with
  | call call => cases call <;> simp [endOp, EndOp.Clears, Finds, Ending.resets]
  | stop now scope =>
    simp only [endOp, EndOp.Clears, stopIndex, filter_eq_some_iff, Finds, Ending.resets, Bool.false_eq_true,
      false_imp_iff, and_true]
    exact and_iff_left_of_imp fun _ => by rw [hd, any_some, htx']; rfl
  | rollback scope startedTx =>
    cases (show startedTx = some tx from hof)
    simp only [endOp, EndOp.Clears, rollbackIndex, bind_some, filter_eq_some_iff, Finds, Ending.resets,
      Bool.false_eq_true, false_imp_iff, and_true, Resolves, bind_eq_some_iff]
    exact and_iff_left_of_imp fun _ => by rw [hd, any_some]; exact decide_eq_true htx'

theorem sessions_finish (s : CsState) (e : Ending) : (finish s e).sessions = (endOp s e).apply s.sessions := by
  cases e with
  | call call =>
    cases call with
    | requestStopTransaction tx =>
      simp only [finish, respondEnding, endOp, CsState.sessions]
      cases h : s.connectors.findIdx? (runs tx) with
      | none =>
        rw [find?_eq_none_of_findIdx? h]
        rfl
      | some k =>
        obtain ⟨c, hc⟩ := exists_find?_of_findIdx? h
        rw [hc, ← h]
        exact map_updateFirst_ended ConnectorState.session (fun _ => rfl) (runs tx) s.connectors
    | reset =>
      simp only [finish, respondEnding, endOp, CsState.sessions, EndOp.apply, List.map_map]
      rfl
  | stop now scope => exact sessions_stopEvent now s scope
  | rollback scope startedTx => exact sessions_onTx s scope startedTx (fun _ => rfl)

def charging : Charging where
  State := CsState
  Tx := String
  Ending := Ending
  sessions := CsState.sessions
  finish := finish
  Of := fun s e tx => e.Of s tx
  Finds := Finds
  resets := Ending.resets
  op := endOp
  sessions_finish := sessions_finish
  clears_iff := endOp_clears_iff

end V2

/-! ## Ends of a transaction -/

inductive ChargingVersion where
  | v1_6
  | v2_0_1
  deriving DecidableEq, Repr

def ChargingVersion.station : ChargingVersion → Charging
  | v1_6 => V16.charging
  | v2_0_1 => V2.charging

/-- **An end of a transaction ends it on the connector that holds it exactly when it finds that connector and, if it is a
reset, the connector has no limit for its transaction.** -/
theorem ending_clears_iff (v : ChargingVersion) (t : v.station.State) (e : v.station.Ending) {tx : v.station.Tx}
    (he : v.station.Of t e tx) {j : Nat} {c : Session v.station.Tx} (hc : (v.station.sessions t)[j]? = some c)
    (htx : c.transaction = some tx) : Ended (v.station.sessions t) j (v.station.sessions (v.station.finish t e)) ↔
      v.station.Finds t e j ∧ (v.station.resets e = true → c.limit = none) := by
  have hsome : c.transaction.isSome = true := by
    rw [htx]
    rfl
  rw [v.station.sessions_finish, (v.station.op t e).ended_iff hc hsome, v.station.clears_iff he hc htx]

def V16.limited : V16.CsState :=
  { V16.CsState.default with
    connectors := [{ V16.ConnectorState.new 1 with
      transactionId := some 7, limit := some 0x4030000000000000#64, defaultLimit := some 0x4040000000000000#64 }] }

def V2.limited : V2.CsState :=
  { V2.CsState.default with
    connectors := [{ V2.ConnectorState.new 1 1 with
      transactionId := some "ferrowl-tx-1-0", limit := some 0x4030000000000000#64,
      defaultLimit := some 0x4040000000000000#64 }] }

theorem remote_stop_clears : Ended V16.limited.sessions 0 (V16.finish V16.limited (.call (.remoteStopTransaction 7))).sessions :=
  have hof : V16.charging.Of V16.limited (.call (.remoteStopTransaction 7)) (7 : Int) := rfl
  (ending_clears_iff .v1_6 V16.limited (.call (.remoteStopTransaction 7)) hof (j := 0) rfl rfl).2
    ⟨rfl, fun h => absurd h Bool.false_ne_true⟩

/-- A reset takes the transaction and leaves its limit, in either version. -/
theorem reset_keeps_limit : (V16.finish V16.limited (.call .reset)).sessions.map (fun c => (c.transaction, c.limit)) =
        [(none, some 0x4030000000000000#64)] ∧ ¬Ended V16.limited.sessions 0 (V16.finish V16.limited (.call .reset)).sessions ∧
      (V2.finish V2.limited (.call .reset)).sessions.map (fun c => (c.transaction, c.limit)) =
        [(none, some 0x4030000000000000#64)] ∧ ¬Ended V2.limited.sessions 0 (V2.finish V2.limited (.call .reset)).sessions := by
  refine ⟨rfl, fun h => ?_, rfl, fun h => ?_⟩
  all_goals
    obtain ⟨_, c', -, hc', -, hlimit, -⟩ := h.cleared
    cases hc'
    cases hlimit

end Ferrowl.Ocpp
