import Ferrowl.OcppStation
/-!
# OcppTransactions — starting a transaction on a 2.x charging station

`v2_common.rs` with the three ways a start is sent: by the operator and by a script (`view/backend.rs`), and on a request of the
CSMS (`spawn_remote_transaction_start`).  Each mints the transaction at once, on the connector `start_event` picks, and ends
later: a reply confirms it, a failed send takes it back.
-/
namespace Ferrowl.Ocpp.V2

open List Option

open Wire (Value)

/-! ## The start -/

def startedPayload (now tx : String) (seq : Int) (c : ConnectorState) : Value :=
  .object [("eventType", .string "Started"), ("timestamp", .string now), ("triggerReason", .string "Authorized"),
    ("seqNo", .int seq), ("transactionInfo", .object [("transactionId", .string tx)]),
    ("idToken", .object [("idToken", .string c.rfid), ("type", .string "Central")]),
    ("evse", .object [("id", .int c.evseId), ("connectorId", .int c.connectorId)])]

def ConnectorState.started (c : ConnectorState) : ConnectorState :=
  { c.startTx.2.nextSeq.2 with status := "Occupied", sessionEnergy := 0 }

def startEvent (now : String) (s : CsState) (scope : Scope) : Value × CsState :=
  match s.connectorIndex scope with
  | none => (.emptyObject, s)
  | some i =>
    match s.connectors[i]? with
    | none => (.emptyObject, s)
    | some c =>
      (startedPayload now c.startTx.1 c.startTx.2.nextSeq.1 c.started, { s with connectors := s.connectors.set i c.started })

/-! ## The end -/

def bootInterval (response : Value) : Option Nat :=
  ((response.get "interval").bind Value.asU64).filter (fun i => decide (0 < i))

def CsState.onTx (s : CsState) (scope : Scope) (startedTx : Option String) (f : ConnectorState → ConnectorState) : CsState :=
  match startedTx, scope.evse with
  | some tx, some e => s.connectorMutByEvse e (fun c => if c.transactionId = some tx then f c else c)
  | _, _ => s

def applyPostSend (s : CsState) (name : String) (scope : Scope) (startedTx : Option String) (response : Value) : CsState :=
  (if name = "BootNotification" then { s with heartbeatIntervalSecs := bootInterval response } else s).onTx scope startedTx
    (fun c => { c with txConfirmed := true })

def rollbackTx (s : CsState) (scope : Scope) (startedTx : Option String) : CsState :=
  s.onTx scope startedTx
    (fun c => { c with transactionId := none, limit := none, txConfirmed := false, status := "Available" })

def activeMeterScopes (s : CsState) : List Scope :=
  (s.connectors.filter (fun c => c.transactionId.isSome && c.txConfirmed)).map (fun c => .ofEvse c.evseId none)

/-! ## The ways a start is sent -/

def transactionIdOf (payload : Value) : Option String :=
  ((payload.get "transactionInfo").bind (·.get "transactionId")).bind Value.asStr

/-- `merge_overrides`: the fields of a script's payload replace those that were built. -/
def mergeOverrides (base overrides : Value) : Value :=
  match base, overrides with
  | .object b, .object o => .object (o.foldr (fun p b => Value.insertField b p.1 p.2) b)
  | _, _ => base

inductive StartPath where
  | operator
  | script (overrides : Value)
  | remote

namespace StartPath

def payload : StartPath → Value → Value
  | script overrides, built => mergeOverrides built overrides
  | _, built => built

/-- The transaction the end of the start looks for: `send_payload` takes it from a start only, a remote start from any. -/
def startedTx : StartPath → Value → Option String
  | remote, payload => transactionIdOf payload
  | _, payload => if (payload.get "eventType").bind Value.asStr = some "Started" then transactionIdOf payload else none

end StartPath

section
variable (V : Wire.Version) {E : Type}

/-- The end of a start in a state of the station, with the reply of the CSMS or the error of the send. -/
def finishStart (path : StartPath) (s : CsState) (scope : Scope) (payload : Value) (reply : Except E Value) : CsState :=
  match V.decodeCall "TransactionEvent" payload with
  | .error _ => s
  | .ok _ =>
    match reply with
    | .ok response => applyPostSend s "TransactionEvent" scope (path.startedTx payload) response
    | .error _ => rollbackTx s scope (path.startedTx payload)

def succeeded (payload : Value) (reply : Except E Value) : Bool :=
  (V.decodeCall "TransactionEvent" payload).isOk && reply.isOk

end

/-! ## What a start is to do -/

def ConnectorState.transaction (c : ConnectorState) : Option (String × Bool) := c.transactionId.map (·, c.txConfirmed)

def CsState.transactions (s : CsState) : List (Option (String × Bool)) := s.connectors.map (·.transaction)

/-- Connector `j` holds a transaction that is not confirmed yet. -/
structure Awaits (t : CsState) (j : Nat) (tx : String) (d : ConnectorState) : Prop where
  holds : t.connectors[j]? = some d
  transaction : d.transactionId = some tx
  unconfirmed : d.txConfirmed = false

/-- **A start as it is meant**: it mints its transaction on connector `i` and on no other, and its end, in a state `t` with
the transaction on connector `j`, confirms it or takes it away there and touches no other transaction. -/
structure Settles (s : CsState) (i : Nat) (tx : String) (minted : CsState) (t : CsState) (j : Nat) (ok : Bool)
    (u : CsState) : Prop where
  start : minted.transactions = s.transactions.set i (some (tx, false))
  ending : u.transactions = t.transactions.set j (if ok then some (tx, true) else none)
  metered : ok = true → ∃ c, u.connectors[j]? = some c ∧ Scope.ofEvse c.evseId none ∈ activeMeterScopes u

/-- The scope of the start names an EVSE, and connector `j` is the one found on it. -/
def Resolves (t : CsState) (scope : Scope) (j : Nat) : Prop :=
  ∃ e, scope.evse = some e ∧ t.connectors.findIdx? (CsState.onEvse e) = some j

/-- The overrides of a script leave the payload the start of `tx`. -/
def StartPath.Keeps (tx : String) : StartPath → Prop
  | script overrides =>
    (∀ v, overrides.get "eventType" = some v → v.asStr = some "Started") ∧
      ∀ v, overrides.get "transactionInfo" = some v → (v.get "transactionId").bind Value.asStr = some tx
  | _ => True

/-! ## The payload of a start -/

theorem get_mergeOverrides (fields : List (String × Value)) (overrides : Value) (k : String) :
    (mergeOverrides (.object fields) overrides).get k = (overrides.get k).or (fields.lookup k) := by
  cases overrides with
  | object o =>
    simp only [mergeOverrides, Value.get]
    induction o with
    | nil => rfl
    | cons p o ih =>
      obtain ⟨key, v⟩ := p
      rw [foldr_cons, Value.lookup_insertField, Value.lookup_cons_ite, ih]
      split <;> rfl
  | _ => rfl

variable {scope : Scope} {c : ConnectorState}

theorem startEvent_eq {s : CsState} {i : Nat} (hi : s.connectorIndex scope = some i)
    (hc : s.connectors[i]? = some c) (now : String) :
    startEvent now s scope = (startedPayload now c.nextTx 0 c.started, { s with connectors := s.connectors.set i c.started }) := by
  simp only [startEvent, hi, hc]
  rfl

theorem or_bind_eq_some {α β : Type} {x : Option α} {a : α} {f : α → Option β} {b : β} (ha : f a = some b) :
    (x.or (some a)).bind f = some b ↔ ∀ v, x = some v → f v = some b := by
  cases x with
  | none => simp [ha]
  | some v => simp

variable {tx : String}

theorem startedTx_payload_eq {path : StartPath} {now : String} {seq : Int} :
    path.startedTx (path.payload (startedPayload now tx seq c)) = some tx ↔ path.Keeps tx := by
  cases path with
  | script overrides =>
    have htype : ((mergeOverrides (startedPayload now tx seq c) overrides).get "eventType").bind Value.asStr = some "Started" ↔
        ∀ v, overrides.get "eventType" = some v → v.asStr = some "Started" := by
      rw [startedPayload, get_mergeOverrides]
      exact or_bind_eq_some rfl
    have hinfo : transactionIdOf (mergeOverrides (startedPayload now tx seq c) overrides) = some tx ↔
        ∀ v, overrides.get "transactionInfo" = some v → (v.get "transactionId").bind Value.asStr = some tx := by
      rw [transactionIdOf, bind_assoc, startedPayload, get_mergeOverrides]
      exact or_bind_eq_some rfl
    exact ite_none_right_eq_some.trans (and_congr htype hinfo)
  | operator | remote => exact iff_of_true rfl trivial

/-! ## The end of a start -/

variable {j : Nat} {d : ConnectorState}

theorem transactions_getElem? {s : CsState} (h : s.connectors[j]? = some d) : s.transactions[j]? = some d.transaction := by
  rw [CsState.transactions, List.getElem?_map, h]
  rfl

theorem onTx_of_resolves {t : CsState} (hr : Resolves t scope j) (hd : t.connectors[j]? = some d)
    (htx : d.transactionId = some tx) (f : ConnectorState → ConnectorState) :
    t.onTx scope (some tx) f = { t with connectors := t.connectors.set j (f d) } := by
  obtain ⟨e, he, hj⟩ := hr
  simp only [CsState.onTx, he, CsState.connectorMutByEvse]
  rw [updateFirst_of_some hj, List.modify_eq_set_getElem?, hd]
  simp [if_pos htx]

theorem onTx_getElem?_of_not {t : CsState} {startedTx : Option String}
    (hd : t.connectors[j]? = some d) (htx : d.transactionId = some tx)
    (h : ¬(Resolves t scope j ∧ startedTx = some tx)) (f : ConnectorState → ConnectorState) :
    (t.onTx scope startedTx f).connectors[j]? = some d := by
  unfold CsState.onTx
  split
  · rename_i tx' e he
    simp only [CsState.connectorMutByEvse]
    cases hk : t.connectors.findIdx? (CsState.onEvse e) with
    | none => rw [updateFirst_of_none hk, hd]
    | some k =>
      rw [updateFirst_of_some hk, List.getElem?_modify, hd]
      split
      · rename_i hkj
        subst hkj
        have hne : d.transactionId ≠ some tx' := fun heq => h ⟨⟨e, he, hk⟩, heq.symm.trans htx⟩
        simp [hne]
      · rfl
  · exact hd

theorem Awaits.lt_length {t : CsState} (h : Awaits t j tx d) : j < t.transactions.length := by
  rw [CsState.transactions, length_map]
  exact (List.getElem?_eq_some_iff.1 h.holds).1

/-- What the end of a start does to the connector that holds its transaction. -/
def endStart (confirmed : Bool) (c : ConnectorState) : ConnectorState :=
  if confirmed then { c with txConfirmed := true }
  else { c with transactionId := none, limit := none, txConfirmed := false, status := "Available" }

theorem transaction_endStart (htx : d.transactionId = some tx) (ok : Bool) :
    (endStart ok d).transaction = if ok then some (tx, true) else none := by
  cases ok with
  | false => rfl
  | true =>
    simp only [endStart, ConnectorState.transaction, htx]
    rfl

section
variable {V : Wire.Version} {E : Type} {path : StartPath} {t : CsState} {scope : Scope} {payload : Value} {reply : Except E Value}

theorem finishStart_eq : finishStart V path t scope payload reply =
    if (V.decodeCall "TransactionEvent" payload).isOk then
      t.onTx scope (path.startedTx payload) (endStart (succeeded V payload reply))
    else t := by
  cases hd : V.decodeCall "TransactionEvent" payload with
  | error e =>
    simp only [finishStart, hd]
    rfl
  | ok a =>
    cases reply with
    | error e | ok response =>
      simp only [finishStart, hd, succeeded]
      rfl

/-- **The end of a start settles the transaction on a connector exactly when it decodes, resolves to that connector and
looks for that transaction.** -/
theorem ending_iff {j : Nat} {tx : String} {d : ConnectorState} (h : Awaits t j tx d) :
    (finishStart V path t scope payload reply).transactions =
        t.transactions.set j (if succeeded V payload reply then some (tx, true) else none) ↔
      (V.decodeCall "TransactionEvent" payload).isOk = true ∧ Resolves t scope j ∧ path.startedTx payload = some tx := by
  have hj := h.lt_length
  -- a transaction that stays as it was is neither confirmed nor gone
  have hstay : ∀ u : CsState, u.connectors[j]? = some d →
      u.transactions ≠ t.transactions.set j (if succeeded V payload reply then some (tx, true) else none) := by
    intro u hu heq
    have hget := congrArg (·[j]?) heq
    simp only [transactions_getElem? hu, List.getElem?_set_self hj, ConnectorState.transaction, h.transaction,
      h.unconfirmed] at hget
    split at hget <;> simp at hget
  rw [finishStart_eq]
  by_cases hok : (V.decodeCall "TransactionEvent" payload).isOk = true
  · rw [if_pos hok]
    by_cases hr : Resolves t scope j ∧ path.startedTx payload = some tx
    · refine iff_of_true ?_ ⟨hok, hr⟩
      rw [hr.2, onTx_of_resolves hr.1 h.holds h.transaction, CsState.transactions, map_set, transaction_endStart h.transaction]
      rfl
    · exact iff_of_false (hstay _ (onTx_getElem?_of_not h.holds h.transaction hr _)) (fun h' => hr h'.2)
  · rw [if_neg hok]
    exact iff_of_false (hstay t h.holds) (fun h' => hok h'.1)

end

theorem mem_activeMeterScopes {u : CsState} (hc : u.connectors[j]? = some c)
    (h : c.transaction = some (tx, true)) : Scope.ofEvse c.evseId none ∈ activeMeterScopes u := by
  obtain ⟨tx', htx, heq⟩ := map_eq_some_iff.1 h
  refine mem_map.2 ⟨c, mem_filter.2 ⟨mem_of_getElem? hc, ?_⟩, rfl⟩
  rw [htx, (Prod.mk.inj heq).2]
  rfl

/-! ## Starts of a station -/

section
variable (V : Wire.Version) {E : Type}

/-- **A start settles exactly the transaction it minted iff its payload decodes, its scope names an EVSE on which the
connector with the transaction is the one found, and its overrides leave the transaction's id alone.** -/
theorem start_settles_iff (now : String) {s : CsState} {scope : Scope} {i : Nat} {c : ConnectorState}
    (hi : s.connectorIndex scope = some i) (hc : s.connectors[i]? = some c) (path : StartPath) {t : CsState} {j : Nat}
    {d : ConnectorState} (ht : Awaits t j c.nextTx d) (reply : Except E Value) :
    Settles s i c.nextTx (startEvent now s scope).2 t j (succeeded V (path.payload (startEvent now s scope).1) reply)
        (finishStart V path t scope (path.payload (startEvent now s scope).1) reply) ↔
      (V.decodeCall "TransactionEvent" (path.payload (startEvent now s scope).1)).isOk = true ∧ Resolves t scope j ∧
        path.Keeps c.nextTx := by
  rw [startEvent_eq hi hc, ← startedTx_payload_eq, ← ending_iff ht]
  refine ⟨fun h => h.ending, fun h => ⟨?_, h, fun hok => ?_⟩⟩
  · rw [CsState.transactions, map_set]
    rfl
  rw [hok, if_pos rfl] at h
  have hget : (finishStart V path t scope (path.payload (startedPayload now c.nextTx 0 c.started)) reply).transactions[j]? =
      some (some (c.nextTx, true)) := by
    rw [h]
    exact List.getElem?_set_self ht.lt_length
  rw [CsState.transactions, List.getElem?_map, map_eq_some_iff] at hget
  obtain ⟨c', hc', htx⟩ := hget
  exact ⟨c', hc', mem_activeMeterScopes hc' htx⟩

end

def uniform (decodes : Bool) : Wire.Version where
  Action := Unit
  Response := Unit
  decodeCall := fun name _ => if decodes then .ok () else .error (.json name)
  validate := fun _ => .ok ()
  encodeResponse := fun _ => .ok .emptyObject

def underway (scope : Scope) : CsState := (startEvent "now" .default scope).2

theorem evse_start_settles : Settles .default 0 "ferrowl-tx-1-0" (underway (.ofEvse 1 none)) (underway (.ofEvse 1 none)) 0 true
      (finishStart (E := Unit) (uniform true) .remote (underway (.ofEvse 1 none)) (.ofEvse 1 none)
        (startEvent "now" .default (.ofEvse 1 none)).1 (.ok .emptyObject)) :=
  have hi : CsState.default.connectorIndex (.ofEvse 1 none) = some 0 := rfl
  (start_settles_iff (E := Unit) (uniform true) "now" hi rfl .remote (t := underway (.ofEvse 1 none)) (j := 0)
    ⟨rfl, rfl, rfl⟩ (.ok .emptyObject)).2 ⟨rfl, ⟨1, rfl, rfl⟩, trivial⟩

/-- A remote start without an EVSE id mints on the first connector, and its end finds none; nor does the end of a start
whose payload does not decode take the transaction back. -/
theorem start_without_evse_stays : (underway .cs).transactions = [some ("ferrowl-tx-1-0", false)] ∧
      (finishStart (E := Unit) (uniform true) .remote (underway .cs) .cs (startEvent "now" .default .cs).1
        (.ok .emptyObject)).transactions = [some ("ferrowl-tx-1-0", false)] ∧
      (finishStart (uniform true) .remote (underway .cs) .cs (startEvent "now" .default .cs).1
        (.error ())).transactions = [some ("ferrowl-tx-1-0", false)] ∧
      (finishStart (uniform false) .operator (underway (.ofEvse 1 none)) (.ofEvse 1 none)
        (startEvent "now" .default (.ofEvse 1 none)).1 (.error ())).transactions = [some ("ferrowl-tx-1-0", false)] ∧
      ¬Settles .default 0 "ferrowl-tx-1-0" (underway .cs) (underway .cs) 0 true
        (finishStart (E := Unit) (uniform true) .remote (underway .cs) .cs (startEvent "now" .default .cs).1
          (.ok .emptyObject)) := by
  refine ⟨by decide +kernel, by decide +kernel, by decide +kernel, by decide +kernel, fun h => ?_⟩
  exact absurd h.ending (by decide +kernel)

end Ferrowl.Ocpp.V2
