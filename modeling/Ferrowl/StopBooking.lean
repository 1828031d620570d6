import Ferrowl.CsmsStates
/-!
# StopBooking — the connector on which a CSMS books the end of a transaction

A `StopTransaction` of version 1.6 has no connector, and a `TransactionEvent` that ends a transaction need not name its EVSE.  The
view then looks for the connector of the station that shows the transaction (`connector_scope_for_tx`) and books the call there.

Both versions are a `Booking`: how a transaction is shown, which one a stop names and what the stop does to the connector.
-/
namespace Ferrowl

open List

section
variable {α : Type} {p q : α → Bool} {f : α → α}

theorem filter_updateFirst (hq : ∀ x, p x = true → q x = true) (hf : ∀ x, q (f x) = q x) (l : List α) :
    (updateFirst p f l).filter q = updateFirst p f (l.filter q) := by
  induction l with
  | nil => rfl
  | cons x l ih =>
    rw [updateFirst_cons]
    by_cases hx : p x = true
    · rw [if_pos hx, filter_cons, hf, if_pos (hq x hx), filter_cons, if_pos (hq x hx), updateFirst_cons, if_pos hx]
    rw [if_neg hx, filter_cons, filter_cons, ih]
    split
    · rw [updateFirst_cons, if_neg hx]
    · rfl

end

def intOfText : List Char → Int
  | '-' :: digits => -(Nat.ofDigitChars 10 digits 0)
  | digits => Nat.ofDigitChars 10 digits 0

theorem intOfText_repr (n : Nat) : intOfText n.repr.toList = n := by
  rw [Nat.repr_eq_ofList_toDigits, String.toList_ofList]
  unfold intOfText
  split
  · rename_i digits h
    -- no digit is a sign
    have hdigit : '-'.isDigit = true :=
      Nat.isDigit_of_mem_toDigits (by decide) (by decide) (h ▸ mem_cons_self)
    cases hdigit
  · rw [Nat.ofDigitChars_ten_toDigits]

theorem intOfText_toString (a : Int) : intOfText (toString a).toList = a := by
  rw [Int.toString_eq_repr]
  cases a with
  | ofNat n => exact intOfText_repr n
  | negSucc n =>
    show intOfText ("-" ++ n.succ.repr).toList = _
    simp only [Nat.repr_eq_ofList_toDigits, String.toList_append, String.toList_ofList]
    show -((Nat.ofDigitChars 10 (Nat.toDigits 10 n.succ) 0 : Nat) : Int) = _
    rw [Nat.ofDigitChars_ten_toDigits]
    rfl

theorem toString_int_inj {a b : Int} (h : toString a = toString b) : a = b := by
  rw [← intOfText_toString a, h, intOfText_toString]

theorem toString_int_ne_empty (a : Int) : toString a ≠ "" := by
  rw [Int.toString_eq_repr, Int.repr_eq_if]
  split
  · exact Nat.repr_ne_empty
  · intro h
    have := congrArg String.length h
    simp [String.length_append] at this

namespace Ocpp.Csms

open Wire (Value)

variable {V : ServerVersion}

/-! ## Keys -/

def Entry.key (e : Entry V) : String × Scope := (e.identity, e.scope)

def Entry.onState (onCs : V.cs.State → V.cs.State) (onConn : V.conn.State → V.conn.State) (e : Entry V) : Entry V :=
  { e with state := match e.state with
      | .cs s => .cs (onCs s)
      | .conn s => .conn (onConn s) }

namespace ServerView

def keys (v : ServerView V) : List (String × Scope) := v.entries.map Entry.key

def connectors (v : ServerView V) : List (Entry V) := v.entries.filter (·.scope.isConnector)

/-- **The views a CSMS can have.**  Entries are removed by the operator, or all of them when the server is stopped or set up
anew. -/
inductive Reached : ServerView V → Prop
  | empty : Reached .empty
  | event {v : ServerView V} (h : Reached v) (lookup : ConnectionId → Option String) (ev : ServerEvent) :
    Reached (v.handleEvent lookup ev)
  | sort {v : ServerView V} (h : Reached v) : Reached v.sortEntries
  | remove {v : ServerView V} (h : Reached v) {rest : List (Entry V)} (hrest : rest.Sublist v.entries)
    (connIdentity : ConnectionId → Option String) (csConfigs : String → Option (List (String × String × Bool))) :
    Reached ⟨rest, connIdentity, csConfigs⟩
  | script {v : ServerView V} (h : Reached v) (i : Nat) (onCs : V.cs.State → V.cs.State)
    (onConn : V.conn.State → V.conn.State) : Reached (v.modifyEntry i (·.onState onCs onConn))

section
variable {v : ServerView V}

theorem keys_modifyEntry {f : Entry V → Entry V} (hf : ∀ e, (f e).key = e.key) (i : Nat) : (v.modifyEntry i f).keys = v.keys := by
  show (v.entries.modify i f).map Entry.key = v.entries.map Entry.key
  rw [map_modify_comm (h := id) hf i v.entries, modify_id]

theorem keys_map {f : Entry V → Entry V} (hf : ∀ e, (f e).key = e.key) : (v.entries.map f).map Entry.key = v.keys := by
  rw [map_map]
  exact map_congr_left fun e _ => hf e

theorem keyed_entryIndex (h : v.keys.Nodup) (identity : String) (scope : Scope) (conn : Option ConnectionId) :
    (v.entryIndex identity scope conn).2.keys.Nodup := by
  unfold entryIndex
  split
  · exact h
  rename_i hnone
  show ((v.entries ++ [Entry.new identity scope conn]).map Entry.key).Nodup
  rw [map_append, nodup_append]
  refine ⟨h, nodup_singleton _, fun k hk k' hk' heq => ?_⟩
  obtain ⟨e, he, rfl⟩ := mem_map.1 hk
  have hkey : e.key = (identity, scope) := heq.trans (mem_singleton.1 hk')
  have hnot := List.findIdx?_eq_none_iff.1 hnone e he
  exact of_decide_eq_false hnot ⟨congrArg Prod.fst hkey, congrArg Prod.snd hkey⟩

theorem key_sent (e : Entry V) (name : String) (request response : Value) (ok : Bool) (context : String) :
    (e.sent name request response ok context).key = e.key := by
  have h := e.alike_sent name request response ok context
  rw [Entry.key, h.identity, h.scope]
  rfl

theorem key_receive (conn : ConnectionId) (name : String) (request response : Value) (e : Entry V) :
    (e.receive conn name request response).key = e.key := rfl

theorem keyed_handleEvent (h : v.keys.Nodup) (lookup : ConnectionId → Option String) (ev : ServerEvent) :
    (v.handleEvent lookup ev).keys.Nodup := by
  cases ev with
  | connected conn =>
    show (List.map Entry.key (List.map _ _)).Nodup
    rw [keys_map]
    · exact keyed_entryIndex (v := v.identify lookup conn) h _ _ _
    · intro e
      split <;> rfl
  | disconnected conn =>
    show (List.map Entry.key (List.map _ _)).Nodup
    rw [keys_map]
    · exact h
    · intro e
      split <;> rfl
  | inbound conn name request response =>
    show (modifyEntry _ _ _).keys.Nodup
    rw [keys_modifyEntry (key_receive conn name request response)]
    exact keyed_entryIndex (keyed_entryIndex (v := v.identify lookup conn) h _ _ _) _ _ _
  | outbound conn scope name request response ok context =>
    show (modifyEntry _ _ _).keys.Nodup
    rw [keys_modifyEntry fun e => key_sent e name request response ok context]
    refine keyed_entryIndex ?_ _ _ _
    rw [keys, keepConfig_entries]
    exact h

theorem keyed_of_reached (h : Reached v) : v.keys.Nodup := by
  induction h with
  | empty => exact nodup_nil
  | event _ lookup ev ih => exact keyed_handleEvent ih lookup ev
  | sort _ ih => exact ((mergeSort_perm _ _).map Entry.key).nodup_iff.2 ih
  | remove _ hrest _ _ ih => exact ih.sublist (hrest.map Entry.key)
  | script _ i onCs onConn ih =>
    rw [keys_modifyEntry (f := Entry.onState onCs onConn) fun e => rfl]
    exact ih

end

/-- **The table has one row for each station and scope**, whatever events come and however they resolve. -/
theorem one_row_each (events : List ((ConnectionId → Option String) × ServerEvent)) :
    (events.foldl (fun v e => v.handleEvent e.1 e.2) (.empty : ServerView V)).keys.Nodup :=
  keyed_of_reached (foldlRecOn (motive := Reached) events _ .empty fun _ h e _ => h.event e.1 e.2)

end ServerView

/-! ## Transactions -/

/-- How a version of the protocol deals with the transaction of a connector. -/
structure Booking (V : ServerVersion) where
  Tx : Type
  decEq : DecidableEq Tx
  transaction : V.conn.State → Option Tx
  limit : V.conn.State → Option (BitVec 64)
  /-- The transaction a stop names. -/
  stopped : String → Value → Option Tx
  text : Tx → String
  /-- The transactions that are shown by a text of their own. -/
  Named : Tx → Prop
  text_inj : ∀ {t t'}, text t = text t' → t = t'
  text_ne_empty : ∀ {t}, Named t → text t ≠ ""
  shown : ∀ s, V.conn.getFieldStr s "TransactionId" = some (((transaction s).map text).getD "")
  not_shown : ∀ s, V.cs.getFieldStr s "TransactionId" = none
  stopTxId : ∀ name request, V.stopTxId name request = (stopped name request).map text
  ends : ∀ {name request tx}, stopped name request = some tx → ∀ s response,
    transaction (V.conn.applyInbound s name request response) = none ∧ limit (V.conn.applyInbound s name request response) = none

namespace Booking

variable (b : Booking V)

def txOf (e : Entry V) : Option b.Tx :=
  match e.state with
  | .cs _ => none
  | .conn s => b.transaction s

def limitOf (e : Entry V) : Option (BitVec 64) :=
  match e.state with
  | .cs _ => none
  | .conn s => b.limit s

def holds (identity : String) (tx : b.Tx) (e : Entry V) : Bool :=
  letI := b.decEq
  decide (e.identity = identity) && e.scope.isConnector && decide (b.txOf e = some tx)

/-- **The stop is booked on the connector that has the transaction**, the first of them if there are several, and no other
connector is changed. -/
structure Booked (identity : String) (tx : b.Tx) (before after : List (Entry V)) : Prop where
  length : after.length = before.length
  cleared : ∀ j e, before.findIdx? (b.holds identity tx) = some j → before[j]? = some e →
    ∃ e', after[j]? = some e' ∧ e'.key = e.key ∧ b.txOf e' = none ∧ b.limitOf e' = none
  others : ∀ j, before.findIdx? (b.holds identity tx) ≠ some j → after[j]? = before[j]?

variable {b} {identity : String} {tx : b.Tx}

theorem holds_iff {e : Entry V} :
    b.holds identity tx e = true ↔ e.identity = identity ∧ e.scope.isConnector = true ∧ b.txOf e = some tx := by
  simp [holds, and_assoc]

theorem shows_iff (hnamed : b.Named tx) (e : Entry V) :
    e.getFieldStr "TransactionId" = some (b.text tx) ↔ b.txOf e = some tx := by
  unfold Entry.getFieldStr txOf
  cases e.state with
  | cs s =>
    simp only
    rw [b.not_shown s]
    exact iff_of_false nofun nofun
  | conn s =>
    simp only
    rw [b.shown s, Option.some_inj]
    cases b.transaction s with
    | none => exact iff_of_false (fun h => b.text_ne_empty hnamed h.symm) nofun
    | some t => exact ⟨fun h => congrArg some (b.text_inj h), fun h => congrArg b.text (Option.some.inj h)⟩

theorem connectorScopeForTx_eq (hnamed : b.Named tx) (v : ServerView V) :
    v.connectorScopeForTx identity (b.text tx) = (v.entries.find? (b.holds identity tx)).map (·.scope) := by
  rw [ServerView.connectorScopeForTx]
  congr 2
  funext e
  rw [holds, decide_eq_decide.2 (shows_iff hnamed e)]

end Booking

namespace ServerView

section
variable {v : ServerView V}

theorem connectors_entryIndex_cs (identity : String) (conn : Option ConnectionId) :
    (v.entryIndex identity .cs conn).2.connectors = v.connectors := by
  rcases v.entryIndex_entries identity .cs conn with h | ⟨-, h⟩
  · rw [connectors, h, connectors]
  · rw [connectors, h, filter_append, connectors]
    exact append_nil _

theorem entryIndex_of_getElem? (hkeys : v.keys.Nodup) {i : Nat} {e : Entry V} (he : v.entries[i]? = some e)
    (conn : Option ConnectionId) : v.entryIndex e.identity e.scope conn = (i, v) := by
  obtain ⟨hi, heq⟩ := List.getElem?_eq_some_iff.1 he
  have hfind : v.entries.findIdx? (isEntry e.identity e.scope) = some i := by
    refine List.findIdx?_eq_some_iff_getElem.2 ⟨hi, ?_, fun j hj hp => ?_⟩
    · rw [heq]
      exact decide_eq_true ⟨rfl, rfl⟩
    obtain ⟨hid, hscope⟩ := of_decide_eq_true hp
    have hkey : v.keys[j]? = v.keys[i]? := by
      rw [keys, List.getElem?_map, List.getElem?_map, List.getElem?_eq_getElem (Nat.lt_trans hj hi), he]
      exact congrArg some (Prod.ext hid hscope)
    have hlt : j < v.keys.length := by
      rw [keys, length_map]
      omega
    exact absurd ((List.getElem?_inj hlt hkeys).1 hkey) (Nat.ne_of_lt hj)
  rw [entryIndex, hfind]

variable {b : Booking V} {tx : b.Tx} {name : String} {request : Value}

/-- A write to the entry that holds the transaction, or to that of the station where none does, changes the first connector
that holds it. -/
theorem connectors_modify_held (hkeys : v.keys.Nodup) (identity : String) (conn : Option ConnectionId) {f : Entry V → Entry V}
    (hf : ∀ e, (f e).scope = e.scope) :
    let scope := ((v.entries.find? (b.holds identity tx)).map (·.scope)).getD .cs
    ((v.entryIndex identity scope conn).2.modifyEntry (v.entryIndex identity scope conn).1 f).connectors =
      updateFirst (b.holds identity tx) f v.connectors := by
  intro scope
  cases hfind : v.entries.findIdx? (b.holds identity tx) with
  | none =>
    have hnone := List.findIdx?_eq_none_iff.1 hfind
    have hscope : scope = .cs := by
      show ((v.entries.find? (b.holds identity tx)).map (·.scope)).getD .cs = .cs
      rw [List.find?_eq_none.2 fun e he => Bool.eq_false_iff.1 (hnone e he)]
      rfl
    have hsame : v.connectors.findIdx? (b.holds identity tx) = none :=
      List.findIdx?_eq_none_iff.2 fun e he => hnone e (mem_of_mem_filter he)
    obtain ⟨e, he, -, hcs⟩ := v.entryIndex_getElem? identity .cs conn
    rw [hscope, updateFirst_of_none hsame, ← connectors_entryIndex_cs (v := v) identity conn]
    exact filter_modify he (by rw [hcs]; rfl) (by rw [hf, hcs]; rfl)
  | some i =>
    obtain ⟨hi, hholds, hbefore⟩ := List.findIdx?_eq_some_iff_getElem.1 hfind
    have he : v.entries[i]? = some v.entries[i] := List.getElem?_eq_getElem hi
    have hfirst : v.entries.find? (b.holds identity tx) = some v.entries[i] :=
      List.find?_eq_some_iff_getElem.2 ⟨hholds, i, hi, rfl, fun j hj => by rw [Bool.eq_false_iff.2 (hbefore j hj)]; rfl⟩
    have hscope : scope = v.entries[i].scope := by
      show ((v.entries.find? (b.holds identity tx)).map (·.scope)).getD .cs = _
      rw [hfirst]
      rfl
    obtain ⟨hid, -, -⟩ := Booking.holds_iff.1 hholds
    rw [hscope, ← hid, entryIndex_of_getElem? hkeys he, hid]
    show (v.entries.modify i _).filter _ = _
    rw [← updateFirst_of_some hfind]
    refine filter_updateFirst (fun e he => ?_) (fun e => ?_) v.entries
    · exact (Booking.holds_iff.1 he).2.1
    · rw [hf]

theorem connectors_stop (hkeys : v.keys.Nodup) (hscope : V.inboundConnector name request = .cs)
    (htx : b.stopped name request = some tx) (hnamed : b.Named tx) (lookup : ConnectionId → Option String)
    (conn : ConnectionId) (response : Value) : (v.onInbound lookup conn name request response).connectors =
      updateFirst (b.holds (v.identityOf lookup conn) tx) (·.receive conn name request response) v.connectors := by
  generalize hidentity : v.identityOf lookup conn = identity
  -- the station has its own entry first
  generalize hu : ((v.identify lookup conn).entryIndex identity .cs (some conn)).2 = u
  have hukeys : u.keys.Nodup := hu ▸ keyed_entryIndex (v := v.identify lookup conn) hkeys _ _ _
  have huconn : u.connectors = v.connectors := hu ▸ connectors_entryIndex_cs (v := v.identify lookup conn) _ _
  have hroute : u.inboundScope identity name request =
      ((u.entries.find? (b.holds identity tx)).map (·.scope)).getD .cs := by
    rw [inboundScope, hscope, if_pos rfl, b.stopTxId, htx]
    show (u.connectorScopeForTx identity (b.text tx)).getD .cs = _
    rw [Booking.connectorScopeForTx_eq hnamed]
  have hstep : v.onInbound lookup conn name request response =
      (u.entryIndex identity (u.inboundScope identity name request) (some conn)).2.modifyEntry
        (u.entryIndex identity (u.inboundScope identity name request) (some conn)).1
        (·.receive conn name request response) := by
    rw [← hu, ← hidentity]
    rfl
  rw [hstep, hroute, ← huconn]
  exact connectors_modify_held hukeys identity (some conn) fun e => (e.alike_receive conn name request response).scope

end

end ServerView

namespace Booking

variable {b : Booking V} {identity : String} {tx : b.Tx}

theorem booked_updateFirst {before : List (Entry V)} {f : Entry V → Entry V} (hkey : ∀ e, (f e).key = e.key)
    (hends : ∀ e, b.txOf (f e) = none ∧ b.limitOf (f e) = none) :
    b.Booked identity tx before (updateFirst (b.holds identity tx) f before) := by
  cases h : before.findIdx? (b.holds identity tx) with
  | none =>
    rw [updateFirst_of_none h]
    exact ⟨rfl, fun j e hj => (nomatch h.symm.trans hj), fun _ _ => rfl⟩
  | some i =>
    rw [updateFirst_of_some h]
    refine ⟨length_modify .., fun j e hj he => ?_, fun j hj => ?_⟩
    · cases h.symm.trans hj
      refine ⟨f e, ?_, hkey e, hends e⟩
      rw [List.getElem?_modify_eq, he]
      rfl
    · refine List.getElem?_modify_ne f before fun heq => hj ?_
      rw [h, heq]

theorem ends_receive {name : String} {request : Value} (htx : b.stopped name request = some tx) (conn : ConnectionId)
    (response : Value) (e : Entry V) :
    b.txOf (e.receive conn name request response) = none ∧ b.limitOf (e.receive conn name request response) = none := by
  cases hs : e.state with
  | cs s => simp [txOf, limitOf, Entry.receive, Entry.applyInbound, Entry.log, Entry.goOnline, hs]
  | conn s =>
    simp only [txOf, limitOf, Entry.receive, Entry.applyInbound, Entry.log, Entry.goOnline, hs]
    exact b.ends htx s response

end Booking

/-! ## The versions -/

def V16.booking (p : Platform) : Booking (V16.version p) where
  Tx := Int
  decEq := inferInstance
  transaction := V16.ConnectorState.transactionId
  limit := V16.ConnectorState.limit
  stopped := V16.stoppedTx
  text := toString
  Named _ := True
  text_inj := toString_int_inj
  text_ne_empty _ := toString_int_ne_empty _
  shown _ := rfl
  not_shown _ := rfl
  stopTxId _ _ := rfl
  ends {name request tx} h s response := by
    unfold V16.stoppedTx at h
    split at h
    · rename_i hname
      rw [hname]
      exact ⟨rfl, rfl⟩
    · cases h

def V2.booking (p : Platform) : Booking (V2.version p) where
  Tx := String
  decEq := inferInstance
  transaction := V2.ConnectorState.transactionId
  limit := V2.ConnectorState.limit
  stopped := V2.stoppedTx
  text := id
  Named tx := tx ≠ ""
  text_inj := id
  text_ne_empty h := h
  shown c := by
    show some (c.transactionId.getD "") = _
    rw [Option.map_id]
    rfl
  not_shown _ := rfl
  stopTxId name request := (congrFun Option.map_id _).symm
  ends {name request tx} h s response := by
    unfold V2.stoppedTx at h
    split at h
    · rename_i hname
      obtain ⟨rfl, hended⟩ := hname
      simp only [V2.version, V2.ConnectorState.applyInbound, hended]
      exact ⟨rfl, rfl⟩
    · cases h

inductive CsmsVersion where
  | v16
  | v2
  deriving DecidableEq, Repr

def CsmsVersion.server (ver : CsmsVersion) (p : Platform) : ServerVersion :=
  match ver with
  | v16 => V16.version p
  | v2 => V2.version p

def CsmsVersion.booking (ver : CsmsVersion) (p : Platform) : Booking (ver.server p) :=
  match ver with
  | v16 => V16.booking p
  | v2 => V2.booking p

def quiet : Platform := ⟨"", fun _ => "", id⟩

def charging : ServerView (V16.version quiet) :=
  ServerView.empty.handleEvent (fun _ => some "CP1") (.inbound ⟨1⟩ "StartTransaction"
    (.object [("connectorId", .int 1), ("idTag", .string "T")]) (.object [("transactionId", .int 7)]))

theorem charging_reached : charging.Reached := .event .empty _ _

def limited : ServerView (V2.version quiet) :=
  (ServerView.empty.handleEvent (fun _ => some "CP1")
    (.inbound ⟨1⟩ "StatusNotification" (.object [("evseId", .int 1), ("connectorStatus", .string "Occupied")])
      .emptyObject)).handleEvent (fun _ => some "CP1")
    (.outbound ⟨1⟩ (.ofEvse 1 none) "SetChargingProfile"
      (.object [("chargingProfile", .object [("chargingProfilePurpose", .string "TxProfile"),
        ("chargingSchedule", .array [.object [("chargingSchedulePeriod", .array [.object [("limit", .int 16)]])]])])])
      (.object [("status", .string "Accepted")]) true "")

def emptyEnd : ServerEvent :=
  .inbound ⟨1⟩ "TransactionEvent"
    (.object [("eventType", .string "Ended"), ("transactionInfo", .object [("transactionId", .string "")])]) .emptyObject

end Ocpp.Csms
end Ferrowl
