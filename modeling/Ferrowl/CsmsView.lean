import Ferrowl.OcppStation
/-!
# CsmsView — the table of stations of a CSMS

`server/view/backend.rs`: the events of the connections are drained into entries, one for each station and one for each of its
connectors seen in its traffic.  `identity_of` asks the registry of live connections for the station of a connection once and
remembers the answer.

What is specific to a version of the protocol is a parameter.  The registrations for the scripts, the selection and the open
overlay are left out, and of a message of the log its number and its time.
-/
namespace Ferrowl.Ocpp.Csms

open List

open Wire (Value)

structure ConnectionId where
  val : Nat
  deriving DecidableEq, Repr

def ConnectionId.text (c : ConnectionId) : String := "conn#" ++ toString c.val

inductive ServerEvent where
  | connected (conn : ConnectionId)
  | disconnected (conn : ConnectionId)
  | inbound (conn : ConnectionId) (name : String) (request response : Value)
  | outbound (conn : ConnectionId) (scope : Scope) (name : String) (request response : Value) (ok : Bool) (context : String)

def ServerEvent.conn : ServerEvent → ConnectionId
  | connected c | disconnected c | inbound c _ _ _ | outbound c _ _ _ _ _ _ => c

/-! ## Entries -/

/-- The state observed of a station or of a connector, as the view needs it. -/
structure EntryStateT where
  State : Type
  default : State
  applyInbound : State → String → Value → Value → State
  applyOutbound : State → String → Value → Value → State
  getFieldStr : State → String → Option String

structure ServerVersion where
  cs : EntryStateT
  conn : EntryStateT
  inboundConnector : String → Value → Scope
  stopTxId : String → Value → Option String
  configAction : String
  parseConfig : Value → List (String × String × Bool)

inductive EntryState (V : ServerVersion) where
  | cs (s : V.cs.State)
  | conn (s : V.conn.State)

inductive Dir where
  | in
  | out
  deriving DecidableEq, Repr

structure Message where
  direction : Dir
  name : String
  payload : Value
  ok : Option Bool
  context : String

def maxMessages : Nat := 200

def pushCapped (buf : List Message) (msg : Message) : List Message :=
  (buf ++ [msg]).drop ((buf ++ [msg]).length - maxMessages)

structure Entry (V : ServerVersion) where
  identity : String
  scope : Scope
  conn : Option ConnectionId
  online : Bool
  state : EntryState V
  messages : List Message

variable {V : ServerVersion}

namespace Entry

def applyInbound (e : Entry V) (name : String) (request response : Value) : Entry V :=
  { e with state := match e.state with
      | .cs s => .cs (V.cs.applyInbound s name request response)
      | .conn s => .conn (V.conn.applyInbound s name request response) }

def applyOutbound (e : Entry V) (name : String) (request response : Value) : Entry V :=
  { e with state := match e.state with
      | .cs s => .cs (V.cs.applyOutbound s name request response)
      | .conn s => .conn (V.conn.applyOutbound s name request response) }

def getFieldStr (e : Entry V) (name : String) : Option String :=
  match e.state with
  | .cs s => V.cs.getFieldStr s name
  | .conn s => V.conn.getFieldStr s name

def log (e : Entry V) (msgs : List Message) : Entry V := { e with messages := msgs.foldl pushCapped e.messages }

def goOnline (conn : ConnectionId) (e : Entry V) : Entry V := { e with online := true, conn := some conn }

def goOffline (e : Entry V) : Entry V := { e with online := false, conn := none }

def new (identity : String) (scope : Scope) (conn : Option ConnectionId) : Entry V where
  identity := identity
  scope := scope
  conn := conn
  online := conn.isSome
  state := if scope.isConnector then .conn V.conn.default else .cs V.cs.default
  messages := []

end Entry

def inboundMessages (name : String) (request response : Value) : List Message :=
  [⟨.in, name, request, none, ""⟩, ⟨.out, name, response, some true, ""⟩]

def outboundMessages (name : String) (request response : Value) (ok : Bool) (context : String) : List Message :=
  [⟨.out, name, request, none, "outbound call"⟩, ⟨.in, name, response, some ok, context⟩]

def Entry.receive (conn : ConnectionId) (name : String) (request response : Value) (e : Entry V) : Entry V :=
  ((e.goOnline conn).applyInbound name request response).log (inboundMessages name request response)

def Entry.sent (name : String) (request response : Value) (ok : Bool) (context : String) (e : Entry V) : Entry V :=
  (if ok then e.applyOutbound name request response else e).log (outboundMessages name request response ok context)

structure Entry.Alike (e e' : Entry V) : Prop where
  identity : e'.identity = e.identity
  scope : e'.scope = e.scope
  conn : e'.conn = e.conn
  online : e'.online = e.online

theorem Entry.alike_log (e : Entry V) (msgs : List Message) : e.Alike (e.log msgs) := by
  constructor <;> simp only [Entry.log]

theorem Entry.alike_sent (e : Entry V) (name : String) (request response : Value) (ok : Bool) (context : String) :
    e.Alike (e.sent name request response ok context) := by
  unfold Entry.sent
  split
  · exact ⟨rfl, rfl, rfl, rfl⟩
  · exact e.alike_log _

theorem Entry.alike_receive (e : Entry V) (conn : ConnectionId) (name : String) (request response : Value) :
    (e.goOnline conn).Alike (e.receive conn name request response) :=
  ⟨rfl, rfl, rfl, rfl⟩

/-! ## The view -/

structure ServerView (V : ServerVersion) where
  entries : List (Entry V)
  connIdentity : ConnectionId → Option String
  csConfigs : String → Option (List (String × String × Bool))

def mergeRow (store : List (String × String × Bool)) (row : String × String × Bool) : List (String × String × Bool) :=
  match store.findIdx? (fun r => decide (r.1 = row.1)) with
  | some i => store.set i row
  | none => store ++ [row]

namespace ServerView

def empty : ServerView V := ⟨[], fun _ => none, fun _ => none⟩

section
variable (lookup : ConnectionId → Option String)

def identityOf (v : ServerView V) (conn : ConnectionId) : String :=
  (v.connIdentity conn).getD ((lookup conn).getD conn.text)

def identify (v : ServerView V) (conn : ConnectionId) : ServerView V :=
  { v with connIdentity := Function.update v.connIdentity conn (some (v.identityOf lookup conn)) }

def isEntry (identity : String) (scope : Scope) (e : Entry V) : Bool := decide (e.identity = identity ∧ e.scope = scope)

def entryIndex (v : ServerView V) (identity : String) (scope : Scope) (conn : Option ConnectionId) : Nat × ServerView V :=
  match v.entries.findIdx? (isEntry identity scope) with
  | some i => (i, v)
  | none => (v.entries.length, { v with entries := v.entries ++ [.new identity scope conn] })

def connectorScopeForTx (v : ServerView V) (identity tx : String) : Option Scope :=
  (v.entries.find? fun e =>
    decide (e.identity = identity) && e.scope.isConnector && decide (e.getFieldStr "TransactionId" = some tx)).map (·.scope)

def modifyEntry (v : ServerView V) (i : Nat) (f : Entry V → Entry V) : ServerView V :=
  { v with entries := v.entries.modify i f }

def onConnected (v : ServerView V) (conn : ConnectionId) : ServerView V :=
  let identity := v.identityOf lookup conn
  let v := ((v.identify lookup conn).entryIndex identity .cs (some conn)).2
  { v with entries := v.entries.map fun e => if e.identity = identity then e.goOnline conn else e }

def onDisconnected (v : ServerView V) (conn : ConnectionId) : ServerView V :=
  { v with entries := v.entries.map fun e => if e.conn = some conn then e.goOffline else e }

/-- A stop that names no connector goes to the connector of its transaction. -/
def inboundScope (v : ServerView V) (identity name : String) (request : Value) : Scope :=
  let scope := V.inboundConnector name request
  if scope = .cs then ((V.stopTxId name request).bind (v.connectorScopeForTx identity)).getD scope else scope

def onInbound (v : ServerView V) (conn : ConnectionId) (name : String) (request response : Value) : ServerView V :=
  let identity := v.identityOf lookup conn
  let v := ((v.identify lookup conn).entryIndex identity .cs (some conn)).2
  let at_ := v.entryIndex identity (v.inboundScope identity name request) (some conn)
  at_.2.modifyEntry at_.1 (·.receive conn name request response)

def keepConfig (v : ServerView V) (identity name : String) (response : Value) (ok : Bool) : ServerView V :=
  if ok ∧ name = V.configAction ∧ V.parseConfig response ≠ [] then
    let store := (V.parseConfig response).foldl mergeRow ((v.csConfigs identity).getD [])
    { v with csConfigs := Function.update v.csConfigs identity (some store) }
  else v

def onOutbound (v : ServerView V) (conn : ConnectionId) (scope : Scope) (name : String) (request response : Value) (ok : Bool)
    (context : String) : ServerView V :=
  let identity := v.identityOf lookup conn
  let v := (v.identify lookup conn).keepConfig identity name response ok
  let at_ := v.entryIndex identity scope (some conn)
  at_.2.modifyEntry at_.1 (·.sent name request response ok context)

/-- One round of the loop of `drain_events`; `lookup` is what the registry answers then. -/
def handleEvent (v : ServerView V) : ServerEvent → ServerView V
  | .connected conn => v.onConnected lookup conn
  | .disconnected conn => v.onDisconnected conn
  | .inbound conn name request response => v.onInbound lookup conn name request response
  | .outbound conn scope name request response ok context =>
    v.onOutbound lookup conn scope name request response ok context

end

/-- By station, the station before its connectors, then by EVSE and connector. -/
def entryLe (a b : Entry V) : Bool :=
  ((compare a.identity b.identity).then <| (compare a.scope.isConnector b.scope.isConnector).then <|
    (compare (a.scope.evse.getD 0) (b.scope.evse.getD 0)).then <|
    compare (a.scope.connector.getD 0) (b.scope.connector.getD 0)).isLE

def sortEntries (v : ServerView V) : ServerView V := { v with entries := v.entries.mergeSort entryLe }

/-! ## What an event leaves alone -/

def elsewhere (v : ServerView V) (identity : String) : List (Entry V) :=
  v.entries.filter fun e => decide (e.identity ≠ identity)

end ServerView

theorem filter_modify {α : Type} {q : α → Bool} {f : α → α} {l : List α} {i : Nat} {x : α} (hx : l[i]? = some x)
    (hq : q x = false) (hf : q (f x) = false) : (l.modify i f).filter q = l.filter q := by
  induction l generalizing i with
  | nil => cases hx
  | cons y l ih =>
    cases i with
    | zero =>
      cases hx
      rw [modify_zero_cons, filter_cons, filter_cons, hq, hf]
      rfl
    | succ i =>
      rw [modify_succ_cons, filter_cons, filter_cons, ih hx]

theorem filter_map_of {α : Type} {q : α → Bool} {f : α → α} {l : List α}
    (h : ∀ x ∈ l, f x = x ∨ q x = false ∧ q (f x) = false) : (l.map f).filter q = l.filter q := by
  induction l with
  | nil => rfl
  | cons y l ih =>
    rw [map_cons, filter_cons, filter_cons, ih (fun x hx => h x (mem_cons_of_mem y hx))]
    rcases h y mem_cons_self with heq | ⟨hq, hf⟩
    · rw [heq]
    · rw [hq, hf]
      rfl

namespace ServerView

section
variable (v : ServerView V) (identity : String) (scope : Scope) (conn : Option ConnectionId)

theorem entryIndex_getElem? : ∃ e, (v.entryIndex identity scope conn).2.entries[(v.entryIndex identity scope conn).1]? = some e ∧
    e.identity = identity ∧ e.scope = scope := by
  unfold entryIndex
  split
  · rename_i i h
    obtain ⟨hi, he, -⟩ := List.findIdx?_eq_some_iff_getElem.1 h
    exact ⟨_, List.getElem?_eq_getElem hi, of_decide_eq_true he⟩
  · exact ⟨_, List.getElem?_concat_length, rfl, rfl⟩

theorem entryIndex_entries : (v.entryIndex identity scope conn).2.entries = v.entries ∨
    (∀ e ∈ v.entries, ¬(e.identity = identity ∧ e.scope = scope)) ∧
      (v.entryIndex identity scope conn).2.entries = v.entries ++ [.new identity scope conn] := by
  unfold entryIndex
  split
  · exact Or.inl rfl
  · rename_i h
    exact Or.inr ⟨fun e he => of_decide_eq_false (List.findIdx?_eq_none_iff.1 h e he), rfl⟩

theorem subset_entryIndex : v.entries ⊆ (v.entryIndex identity scope conn).2.entries := by
  rcases v.entryIndex_entries identity scope conn with h | ⟨-, h⟩
  · exact h ▸ List.Subset.refl _
  · exact h ▸ subset_append_left _ _

theorem mem_entryIndex {e : Entry V} (he : e ∈ (v.entryIndex identity scope conn).2.entries) :
    e ∈ v.entries ∨ e = .new identity scope conn := by
  rcases v.entryIndex_entries identity scope conn with h | ⟨-, h⟩
  · exact Or.inl (h ▸ he)
  · exact (mem_append.1 (h ▸ he)).imp_right mem_singleton.1

@[simp] theorem entryIndex_connIdentity : (v.entryIndex identity scope conn).2.connIdentity = v.connIdentity := by
  unfold entryIndex
  split <;> rfl

@[simp] theorem entryIndex_csConfigs : (v.entryIndex identity scope conn).2.csConfigs = v.csConfigs := by
  unfold entryIndex
  split <;> rfl

theorem entryIndex_elsewhere : (v.entryIndex identity scope conn).2.elsewhere identity = v.elsewhere identity := by
  rcases v.entryIndex_entries identity scope conn with h | ⟨-, h⟩
  · rw [elsewhere, h, elsewhere]
  · rw [elsewhere, h, filter_append, elsewhere]
    simp [Entry.new]

theorem modifyEntry_elsewhere {f : Entry V → Entry V} (hf : ∀ e, (f e).identity = e.identity) :
    ((v.entryIndex identity scope conn).2.modifyEntry (v.entryIndex identity scope conn).1 f).elsewhere identity =
      v.elsewhere identity := by
  obtain ⟨e, he, hid, -⟩ := v.entryIndex_getElem? identity scope conn
  rw [← v.entryIndex_elsewhere identity scope conn]
  exact filter_modify he (by simp [hid]) (by simp [hf, hid])

end

section
variable (lookup : ConnectionId → Option String) (v : ServerView V) (c : ConnectionId)

theorem keepConfig_entries (identity name : String) (response : Value) (ok : Bool) :
    (v.keepConfig identity name response ok).entries = v.entries := by
  unfold keepConfig
  split <;> rfl

theorem keepConfig_connIdentity (identity name : String) (response : Value) (ok : Bool) :
    (v.keepConfig identity name response ok).connIdentity = v.connIdentity := by
  unfold keepConfig
  split <;> rfl

theorem onConnected_elsewhere :
    (v.onConnected lookup c).elsewhere (v.identityOf lookup c) = v.elsewhere (v.identityOf lookup c) := by
  have hensure := (v.identify lookup c).entryIndex_elsewhere (v.identityOf lookup c) .cs (some c)
  refine Eq.trans ?_ hensure
  refine filter_map_of fun e _ => ?_
  split
  · rename_i he
    exact Or.inr ⟨by simp [he], by simp [Entry.goOnline, he]⟩
  · exact Or.inl rfl

theorem onInbound_elsewhere (name : String) (request response : Value) :
    (v.onInbound lookup c name request response).elsewhere (v.identityOf lookup c) = v.elsewhere (v.identityOf lookup c) :=
  (modifyEntry_elsewhere _ _ _ _ fun e => (e.alike_receive c name request response).identity).trans
    (entryIndex_elsewhere _ _ _ _)

theorem onOutbound_elsewhere (scope : Scope) (name : String) (request response : Value) (ok : Bool) (context : String) :
    (v.onOutbound lookup c scope name request response ok context).elsewhere (v.identityOf lookup c) =
      v.elsewhere (v.identityOf lookup c) := by
  refine (modifyEntry_elsewhere _ _ _ _ fun e => (e.alike_sent name request response ok context).identity).trans ?_
  rw [elsewhere, keepConfig_entries]
  rfl

theorem onDisconnected_elsewhere {identity : String} (h : ∀ e ∈ v.entries, e.conn = some c → e.identity = identity) :
    (v.onDisconnected c).elsewhere identity = v.elsewhere identity := by
  refine filter_map_of fun e he => ?_
  split
  · rename_i hc
    exact Or.inr ⟨by simp [h e he hc], by simp [Entry.goOffline, h e he hc]⟩
  · exact Or.inl rfl

end

end ServerView

end Ferrowl.Ocpp.Csms
