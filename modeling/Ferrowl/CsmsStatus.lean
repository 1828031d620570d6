import Ferrowl.CsmsView
/-!
# CsmsStatus — which stations the table shows online

A station may be connected more than once: a new connection can come up before the end of the old one is noticed.  `Watch` keeps,
beside the view, which connections are up according to the events drained so far; an entry should be online exactly while a
connection of its station is (`Follows`).
-/
namespace Ferrowl.Ocpp.Csms

open List

open Wire (Value)

variable {V : ServerVersion}

/-! ## What an event does to the rows -/

theorem mem_modify {α : Type} {f : α → α} {l : List α} {i : Nat} {x : α} (h : x ∈ l.modify i f) :
    x ∈ l ∨ ∃ y, l[i]? = some y ∧ x = f y := by
  obtain ⟨k, hk⟩ := mem_iff_getElem?.1 h
  rw [List.getElem?_modify, Option.map_eq_map, Option.map_eq_some_iff] at hk
  obtain ⟨y, hy, rfl⟩ := hk
  split
  · rename_i hik
    exact Or.inr ⟨y, hik ▸ hy, rfl⟩
  · exact Or.inl (mem_of_getElem? hy)

theorem apply_mem_modify {α : Type} (f : α → α) {l : List α} {i : Nat} {x : α} (h : l[i]? = some x) : f x ∈ l.modify i f := by
  refine mem_of_getElem? (i := i) ?_
  rw [List.getElem?_modify_eq, h]
  rfl

namespace ServerView

structure OnConn (identity : String) (c : ConnectionId) (e : Entry V) : Prop where
  identity : e.identity = identity
  online : e.online = true
  conn : e.conn = some c

variable {identity : String}

theorem OnConn.alike {c : ConnectionId} {e e' : Entry V} (h : OnConn identity c e) (ha : e.Alike e') : OnConn identity c e' :=
  ⟨ha.identity.trans h.identity, ha.online.trans h.online, ha.conn.trans h.conn⟩

theorem onConn_receive {e : Entry V} (h : e.identity = identity) (c : ConnectionId) (name : String) (request response : Value) :
    OnConn identity c (e.receive c name request response) :=
  ⟨h, rfl, rfl⟩

def Has (v : ServerView V) (identity : String) (scope : Scope) : Prop :=
  ∃ e ∈ v.entries, e.identity = identity ∧ e.scope = scope

variable {v : ServerView V} {scope : Scope}

theorem Has.entryIndex (h : v.Has identity scope) (id : String) (sc : Scope)
    (conn : Option ConnectionId) : (v.entryIndex id sc conn).2.Has identity scope := by
  obtain ⟨e, he, hkey⟩ := h
  exact ⟨e, v.subset_entryIndex id sc conn he, hkey⟩

theorem has_entryIndex (v : ServerView V) (identity : String) (scope : Scope) (conn : Option ConnectionId) :
    (v.entryIndex identity scope conn).2.Has identity scope := by
  obtain ⟨e, he, hkey⟩ := v.entryIndex_getElem? identity scope conn
  exact ⟨e, mem_of_getElem? he, hkey⟩

theorem Has.modifyEntry (h : v.Has identity scope) (i : Nat) {f : Entry V → Entry V}
    (hf : ∀ e, (f e).identity = e.identity ∧ (f e).scope = e.scope) : (v.modifyEntry i f).Has identity scope := by
  obtain ⟨e, he, hid, hsc⟩ := h
  obtain ⟨k, hk⟩ := mem_iff_getElem?.1 he
  by_cases hik : i = k
  · exact ⟨f e, apply_mem_modify f (hik ▸ hk), (hf e).1.trans hid, (hf e).2.trans hsc⟩
  · exact ⟨e, mem_of_getElem? ((List.getElem?_modify_ne f v.entries hik).trans hk), hid, hsc⟩

theorem Has.map (h : v.Has identity scope) {f : Entry V → Entry V}
    (hf : ∀ e, (f e).identity = e.identity ∧ (f e).scope = e.scope) :
    Has { v with entries := v.entries.map f } identity scope := by
  obtain ⟨e, he, hid, hsc⟩ := h
  exact ⟨f e, mem_map_of_mem he, (hf e).1.trans hid, (hf e).2.trans hsc⟩

section
variable (lookup : ConnectionId → Option String) (v : ServerView V) (c : ConnectionId)

variable {e : Entry V}

theorem mem_onConnected (he : e ∈ (v.onConnected lookup c).entries) :
    e ∈ v.entries ∧ e.identity ≠ v.identityOf lookup c ∨ OnConn (v.identityOf lookup c) c e := by
  obtain ⟨d, hd, rfl⟩ := mem_map.1 he
  split
  · rename_i hid
    exact Or.inr ⟨hid, rfl, rfl⟩
  rename_i hid
  refine Or.inl ⟨?_, hid⟩
  rcases mem_entryIndex _ _ _ _ hd with h | rfl
  · exact h
  · exact absurd rfl hid

variable {identity : String}

theorem has_onConnected {scope : Scope} (h : v.Has identity scope ∨ identity = v.identityOf lookup c ∧ scope = .cs) :
    (v.onConnected lookup c).Has identity scope := by
  refine Has.map (v := ((v.identify lookup c).entryIndex (v.identityOf lookup c) .cs (some c)).2) ?_ (fun e => ?_)
  · rcases h with h | ⟨rfl, rfl⟩
    · exact Has.entryIndex (v := v.identify lookup c) h _ _ _
    · exact has_entryIndex _ _ _ _
  · split <;> exact ⟨rfl, rfl⟩

def greeted : ServerView V := ((v.identify lookup c).entryIndex (v.identityOf lookup c) .cs (some c)).2

theorem mem_onInbound {name : String} {request response : Value} (he : e ∈ (v.onInbound lookup c name request response).entries) :
    e ∈ v.entries ∨ OnConn (v.identityOf lookup c) c e := by
  rcases mem_modify he with he | ⟨d, hd, rfl⟩
  · rcases mem_entryIndex _ _ _ _ he with he | rfl
    · rcases mem_entryIndex _ _ _ _ he with he | rfl
      · exact Or.inl he
      · exact Or.inr ⟨rfl, rfl, rfl⟩
    · exact Or.inr ⟨rfl, rfl, rfl⟩
  · obtain ⟨d', hd', hid, -⟩ := entryIndex_getElem? _ _ _ _
    cases hd.symm.trans hd'
    exact Or.inr (onConn_receive hid c name request response)

theorem receive_mem_onInbound (name : String) (request response : Value) : ∃ d : Entry V, d.identity = v.identityOf lookup c ∧
      d.receive c name request response ∈ (v.onInbound lookup c name request response).entries := by
  obtain ⟨d, hd, hid, -⟩ := entryIndex_getElem? (v.greeted lookup c) (v.identityOf lookup c)
    ((v.greeted lookup c).inboundScope (v.identityOf lookup c) name request) (some c)
  exact ⟨d, hid, apply_mem_modify (·.receive c name request response) hd⟩

theorem has_onInbound {name : String} {request response : Value} {scope : Scope} (h : v.Has identity scope) :
    (v.onInbound lookup c name request response).Has identity scope := by
  refine Has.modifyEntry ?_ _ (fun e => ⟨rfl, rfl⟩)
  exact Has.entryIndex (Has.entryIndex (v := v.identify lookup c) h _ _ _) _ _ _

def asked (name : String) (response : Value) (ok : Bool) : ServerView V :=
  (v.identify lookup c).keepConfig (v.identityOf lookup c) name response ok

theorem asked_entries (name : String) (response : Value) (ok : Bool) : (v.asked lookup c name response ok).entries = v.entries :=
  keepConfig_entries _ _ _ _ _

variable {scope : Scope} {name : String} {request response : Value} {ok : Bool} {context : String}

theorem mem_onOutbound (he : e ∈ (v.onOutbound lookup c scope name request response ok context).entries) :
    (∃ d ∈ v.entries, d.Alike e) ∨ ¬v.Has (v.identityOf lookup c) scope ∧ OnConn (v.identityOf lookup c) c e := by
  have hentry : ∀ d ∈ ((v.asked lookup c name response ok).entryIndex (v.identityOf lookup c) scope (some c)).2.entries,
      d ∈ v.entries ∨ ¬v.Has (v.identityOf lookup c) scope ∧ OnConn (v.identityOf lookup c) c d := by
    intro d hd
    rcases entryIndex_entries (v.asked lookup c name response ok) (v.identityOf lookup c) scope (some c) with h | ⟨hno, h⟩
    · rw [h, asked_entries] at hd
      exact Or.inl hd
    rw [asked_entries] at hno
    rw [h, asked_entries] at hd
    rcases mem_append.1 hd with hd | hd
    · exact Or.inl hd
    · cases mem_singleton.1 hd
      exact Or.inr ⟨fun ⟨e, he, hkey⟩ => hno e he hkey, rfl, rfl, rfl⟩
  rcases mem_modify he with he | ⟨d, hd, rfl⟩
  · exact (hentry e he).imp_left fun he => ⟨e, he, rfl, rfl, rfl, rfl⟩
  · have ha := d.alike_sent name request response ok context
    exact (hentry d (mem_of_getElem? hd)).imp (fun hd => ⟨d, hd, ha⟩) (fun h => ⟨h.1, h.2.alike ha⟩)

theorem sent_mem_onOutbound : ∃ d : Entry V, (d.identity = v.identityOf lookup c ∧ d.scope = scope) ∧
    (d ∈ v.entries ∨ OnConn (v.identityOf lookup c) c d) ∧
      d.sent name request response ok context ∈ (v.onOutbound lookup c scope name request response ok context).entries := by
  obtain ⟨d, hd, hkey⟩ := entryIndex_getElem? (v.asked lookup c name response ok) (v.identityOf lookup c) scope (some c)
  refine ⟨d, hkey, ?_, apply_mem_modify (·.sent name request response ok context) hd⟩
  rcases mem_entryIndex _ _ _ _ (mem_of_getElem? hd) with hd | rfl
  · exact Or.inl (v.asked_entries lookup c name response ok ▸ hd)
  · exact Or.inr ⟨rfl, rfl, rfl⟩

theorem has_onOutbound {sc : Scope} (h : v.Has identity sc) :
    (v.onOutbound lookup c scope name request response ok context).Has identity sc := by
  refine Has.modifyEntry ?_ _ (fun e => ?_)
  · refine Has.entryIndex (v := v.asked lookup c name response ok) ?_ _ _ _
    rw [Has, asked_entries]
    exact h
  · have ha := e.alike_sent name request response ok context
    exact ⟨ha.identity, ha.scope⟩

theorem mem_onDisconnected :
    e ∈ (v.onDisconnected c).entries ↔ ∃ d ∈ v.entries, (if d.conn = some c then d.goOffline else d) = e :=
  mem_map

theorem has_onDisconnected {sc : Scope} (h : v.Has identity sc) : (v.onDisconnected c).Has identity sc :=
  h.map fun e => by split <;> exact ⟨rfl, rfl⟩

theorem mem_handleEvent {ev : ServerEvent} (he : e ∈ (v.handleEvent lookup ev).entries) : (∃ d ∈ v.entries, d.Alike e) ∨
    (∃ d : Entry V, d.goOffline = e) ∨
      (∀ c, ev ≠ .disconnected c) ∧ OnConn (v.identityOf lookup ev.conn) ev.conn e := by
  cases ev with
  | connected c =>
    rcases v.mem_onConnected lookup c he with ⟨he, -⟩ | hon
    · exact Or.inl ⟨e, he, rfl, rfl, rfl, rfl⟩
    · exact Or.inr (Or.inr ⟨nofun, hon⟩)
  | disconnected c =>
    obtain ⟨d, hd, rfl⟩ := (v.mem_onDisconnected c).1 he
    split
    · exact Or.inr (Or.inl ⟨d, rfl⟩)
    · exact Or.inl ⟨d, hd, rfl, rfl, rfl, rfl⟩
  | inbound c name request response =>
    rcases v.mem_onInbound lookup c he with he | hon
    · exact Or.inl ⟨e, he, rfl, rfl, rfl, rfl⟩
    · exact Or.inr (Or.inr ⟨nofun, hon⟩)
  | outbound c scope name request response ok context =>
    exact (v.mem_onOutbound lookup c he).imp_right fun h => Or.inr ⟨nofun, h.2⟩

theorem handleEvent_connIdentity (ev : ServerEvent) : (v.handleEvent lookup ev).connIdentity =
    match ev with
    | .disconnected _ => v.connIdentity
    | ev => Function.update v.connIdentity ev.conn (some (v.identityOf lookup ev.conn)) := by
  cases ev with
  | disconnected c => rfl
  | connected c => exact entryIndex_connIdentity _ _ _ _
  | inbound c name request response =>
    exact (entryIndex_connIdentity _ _ _ _).trans (entryIndex_connIdentity _ _ _ _)
  | outbound c scope name request response ok context =>
    exact (entryIndex_connIdentity _ _ _ _).trans (keepConfig_connIdentity _ _ _ _ _)

end

end ServerView

/-! ## Status -/

/-- What the view is given: an event, with the connections the registry knows when it is drained, or the end of a batch. -/
inductive Feed where
  | event (ev : ServerEvent) (registered : ConnectionId → Bool)
  | sort

/-- The view with the connections that are up by the events drained, and those that ever were. -/
structure Watch (V : ServerVersion) where
  view : ServerView V
  live : List ConnectionId
  past : List ConnectionId

section
variable (ident : ConnectionId → Option String)

/-- The name of the station on a connection: what its handshake carried, else the connection's own. -/
def stationName (c : ConnectionId) : String := (ident c).getD c.text

def lookupIn (registered : ConnectionId → Bool) (c : ConnectionId) : Option String :=
  if registered c then ident c else none

def Watch.step (w : Watch V) : Feed → Option (Watch V)
  | .event ev registered =>
    let view := w.view.handleEvent (lookupIn ident registered) ev
    match ev with
    | .connected c => if c ∈ w.past then none else some ⟨view, c :: w.live, c :: w.past⟩
    | .disconnected c => if c ∈ w.live then some ⟨view, w.live.filter (fun c' => decide (c' ≠ c)), w.past⟩ else none
    | _ => some { w with view := view }
  | .sort => some { w with view := w.view.sortEntries }

def Watch.init : Watch V := ⟨.empty, [], []⟩

/-- **The status of the rows follows the connections.** -/
structure Follows (v : ServerView V) (live : List ConnectionId) : Prop where
  shown : ∀ e ∈ v.entries, e.online = true ↔ ∃ c ∈ live, stationName ident c = e.identity
  current : ∀ e ∈ v.entries, e.online = true → ∃ c ∈ live, stationName ident c = e.identity ∧ e.conn = some c
  present : ∀ c ∈ live, v.Has (stationName ident c) .cs

/-- Rows are online by a connection, and the stations that are connected are known by their name. -/
structure Known (v : ServerView V) (live : List ConnectionId) : Prop where
  linked : ∀ e ∈ v.entries, e.conn.isSome = e.online
  known : ∀ c ∈ live, v.connIdentity c = some (stationName ident c)

def Watch.Clear (w : Watch V) : Feed → Prop
  | .event (.connected c) registered => w.view.identityOf (lookupIn ident registered) c = stationName ident c
  | .event (.disconnected c) _ =>
    (∀ e ∈ w.view.entries, e.conn ≠ some c) ∨ ∀ c' ∈ w.live, stationName ident c' = stationName ident c → c' = c
  | .event (.inbound c _ _ _) _ => c ∈ w.live
  | .event (.outbound c scope _ _ _ _ _) registered =>
    c ∈ w.live ∨ w.view.Has (w.view.identityOf (lookupIn ident registered) c) scope
  | .sort => True

variable {ident} {v : ServerView V} {live : List ConnectionId} {c : ConnectionId} {lookup : ConnectionId → Option String}

theorem follows_connected_iff (hP : Follows ident v live) :
    Follows ident (v.onConnected lookup c) (c :: live) ↔ v.identityOf lookup c = stationName ident c := by
  constructor
  · intro h
    obtain ⟨e, he, hid, -⟩ := ServerView.has_onConnected lookup v c (Or.inr ⟨rfl, rfl⟩)
    rcases v.mem_onConnected lookup c he with ⟨-, hne⟩ | hon
    · exact absurd hid hne
    · obtain ⟨c', -, hname, hconn⟩ := h.current e he hon.online
      cases hon.conn.symm.trans hconn
      exact (hname.trans hid).symm
  intro hx
  refine ⟨fun e he => ?_, fun e he hon => ?_, fun c' hc' => ?_⟩
  · rcases v.mem_onConnected lookup c he with ⟨he, hne⟩ | hon
    · rw [hP.shown e he]
      refine ⟨fun ⟨c', hc', h⟩ => ⟨c', mem_cons_of_mem c hc', h⟩, fun ⟨c', hc', h⟩ => ?_⟩
      rcases mem_cons.1 hc' with rfl | hc'
      · exact absurd (h.symm.trans hx.symm) hne
      · exact ⟨c', hc', h⟩
    · exact iff_of_true hon.online ⟨c, mem_cons_self, hx.symm.trans hon.identity.symm⟩
  · rcases v.mem_onConnected lookup c he with ⟨he, -⟩ | hon
    · obtain ⟨c', hc', h⟩ := hP.current e he hon
      exact ⟨c', mem_cons_of_mem c hc', h⟩
    · exact ⟨c, mem_cons_self, hx.symm.trans hon.identity.symm, hon.conn⟩
  · rcases mem_cons.1 hc' with rfl | hc'
    · exact v.has_onConnected lookup c' (Or.inr ⟨hx.symm, rfl⟩)
    · exact v.has_onConnected lookup c (Or.inl (hP.present c' hc'))

theorem Known.identityOf (h : Known ident v live) (hc : c ∈ live) : v.identityOf lookup c = stationName ident c := by
  rw [ServerView.identityOf, h.known c hc]
  rfl

/-- **Rows follow the connections if each is as it was, or on a connection that is up.** -/
theorem Follows.of_rows (hP : Follows ident v live) {u : ServerView V}
    (hrow : ∀ e ∈ u.entries, (∃ d ∈ v.entries, d.Alike e) ∨ c ∈ live ∧ ServerView.OnConn (stationName ident c) c e)
    (hhas : ∀ c' ∈ live, u.Has (stationName ident c') .cs) : Follows ident u live := by
  refine ⟨fun e he => ?_, fun e he honline => ?_, hhas⟩
  · rcases hrow e he with ⟨d, hd, ha⟩ | ⟨hc, hon⟩
    · rw [ha.online, ha.identity]
      exact hP.shown d hd
    · exact iff_of_true hon.online ⟨c, hc, hon.identity.symm⟩
  rcases hrow e he with ⟨d, hd, ha⟩ | ⟨hc, hon⟩
  · rw [ha.identity, ha.conn]
    exact hP.current d hd (ha.online ▸ honline)
  · exact ⟨c, hc, hon.identity.symm, hon.conn⟩

theorem follows_inbound_iff (hI : Known ident v live) (hP : Follows ident v live) {name : String} {request response : Value} :
    Follows ident (v.onInbound lookup c name request response) live ↔ c ∈ live := by
  constructor
  · intro h
    obtain ⟨d, hid, he⟩ := v.receive_mem_onInbound lookup c name request response
    have hon := ServerView.onConn_receive hid c name request response
    obtain ⟨c', hc', -, hconn⟩ := h.current _ he hon.online
    cases hon.conn.symm.trans hconn
    exact hc'
  · intro hc
    refine hP.of_rows (c := c) (fun e he => ?_) (fun c' hc' => v.has_onInbound lookup c (hP.present c' hc'))
    rcases v.mem_onInbound lookup c he with he | hon
    · exact Or.inl ⟨e, he, rfl, rfl, rfl, rfl⟩
    · exact Or.inr ⟨hc, hI.identityOf hc ▸ hon⟩

theorem follows_outbound_iff (hI : Known ident v live) (hP : Follows ident v live) {scope : Scope} {name : String}
    {request response : Value} {ok : Bool} {context : String} :
    Follows ident (v.onOutbound lookup c scope name request response ok context) live ↔
      c ∈ live ∨ v.Has (v.identityOf lookup c) scope := by
  constructor
  · intro h
    by_cases hhas : v.Has (v.identityOf lookup c) scope
    · exact Or.inr hhas
    obtain ⟨d, hkey, hd, he⟩ := v.sent_mem_onOutbound lookup c
    have hon := (hd.resolve_left fun hd => hhas ⟨d, hd, hkey⟩).alike (d.alike_sent name request response ok context)
    obtain ⟨c', hc', -, hconn⟩ := h.current _ he hon.online
    cases hon.conn.symm.trans hconn
    exact Or.inl hc'
  · intro hclear
    refine hP.of_rows (c := c) (fun e he => ?_) (fun c' hc' => v.has_onOutbound lookup c (hP.present c' hc'))
    refine (v.mem_onOutbound lookup c he).imp_right fun ⟨hno, hon⟩ => ?_
    -- the row is new, so the connection is up
    have hc := hclear.resolve_right hno
    exact ⟨hc, hI.identityOf hc ▸ hon⟩

theorem mem_others {c' : ConnectionId} : c' ∈ live.filter (fun d => decide (d ≠ c)) ↔ c' ∈ live ∧ c' ≠ c := by
  rw [mem_filter, decide_eq_true_eq]

theorem follows_disconnected_iff (hI : Known ident v live) (hP : Follows ident v live) :
    Follows ident (v.onDisconnected c) (live.filter fun d => decide (d ≠ c)) ↔
      (∀ e ∈ v.entries, e.conn ≠ some c) ∨ ∀ c' ∈ live, stationName ident c' = stationName ident c → c' = c := by
  -- a row on the connection is a row of its station
  have hmine : ∀ e ∈ v.entries, e.conn = some c → e.online = true ∧ e.identity = stationName ident c := by
    intro e he hconn
    have hon : e.online = true := by
      rw [← hI.linked e he, hconn]
      rfl
    obtain ⟨c', -, hname, hc'⟩ := hP.current e he hon
    cases hconn.symm.trans hc'
    exact ⟨hon, hname.symm⟩
  constructor
  · intro h
    by_contra hnot
    obtain ⟨hrow, hother⟩ := not_or.1 hnot
    push Not at hrow hother
    obtain ⟨e, he, hconn⟩ := hrow
    obtain ⟨c', hc', hname, hne⟩ := hother
    have hgone : e.goOffline ∈ (v.onDisconnected c).entries :=
      v.mem_onDisconnected c |>.2 ⟨e, he, if_pos hconn⟩
    exact Bool.false_ne_true
      ((h.shown _ hgone).2 ⟨c', mem_others.2 ⟨hc', hne⟩, hname.trans (hmine e he hconn).2.symm⟩)
  intro hclear
  refine ⟨fun e he => ?_, fun e he hon => ?_, fun c' hc' => v.has_onDisconnected c (hP.present c' (mem_others.1 hc').1)⟩
  · obtain ⟨d, hd, rfl⟩ := (v.mem_onDisconnected c).1 he
    split
    · rename_i hconn
      refine iff_of_false Bool.false_ne_true fun ⟨c', hc', hname⟩ => ?_
      have hlast := hclear.resolve_left fun h => h d hd hconn
      exact (mem_others.1 hc').2 (hlast c' (mem_others.1 hc').1 (hname.trans (hmine d hd hconn).2))
    rename_i hconn
    refine ⟨fun hon => ?_, fun ⟨c', hc', hname⟩ => (hP.shown d hd).2 ⟨c', (mem_others.1 hc').1, hname⟩⟩
    obtain ⟨c', hc', hname, hc⟩ := hP.current d hd hon
    exact ⟨c', mem_others.2 ⟨hc', fun heq => hconn (heq ▸ hc)⟩, hname⟩
  · obtain ⟨d, hd, rfl⟩ := (v.mem_onDisconnected c).1 he
    split at hon
    · cases hon
    rename_i hconn
    rw [if_neg hconn]
    obtain ⟨c', hc', hname, hc⟩ := hP.current d hd hon
    exact ⟨c', mem_others.2 ⟨hc', fun heq => hconn (heq ▸ hc)⟩, hname, hc⟩

theorem follows_sort (hP : Follows ident v live) : Follows ident v.sortEntries live := by
  refine ⟨fun e he => hP.shown e (mem_mergeSort.1 he), fun e he => hP.current e (mem_mergeSort.1 he),
    fun c hc => ?_⟩
  obtain ⟨e, he, hkey⟩ := hP.present c hc
  exact ⟨e, mem_mergeSort.2 he, hkey⟩

theorem Known.remember (hI : Known ident v live) {live' : List ConnectionId} (hlive : ∀ c' ∈ live', c' ≠ c → c' ∈ live)
    {x : String} (hx : c ∈ live' → x = stationName ident c) :
    ∀ c' ∈ live', Function.update v.connIdentity c (some x) c' = some (stationName ident c') := by
  intro c' hc'
  by_cases heq : c' = c
  · subst heq
    rw [Function.update_self, hx hc']
  · rw [Function.update_of_ne heq]
    exact hI.known c' (hlive c' hc' heq)

theorem linked_handleEvent (lookup : ConnectionId → Option String) (ev : ServerEvent) (hI : ∀ e ∈ v.entries, e.conn.isSome = e.online) :
    ∀ e ∈ (v.handleEvent lookup ev).entries, e.conn.isSome = e.online := by
  intro e he
  rcases v.mem_handleEvent lookup he with ⟨d, hd, ha⟩ | ⟨d, rfl⟩ | ⟨-, hon⟩
  · rw [ha.conn, ha.online]
    exact hI d hd
  · rfl
  · rw [hon.conn, hon.online]
    rfl

end

/-! ## Histories of events -/

section
variable (ident : ConnectionId → Option String)

/-- The runs of the view: a connection comes up once and goes down while it is up. -/
abbrev Watch.Runs : Watch V → List Feed → Watch V → Prop := Run fun w f w' => w.step ident f = some w'

variable {ident}

theorem follows_step_iff {w w' : Watch V} {f : Feed} (hI : Known ident w.view w.live) (hP : Follows ident w.view w.live)
    (hs : w.step ident f = some w') : Follows ident w'.view w'.live ↔ w.Clear ident f := by
  cases f with
  | sort =>
    cases hs
    exact iff_of_true (follows_sort hP) trivial
  | event ev registered =>
    cases ev with
    | connected c =>
      simp only [Watch.step] at hs
      split at hs
      · cases hs
      · cases hs
        exact follows_connected_iff hP
    | disconnected c =>
      simp only [Watch.step] at hs
      split at hs
      · cases hs
        exact follows_disconnected_iff hI hP
      · cases hs
    | inbound c name request response =>
      cases hs
      exact follows_inbound_iff hI hP
    | outbound c scope name request response ok context =>
      cases hs
      exact follows_outbound_iff hI hP

theorem known_step {w w' : Watch V} {f : Feed} (hI : Known ident w.view w.live) (hP : Follows ident w.view w.live)
    (hs : w.step ident f = some w') (hP' : Follows ident w'.view w'.live) : Known ident w'.view w'.live := by
  have hclear := (follows_step_iff hI hP hs).1 hP'
  cases f with
  | sort =>
    cases hs
    exact ⟨fun e he => hI.linked e (mem_mergeSort.1 he), hI.known⟩
  | event ev registered =>
    have hremember := w.view.handleEvent_connIdentity (lookupIn ident registered) ev
    have hlinked := linked_handleEvent (lookupIn ident registered) ev hI.linked
    cases ev with
    | connected c =>
      simp only [Watch.step] at hs
      split at hs
      · cases hs
      cases hs
      refine ⟨hlinked, ?_⟩
      rw [hremember]
      exact hI.remember (fun c' hc' hne => (mem_cons.1 hc').resolve_left hne) (fun _ => hclear)
    | disconnected c =>
      simp only [Watch.step] at hs
      split at hs
      · cases hs
        exact ⟨hlinked, fun c' hc' => hI.known c' (mem_others.1 hc').1⟩
      · cases hs
    | inbound c name request response | outbound c scope name request response ok context =>
      cases hs
      refine ⟨hlinked, ?_⟩
      rw [hremember]
      exact hI.remember (fun c' hc' _ => hc') (fun hc => hI.identityOf hc)

/-- **The rows follow the connections all along a history of events exactly when every event is clear**: a connection comes
up under the name of its station; it goes down as the last of its station, or while no row is on it; inbound calls, and
outbound ones to a row that is missing, come from connections that are up. -/
theorem status_follows_iff {w : Watch V} {feeds : List Feed} (h : Watch.Runs ident .init feeds w) :
    (∀ (pre : List Feed) (u : Watch V), pre <+: feeds → Watch.Runs ident .init pre u → Follows ident u.view u.live) ↔
      ∀ (pre : List Feed) (f : Feed) (u : Watch V), pre ++ [f] <+: feeds → Watch.Runs ident .init pre u → u.Clear ident f := by
  have hdet : ∀ (t : Watch V) (f : Feed) (u u' : Watch V), t.step ident f = some u → t.step ident f = some u' → u = u' :=
    fun t f u u' h h' => Option.some.inj (h.symm.trans h')
  refine (Run.forall_prefix_iff (I := fun u => Known ident u.view u.live) (P := fun u => Follows ident u.view u.live) hdet
    (fun t f u hI hP hs hP' => known_step hI hP hs hP') (fun t f u hI hP hs => follows_step_iff hI hP hs) h ?_ ?_).1
  · exact ⟨fun e he => absurd he not_mem_nil, fun c hc => absurd hc not_mem_nil⟩
  · exact ⟨fun e he => absurd he not_mem_nil, fun e he => absurd he not_mem_nil,
      fun c hc => absurd hc not_mem_nil⟩

end

def unobserved : EntryStateT := ⟨Unit, (), fun _ _ _ _ => (), fun _ _ _ _ => (), fun _ _ => none⟩

def plain : ServerVersion := ⟨unobserved, unobserved, fun _ _ => .cs, fun _ _ => none, "GetConfiguration", fun _ => []⟩

def takeover : List Feed :=
  [.event (.connected ⟨1⟩) fun _ => true, .event (.connected ⟨2⟩) fun _ => true, .event (.disconnected ⟨1⟩) fun _ => true]

theorem takeover_follows : ∃ w : Watch plain, Watch.Runs (fun _ => some "CP1") .init takeover w ∧
    Follows (fun _ => some "CP1") w.view w.live ∧ w.live = [⟨2⟩] := by
  refine ⟨_, Run.of_foldlM _ rfl, ?_, rfl⟩
  have hrun : Watch.Runs (V := plain) (fun _ => some "CP1") .init takeover _ := Run.of_foldlM _ rfl
  refine (status_follows_iff hrun).2 ?_ _ _ (prefix_refl _) hrun
  refine Run.forall_cons rfl rfl (Run.forall_cons rfl rfl (Run.forall_cons rfl (Or.inl ?_) Run.forall_nil))
  intro e he
  cases mem_singleton.1 he
  decide

/-- The second connection ends instead: the station is shown offline with its first connection still up.  A call that is
drained behind the end of its connection shows the station online without any. -/
theorem older_connection_forgotten : (∃ w : Watch plain, Watch.Runs (fun _ => some "CP1") .init
        [.event (.connected ⟨1⟩) fun _ => true, .event (.connected ⟨2⟩) fun _ => true,
          .event (.disconnected ⟨2⟩) fun _ => true] w ∧
        w.live = [⟨1⟩] ∧ w.view.entries.map (fun e => (e.identity, e.online, e.conn)) = [("CP1", false, none)] ∧
        ¬Follows (fun _ => some "CP1") w.view w.live) ∧ ∃ w : Watch plain, Watch.Runs (fun _ => some "CP1") .init
        [.event (.connected ⟨1⟩) fun _ => true, .event (.disconnected ⟨1⟩) fun _ => true,
          .event (.inbound ⟨1⟩ "Heartbeat" .emptyObject .emptyObject) fun _ => true] w ∧
        w.live = [] ∧ w.view.entries.map (fun e => (e.identity, e.online, e.conn)) = [("CP1", true, some ⟨1⟩)] := by
  refine ⟨⟨_, Run.of_foldlM _ rfl, rfl, rfl, fun h => ?_⟩, ⟨_, Run.of_foldlM _ rfl, rfl, rfl⟩⟩
  exact Bool.false_ne_true ((h.shown _ mem_cons_self).2 ⟨⟨1⟩, mem_cons_self, rfl⟩)

end Ferrowl.Ocpp.Csms
