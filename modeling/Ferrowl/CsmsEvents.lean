import Ferrowl.CsmsStatus
/-!
# CsmsEvents — connections, their registry and the queue of their events

The tasks of the connections (`csms/mod.rs`, `csms/core.rs`) and the view run side by side.  A connection enters the registry with
the identity of its handshake, queues its events and, after the last one that is its own, leaves the registry; the view takes
events from the queue whenever it is refreshed and asks the registry then.  The handshake of a connection is kept beside the
registry.
-/
namespace Ferrowl.Ocpp.Csms

open Function List Option

open Wire (Value)

variable {V : ServerVersion}

/-! ## The server -/

inductive Phase where
  | unused
  | accepted
  | running
  | closing
  | gone
  deriving DecidableEq, Repr

structure Server (V : ServerVersion) where
  nextId : Nat
  registry : ConnectionId → Option (Option String)
  handshake : ConnectionId → Option (Option String)
  phase : ConnectionId → Phase
  queue : List ServerEvent
  view : ServerView V

inductive ServerStep where
  | accept (identity : Option String)
  | start (c : ConnectionId)
  | inbound (c : ConnectionId) (name : String) (request response : Value)
  | outbound (c : ConnectionId) (scope : Scope) (name : String) (request response : Value) (ok : Bool) (context : String)
  | finish (c : ConnectionId)
  | remove (c : ConnectionId)
  | drain
  | sort

namespace Server

def init : Server V := ⟨1, fun _ => none, fun _ => none, fun _ => .unused, [], .empty⟩

def identity (s : Server V) (c : ConnectionId) : Option String := (s.registry c).join

def push (s : Server V) (ev : ServerEvent) : Server V := { s with queue := s.queue ++ [ev] }

def enter (s : Server V) (c : ConnectionId) (phase : Phase) : Server V := { s with phase := update s.phase c phase }

def step (s : Server V) : ServerStep → Option (Server V)
  | .accept identity =>
    let c : ConnectionId := ⟨s.nextId⟩
    some { s with
      nextId := s.nextId + 1
      registry := update s.registry c (some identity)
      handshake := update s.handshake c (some identity)
      phase := update s.phase c .accepted }
  | .start c => if s.phase c = .accepted then some ((s.push (.connected c)).enter c .running) else none
  | .inbound c name request response =>
    if s.phase c = .unused then none else some (s.push (.inbound c name request response))
  | .outbound c scope name request response ok context =>
    if s.phase c = .unused then none else some (s.push (.outbound c scope name request response ok context))
  | .finish c => if s.phase c = .running then some ((s.push (.disconnected c)).enter c .closing) else none
  | .remove c =>
    if s.phase c = .closing then some { s.enter c .gone with registry := update s.registry c none } else none
  | .drain =>
    match s.queue with
    | [] => none
    | ev :: queue => some { s with queue := queue, view := s.view.handleEvent s.identity ev }
  | .sort => some { s with view := s.view.sortEntries }

/-- **The interleavings of the connections with the view.** -/
abbrev Runs : Server V → List ServerStep → Server V → Prop := Run fun s a s' => s.step a = some s'

/-- The event that is drained finds its connection in the registry, or its station is known from an earlier one. -/
def Clear (s : Server V) : ServerStep → Prop
  | .drain => ∀ ev queue, s.queue = ev :: queue → (∃ c, ev = .disconnected c) ∨
      (s.view.connIdentity ev.conn).isSome = true ∨ (s.registry ev.conn).isSome = true
  | _ => True

end Server

/-! ## Attribution -/

/-- The mark the event leaves on the rows of the station. -/
def ServerEvent.Lands (v : ServerView V) (station : String) : ServerEvent → Prop
  | connected c => ∃ e ∈ v.entries, e.scope = .cs ∧ ServerView.OnConn station c e
  | disconnected c => ∀ e ∈ v.entries, e.conn ≠ some c
  | inbound c name request response =>
    ∃ e ∈ v.entries, ServerView.OnConn station c e ∧ inboundMessages name request response <:+ e.messages
  | outbound _ scope name request response ok context =>
    ∃ e ∈ v.entries, e.identity = station ∧ e.scope = scope ∧
      outboundMessages name request response ok context <:+ e.messages

/-- **The event is filed under the station**: it lands there, and the rows and the configurations of all others stay. -/
structure Filed (v : ServerView V) (ev : ServerEvent) (v' : ServerView V) (station : String) : Prop where
  lands : ev.Lands v' station
  elsewhere : v'.elsewhere station = v.elsewhere station
  configs : ∀ k, k ≠ station → v'.csConfigs k = v.csConfigs k

/-! ## Messages -/

theorem pushCapped_eq (buf : List Message) (m : Message) : pushCapped buf m = buf.drop (buf.length + 1 - maxMessages) ++ [m] := by
  have hlen : buf.length + 1 - maxMessages ≤ buf.length := by
    unfold maxMessages
    omega
  rw [pushCapped, length_append, length_singleton, drop_append_of_le_length hlen]

theorem pair_suffix_log (e : Entry V) (m n : Message) : [m, n] <:+ (e.log [m, n]).messages := by
  have hlog : (e.log [m, n]).messages = pushCapped (pushCapped e.messages m) n := by simp only [Entry.log, List.foldl]
  have hlen : (pushCapped e.messages m).length + 1 - maxMessages ≤
      (e.messages.drop (e.messages.length + 1 - maxMessages)).length := by
    rw [pushCapped_eq, length_append, length_singleton]
    unfold maxMessages
    omega
  rw [hlog, pushCapped_eq]
  nth_rewrite 2 [pushCapped_eq]
  rw [drop_append_of_le_length hlen, append_assoc]
  exact suffix_append _ _

/-! ## One event -/

section
variable {v : ServerView V} {lookup : ConnectionId → Option String} {ev : ServerEvent} {station : String}

theorem handleEvent_csConfigs {k : String} (hk : k ≠ v.identityOf lookup ev.conn) :
    (v.handleEvent lookup ev).csConfigs k = v.csConfigs k := by
  cases ev with
  | connected c => exact congrFun (ServerView.entryIndex_csConfigs _ _ _ _) k
  | disconnected c => rfl
  | inbound c name request response =>
    exact congrFun ((ServerView.entryIndex_csConfigs _ _ _ _).trans (ServerView.entryIndex_csConfigs _ _ _ _)) k
  | outbound c scope name request response ok context =>
    refine (congrFun (ServerView.entryIndex_csConfigs _ _ _ _) k).trans ?_
    unfold ServerView.keepConfig
    split
    · exact update_of_ne hk _ _
    · rfl

theorem lands_handleEvent (h : (∃ c, ev = .disconnected c) ∨ v.identityOf lookup ev.conn = station) :
    ev.Lands (v.handleEvent lookup ev) station := by
  cases ev with
  | disconnected c =>
    intro e he
    obtain ⟨d, -, rfl⟩ := (v.mem_onDisconnected c).1 he
    split
    · exact nofun
    · assumption
  | connected c =>
    obtain ⟨c', hc'⟩ | rfl := h
    · cases hc'
    obtain ⟨e, he, hid, hsc⟩ := v.has_onConnected lookup c (Or.inr ⟨rfl, rfl⟩)
    exact ⟨e, he, hsc, (v.mem_onConnected lookup c he).resolve_left fun hold => hold.2 hid⟩
  | inbound c name request response =>
    obtain ⟨c', hc'⟩ | rfl := h
    · cases hc'
    obtain ⟨d, hid, hd⟩ := v.receive_mem_onInbound lookup c name request response
    exact ⟨_, hd, ServerView.onConn_receive hid c name request response, pair_suffix_log _ _ _⟩
  | outbound c scope name request response ok context =>
    obtain ⟨c', hc'⟩ | rfl := h
    · cases hc'
    obtain ⟨d, ⟨hid, hsc⟩, -, hd⟩ := v.sent_mem_onOutbound lookup c
    have ha := d.alike_sent name request response ok context
    exact ⟨_, hd, ha.identity.trans hid, ha.scope.trans hsc, pair_suffix_log _ _ _⟩

/-- **An event that resolves to the station is filed there**, and so is the end of a connection all of whose rows are the
station's. -/
theorem filed_handleEvent (h : match ev with
      | .disconnected c => ∀ e ∈ v.entries, e.conn = some c → e.identity = station
      | ev => v.identityOf lookup ev.conn = station) :
    Filed v ev (v.handleEvent lookup ev) station := by
  cases ev with
  | disconnected c => exact ⟨lands_handleEvent (Or.inl ⟨c, rfl⟩), v.onDisconnected_elsewhere c h, fun _ _ => rfl⟩
  | connected c =>
    subst h
    exact ⟨lands_handleEvent (Or.inr rfl), v.onConnected_elsewhere lookup c, fun k hk => handleEvent_csConfigs hk⟩
  | inbound c name request response =>
    subst h
    exact ⟨lands_handleEvent (Or.inr rfl), v.onInbound_elsewhere lookup c name request response,
      fun k hk => handleEvent_csConfigs hk⟩
  | outbound c scope name request response ok context =>
    subst h
    exact ⟨lands_handleEvent (Or.inr rfl), v.onOutbound_elsewhere lookup c scope name request response ok context,
      fun k hk => handleEvent_csConfigs hk⟩

theorem connIdentity_handleEvent_of_some {c : ConnectionId} {x : String} (h : v.connIdentity c = some x) :
    (v.handleEvent lookup ev).connIdentity c = some x := by
  rw [ServerView.handleEvent_connIdentity]
  split
  · exact h
  by_cases hc : c = ev.conn
  · subst hc
    rw [update_self, ServerView.identityOf, h]
    rfl
  · rw [update_of_ne hc, h]

theorem connIdentity_handleEvent_self (hev : ∀ c, ev ≠ .disconnected c) :
    (v.handleEvent lookup ev).connIdentity ev.conn = some (v.identityOf lookup ev.conn) := by
  rw [ServerView.handleEvent_connIdentity]
  split
  · exact absurd rfl (hev _)
  · exact update_self ..

def RowsKnown (v : ServerView V) : Prop := ∀ e ∈ v.entries, ∀ c, e.conn = some c → v.connIdentity c = some e.identity

theorem rowsKnown_handleEvent (h : RowsKnown v) : RowsKnown (v.handleEvent lookup ev) := by
  intro e he c hconn
  rcases v.mem_handleEvent lookup he with ⟨d, hd, ha⟩ | ⟨d, rfl⟩ | ⟨hev, hon⟩
  · rw [ha.identity]
    exact connIdentity_handleEvent_of_some (h d hd c (ha.conn ▸ hconn))
  · cases hconn
  · cases hon.conn.symm.trans hconn
    rw [connIdentity_handleEvent_self hev, hon.identity]

end

/-- **A row is online exactly while it has a connection, and the view remembers that one as the row's station**, so no connection
has rows of two stations. -/
theorem rows_of_one_station (events : List ((ConnectionId → Option String) × ServerEvent)) :
    let v : ServerView V := events.foldl (fun v e => v.handleEvent e.1 e.2) .empty
    RowsKnown v ∧ ∀ e ∈ v.entries, e.conn.isSome = e.online := by
  refine foldlRecOn (motive := fun v : ServerView V => RowsKnown v ∧ ∀ e ∈ v.entries, e.conn.isSome = e.online) events _
    ⟨fun _ he => ?_, fun _ he => ?_⟩ fun _ h e _ => ⟨rowsKnown_handleEvent h.1, linked_handleEvent e.1 e.2 h.2⟩
  · exact absurd he not_mem_nil
  · exact absurd he not_mem_nil

/-! ## Interleavings -/

namespace Server

/-- **What holds along every interleaving of clear steps.** -/
structure Sound (s : Server V) : Prop where
  fresh : ∀ c identity, s.handshake c = some identity → c.val < s.nextId
  registered : ∀ c identity, s.registry c = some identity → s.handshake c = some identity
  remembered : ∀ c x, s.view.connIdentity c = some x → ∃ identity, s.handshake c = some identity ∧ x = identity.getD c.text
  rows : RowsKnown s.view

theorem Sound.identityOf {s : Server V} (h : s.Sound) {c : ConnectionId}
    (hc : (s.view.connIdentity c).isSome = true ∨ (s.registry c).isSome = true) :
    ∃ identity, s.handshake c = some identity ∧ s.view.identityOf s.identity c = identity.getD c.text := by
  cases hx : s.view.connIdentity c with
  | some x =>
    obtain ⟨identity, hshake, rfl⟩ := h.remembered c x hx
    refine ⟨identity, hshake, ?_⟩
    rw [ServerView.identityOf, hx]
    rfl
  | none =>
    rw [hx] at hc
    obtain ⟨identity, hreg⟩ := isSome_iff_exists.1 (hc.resolve_left Bool.false_ne_true)
    refine ⟨identity, h.registered c identity hreg, ?_⟩
    rw [ServerView.identityOf, hx, Server.identity, hreg]
    rfl

theorem Sound.drain {s : Server V} (h : s.Sound) {ev : ServerEvent} {queue : List ServerEvent}
    (hc : (∃ c, ev = .disconnected c) ∨ (s.view.connIdentity ev.conn).isSome = true ∨ (s.registry ev.conn).isSome = true) :
    Sound { s with queue := queue, view := s.view.handleEvent s.identity ev } := by
  refine ⟨h.fresh, h.registered, fun c x hx => ?_, rowsKnown_handleEvent h.rows⟩
  cases hold : s.view.connIdentity c with
  | some y =>
    cases (connIdentity_handleEvent_of_some hold).symm.trans hx
    exact h.remembered c x hold
  | none =>
    -- only the event can have added the connection
    simp only [ServerView.handleEvent_connIdentity] at hx
    split at hx
    · rw [hold] at hx
      cases hx
    rename_i hev
    by_cases heq : c = ev.conn
    · subst heq
      rw [update_self] at hx
      cases hx
      exact h.identityOf (hc.resolve_left fun ⟨c, hc⟩ => hev c hc)
    · rw [update_of_ne heq, hold] at hx
      cases hx

theorem Sound.step {s s' : Server V} {a : ServerStep} (h : s.Sound) (hclear : s.Clear a) (hs : s.step a = some s') :
    s'.Sound := by
  cases a with
  | accept identity =>
    cases hs
    -- the id is new, so nothing that is known of earlier connections changes
    have hnew : ∀ {c idt}, s.handshake c = some idt → c ≠ ⟨s.nextId⟩ := by
      rintro c idt hc rfl
      exact Nat.lt_irrefl _ (h.fresh _ _ hc)
    refine ⟨fun c idt hc => ?_, fun c idt hc => ?_, fun c x hx => ?_, h.rows⟩
    · by_cases heq : c = ⟨s.nextId⟩
      · rw [heq]
        exact Nat.lt_succ_self _
      · dsimp only at hc
        rw [update_of_ne heq] at hc
        exact Nat.lt_succ_of_lt (h.fresh c idt hc)
    · dsimp only at hc ⊢
      by_cases heq : c = ⟨s.nextId⟩
      · subst heq
        rw [update_self] at hc ⊢
        exact hc
      · rw [update_of_ne heq] at hc ⊢
        exact h.registered c idt hc
    · obtain ⟨idt, hc, hx⟩ := h.remembered c x hx
      exact ⟨idt, (update_of_ne (hnew hc) _ _).trans hc, hx⟩
  | start c | finish c =>
    simp only [Server.step, ite_none_right_eq_some, Option.some.injEq] at hs
    obtain ⟨-, rfl⟩ := hs
    exact ⟨h.fresh, h.registered, h.remembered, h.rows⟩
  | inbound c name request response | outbound c scope name request response ok context =>
    simp only [Server.step, ite_none_left_eq_some, Option.some.injEq] at hs
    obtain ⟨-, rfl⟩ := hs
    exact ⟨h.fresh, h.registered, h.remembered, h.rows⟩
  | remove c =>
    simp only [Server.step, ite_none_right_eq_some, Option.some.injEq] at hs
    obtain ⟨-, rfl⟩ := hs
    refine ⟨h.fresh, fun c' idt hc' => ?_, h.remembered, h.rows⟩
    dsimp only at hc'
    by_cases heq : c' = c
    · subst heq
      rw [update_self] at hc'
      cases hc'
    · rw [update_of_ne heq] at hc'
      exact h.registered c' idt hc'
  | drain =>
    simp only [Server.step] at hs
    split at hs
    · cases hs
    · rename_i ev queue hq
      cases hs
      exact h.drain (hclear ev queue hq)
  | sort =>
    cases hs
    exact ⟨h.fresh, h.registered, h.remembered, fun e he => h.rows e (mem_mergeSort.1 he)⟩

theorem sound_init : Sound (init : Server V) :=
  ⟨nofun, nofun, nofun, fun _ he => absurd he not_mem_nil⟩

/-- **If every event is drained while its connection is registered, or after an earlier event of it, every event of a station
that named itself is filed under that name**, however late it is drained. -/
theorem events_keep_station {steps : List ServerStep} {u u' : Server V} (hu : Runs init steps u)
    (hclear : ∀ (pre : List ServerStep) (a : ServerStep) (w : Server V), pre ++ [a] <+: steps ++ [.drain] → Runs init pre w →
      w.Clear a)
    (hs : u.step .drain = some u') {ev : ServerEvent} {queue : List ServerEvent} (hq : u.queue = ev :: queue) {station : String}
    (hstation : u.handshake ev.conn = some (some station)) : Filed u.view ev u'.view station := by
  have hsound : u.Sound := by
    refine Run.invariant_of_steps (C := Clear) (fun t a t' ht hc hs => ht.step hc hs) hu (fun pre a w hp => ?_) sound_init
    exact hclear pre a w (hp.trans (prefix_append steps _))
  simp only [Server.step, hq, Option.some.injEq] at hs
  subst hs
  have hc := hclear steps .drain u (prefix_refl _) hu ev queue hq
  -- an event other than the end of a connection resolves to the name of the handshake
  have hname : (∀ c, ev ≠ .disconnected c) → u.view.identityOf u.identity ev.conn = station := by
    intro hev
    obtain ⟨identity, hshake, hid⟩ := hsound.identityOf (hc.resolve_left fun ⟨c, hc⟩ => hev c hc)
    cases hshake.symm.trans hstation
    exact hid
  refine filed_handleEvent ?_
  cases ev with
  | disconnected c =>
    intro e he hconn
    obtain ⟨identity, hshake, hid⟩ := hsound.remembered c e.identity (hsound.rows e he c hconn)
    cases hshake.symm.trans hstation
    exact hid
  | connected c | inbound c name request response | outbound c scope name request response ok context => exact hname nofun

/-- A station connects, is seen, and goes; a call it made is answered after its connection has left the registry. -/
def lateCall : List ServerStep :=
  [.accept (some "CP1"), .start ⟨1⟩, .drain, .finish ⟨1⟩, .remove ⟨1⟩, .inbound ⟨1⟩ "Heartbeat" .emptyObject .emptyObject, .drain]

theorem late_call_filed : ∃ u u' : Server plain, Runs init lateCall u ∧ u.step .drain = some u' ∧ u.registry ⟨1⟩ = none ∧
    Filed u.view (.inbound ⟨1⟩ "Heartbeat" .emptyObject .emptyObject) u'.view "CP1" := by
  have hrun : Runs (V := plain) init lateCall _ := Run.of_foldlM _ rfl
  refine ⟨_, _, hrun, rfl, rfl, events_keep_station hrun ?_ rfl rfl rfl⟩
  refine Run.forall_cons rfl trivial (Run.forall_cons rfl trivial (Run.forall_cons rfl ?_ (Run.forall_cons rfl trivial
    (Run.forall_cons rfl trivial (Run.forall_cons rfl trivial (Run.forall_cons rfl ?_ (Run.forall_cons rfl ?_
      Run.forall_nil)))))))
  · intro ev queue hq
    cases hq
    exact Or.inr (Or.inr rfl)
  · intro ev queue hq
    cases hq
    exact Or.inl ⟨⟨1⟩, rfl⟩
  · intro ev queue hq
    cases hq
    exact Or.inr (Or.inl rfl)

/-- A station connects and goes before its first event is drained: the event is filed under a placeholder. -/
theorem short_visit_misfiled : ∃ u u' : Server plain,
    Runs init [.accept (some "CP1"), .start ⟨1⟩, .finish ⟨1⟩, .remove ⟨1⟩] u ∧ u.step .drain = some u' ∧
      u.queue = [.connected ⟨1⟩, .disconnected ⟨1⟩] ∧ u.handshake ⟨1⟩ = some (some "CP1") ∧
      u'.view.entries.map (·.identity) = ["conn#1"] ∧ ¬Filed u.view (.connected ⟨1⟩) u'.view "CP1" := by
  refine ⟨_, _, Run.of_foldlM _ rfl, rfl, rfl, rfl, by decide +kernel, fun h => ?_⟩
  obtain ⟨e, he, -, hon⟩ := h.lands
  cases mem_singleton.1 he
  exact absurd hon.identity (by decide +kernel)

end Server

end Ferrowl.Ocpp.Csms
