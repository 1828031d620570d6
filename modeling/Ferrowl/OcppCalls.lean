import Ferrowl.OcppFrame
import Ferrowl.RunTrace
/-!
# OcppCalls — matching replies to the calls that wait for them

`OutboundHandle::call` (`conn.rs`) registers the id of a call, hands its frame to the writer and then waits, in a task of its own,
for a reply or for its timeout.  The reader completes the entry of an id (`correlation.rs`), a shutdown fails them all.  What was
sent on the one-shot channel is in `slot`.

The waiting task that finds its time over drops its receiver first and removes the entry after that; both are steps of their own.
`Event.expire` is taken only while nothing has been sent: a timeout looks at the channel before the clock.
-/
namespace Ferrowl.Ocpp.Wire

open List

abbrev CallOutcome := Except CallError Value

def terminated : CallOutcome := .error (.new .genericError "connection terminated")

inductive Outcome where
  | delivered (o : CallOutcome)
  | closed
  | timedOut
  | dropped

def Outcome.result : Outcome → CallOutcome
  | delivered o => o
  | closed => .error (.new .genericError "connection closed")
  | timedOut => .error (.new .genericError "call timed out")
  | dropped => .error (.new .genericError "reply channel dropped")

inductive CallPhase where
  | idle
  | queueing
  | waiting
  | expired
  | done (outcome : Outcome)

def CallPhase.listens : CallPhase → Bool
  | queueing | waiting => true
  | _ => false

/-- How many steps of its own a call that was made is away from its end, at most. -/
def CallPhase.rank : CallPhase → Nat
  | queueing => 3
  | waiting => 2
  | expired => 1
  | _ => 0

structure Calls where
  phase : String → CallPhase
  pending : String → Bool
  slot : String → Option CallOutcome

namespace Calls

def new : Calls := ⟨fun _ => .idle, fun _ => false, fun _ => none⟩

inductive Event where
  | call (id : String)
  | queued (id : String)
  | refused (id : String)
  | reply (id : String) (o : CallOutcome)
  | receive (id : String)
  | lost (id : String)
  | expire (id : String)
  | forget (id : String)
  | shutdown

def setPhase (s : Calls) (id : String) (phase : CallPhase) : Calls := { s with phase := Function.update s.phase id phase }

def remove (s : Calls) (id : String) : Calls := { s with pending := Function.update s.pending id false }

def complete (s : Calls) (id : String) (o : CallOutcome) : Calls :=
  if s.pending id then
    { s.remove id with slot := if (s.phase id).listens then Function.update s.slot id (some o) else s.slot }
  else s

def failAll (s : Calls) : Calls :=
  { s with
    pending := fun _ => false
    slot := fun id => if s.pending id && (s.phase id).listens then some terminated else s.slot id }

def register (s : Calls) (id : String) : Calls :=
  { s with pending := Function.update s.pending id true, slot := Function.update s.slot id none }

/-- Message ids are pairwise distinct: a call is made under an id that had none before. -/
def step (s : Calls) : Event → Option Calls
  | .call id =>
    match s.phase id with
    | .idle => some ((s.register id).setPhase id .queueing)
    | _ => none
  | .queued id =>
    match s.phase id with
    | .queueing => some (s.setPhase id .waiting)
    | _ => none
  | .refused id =>
    match s.phase id with
    | .queueing => some ((s.remove id).setPhase id (.done .closed))
    | _ => none
  | .reply id o => some (s.complete id o)
  | .receive id =>
    match s.phase id, s.slot id with
    | .waiting, some o => some (s.setPhase id (.done (.delivered o)))
    | _, _ => none
  | .lost id =>
    match s.phase id, s.slot id, s.pending id with
    | .waiting, none, false => some (s.setPhase id (.done .dropped))
    | _, _, _ => none
  | .expire id =>
    match s.phase id, s.slot id with
    | .waiting, none => some (s.setPhase id .expired)
    | _, _ => none
  | .forget id =>
    match s.phase id with
    | .expired => some ((s.remove id).setPhase id (.done .timedOut))
    | _ => none
  | .shutdown => some s.failAll

abbrev Reached (es : List Event) (s : Calls) : Prop := Run (fun s e t => s.step e = some t) Calls.new es s

def Event.of : Event → Option String
  | .call id | .queued id | .refused id | .receive id | .lost id | .expire id | .forget id => some id
  | .reply _ _ | .shutdown => none

def word (id : String) : Event → Option Outcome
  | .reply j o => if j = id then some (.delivered o) else none
  | .expire j => if j = id then some .timedOut else none
  | .shutdown => some (.delivered terminated)
  | _ => none

def isCall (id : String) : Event → Bool
  | .call j => decide (j = id)
  | _ => false

def isRefused (id : String) : Event → Bool
  | .refused j => decide (j = id)
  | _ => false

def since (id : String) (es : List Event) : List Event := (es.dropWhile (fun e => !isCall id e)).tail

/-- How a call has to end: as closed if its frame could not be queued, and else by the first reply to it, its timeout or the
shutdown of the connection, whichever comes first. -/
def verdict (id : String) (es : List Event) : Option Outcome :=
  if (since id es).any (isRefused id) then some .closed else (since id es).findSome? (word id)

variable {id : String} {es : List Event}

theorem since_snoc (h : es.any (isCall id) = true) (e : Event) : since id (es ++ [e]) = since id es ++ [e] := by
  have hne : es.dropWhile (fun e => !isCall id e) ≠ [] := by
    rw [Ne, dropWhile_eq_nil_iff]
    intro hall
    obtain ⟨x, hx, hc⟩ := any_eq_true.1 h
    have := hall x hx
    rw [hc] at this
    cases this
  rw [since, since, dropWhile_append, if_neg (by simpa using hne), tail_append_of_ne_nil hne]

theorem since_call (h : es.any (isCall id) = false) : since id (es ++ [.call id]) = [] := by
  have hnil : es.dropWhile (fun e => !isCall id e) = [] := by
    rw [dropWhile_eq_nil_iff]
    intro x hx
    rw [any_eq_false] at h
    simpa using h x hx
  rw [since, dropWhile_append, hnil]
  simp [isCall]

structure Entry where
  phase : CallPhase
  pending : Bool
  slot : Option CallOutcome

def entry (s : Calls) (id : String) : Entry := ⟨s.phase id, s.pending id, s.slot id⟩

def Foreign (id : String) : Event → Prop
  | .reply j _ => j ≠ id
  | .shutdown => False
  | e => e.of ≠ some id

/-- **What an event can do to a call.** -/
inductive Moves (id : String) : Event → Entry → Entry → Prop where
  | foreign {e : Event} {x : Entry} (h : Foreign id e) : Moves id e x x
  | call {p : Bool} {o : Option CallOutcome} : Moves id (.call id) ⟨.idle, p, o⟩ ⟨.queueing, true, none⟩
  | queued {p : Bool} {o : Option CallOutcome} : Moves id (.queued id) ⟨.queueing, p, o⟩ ⟨.waiting, p, o⟩
  | refused {p : Bool} {o : Option CallOutcome} : Moves id (.refused id) ⟨.queueing, p, o⟩ ⟨.done .closed, false, o⟩
  | reply {r : CallOutcome} {q : CallPhase} {o : Option CallOutcome} (h : q.listens = true) :
      Moves id (.reply id r) ⟨q, true, o⟩ ⟨q, false, some r⟩
  | late {r : CallOutcome} {q : CallPhase} {p : Bool} {o : Option CallOutcome} (h : q.listens = true → p = false) :
      Moves id (.reply id r) ⟨q, p, o⟩ ⟨q, false, o⟩
  | receive {p : Bool} {o : CallOutcome} : Moves id (.receive id) ⟨.waiting, p, some o⟩ ⟨.done (.delivered o), p, some o⟩
  | lost : Moves id (.lost id) ⟨.waiting, false, none⟩ ⟨.done .dropped, false, none⟩
  | expire {p : Bool} : Moves id (.expire id) ⟨.waiting, p, none⟩ ⟨.expired, p, none⟩
  | forget {p : Bool} {o : Option CallOutcome} : Moves id (.forget id) ⟨.expired, p, o⟩ ⟨.done .timedOut, false, o⟩
  | failed {q : CallPhase} {o : Option CallOutcome} (h : q.listens = true) :
      Moves id .shutdown ⟨q, true, o⟩ ⟨q, false, some terminated⟩
  | spared {q : CallPhase} {p : Bool} {o : Option CallOutcome} (h : q.listens = true → p = false) :
      Moves id .shutdown ⟨q, p, o⟩ ⟨q, false, o⟩

variable (s : Calls)

theorem entry_setPhase_self (id : String) (phase : CallPhase) :
    (s.setPhase id phase).entry id = { s.entry id with phase := phase } := by
  simp [entry, setPhase]

theorem entry_setPhase_of_ne {j : String} (h : j ≠ id) (phase : CallPhase) : (s.setPhase id phase).entry j = s.entry j := by
  simp [entry, setPhase, Function.update_of_ne h]

theorem entry_remove_self (id : String) : (s.remove id).entry id = { s.entry id with pending := false } := by
  simp [entry, remove]

theorem entry_remove_of_ne {j : String} (h : j ≠ id) : (s.remove id).entry j = s.entry j := by
  simp [entry, remove, Function.update_of_ne h]

theorem entry_register_self (id : String) : (s.register id).entry id = ⟨s.phase id, true, none⟩ := by
  simp [entry, register]

theorem entry_register_of_ne {j : String} (h : j ≠ id) : (s.register id).entry j = s.entry j := by
  simp [entry, register, Function.update_of_ne h]

theorem moves_complete (k id : String) (o : CallOutcome) : Moves id (.reply k o) (s.entry id) ((s.complete k o).entry id) := by
  by_cases hid : id = k
  · subst hid
    cases hp : s.pending id with
    | false =>
      rw [complete, hp, if_neg Bool.false_ne_true]
      rw [show s.entry id = ⟨s.phase id, false, s.slot id⟩ by rw [entry, hp]]
      exact Moves.late (fun _ => rfl)
    | true =>
      rw [complete, hp, if_pos rfl, entry, hp]
      cases hl : (s.phase id).listens with
      | true =>
        rw [show Calls.entry { s.remove id with slot := if true = true then Function.update s.slot id (some o) else s.slot } id =
          ⟨s.phase id, false, some o⟩ by simp [entry, remove]]
        exact Moves.reply hl
      | false =>
        rw [show Calls.entry { s.remove id with slot := if false = true then Function.update s.slot id (some o) else s.slot } id =
          ⟨s.phase id, false, s.slot id⟩ by simp [entry, remove]]
        exact Moves.late (fun h => nomatch hl.symm.trans h)
  · have hent : (s.complete k o).entry id = s.entry id := by
      rw [complete]
      split_ifs <;> simp [entry, remove, Function.update_of_ne hid]
    rw [hent]
    exact Moves.foreign (Ne.symm hid)

theorem moves_failAll (id : String) : Moves id .shutdown (s.entry id) (s.failAll.entry id) := by
  rw [entry, entry, failAll]
  dsimp only
  cases hp : s.pending id with
  | false => exact Moves.spared (fun _ => rfl)
  | true =>
    cases hl : (s.phase id).listens with
    | true => exact Moves.failed hl
    | false => exact Moves.spared (fun h => nomatch hl.symm.trans h)

variable {e : Event}

theorem moves_own {s t : Calls} {k : String} (he : ∀ id, id ≠ k → Foreign id e)
    (hother : ∀ id, id ≠ k → t.entry id = s.entry id) (hown : Moves k e (s.entry k) (t.entry k))
    (id : String) : Moves id e (s.entry id) (t.entry id) := by
  by_cases hid : id = k
  · rw [hid]
    exact hown
  · rw [hother id hid]
    exact Moves.foreign (he id hid)

theorem moves_setPhase {s : Calls} {k : String} {phase : CallPhase} (he : ∀ id, id ≠ k → Foreign id e)
    (hown : Moves k e (s.entry k) { s.entry k with phase := phase }) (id : String) :
    Moves id e (s.entry id) ((s.setPhase k phase).entry id) := by
  refine moves_own he (fun j hj => entry_setPhase_of_ne s hj phase) ?_ id
  rw [entry_setPhase_self]
  exact hown

theorem moves_of_step {s t : Calls} (h : s.step e = some t) (id : String) : Moves id e (s.entry id) (t.entry id) := by
  have hne : ∀ {k id : String}, id ≠ k → some k ≠ some id := fun h he => h (Option.some_inj.1 he).symm
  cases e with
  | reply k o =>
    cases h
    exact s.moves_complete k id o
  | shutdown =>
    cases h
    exact s.moves_failAll id
  | call k =>
    rw [step] at h
    split at h
    · rename_i hph
      cases h
      refine moves_own (fun j => hne) (fun j hj => ?_) ?_ id
      · rw [entry_setPhase_of_ne _ hj, entry_register_of_ne _ hj]
      · rw [entry_setPhase_self, entry_register_self, entry, hph]
        exact Moves.call
    · cases h
  | queued k =>
    rw [step] at h
    split at h
    · rename_i hph
      cases h
      refine moves_setPhase (fun j => hne) ?_ id
      rw [entry, hph]
      exact Moves.queued
    · cases h
  | refused k =>
    rw [step] at h
    split at h
    · rename_i hph
      cases h
      refine moves_own (fun j => hne) (fun j hj => ?_) ?_ id
      · rw [entry_setPhase_of_ne _ hj, entry_remove_of_ne _ hj]
      · rw [entry_setPhase_self, entry_remove_self, entry, hph]
        exact Moves.refused
    · cases h
  | receive k =>
    rw [step] at h
    split at h
    · rename_i o hph hslot
      cases h
      refine moves_setPhase (fun j => hne) ?_ id
      rw [entry, hph, hslot]
      exact Moves.receive
    · cases h
  | lost k =>
    rw [step] at h
    split at h
    · rename_i hph hslot hp
      cases h
      refine moves_setPhase (fun j => hne) ?_ id
      rw [entry, hph, hslot, hp]
      exact Moves.lost
    · cases h
  | expire k =>
    rw [step] at h
    split at h
    · rename_i hph hslot
      cases h
      refine moves_setPhase (fun j => hne) ?_ id
      rw [entry, hph, hslot]
      exact Moves.expire
    · cases h
  | forget k =>
    rw [step] at h
    split at h
    · rename_i hph
      cases h
      refine moves_own (fun j => hne) (fun j hj => ?_) ?_ id
      · rw [entry_setPhase_of_ne _ hj, entry_remove_of_ne _ hj]
      · rw [entry_setPhase_self, entry_remove_self, entry, hph]
        exact Moves.forget
    · cases h

def Open (id : String) (es : List Event) : Prop :=
  es.any (isCall id) = true ∧ (since id es).any (isRefused id) = false

/-- What the events so far say about a call, as its entry shows it. -/
def Told (id : String) (es : List Event) (x : Entry) : Prop :=
  match x.phase with
  | .idle => es.any (isCall id) = false ∧ x.pending = false
  | .queueing | .waiting =>
    Open id es ∧ (since id es).findSome? (word id) = x.slot.map .delivered ∧ x.pending = x.slot.isNone
  | .expired => Open id es ∧ (since id es).findSome? (word id) = some .timedOut
  | .done outcome => es.any (isCall id) = true ∧ verdict id es = some outcome ∧ x.pending = false

theorem any_snoc (id : String) (es : List Event) (e : Event) :
    (es ++ [e]).any (isCall id) = (es.any (isCall id) || isCall id e) := by
  simp

theorem Open.snoc (h : Open id es) (he : isRefused id e = false) : Open id (es ++ [e]) := by
  refine ⟨by rw [any_snoc, h.1]; rfl, ?_⟩
  rw [since_snoc h.1, any_append, h.2]
  simpa using he

theorem findSome?_snoc (h : es.any (isCall id) = true) (e : Event) :
    (since id (es ++ [e])).findSome? (word id) = ((since id es).findSome? (word id)).or (word id e) := by
  rw [since_snoc h, List.findSome?_append]
  simp

theorem verdict_snoc (h : es.any (isCall id) = true) {outcome : Outcome}
    (hv : verdict id es = some outcome) (he : isRefused id e = false) : verdict id (es ++ [e]) = some outcome := by
  rw [verdict] at hv ⊢
  rw [findSome?_snoc h, since_snoc h, any_append]
  simp only [any_cons, any_nil, he, Bool.or_false]
  split_ifs at hv ⊢
  · exact hv
  · rw [hv]
    rfl

structure Plain (id : String) (e : Event) : Prop where
  isCall : isCall id e = false
  isRefused : isRefused id e = false

theorem foreign_plain (h : Foreign id e) : Plain id e ∧ word id e = none := by
  have hne : ∀ {k : String}, some k ≠ some id → k ≠ id := fun h he => h (congrArg some he)
  cases e with
  | call k => exact ⟨⟨decide_eq_false (hne h), rfl⟩, rfl⟩
  | refused k => exact ⟨⟨rfl, decide_eq_false (hne h)⟩, rfl⟩
  | reply k o => exact ⟨⟨rfl, rfl⟩, if_neg h⟩
  | expire k => exact ⟨⟨rfl, rfl⟩, if_neg (hne h)⟩
  | shutdown => exact h.elim
  | _ => exact ⟨⟨rfl, rfl⟩, rfl⟩

theorem Told.deaf {q : CallPhase} {p p' : Bool} {o : Option CallOutcome} (h : Told id es ⟨q, p, o⟩) (he : Plain id e)
    (hw : word id e = none ∧ p' = p ∨ (q.listens = true → p = false) ∧ p' = false) : Told id (es ++ [e]) ⟨q, p', o⟩ := by
  -- a call that listens has the word it was given, if there is a new one
  have hopen : q.listens = true → Open id es ∧ (since id es).findSome? (word id) = o.map .delivered ∧ p = o.isNone →
      Open id (es ++ [e]) ∧ (since id (es ++ [e])).findSome? (word id) = o.map .delivered ∧ p' = o.isNone := by
    rintro hl ⟨ho, hword, hp⟩
    refine ⟨ho.snoc he.isRefused, ?_, ?_⟩
    · rw [findSome?_snoc ho.1, hword]
      rcases hw with ⟨hw, -⟩ | ⟨hw, -⟩
      · rw [hw, Option.or_none]
      · cases o with
        | none => exact nomatch hp.symm.trans (hw hl)
        | some r => rfl
    · rcases hw with ⟨-, hp'⟩ | ⟨hw, hp'⟩
      · exact hp'.trans hp
      · exact (hp'.trans (hw hl).symm).trans hp
  cases q with
  | idle =>
    refine ⟨by rw [any_snoc, h.1, he.isCall]; rfl, ?_⟩
    rcases hw with ⟨-, hp'⟩ | ⟨-, hp'⟩
    · exact hp'.trans h.2
    · exact hp'
  | queueing | waiting => exact hopen rfl h
  | expired => exact ⟨h.1.snoc he.isRefused, by rw [findSome?_snoc h.1.1, h.2]; rfl⟩
  | done outcome =>
    refine ⟨by rw [any_snoc, h.1]; rfl, verdict_snoc h.1 h.2.1 he.isRefused, ?_⟩
    rcases hw with ⟨-, hp'⟩ | ⟨-, hp'⟩
    · exact hp'.trans h.2.2
    · exact hp'

theorem Told.heard {q : CallPhase} {o : Option CallOutcome} (h : Told id es ⟨q, true, o⟩)
    (hl : q.listens = true) (he : Plain id e) {r : CallOutcome}
    (hw : word id e = some (.delivered r)) : Told id (es ++ [e]) ⟨q, false, some r⟩ := by
  have hopen : Open id es ∧ (since id es).findSome? (word id) = o.map .delivered ∧ true = o.isNone →
      Open id (es ++ [e]) ∧ (since id (es ++ [e])).findSome? (word id) = some (.delivered r) ∧ false = (some r).isNone := by
    rintro ⟨ho, hword, hp⟩
    cases o with
    | some _ => cases hp
    | none => exact ⟨ho.snoc he.isRefused, by rw [findSome?_snoc ho.1, hword, hw]; rfl, rfl⟩
  cases q with
  | queueing => exact hopen h
  | waiting => exact hopen h
  | _ => cases hl

theorem verdict_of_open (h : Open id es) : verdict id es = (since id es).findSome? (word id) := by
  rw [verdict, h.2]
  rfl

theorem Told.step {x y : Entry} (h : Told id es x) (hm : Moves id e x y) : Told id (es ++ [e]) y := by
  cases hm with
  | foreign hf =>
    obtain ⟨he, hw⟩ := foreign_plain hf
    exact h.deaf he (Or.inl ⟨hw, rfl⟩)
  | call =>
    refine ⟨⟨by rw [any_snoc, h.1]; simp [isCall], ?_⟩, ?_, rfl⟩
    · rw [since_call h.1]
      rfl
    · rw [since_call h.1]
      rfl
  | queued => exact h.deaf (q := .queueing) ⟨rfl, rfl⟩ (Or.inl ⟨rfl, rfl⟩)
  | refused =>
    obtain ⟨⟨hcall, -⟩, -⟩ := h
    refine ⟨by rw [any_snoc, hcall]; rfl, ?_, rfl⟩
    rw [verdict, since_snoc hcall, any_append]
    simp [isRefused]
  | reply hl => exact h.heard hl ⟨rfl, rfl⟩ (if_pos rfl)
  | late hl | spared hl => exact h.deaf ⟨rfl, rfl⟩ (Or.inr ⟨hl, rfl⟩)
  | failed hl => exact h.heard hl ⟨rfl, rfl⟩ rfl
  | receive =>
    obtain ⟨ho, hword, hp⟩ := h
    refine ⟨by rw [any_snoc, ho.1]; rfl, ?_, hp⟩
    exact verdict_snoc ho.1 ((verdict_of_open ho).trans hword) rfl
  | lost => exact nomatch h.2.2
  | expire =>
    obtain ⟨ho, hword, hp⟩ := h
    refine ⟨ho.snoc rfl, ?_⟩
    rw [findSome?_snoc ho.1, hword]
    exact if_pos rfl
  | forget =>
    obtain ⟨ho, hword⟩ := h
    refine ⟨by rw [any_snoc, ho.1]; rfl, ?_, rfl⟩
    exact verdict_snoc ho.1 ((verdict_of_open ho).trans hword) rfl

theorem told_of_reached {s : Calls} (h : Reached es s) (id : String) : Told id es (s.entry id) := by
  induction h with
  | nil => exact ⟨rfl, rfl⟩
  | snoc _ hs ih => exact ih.step (moves_of_step hs id)

theorem phase_of_moves {x y : Entry} (h : Moves id e x y) (he : e.of ≠ some id) : y.phase = x.phase := by
  cases h with
  | foreign | reply | late | failed | spared => rfl
  | _ => exact absurd rfl he

theorem done_of_moves {x y : Entry} (h : Moves id e x y) {outcome : Outcome}
    (hx : x.phase = .done outcome) : y.phase = .done outcome := by
  cases h with
  | foreign | reply | late | failed | spared => exact hx
  | _ => cases hx

theorem exists_step (h : 0 < (s.phase id).rank) :
    ∃ e t, e.of = some id ∧ s.step e = some t ∧ (t.phase id).rank < (s.phase id).rank := by
  have hset : ∀ (u : Calls) (q : CallPhase), (u.setPhase id q).phase id = q := fun u q => Function.update_self ..
  cases hp : s.phase id with
  | idle | done outcome =>
    rw [hp] at h
    cases h
  | queueing =>
    refine ⟨.queued id, s.setPhase id .waiting, rfl, by rw [step, hp], ?_⟩
    rw [hset]
    decide
  | waiting =>
    cases hs : s.slot id with
    | some o =>
      refine ⟨.receive id, s.setPhase id (.done (.delivered o)), rfl, by rw [step, hp, hs], ?_⟩
      rw [hset]
      exact Nat.zero_lt_two
    | none =>
      refine ⟨.expire id, s.setPhase id .expired, rfl, by rw [step, hp, hs], ?_⟩
      rw [hset]
      decide
  | expired =>
    refine ⟨.forget id, (s.remove id).setPhase id (.done .timedOut), rfl, by rw [step, hp], ?_⟩
    rw [hset]
    decide

end Calls

open Calls

/-- **Every call ends once, and rightly**: as closed if its frame could not be queued, and else by what came first of a reply to
it, its timeout and the shutdown; until then a step of its own is always open to it. -/
theorem each_call_ends_once {es : List Calls.Event} {s : Calls} (h : Reached es s) (id : String) :
    (∀ outcome, s.phase id = .done outcome → verdict id es = some outcome ∧ s.pending id = false) ∧
    (∀ outcome e t, s.phase id = .done outcome → s.step e = some t → t.phase id = .done outcome) ∧
    (s.pending id = false → ∀ o, s.step (.reply id o) = some s) ∧
    (∀ j o t, j ≠ id → s.step (.reply j o) = some t → t.entry id = s.entry id) ∧
    (∀ e t, s.step e = some t → e.of ≠ some id → t.phase id = s.phase id) ∧ (0 < (s.phase id).rank →
      ∃ e t, e.of = some id ∧ s.step e = some t ∧ (t.phase id).rank < (s.phase id).rank) := by
  refine ⟨fun outcome hd => ?_, fun outcome e t hd hs => done_of_moves (moves_of_step hs id) hd, fun hp o => ?_,
    fun j o t hj hs => ?_, fun e t hs he => phase_of_moves (moves_of_step hs id) he, s.exists_step⟩
  · have htold := told_of_reached h id
    rw [Told, show (s.entry id).phase = .done outcome from hd] at htold
    exact htold.2
  · rw [Calls.step, complete, hp]
    rfl
  have hm := moves_of_step hs id
  generalize s.entry id = x at hm
  generalize t.entry id = y at hm
  cases hm with
  | foreign => rfl
  | reply | late => exact absurd rfl hj

def answered : List Calls.Event := [.call "a", .queued "a", .reply "b" (.ok .null), .reply "a" (.ok .null), .receive "a"]

theorem answered_call_ends : ∃ s, Reached answered s ∧ s.phase "a" = .done (.delivered (.ok .null)) ∧
      verdict "a" answered = some (.delivered (.ok .null)) ∧ s.pending "a" = false := by
  have hrun : ∃ s, answered.foldlM Calls.step Calls.new = some s ∧ s.phase "a" = .done (.delivered (.ok .null)) :=
    ⟨_, rfl, rfl⟩
  obtain ⟨s, hs, hd⟩ := hrun
  exact ⟨s, Run.of_foldlM _ hs, hd, (each_call_ends_once (Run.of_foldlM _ hs) "a").1 _ hd⟩

/-- A reply that comes between the timeout of a call and the removal of its entry finds the id registered, and is lost. -/
theorem reply_lost_at_timeout : ∃ s t, Reached [.call "a", .queued "a", .expire "a"] s ∧ s.pending "a" = true ∧
      Reached ([.call "a", .queued "a", .expire "a"] ++ [.reply "a" (.ok .null)] ++ [.forget "a"]) t ∧
      t.phase "a" = .done .timedOut := by
  refine ⟨_, _, Run.of_foldlM _ (show _ = some _ from rfl), rfl, Run.of_foldlM _ (show _ = some _ from rfl), rfl⟩

/-- **The table keeps no entry of a call that is over**, and no call that waits finds its channel dropped. -/
theorem entries_are_awaited {es : List Calls.Event} {s : Calls} (h : Reached es s) (id : String) :
    (s.pending id = true → 0 < (s.phase id).rank) ∧ s.step (.lost id) = none := by
  have htold := told_of_reached h id
  simp only [Told, entry] at htold
  simp only [Calls.step]
  cases hq : s.phase id with
  | waiting =>
    rw [hq] at htold
    cases hs : s.slot id <;> simp_all [CallPhase.rank]
  | _ => simp_all [CallPhase.rank]

theorem expired_call_awaited : ∃ s, Reached [.call "a", .queued "a", .expire "a"] s ∧ s.pending "a" = true ∧
    0 < (s.phase "a").rank := by
  have hrun : Reached [.call "a", .queued "a", .expire "a"] _ := Run.of_foldlM _ rfl
  exact ⟨_, hrun, rfl, (entries_are_awaited hrun "a").1 rfl⟩

end Ferrowl.Ocpp.Wire
