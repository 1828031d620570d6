import Ferrowl.OcppFrame
import Ferrowl.RunTrace
/-!
# OcppReader — answering the calls of the peer

The reader task of a connection (`conn.rs`) decodes the text frames of its websocket one after another.  A call is given to a
handler task of its own, which may take its time; of a frame that does not decode only the id of a call is recovered, to be
answered with an error.  An outgoing message is kept with the number of the frame it answers.

What the handler of an action returns is decided when it ends.  Frames other than text and the end of the stream are left out.
-/
namespace Ferrowl.Ocpp.Wire

open Function List Option

inductive OcppError where
  | unknownAction (name : String)
  | json (text : String)
  | validation (text : String)
  deriving DecidableEq, Repr

def OcppError.text : OcppError → String
  | unknownAction name => "unknown action: " ++ name
  | json text => "payload (de)serialization failed: " ++ text
  | validation text => text

def OcppError.toCallError (e : OcppError) : CallError :=
  match e with
  | unknownAction _ => .new .notImplemented e.text
  | json _ | validation _ => .new .formationViolation e.text

/-- The typed actions of a version of the protocol, as far as the reader needs them. -/
structure Version where
  Action : Type
  Response : Type
  decodeCall : String → Value → Except OcppError Action
  validate : Action → Except String Unit
  encodeResponse : Response → Except OcppError Value

variable {V : Version} {parse : String → Except String Value}

/-- The answer to a call, `handled` being what its handler returns. -/
def dispatchCall (V : Version) (id actionName : String) (payload : Value)
    (handled : V.Action → Except CallError V.Response) : OcppJMessage :=
  match V.decodeCall actionName payload with
  | .error e => .callError id e.toCallError
  | .ok action =>
    match V.validate action with
    | .error text => .callError id (.new .formationViolation ("validation failed: " ++ text))
    | .ok () =>
      match handled action with
      | .error e => .callError id e
      | .ok response =>
        match V.encodeResponse response with
        | .error e => .callError id e.toCallError
        | .ok payload => .callResult id payload

theorem dispatchCall_reply (id actionName : String) (payload : Value) (handled : V.Action → Except CallError V.Response) :
    (dispatchCall V id actionName payload handled).isReply = true ∧ (dispatchCall V id actionName payload handled).id = id := by
  rw [dispatchCall]
  repeat' split
  all_goals exact ⟨rfl, rfl⟩

structure HandlerTask where
  id : String
  action : String
  payload : Value

structure Reader where
  next : Nat
  handlers : Nat → Option HandlerTask
  sent : List (Nat × OcppJMessage)
  replies : List OcppJMessage
  status : List String

inductive ReaderEvent (V : Version) where
  | frame (text : String)
  | finish (n : Nat) (handled : V.Action → Except CallError V.Response)

namespace Reader

def new : Reader := ⟨0, fun _ => none, [], [], []⟩

def read (parse : String → Except String Value) (s : Reader) (text : String) : Reader :=
  match decode parse text with
  | .error e =>
    let answer := (recoverCallId parse text).map (fun id => (s.next, .callError id (.new .formationViolation e.text)))
    { s with
      next := s.next + 1
      sent := s.sent ++ answer.toList
      status := s.status ++ ["OCPP-J framing error: " ++ e.text] }
  | .ok (.call id action payload) =>
    { s with next := s.next + 1, handlers := Function.update s.handlers s.next (some ⟨id, action, payload⟩) }
  | .ok reply => { s with next := s.next + 1, replies := s.replies ++ [reply] }

def finish (s : Reader) (n : Nat) (handled : V.Action → Except CallError V.Response) : Reader :=
  match s.handlers n with
  | none => s
  | some task =>
    { s with
      handlers := Function.update s.handlers n none
      sent := s.sent ++ [(n, dispatchCall V task.id task.action task.payload handled)] }

def step (parse : String → Except String Value) (s : Reader) : ReaderEvent V → Reader
  | .frame text => s.read parse text
  | .finish n handled => s.finish n handled

def answers (sent : List (Nat × OcppJMessage)) (n : Nat) : List OcppJMessage :=
  (sent.filter (fun e => decide (e.1 = n))).map Prod.snd

def account (s : Reader) (n : Nat) : List String :=
  (s.handlers n).toList.map HandlerTask.id ++ (answers s.sent n).map OcppJMessage.id

end Reader

def ReaderEvent.text? : ReaderEvent V → Option String
  | frame text => some text
  | finish _ _ => none

def frames (es : List (ReaderEvent V)) : List String := es.filterMap ReaderEvent.text?

namespace Reader

/-- Every frame is answered as it has to be, and nothing but answers is sent. -/
structure Accounted (parse : String → Except String Value) (texts : List String) (s : Reader) : Prop where
  next : s.next = texts.length
  account : ∀ n, s.account n = (texts[n]?.bind (recoverCallId parse)).toList
  replies : ∀ e ∈ s.sent, e.2.isReply = true

theorem answers_append (sent : List (Nat × OcppJMessage)) (k : Nat) (m : OcppJMessage) (n : Nat) :
    answers (sent ++ [(k, m)]) n = answers sent n ++ if n = k then [m] else [] := by
  simp only [answers, filter_append, map_append]
  by_cases hk : n = k
  · simp [hk]
  · simp [hk, Ne.symm hk]

theorem owed_append (texts : List String) (text : String) (n : Nat) :
    (((texts ++ [text])[n]?).bind (recoverCallId parse)).toList =
      if n = texts.length then (recoverCallId parse text).toList
      else (texts[n]?.bind (recoverCallId parse)).toList := by
  split_ifs with hn
  · rw [hn, List.getElem?_concat_length]
    rfl
  rcases Nat.lt_or_ge n texts.length with hlt | hge
  · rw [List.getElem?_append_left hlt]
  · rw [List.getElem?_eq_none hge, List.getElem?_eq_none]
    rw [length_append, length_singleton]
    omega

theorem account_read (s : Reader) (text : String) (n : Nat) (hfree : s.account s.next = []) :
    (s.read parse text).account n = s.account n ++ if n = s.next then (recoverCallId parse text).toList else [] := by
  rw [read]
  cases hd : decode parse text with
  | error e =>
    dsimp only
    cases hid : recoverCallId parse text with
    | none =>
      simp only [map_none, toList_none, append_nil, ite_self]
      rfl
    | some id =>
      simp only [account, map_some, toList_some, answers_append, map_append]
      split_ifs
      · simp [OcppJMessage.id]
      · simp
  | ok m =>
    have hid := recoverCallId_of_decode hd
    cases m with
    | call id action payload =>
      rw [hid]
      simp only [account] at hfree ⊢
      by_cases hn : n = s.next
      · subst hn
        rw [update_self, if_pos rfl, hfree]
        rw [append_eq_nil_iff] at hfree
        rw [hfree.2]
        rfl
      · rw [update_of_ne hn, if_neg hn, append_nil]
    | callResult id payload | callError id e =>
      rw [hid]
      simp [account, OcppJMessage.isReply]

theorem account_finish (s : Reader) (k : Nat) (handled : V.Action → Except CallError V.Response) (n : Nat)
    (hsole : (s.account k).length ≤ 1) : (s.finish k handled).account n = s.account n := by
  rw [finish]
  cases hh : s.handlers k with
  | none => rfl
  | some task =>
    simp only [account, answers_append]
    by_cases hn : n = k
    · subst hn
      have hnil : answers s.sent n = [] := by
        simp only [account, hh, toList_some, map_cons, map_nil, length_append, length_map, length_singleton] at hsole
        exact length_eq_zero_iff.1 (by omega)
      rw [update_self, if_pos rfl, hnil, hh]
      simp [(dispatchCall_reply task.id task.action task.payload handled).2]
    · rw [update_of_ne hn, if_neg hn, append_nil]

variable {texts : List String} {s : Reader}

theorem Accounted.sole (h : s.Accounted parse texts) (n : Nat) : (s.account n).length ≤ 1 := by
  rw [h.account]
  cases texts[n]?.bind (recoverCallId parse) <;> simp

theorem Accounted.frame (h : s.Accounted parse texts) (text : String) :
    (s.read parse text).Accounted parse (texts ++ [text]) := by
  have hfree : s.account s.next = [] := by
    rw [h.account, h.next, List.getElem?_eq_none (Nat.le_refl _)]
    rfl
  refine ⟨?_, fun n => ?_, ?_⟩
  · rw [length_append, length_singleton, ← h.next, read]
    split <;> rfl
  · rw [account_read s text n hfree, owed_append, ← h.next]
    split_ifs with hn
    · rw [hn, hfree, nil_append]
    · rw [append_nil, h.account]
  rw [read]
  split
  · intro e he
    rcases mem_append.1 he with he | he
    · exact h.replies e he
    · obtain ⟨id, -, rfl⟩ := map_eq_some_iff.1 (mem_toList.1 he)
      rfl
  · exact h.replies
  · exact h.replies

theorem Accounted.finish (h : s.Accounted parse texts) (k : Nat) (handled : V.Action → Except CallError V.Response) :
    (s.finish k handled).Accounted parse texts := by
  refine ⟨?_, fun n => ?_, ?_⟩
  · rw [← h.next, Reader.finish]
    split <;> rfl
  · rw [account_finish s k handled n (h.sole k), h.account]
  rw [Reader.finish]
  split
  · exact h.replies
  intro e he
  rcases mem_append.1 he with he | he
  · exact h.replies e he
  · rw [mem_singleton.1 he]
    exact (dispatchCall_reply _ _ _ handled).1

theorem accounted_run {es : List (ReaderEvent V)} (h : Run (fun s e t => t = Reader.step parse s e) Reader.new es s) :
    s.Accounted parse (frames es) := by
  induction h with
  | nil => exact ⟨rfl, fun _ => rfl, nofun⟩
  | snoc _ hs ih =>
    rename_i e _
    rw [hs, frames, filterMap_append]
    cases e with
    | frame text => exact ih.frame text
    | finish k handled =>
      rw [show [ReaderEvent.finish k handled].filterMap ReaderEvent.text? = [] from rfl, append_nil]
      exact ih.finish k handled

end Reader

def refusing : Version := ⟨Unit, Unit, fun _ _ => .ok (), fun _ => .error "no", fun _ => .ok .null⟩

def shortCall : String → Except String Value := fun _ => .ok (.array [.int 2, .string "7", .string "Reset"])

end Ferrowl.Ocpp.Wire
