import Ferrowl.Backoff
import Ferrowl.Pdu
import Ferrowl.Ledger
import Ferrowl.RunTrace
/-!
# Client — the reconnect loop of the Modbus client

`ClientCore::run_reconnect_loop` with the parts it runs: `race_terminate`, which parks the commands that arrive during a
connection attempt, `ClientCore::run`, which hands out the parked commands before newer ones, and `wait_backoff`, which drops what
arrives while the client is disconnected.  `Event` has what a select can see next.

Received commands are numbered, and a log line that is written for a command carries its number in `about`.  The lines of polls
and writes are left out, as are the time limits.
-/
namespace Ferrowl.Modbus

open List

open Backoff (BackoffPolicy AttemptOutcome)

inductive Command where
  | terminate
  | writeSingleCoil (slave : UnitId) (addr : BitVec 16) (coil : Bool)
  | writeMultipleCoils (slave : UnitId) (addr : BitVec 16) (coils : List Bool)
  | writeSingleRegister (slave : UnitId) (addr value : BitVec 16)
  | writeMultipleRegister (slave : UnitId) (addr : BitVec 16) (values : List (BitVec 16))
  deriving DecidableEq, Repr

inductive Level where
  | info
  | warning
  | error
  deriving DecidableEq, Repr

namespace Client

abbrev Received := Command × Nat

structure LogLine where
  level : Level
  text : String
  about : Option Received
  deriving DecidableEq, Repr

def plainLine (level : Level) (text : String) : LogLine := ⟨level, text, none⟩

def droppedLine (command : Received) : LogLine :=
  ⟨.warning, "Command dropped: client is disconnected and reconnecting.", some command⟩

structure ConnectAttempt where
  reconnect : Bool
  client : Except String Unit

/-- Where the task is.  `parked` is the queue of `race_terminate`, `queued` the rest of it that the connection loop has not
taken yet. -/
inductive Phase where
  | connecting (parked : List Received)
  | running (reconnect hadSuccess : Bool) (queued : List Received)
  | writing (reconnect hadSuccess : Bool) (queued : List Received)
  | backingOff
  | ended (result : Except String Unit)

structure ClientState where
  phase : Phase
  backoff : Nat
  connected : Bool
  arrivals : List Command
  sent : List Received
  log : List LogLine
  status : List String

def ClientState.initial : ClientState where
  phase := .connecting []
  backoff := BackoffPolicy.default.initial
  connected := false
  arrivals := []
  sent := []
  log := []
  status := []

inductive Event where
  /-- `Receiver::recv` returns; `none` when every sender is gone. -/
  | received (command : Option Command)
  | attempted (attempt : ConnectAttempt)
  /-- `Commands::recv` takes a parked command. -/
  | dequeued
  /-- A tick's `poll_once`; the value tells whether a read got through. -/
  | polled (result : Except String Bool)
  /-- `handle_write_result`: an error only for a timeout or an io error. -/
  | written (result : Except String Unit)
  | elapsed

namespace ClientState

def attemptEnded (s : ClientState) (outcome : AttemptOutcome String) : ClientState :=
  match BackoffPolicy.default.afterAttempt s.backoff outcome with
  | .inl result => { s with phase := .ended result }
  | .inr backoff =>
    { s with phase := .backingOff, backoff := backoff,
             log := s.log ++ [plainLine .info ("Reconnecting in " ++ toString backoff ++ "s.")] }

def say (s : ClientState) (text : String) : ClientState := { s with status := s.status ++ [text] }

def connectFailed (s : ClientState) (parked : List Received) (error : String) (reconnect : Bool) :
    ClientState :=
  let s := { s with log := s.log ++ parked.map droppedLine }
  let s := if !reconnect then
      ({ s with log := s.log ++ [plainLine .error (error ++ " Reconnect disabled; client stopping.")] } :
        ClientState).say "Client disconnected"
    else { s with log := s.log ++ [plainLine .error error] }
  s.attemptEnded (.failed error reconnect false)

def runFailed (s : ClientState) (error : String) (reconnect hadSuccess : Bool) : ClientState :=
  let s := { s with connected := false }
  let s := if !reconnect then s.say "Client disconnected"
    else { s with log := s.log ++ [plainLine .warning error] }
  s.attemptEnded (.failed error reconnect hadSuccess)

def arrive (s : ClientState) (command : Command) : ClientState :=
  { s with arrivals := s.arrivals ++ [command] }

end ClientState

def closes (command : Option Command) : Bool := command.getD .terminate == .terminate

def step (s : ClientState) (event : Event) : Option ClientState :=
  match s.phase, event with
  | .connecting parked, .received command =>
    if closes command then some ((s.say "Client disconnected").attemptEnded .done)
    else
      let c := command.getD .terminate
      some { s.arrive c with phase := .connecting (parked ++ [(c, s.arrivals.length)]) }
  | .connecting parked, .attempted attempt =>
    match attempt.client with
    | .ok () => some { s.say "Client connected" with phase := .running attempt.reconnect false parked, connected := true }
    | .error error => some (s.connectFailed parked error attempt.reconnect)
  | .running reconnect hadSuccess queued, .polled result =>
    match result with
    | .ok read => some { s with phase := .running reconnect (hadSuccess || read) queued }
    | .error error => some (s.runFailed error reconnect hadSuccess)
  | .running reconnect hadSuccess (c :: queued), .dequeued =>
    some { s with phase := .writing reconnect hadSuccess queued, sent := s.sent ++ [c] }
  | .running reconnect hadSuccess [], .received command =>
    if closes command then
      let s := { s with log := s.log ++ [plainLine .info "Client gracefully terminated."] }
      let s := { s.say "Client disconnected" with connected := false }
      some (s.attemptEnded .done)
    else
      let c := command.getD .terminate
      some { s.arrive c with phase := .writing reconnect hadSuccess [], sent := s.sent ++ [(c, s.arrivals.length)] }
  | .writing reconnect hadSuccess queued, .written result =>
    match result with
    | .ok () => some { s with phase := .running reconnect hadSuccess queued }
    | .error error => some (s.runFailed error reconnect hadSuccess)
  | .backingOff, .received command =>
    if closes command then some { s.say "Client disconnected" with phase := .ended (.ok ()) }
    else
      let c := command.getD .terminate
      some { s.arrive c with log := s.log ++ [droppedLine (c, s.arrivals.length)] }
  | .backingOff, .elapsed => some { s with phase := .connecting [], backoff := BackoffPolicy.default.afterWait s.backoff }
  | _, _ => none

/-! ## The account of the received commands -/

def Phase.waiting : Phase → List Received
  | .connecting parked => parked
  | .running _ _ queued => queued
  | .writing _ _ queued => queued
  | .backingOff => []
  | .ended _ => []

def ClientState.reported (s : ClientState) : List Received := s.log.filterMap (·.about)

def ClientState.Tracked (s : ClientState) (lost : List Received) : Prop :=
  Tracks s.arrivals s.sent s.reported s.phase.waiting lost

/-- **Nothing is lost**: every received command is sent once, reported once or still waiting, and sending keeps the order of
receipt.  In an ended state nothing waits. -/
def ClientState.Accounted (s : ClientState) : Prop := s.Tracked []

def Event.cuts : Event → Bool
  | .received command => closes command
  | .polled (.error _) => true
  | .written (.error _) => true
  | _ => false

/-- No command waits in the queue when the attempt or the connection loop that holds it is cut off. -/
def ClientState.Keeps (s : ClientState) (event : Event) : Prop := event.cuts = true → s.phase.waiting = []

def ClientState.discarded (s : ClientState) (event : Event) : List Received :=
  if event.cuts then s.phase.waiting else []

theorem discarded_eq_nil {s : ClientState} {event : Event} : s.discarded event = [] ↔ s.Keeps event := by
  unfold ClientState.discarded ClientState.Keeps
  split <;> simp_all

section
variable {s t : ClientState} {lost : List Received}

theorem ClientState.Tracked.at {p : Phase} (h : s.Tracked lost) (hp : s.phase = p) :
    Tracks s.arrivals s.sent s.reported p.waiting lost := hp ▸ h

theorem filterMap_plain (log : List LogLine) (level : Level) (text : String) :
    (log ++ [plainLine level text]).filterMap (·.about) = log.filterMap (·.about) := by
  rw [filterMap_append]
  exact append_nil _

theorem filterMap_dropped (log : List LogLine) (commands : List Received) :
    (log ++ commands.map droppedLine).filterMap (·.about) = log.filterMap (·.about) ++ commands := by
  rw [filterMap_append, filterMap_map]
  exact congrArg _ filterMap_some

theorem tracked_attemptEnded (outcome : AttemptOutcome String) (h : Tracks s.arrivals s.sent s.reported [] lost) :
    (s.attemptEnded outcome).Tracked lost := by
  unfold ClientState.attemptEnded
  split
  · exact h
  · unfold ClientState.Tracked ClientState.reported
    rw [filterMap_plain]
    exact h

theorem tracked_runFailed (h : s.Tracked lost) (error : String) (reconnect hadSuccess : Bool) :
    (s.runFailed error reconnect hadSuccess).Tracked (s.phase.waiting ++ lost) := by
  refine tracked_attemptEnded _ ?_
  cases reconnect
  · exact Tracks.lose h
  · unfold ClientState.reported
    simp only [Bool.not_true, Bool.false_eq_true, if_false, filterMap_plain]
    exact Tracks.lose h

theorem tracked_connectFailed {parked : List Received} (hp : s.phase = .connecting parked) (h : s.Tracked lost)
    (error : String) (reconnect : Bool) : (s.connectFailed parked error reconnect).Tracked lost := by
  have h' : Tracks s.arrivals s.sent (s.reported ++ parked) [] lost := (h.at hp).report
  refine tracked_attemptEnded _ ?_
  cases reconnect
  all_goals
    unfold ClientState.reported
    simp only [Bool.not_true, Bool.not_false, Bool.false_eq_true, if_true, if_false, ClientState.say]
    rw [filterMap_plain, filterMap_dropped]
    exact h'

theorem tracked_step {event : Event} (h : s.Tracked lost) (hs : step s event = some t) :
    t.Tracked (s.discarded event ++ lost) := by
  unfold step at hs
  unfold ClientState.discarded
  split at hs
  · rename_i parked command hp
    split at hs <;> cases hs <;> rename_i hc
    · rw [Event.cuts, if_pos hc]
      exact tracked_attemptEnded _ (Tracks.lose h)
    · rw [Event.cuts, if_neg hc]
      exact (h.at hp).park _
  · rename_i parked attempt hp
    split at hs <;> cases hs
    · exact (h.at hp :)
    · exact tracked_connectFailed hp h _ _
  · rename_i reconnect hadSuccess queued result hp
    split at hs <;> cases hs
    · exact (h.at hp :)
    · exact tracked_runFailed h _ _ _
  · rename_i reconnect hadSuccess c queued hp
    cases hs
    exact (h.at hp).send
  · rename_i reconnect hadSuccess command hp
    split at hs <;> cases hs <;> rename_i hc
    · rw [Event.cuts, if_pos hc, hp]
      refine tracked_attemptEnded _ ?_
      unfold ClientState.reported
      simp only [ClientState.say, filterMap_plain]
      exact (h.at hp :)
    · rw [Event.cuts, if_neg hc]
      exact ((h.at hp).park _).send
  · rename_i reconnect hadSuccess queued result hp
    split at hs <;> cases hs
    · exact (h.at hp :)
    · exact tracked_runFailed h _ _ _
  · rename_i command hp
    split at hs <;> cases hs <;> rename_i hc
    · rw [Event.cuts, if_pos hc, hp]
      exact (h.at hp :)
    rw [Event.cuts, if_neg hc]
    have h' := ((h.at hp).park (command.getD .terminate)).report
    rw [Phase.waiting, nil_append, ClientState.reported, ← filterMap_dropped] at h'
    unfold ClientState.Tracked
    simp only [hp, ClientState.arrive]
    exact h'
  · rename_i hp
    cases hs
    exact (h.at hp :)
  · cases hs

theorem accounted_step_iff {event : Event} (h : ∃ lost, s.Tracked lost) (hs : step s event = some t) :
    t.Accounted ↔ s.Accounted ∧ s.Keeps event := by
  obtain ⟨lost, h⟩ := h
  rw [← discarded_eq_nil]
  constructor
  · intro ht
    obtain ⟨hd, rfl⟩ := append_eq_nil_iff.1 (Tracks.lost_nil (tracked_step h hs) ht)
    exact ⟨h, hd⟩
  rintro ⟨h', hd⟩
  have ht := tracked_step h' hs
  rw [hd] at ht
  exact ht

end

/-! ## Whole runs -/

/-- **No command is lost over a run of the reconnect loop exactly when no step of it cuts off a queue that still holds
commands**: then each command received was sent once, in the order of receipt, or has its one line in the log, or waits. -/
theorem commands_accounted_iff_queues_drained {events : List Event} {t : ClientState}
    (hrun : Run (fun s e t => step s e = some t) .initial events t) : t.Accounted ↔ ∀ pre e u, pre ++ [e] <+: events →
      Run (fun s e t => step s e = some t) .initial pre u → u.Keeps e := by
  have h₀ : ClientState.initial.Accounted := Tracks.nil
  have hdet : ∀ s e t u, step s e = some t → step s e = some u → t = u :=
    fun _ _ _ _ ht hu => Option.some.inj (ht.symm.trans hu)
  have hinv : ∀ s e t, (∃ lost, s.Tracked lost) → step s e = some t → ∃ lost, t.Tracked lost :=
    fun _ _ _ ⟨_, h⟩ hs => ⟨_, tracked_step h hs⟩
  exact hrun.iff_forall_prefix hdet hinv (fun _ _ _ => accounted_step_iff) ⟨[], h₀⟩ h₀

def coilWrite (addr : BitVec 16) : Command := .writeSingleCoil 1 addr true

def drainedRun : List Event :=
  [.received (some (coilWrite 0)), .attempted ⟨true, .ok ()⟩, .dequeued, .written (.error "timeout"),
    .received (some (coilWrite 1)), .received none]

theorem drained_run_accounted : ∃ t, Run (fun s e t => step s e = some t) .initial drainedRun t ∧ t.sent = [(coilWrite 0, 0)] ∧
      t.reported = [(coilWrite 1, 1)] ∧
      ∀ pre e u, pre ++ [e] <+: drainedRun → Run (fun s e t => step s e = some t) .initial pre u → u.Keeps e := by
  have hrun := Run.of_foldlM drainedRun (f := step) (s := .initial) rfl
  exact ⟨_, hrun, rfl, rfl, (commands_accounted_iff_queues_drained hrun).1 ⟨by decide, by decide⟩⟩

/-- **Two commands parked during an attempt, the write of the first one fails**: the second is neither sent nor reported. -/
theorem parked_command_lost_after_failed_write : ∃ t, Run (fun s e t => step s e = some t) .initial
        [.received (some (coilWrite 0)), .received (some (coilWrite 1)), .attempted ⟨true, .ok ()⟩, .dequeued,
          .written (.error "timeout"), .received none] t ∧
      t.phase = .ended (.ok ()) ∧ t.arrivals = [coilWrite 0, coilWrite 1] ∧ t.sent = [(coilWrite 0, 0)] ∧
      t.reported = [] ∧ ¬ t.Accounted := by
  refine ⟨_, Run.of_foldlM _ rfl, rfl, rfl, rfl, rfl, fun h => ?_⟩
  exact absurd h.once.length_eq (by decide)

end Client
end Ferrowl.Modbus
