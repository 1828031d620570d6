import Ferrowl.CsmsView
import Ferrowl.ReadLog
import Ferrowl.StationLifecycle
/-!
# MessageTee — the messages of a charging station and their way into its log

The client of a station keeps its last messages in a buffer (`push_capped`), and its view writes the ones that are new to the
module's log at the end of a refresh.  Messages are numbered by one counter for the whole program; the view remembers the highest
number it has written.  `render` is the text of a payload.
-/
namespace Ferrowl.Ocpp.Tee

open List

open Wire (Value)
open Csms (Dir)

structure OcppMessage where
  seq : Nat
  ts : Nat
  direction : Dir
  name : String
  payload : Value
  ok : Option Bool
  context : String
  scope : Scope

structure Content where
  ts : Nat
  direction : Dir
  name : String
  payload : Value
  ok : Option Bool
  context : String
  scope : Scope

def OcppMessage.new (seq : Nat) (c : Content) : OcppMessage :=
  ⟨seq, c.ts, c.direction, c.name, c.payload, c.ok, c.context, c.scope⟩

def maxMessages : Nat := 200

def pushCapped (buf : List OcppMessage) (msg : OcppMessage) : List OcppMessage :=
  let buf := buf ++ [msg]
  if maxMessages < buf.length then buf.drop (buf.length - maxMessages) else buf

theorem pushCapped_eq (buf : List OcppMessage) (msg : OcppMessage) : pushCapped buf msg = (buf ++ [msg]).rtake maxMessages := by
  simp only [pushCapped, List.rtake]
  split
  · rfl
  · rw [Nat.sub_eq_zero_of_le (by omega), drop_zero]

section
variable {D : Type} (render : Value → String)

def OcppMessage.logLine (m : OcppMessage) : String :=
  let dir := match m.direction with
    | .in => "<-"
    | .out => "->"
  let status := match m.ok with
    | some true => " ok"
    | some false => " ERR"
    | none => ""
  let ctx := if m.context.isEmpty then "" else " (" ++ m.context ++ ")"
  dir ++ " " ++ m.name ++ status ++ ctx ++ " " ++ render m.payload

/-- A view with its client's buffer; `recorded` has all messages ever recorded, `teed` the ones whose line was written to the
log, and `nextSeq` is the counter, which other modules draw from as well. -/
structure TeeView (D : Type) where
  station : StationView D
  buffer : List OcppMessage
  loggedSeq : Nat
  nextSeq : Nat
  recorded : List OcppMessage
  teed : List OcppMessage

inductive Event (D : Type) where
  | record (c : Content)
  | drawn
  | view (e : StationView.Event D)

namespace TeeView

def new (station : StationView D) (drawn : Nat) : TeeView D := ⟨station, [], 0, drawn + 1, [], []⟩

def record (v : TeeView D) (c : Content) : TeeView D :=
  { v with
    buffer := pushCapped v.buffer (.new v.nextSeq c)
    recorded := v.recorded ++ [.new v.nextSeq c]
    nextSeq := v.nextSeq + 1 }

def tee (v : TeeView D) : TeeView D :=
  let new := v.buffer.filter fun m => decide (v.loggedSeq < m.seq)
  { v with
    station := v.station.write (new.map fun m => (.info, m.logLine render))
    teed := v.teed ++ new
    loggedSeq := new.foldl (fun seq m => max seq m.seq) v.loggedSeq }

def defers (s : StationView D) : Bool := s.pending.isSome || s.backend.requestStop.2.toBool

def returnsEarly (s : StationView D) (x : StationAmbient) : Option (ConfirmedSetup D) → Bool
  | none => false
  | some setup =>
    let s := s.settle x
    decide (setup.spec.role = .server) || decide (setup.spec.version ≠ s.spec.version) || defers s

def refresh (v : TeeView D) (x : StationAmbient) (confirmed : Option (ConfirmedSetup D)) : TeeView D :=
  let u := { v with station := v.station.refresh x confirmed }
  if returnsEarly v.station x confirmed then u else u.tee render

def step (v : TeeView D) : Event D → TeeView D
  | .record c => v.record c
  | .drawn => { v with nextSeq := v.nextSeq + 1 }
  | .view (.refresh x confirmed) => v.refresh render x confirmed
  | .view e => { v with station := v.station.step e }

def after (v : TeeView D) (es : List (Event D)) : TeeView D := es.foldl (step render) v

end TeeView

/-- How many messages the events record after the last refresh among them, `n` having been recorded before. -/
def sinceRefresh (n : Nat) : List (Event D) → Nat
  | [] => n
  | .record _ :: es => sinceRefresh (n + 1) es
  | .view (.refresh _ _) :: es => sinceRefresh 0 es
  | _ :: es => sinceRefresh n es

/-- No more messages are recorded between two refreshes than the buffer holds. -/
def paced (n : Nat) : List (Event D) → Bool
  | [] => true
  | .record _ :: es => paced (n + 1) es
  | .view (.refresh _ _) :: es => decide (n ≤ maxMessages) && paced 0 es
  | _ :: es => paced n es

def TeeView.Reaches : TeeView D → List (Event D) → Prop
  | _, [] => True
  | v, e :: es =>
    (match e with
      | .view (.refresh x confirmed) => returnsEarly v.station x confirmed = false
      | _ => True) ∧ TeeView.Reaches (v.step render e) es

/-! ## The buffer -/

/-- **The buffer holds the last messages, numbered in ascending order.** -/
structure TeeView.Kept (v : TeeView D) : Prop where
  buffer : v.buffer = v.recorded.rtake maxMessages
  ascending : v.recorded.Pairwise fun a b => a.seq < b.seq
  drawn : ∀ m ∈ v.recorded, m.seq < v.nextSeq

namespace TeeView

variable {render}

theorem kept_new (station : StationView D) (drawn : Nat) : (TeeView.new station drawn).Kept :=
  ⟨(rtake_nil maxMessages).symm, .nil, nofun⟩

variable {v : TeeView D}

theorem Kept.record (h : v.Kept) (c : Content) : (v.record c).Kept := by
  refine ⟨?_, ?_, ?_⟩
  · simp only [TeeView.record, pushCapped_eq, h.buffer]
    exact (ReadLog.rtake_append_singleton _ _ _).symm
  · refine pairwise_append.2 ⟨h.ascending, pairwise_singleton _ _, fun a ha b hb => ?_⟩
    cases mem_singleton.1 hb
    exact h.drawn a ha
  intro m hm
  rcases mem_append.1 hm with hm | hm
  · exact Nat.lt_succ_of_lt (h.drawn m hm)
  · cases mem_singleton.1 hm
    exact Nat.lt_succ_self _

theorem Kept.step (h : v.Kept) (e : Event D) : (v.step render e).Kept := by
  cases e with
  | record c => exact h.record c
  | drawn => exact ⟨h.buffer, h.ascending, fun m hm => Nat.lt_succ_of_lt (h.drawn m hm)⟩
  | view e =>
    cases e with
    | refresh x confirmed =>
      simp only [TeeView.step, refresh]
      split <;> exact ⟨h.buffer, h.ascending, h.drawn⟩
    | _ => exact ⟨h.buffer, h.ascending, h.drawn⟩

theorem Kept.after (h : v.Kept) (es : List (Event D)) : (v.after render es).Kept := by
  induction es generalizing v with
  | nil => exact h
  | cons e es ih => exact ih (h.step e)

/-! ## The log -/

/-- All but the last `n` messages were written to the log, and the highest number that was tells them apart. -/
structure Caught (v : TeeView D) (n : Nat) : Prop where
  rest : ∃ rest, v.recorded = v.teed ++ rest ∧ rest.length = n ∧ ∀ m ∈ rest, v.loggedSeq < m.seq
  logged : ∀ m ∈ v.teed, m.seq ≤ v.loggedSeq
  below : v.loggedSeq < v.nextSeq

theorem caught_new (station : StationView D) (drawn : Nat) : (TeeView.new station drawn).Caught 0 :=
  ⟨⟨[], rfl, rfl, nofun⟩, nofun, Nat.succ_pos _⟩

theorem Caught.record {n : Nat} (h : v.Caught n) (c : Content) : (v.record c).Caught (n + 1) := by
  obtain ⟨rest, hrec, hlen, hrest⟩ := h.rest
  refine ⟨⟨rest ++ [.new v.nextSeq c], ?_, ?_, ?_⟩, h.logged, Nat.lt_succ_of_lt h.below⟩
  · simp [TeeView.record, hrec]
  · rw [length_append, hlen, length_singleton]
  intro m hm
  rcases mem_append.1 hm with hm | hm
  · exact hrest m hm
  · cases mem_singleton.1 hm
    exact h.below

theorem filter_unlogged {seq : Nat} {old new : List OcppMessage} (hold : ∀ m ∈ old, m.seq ≤ seq)
    (hnew : ∀ m ∈ new, seq < m.seq) : (old ++ new).filter (fun m => decide (seq < m.seq)) = new := by
  rw [filter_append, filter_eq_nil_iff.2, nil_append, filter_eq_self]
  · exact fun m hm => decide_eq_true (hnew m hm)
  · exact fun m hm => by simpa using hold m hm

theorem le_foldl_max (l : List OcppMessage) (n : Nat) :
    n ≤ l.foldl (fun seq m => max seq m.seq) n ∧ ∀ m ∈ l, m.seq ≤ l.foldl (fun seq m => max seq m.seq) n := by
  induction l generalizing n with
  | nil => exact ⟨Nat.le_refl _, nofun⟩
  | cons a l ih =>
    obtain ⟨hn, hl⟩ := ih (max n a.seq)
    refine ⟨(Nat.le_max_left _ _).trans hn, fun m hm => ?_⟩
    rcases mem_cons.1 hm with rfl | hm
    · exact (Nat.le_max_right _ _).trans hn
    · exact hl m hm

theorem foldl_max_lt {l : List OcppMessage} {n k : Nat} (hn : n < k) (hl : ∀ m ∈ l, m.seq < k) :
    l.foldl (fun seq m => max seq m.seq) n < k := by
  induction l generalizing n with
  | nil => exact hn
  | cons a l ih =>
    refine ih (Nat.max_lt.2 ⟨hn, hl a mem_cons_self⟩) fun m hm => hl m (mem_cons_of_mem a hm)

/-- **A refresh that comes to the messages writes the ones the log does not have**, while the buffer still has them. -/
theorem Caught.tee {n : Nat} (h : v.Caught n) (hk : v.Kept) (hn : n ≤ maxMessages) : (v.tee render).Caught 0 := by
  obtain ⟨rest, hrec, hlen, hrest⟩ := h.rest
  -- the buffer ends in what is not logged, and everything before that is
  have hbuf : v.buffer = v.teed.rtake (maxMessages - rest.length) ++ rest := by
    rw [hk.buffer, hrec]
    exact ReadLog.rtake_append_of_le _ (hlen ▸ hn)
  have hnew : v.buffer.filter (fun m => decide (v.loggedSeq < m.seq)) = rest := by
    rw [hbuf]
    exact filter_unlogged (fun m hm => h.logged m (mem_of_mem_drop hm)) hrest
  obtain ⟨hle, hmax⟩ := le_foldl_max rest v.loggedSeq
  refine ⟨⟨[], ?_, rfl, nofun⟩, ?_, ?_⟩
  · simp [TeeView.tee, hnew, hrec]
  · simp only [TeeView.tee, hnew]
    intro m hm
    rcases mem_append.1 hm with hm | hm
    · exact (h.logged m hm).trans hle
    · exact hmax m hm
  · simp only [TeeView.tee, hnew]
    refine foldl_max_lt h.below fun m hm => hk.drawn m ?_
    rw [hrec]
    exact mem_append_right _ hm

theorem Caught.after {n : Nat} (h : v.Caught n) (hk : v.Kept) {es : List (Event D)}
    (hpaced : paced n es = true) (hr : v.Reaches render es) : (v.after render es).Caught (sinceRefresh n es) := by
  induction es generalizing v n with
  | nil => exact h
  | cons e es ih =>
    have hks : (v.step render e).Kept := hk.step e
    cases e with
    | record c => exact ih (h.record c) hks hpaced hr.2
    | drawn => exact ih ⟨h.rest, h.logged, Nat.lt_succ_of_lt h.below⟩ hks hpaced hr.2
    | view e =>
      cases e with
      | refresh x confirmed =>
        obtain ⟨hn, hpaced⟩ := Bool.and_eq_true_iff.1 hpaced
        refine ih ?_ hks hpaced hr.2
        have hearly : returnsEarly v.station x confirmed = false := hr.1
        simp only [TeeView.step, refresh, hearly, Bool.false_eq_true, if_false]
        exact Caught.tee ⟨h.rest, h.logged, h.below⟩ ⟨hk.buffer, hk.ascending, hk.drawn⟩ (of_decide_eq_true hn)
      | _ => exact ih ⟨h.rest, h.logged, h.below⟩ hks hpaced hr.2

variable (render)

theorem after_append (v : TeeView D) (es fs : List (Event D)) : v.after render (es ++ fs) = (v.after render es).after render fs :=
  foldl_append

theorem after_records (v : TeeView D) (cs : List Content) :
    (v.after render (cs.map .record)).station = v.station ∧ (v.after render (cs.map .record)).teed = v.teed ∧
      (v.after render (cs.map .record)).recorded.length = v.recorded.length + cs.length := by
  induction cs generalizing v with
  | nil => exact ⟨rfl, rfl, rfl⟩
  | cons c cs ih =>
    obtain ⟨hstation, hteed, hlen⟩ := ih (v.record c)
    have hrec : (v.record c).recorded.length = v.recorded.length + 1 := length_append
    refine ⟨hstation, hteed, hlen.trans ?_⟩
    rw [hrec, length_cons]
    omega

theorem length_teed_refresh_le (h : v.Kept) (x : StationAmbient) (confirmed : Option (ConfirmedSetup D)) :
    (v.refresh render x confirmed).teed.length ≤ v.teed.length + maxMessages := by
  have hlen : v.buffer.length ≤ maxMessages := h.buffer ▸ ReadLog.length_rtake_le _ _
  simp only [refresh]
  split
  · exact Nat.le_add_right _ _
  · simp only [TeeView.tee, length_append]
    exact Nat.add_le_add_left ((length_filter_le _ _).trans hlen) _

theorem refresh_recorded (v : TeeView D) (x : StationAmbient) (confirmed : Option (ConfirmedSetup D)) :
    (v.refresh render x confirmed).recorded = v.recorded := by
  simp only [refresh]
  split <;> rfl

theorem teed_of_returnsEarly {x : StationAmbient} {confirmed : Option (ConfirmedSetup D)}
    (h : returnsEarly v.station x confirmed = true) : (v.refresh render x confirmed).teed = v.teed := by
  simp [refresh, h]

theorem after_early_refresh (hk : v.Kept) {x : StationAmbient}
    {confirmed : Option (ConfirmedSetup D)} (hearly : returnsEarly v.station x confirmed = true)
    (cs : List Content) (y : StationAmbient) :
    let u := v.after render (.view (.refresh x confirmed) :: (cs.map .record ++ [.view (.refresh y none)]))
    u.recorded.length = v.recorded.length + cs.length ∧ u.teed.length ≤ v.teed.length + maxMessages := by
  have hrun : v.after render (.view (.refresh x confirmed) :: (cs.map .record ++ [.view (.refresh y none)])) =
      ((v.refresh render x confirmed).after render (cs.map .record)).refresh render y none :=
    after_append render (v.refresh render x confirmed) (cs.map .record) [.view (.refresh y none)]
  obtain ⟨-, hteed, hrec⟩ := after_records render (v.refresh render x confirmed) cs
  have hkept : ((v.refresh render x confirmed).after render (cs.map .record)).Kept :=
    Kept.after (hk.step (.view (.refresh x confirmed))) _
  refine ⟨?_, ?_⟩
  · rw [hrun, refresh_recorded, hrec, refresh_recorded]
  · have hle := length_teed_refresh_le render hkept y none
    rwa [← hrun, hteed, teed_of_returnsEarly render hearly] at hle

end TeeView

theorem paced_records (cs : List Content) (n : Nat) (es : List (Event D)) :
    paced n (cs.map .record ++ es) = paced (n + cs.length) es := by
  induction cs generalizing n with
  | nil => rfl
  | cons c cs ih =>
    rw [map_cons, cons_append, paced, ih, length_cons]
    congr 1
    omega

theorem sinceRefresh_records (cs : List Content) (n : Nat) (es : List (Event D)) :
    sinceRefresh n (cs.map .record ++ es) = sinceRefresh (n + cs.length) es := by
  induction cs generalizing n with
  | nil => rfl
  | cons c cs ih =>
    rw [map_cons, cons_append, sinceRefresh, ih, length_cons]
    congr 1
    omega

end

/-! ## Runs -/

def stationSpec : OcppSpec := ⟨"cs", .v1_6, .client, .ws, "127.0.0.1", 9000, "/cs"⟩

def upAmbient : StationAmbient := ⟨.ok (), .ok ()⟩

def startedStation : StationView Unit := ((StationView.new stationSpec "cs.toml" ()).handleStart upAmbient).1

def heartbeat : Content := ⟨0, .out, "Heartbeat", .object [], none, "", .cs⟩

def heartbeats (n : Nat) : List Content := List.replicate n heartbeat

def editSettings : Event Unit := .view (.refresh upAmbient (some ⟨stationSpec, "cs.toml", (), false⟩))

def editedRun (n : Nat) : List (Event Unit) :=
  (heartbeats n).map .record ++ editSettings :: ((heartbeats n).map .record ++ [.view (.refresh upAmbient none)])

theorem returnsEarly_editSettings :
    TeeView.returnsEarly startedStation upAmbient (some ⟨stationSpec, "cs.toml", (), false⟩) = true := by
  decide

namespace TeeView

end TeeView

end Ferrowl.Ocpp.Tee
