import Ferrowl.SerialClaims
/-!
# SerialSession — the tabs of a session and the serial lines they run on

The tabs of a session share one `SerialPathRegistry`.  A conflict check looks for claims under other names than the one the asking
module was built with, so the checks are right as long as no two open tabs use one name: neither of the tab, nor of its module
from before a rename, nor of an edit that is under way.

`:q` sends a tab a `:stop` and refreshes it while something is pending, for a second at most; then the tab is dropped, whatever
became of the stop.
-/
namespace Ferrowl
namespace Lifecycle

inductive Meanwhile (E V : Type) where
  | refresh (x : Ambient E) (confirmed : Option V)
  | taskEnds (id : Nat)

section
variable {E V W : Type}

def closeLoop (pending : W → Bool) (step : W → Meanwhile E V → W) : W → List (Meanwhile E V) → W
  | v, [] => v
  | v, .taskEnds id :: es => closeLoop pending step (step v (.taskEnds id)) es
  | v, .refresh x confirmed :: es =>
    if pending v then closeLoop pending step (step v (.refresh x confirmed)) es else v

def Meanwhile.Unconfirmed : Meanwhile E V → Prop
  | .refresh _ (some _) => False
  | _ => True

/-- A refresh finds the stopped task ended or its grace period over; `mine` has the numbers of the task. -/
def Settles (deadline : Nat) (mine : Nat → Bool) : Bool → List (Meanwhile E V) → Prop
  | _, [] => False
  | ended, .taskEnds id :: es => Settles deadline mine (ended || mine id) es
  | ended, .refresh x _ :: es => ended = true ∨ deadline ≤ x.now ∨ Settles deadline mine ended es

variable {pending : W → Bool} {step : W → Meanwhile E V → W}

theorem closeLoop_keeps {I : W → Prop} (hI : ∀ v e, I v → e.Unconfirmed → I (step v e)) {es : List (Meanwhile E V)}
    (hes : ∀ e ∈ es, e.Unconfirmed) {v : W} (h : I v) : I (closeLoop pending step v es) := by
  induction es generalizing v with
  | nil => exact h
  | cons e es ih =>
    have hrest := ih (fun e' he' => hes e' (List.mem_cons_of_mem e he')) (hI v e h (hes e List.mem_cons_self))
    cases e with
    | taskEnds id => exact hrest
    | refresh x confirmed =>
      rw [closeLoop]
      split
      · exact hrest
      · exact h

theorem closeLoop_settled (InFlight : Bool → W → Prop) (Done : W → Prop) {deadline : Nat} {mine : Nat → Bool}
    (hends : ∀ ended v id, InFlight ended v → InFlight (ended || mine id) (step v (.taskEnds id)))
    (hwaits : ∀ ended v x, InFlight ended v → InFlight ended (step v (.refresh x none)) ∨ Done (step v (.refresh x none)))
    (hsettles : ∀ ended v x, InFlight ended v → ended = true ∨ deadline ≤ x.now → Done (step v (.refresh x none)))
    (hpending : ∀ ended v, InFlight ended v → pending v = true)
    (hdone : ∀ v e, Done v → e.Unconfirmed → Done (step v e)) {es : List (Meanwhile E V)}
    (hes : ∀ e ∈ es, e.Unconfirmed) {ended : Bool} {v : W} (h : InFlight ended v) (hs : Settles deadline mine ended es) :
    Done (closeLoop pending step v es) := by
  induction es generalizing v ended with
  | nil => exact hs.elim
  | cons e es ih =>
    have hes' : ∀ e' ∈ es, e'.Unconfirmed := fun e' he' => hes e' (List.mem_cons_of_mem e he')
    cases e with
    | taskEnds id => exact ih hes' (hends ended v id h) hs
    | refresh x confirmed =>
      cases confirmed with
      | some edit => exact (hes _ List.mem_cons_self).elim
      | none =>
        rw [closeLoop, if_pos (hpending ended v h)]
        rcases hs with hs | hs | hs
        · exact closeLoop_keeps hdone hes' (hsettles ended v x h (Or.inl hs))
        · exact closeLoop_keeps hdone hes' (hsettles ended v x h (Or.inr hs))
        · rcases hwaits ended v x h with h' | h'
          · exact ih hes' h' hs
          · exact closeLoop_keeps hdone hes' h'

end

end Lifecycle

namespace Modbus

open Lifecycle

section
variable {Tls : Type} {expand : String → String}

namespace TabView

def Event.ofMeanwhile : Meanwhile InstanceError (SetupValues Tls) → Event Tls
  | .refresh x confirmed => .refresh x confirmed
  | .taskEnds _ => .taskEnds

def close (expand : String → String) (v : TabView Tls) (x : TabAmbient)
    (es : List (Meanwhile InstanceError (SetupValues Tls))) : TabView Tls :=
  closeLoop (fun v => v.pending.isSome) (fun v e => v.step expand (.ofMeanwhile e)) (v.handleStop x) es

def graceEnd (v : TabView Tls) (x : TabAmbient) : Nat :=
  match v.module.task with
  | .stopping _ deadline => deadline
  | _ => x.now + 100

structure Closes (v : TabView Tls) (x : TabAmbient) (es : List (Meanwhile InstanceError (SetupValues Tls))) : Prop where
  backed : v.standing.Backed
  unconfirmed : ∀ e ∈ es, e.Unconfirmed
  settles : v.module.task.phase ≠ .idle → Settles (v.graceEnd x) (fun _ => true) (!v.module.task.active) es

def EndsStopped (op : PendingLifecycle (Reload Tls) (SetupEdit Tls)) : Prop :=
  op = .stop ∨ ∃ edit, op = .applySetup edit (some .stop)

def Done (v : TabView Tls) : Prop := v.pending = none ∧ v.module.task = .idle

/-- A stop was asked for last, and its task has until `deadline`. -/
def InFlight (deadline : Nat) (ended : Bool) (v : TabView Tls) : Prop :=
  ∃ op h, v.pending = some op ∧ EndsStopped op ∧ v.module.task = .stopping h deadline ∧ (ended = true → h.finished = true)

variable {v : TabView Tls}

theorem inFlight_handleStop (hb : v.standing.Backed) (ha : v.standing.Awaited) (x : TabAmbient) :
    (v.module.task = .idle ∧ (v.handleStop x).Done) ∨ (v.module.task.phase ≠ .idle ∧
      (v.handleStop x).InFlight (v.graceEnd x) (!v.module.task.active)) := by
  rw [handleStop]
  cases hp : v.pending with
  | some op =>
    obtain ⟨h, d, ht⟩ := exists_stopping hb hp
    refine Or.inr ⟨(fun h => by rw [ht] at h; cases h), ?_⟩
    have hend : (!v.module.task.active) = true → h.finished = true := by
      simp [TaskState.active, TaskState.handle, ht]
    rw [show v.graceEnd x = d by rw [graceEnd, ht]]
    cases op with
    | applySetup edit next => exact ⟨_, h, rfl, Or.inr ⟨edit, rfl⟩, ht, hend⟩
    | _ => exact ⟨_, h, rfl, Or.inl rfl, ht, hend⟩
  | none =>
    have hq : v.standing.Quiet := ha.quiet (by rw [standing, hp]; rfl)
    rcases v.module.requestStop_cases x.now with ⟨h, ht, hr⟩ | ⟨hn, hr⟩ <;> rw [hr]
    · refine Or.inr ⟨(fun hi => by rw [ht] at hi; cases hi), .stop, h.tell, rfl, Or.inl rfl, ?_, ?_⟩
      · rw [graceEnd, ht]
      · simp [TaskState.active, TaskState.handle, ht, Task.tell]
    have hidle : v.module.task = .idle := by
      cases ht : v.module.task with
      | idle => rfl
      | running h => exact absurd (by rw [ht]; rfl) hn
      | stopping h d => exact absurd (by rw [standing, ht]; rfl) hq.2
    exact Or.inl ⟨hidle, rfl, hidle⟩

theorem done_follow (ht : v.module.task = .idle) {op : PendingLifecycle (Reload Tls) (SetupEdit Tls)} (hop : EndsStopped op)
    (stopped : Except InstanceError Unit) (x : TabAmbient) : (v.follow expand op stopped x).Done := by
  rcases hop with rfl | ⟨edit, rfl⟩
  · exact ⟨rfl, ht⟩
  · exact ⟨rfl, rfl⟩

theorem inFlight_settle {deadline : Nat} {ended : Bool} (h : v.InFlight deadline ended)
    (x : TabAmbient) : (v.settle expand x).Done ∨
      (v.settle expand x).InFlight deadline ended ∧ ¬ (ended = true ∨ deadline ≤ x.now) := by
  obtain ⟨op, t, hp, hop, ht, hend⟩ := h
  rw [settle, hp]
  rcases v.module.pollStop_cases x.now x.joined with ⟨hw, hs⟩ | ⟨_, _, r, -, hs⟩ <;> rw [hs]
  · obtain ⟨hrun, hnow⟩ := hw t deadline ht
    refine Or.inr ⟨⟨op, t, rfl, hop, ht, hend⟩, fun hor => ?_⟩
    rcases hor with he | hd
    · cases hrun.symm.trans (hend he)
    · exact absurd hnow (Nat.not_lt.2 hd)
  · exact Or.inl (done_follow rfl hop r x)

theorem done_meanwhile {e : Meanwhile InstanceError (SetupValues Tls)} (h : v.Done)
    (he : e.Unconfirmed) : (v.step expand (.ofMeanwhile e)).Done := by
  rcases e with ⟨y, _ | edit⟩ | id
  · rw [Event.ofMeanwhile, step, refresh, settle, h.1]
    exact h
  · exact he.elim
  · exact ⟨h.1, by rw [Event.ofMeanwhile, step, h.2]; rfl⟩

theorem done_close (ha : v.standing.Awaited) {x : TabAmbient}
    {es : List (Meanwhile InstanceError (SetupValues Tls))} (hc : v.Closes x es) : (v.close expand x es).Done := by
  rcases inFlight_handleStop hc.backed ha x with ⟨-, hd⟩ | ⟨hbusy, hf⟩
  · exact closeLoop_keeps (I := Done) (fun _ _ => done_meanwhile) hc.unconfirmed hd
  refine closeLoop_settled (InFlight (v.graceEnd x)) Done ?_ (fun ended u y hu => ?_) (fun ended u y hu hor => ?_) ?_
    (fun _ _ => done_meanwhile) hc.unconfirmed hf (hc.settles hbusy)
  · rintro ended u id ⟨op, h, hp, hop, ht, hend⟩
    exact ⟨op, h.ended, hp, hop, by rw [Event.ofMeanwhile, step, ht]; rfl, fun _ => rfl⟩
  · exact (inFlight_settle hu y).symm.imp_left And.left
  · exact (inFlight_settle hu y).resolve_right (fun h => h.2 hor)
  · rintro ended u ⟨op, h, hp, -⟩
    rw [hp]
    rfl

end TabView

end

namespace MonitorView

variable {expand : String → String}

def Event.ofMeanwhile : Meanwhile MonitorError MonitorEdit → Event
  | .refresh x confirmed => .refresh x confirmed
  | .taskEnds id => .taskEnds id

def close (expand : String → String) (v : MonitorView) (x : MonitorAmbient)
    (es : List (Meanwhile MonitorError MonitorEdit)) : MonitorView :=
  closeLoop (fun v => v.pending.isSome) (fun v e => v.step expand (.ofMeanwhile e)) (v.handleStop x) es

def Tracks (v : MonitorView) (id : Nat) : Bool := v.module.task.any (fun t => decide (t.id = id))

structure Closes (v : MonitorView) (x : MonitorAmbient) (es : List (Meanwhile MonitorError MonitorEdit)) : Prop where
  unconfirmed : ∀ e ∈ es, e.Unconfirmed
  settles : Settles (v.module.stopDeadline.getD (x.now + 100)) v.Tracks (!v.module.isRunning) es

def Done (v : MonitorView) : Prop := v.pending = none ∧ v.module.task = none

/-- A stop was asked for last, and the task, whose numbers are in `mine`, has until `deadline`. -/
structure InFlight (deadline : Nat) (mine : Nat → Bool) (ended : Bool) (v : MonitorView) : Prop where
  pending : ∃ op, v.pending = some op ∧ EndsStopped op
  deadline : v.module.stopDeadline = some deadline
  ended : ended = true → v.module.isRunning = false
  mine : ∀ id, mine id = true → v.Tracks id = true

theorem tracks_requestStop (m : MonitorModule) (now id : Nat) :
    (m.requestStop now).task.any (fun t => decide (t.id = id)) = m.task.any (fun t => decide (t.id = id)) := by
  rw [MonitorModule.requestStop]
  cases m.stopDeadline with
  | some d => rfl
  | none => cases m.task <;> rfl

theorem isRunning_requestStop (m : MonitorModule) (now : Nat) : (m.requestStop now).isRunning = m.isRunning := by
  rw [MonitorModule.requestStop]
  cases m.stopDeadline with
  | some d => rfl
  | none => simp only [MonitorModule.isRunning]; cases m.task <;> rfl

theorem stopDeadline_requestStop (m : MonitorModule) (now : Nat) :
    (m.requestStop now).stopDeadline = some (m.stopDeadline.getD (now + 100)) := by
  rw [MonitorModule.requestStop]
  cases hd : m.stopDeadline with
  | some d => exact hd
  | none => rfl

variable {v : MonitorView}

theorem inFlight_handleStop (h : v.Sound) (x : MonitorAmbient) :
    (v.handleStop x).InFlight (v.module.stopDeadline.getD (x.now + 100)) v.Tracks (!v.module.isRunning) := by
  rw [handleStop]
  split
  · rename_i hp
    have hd : v.module.stopDeadline.isSome = true := by rw [← h.armed, hp]; rfl
    obtain ⟨d, hd⟩ := Option.isSome_iff_exists.1 hd
    exact ⟨⟨_, rfl, Or.inr ⟨_, rfl⟩⟩, by rw [hd]; rfl, fun he => by simpa using he, fun _ hi => hi⟩
  refine ⟨⟨_, rfl, Or.inl rfl⟩, stopDeadline_requestStop _ _, fun he => ?_, fun id hi => ?_⟩
  · rw [isRunning_requestStop]
    simpa using he
  · rw [Tracks, tracks_requestStop]
    exact hi

theorem inFlight_taskEnds {deadline : Nat} {mine : Nat → Bool} {ended : Bool} (h : v.InFlight deadline mine ended) (id : Nat) :
    (v.taskEnds id).InFlight deadline mine (ended || mine id) := by
  refine ⟨h.pending, h.deadline, fun he => ?_, fun id' hi => ?_⟩
  · rw [isRunning_eq_false]
    intro t ht
    obtain ⟨u, hu, rfl⟩ := Option.map_eq_some_iff.1 ht
    rcases Bool.or_eq_true_iff.1 he with he | he
    · exact endOf_finished (isRunning_eq_false.1 (h.ended he) u hu) id
    have := h.mine id he
    rw [Tracks, hu] at this
    simp only [Option.any_some, decide_eq_true_eq] at this
    rw [ReceiveTask.endOf, if_pos this]
  have := h.mine id' hi
  rw [Tracks] at this ⊢
  rw [taskEnds]
  cases hu : v.module.task with
  | none => rw [hu] at this; cases this
  | some u =>
    rw [hu] at this
    simp only [Option.map_some, Option.any_some, ReceiveTask.endOf]
    split_ifs <;> exact this

theorem inFlight_settle {deadline : Nat} {mine : Nat → Bool} {ended : Bool}
    (h : v.InFlight deadline mine ended) (x : MonitorAmbient) : (v.settle expand x).Done ∨
      (v.settle expand x).InFlight deadline mine ended ∧ ¬ (ended = true ∨ deadline ≤ x.now) := by
  obtain ⟨op, hp, hop⟩ := h.pending
  by_cases hw : v.module.isRunning = true ∧ x.now < deadline
  · have hs : v.settle expand x = v := by
      simp only [settle, hp, MonitorModule.pollStop, h.deadline, if_pos hw]
      rw [← hp]
    refine Or.inr ⟨hs.symm ▸ h, fun hor => ?_⟩
    rcases hor with he | hd
    · cases hw.1.symm.trans (h.ended he)
    · exact absurd hw.2 (Nat.not_lt.2 hd)
  rcases v.settle_cases expand x with hs | ⟨op', hp', hnone, -, hend⟩
  · have hn : (v.settle expand x).pending = none := by
      simp only [settle, hp, MonitorModule.pollStop, h.deadline, if_neg hw]
      exact (follow_follows expand op _ x).1
    rw [hs, hp] at hn
    cases hn
  · cases hp.symm.trans hp'
    exact Or.inl ⟨hnone, hend hop⟩

theorem done_meanwhile {e : Meanwhile MonitorError MonitorEdit} (h : v.Done) (he : e.Unconfirmed) :
    (v.step expand (.ofMeanwhile e)).Done := by
  rcases e with ⟨y, _ | edit⟩ | id
  · rw [Event.ofMeanwhile, step, refresh, settle, h.1]
    exact h
  · exact he.elim
  · exact ⟨h.1, by rw [Event.ofMeanwhile, step, taskEnds, h.2]; rfl⟩

theorem done_close (h : v.Sound) {x : MonitorAmbient} {es : List (Meanwhile MonitorError MonitorEdit)} (hc : v.Closes x es) :
    (v.close expand x es).Done := by
  refine closeLoop_settled (InFlight (v.module.stopDeadline.getD (x.now + 100)) v.Tracks) Done
    (fun ended u id hu => inFlight_taskEnds hu id) (fun ended u y hu => ?_) (fun ended u y hu hor => ?_)
    (fun ended u hu => ?_) (fun _ _ => done_meanwhile) hc.unconfirmed (inFlight_handleStop h x) hc.settles
  · exact (inFlight_settle hu y).symm.imp_left And.left
  · exact (inFlight_settle hu y).resolve_right (fun h => h.2 hor)
  · obtain ⟨op, hp, -⟩ := hu.pending
    rw [hp]
    rfl

end MonitorView

section
variable {Tls : Type}

/-- A tab that takes part in the session's registry of serial paths. -/
inductive SessionTab (Tls : Type) where
  | net (v : TabView Tls)
  | monitor (v : MonitorView)

inductive Creation (Tls : Type) where
  | net (spec : ModuleSpec) (device : LinkSettings Tls) (x : TabAmbient)
  | monitor (spec : ModuleSpec) (reconnect : Option Bool) (x : MonitorAmbient)

inductive TabEvent (Tls : Type) where
  | net (e : TabView.Event Tls)
  | monitor (e : MonitorView.Event)

inductive Closing (Tls : Type) where
  | net (x : TabAmbient) (es : List (Meanwhile InstanceError (SetupValues Tls)))
  | monitor (x : MonitorAmbient) (es : List (Meanwhile MonitorError MonitorEdit))

def Creation.name : Creation Tls → String
  | .net spec _ _ | .monitor spec _ _ => spec.name

def Creation.start : Creation Tls → TabEvent Tls
  | .net _ _ x => .net (.start x)
  | .monitor _ _ x => .monitor (.start x)

def TabEvent.newName : TabEvent Tls → Option String
  | .net e => e.newName
  | .monitor e => e.newName

namespace SessionTab

def moduleName : SessionTab Tls → String
  | net v => v.module.name
  | monitor v => v.module.name

def paths : SessionTab Tls → SerialPathRegistry
  | net v => v.module.paths
  | monitor v => v.module.paths

def attach (r : SerialPathRegistry) : SessionTab Tls → SessionTab Tls
  | net v => net { v with module := { v.module with paths := r } }
  | monitor v => monitor { v with module := { v.module with paths := r } }

def fresh (expand : String → String) (r : SerialPathRegistry) : Creation Tls → SessionTab Tls
  | .net spec device _ => net (.new expand spec device r)
  | .monitor spec reconnect _ => monitor (.new spec reconnect r)

def step (expand : String → String) : SessionTab Tls → TabEvent Tls → SessionTab Tls
  | net v, .net e => net (v.step expand e)
  | monitor v, .monitor e => monitor (v.step expand e)
  | t, _ => t

def close (expand : String → String) : SessionTab Tls → Closing Tls → Option (SessionTab Tls)
  | net v, .net x es => some (net (v.close expand x es))
  | monitor v, .monitor x es => some (monitor (v.close expand x es))
  | _, _ => none

/-- The tab has an instance that was started on a serial path and not stopped since. -/
def RunsOn (expand : String → String) (p : String) : SessionTab Tls → Prop
  | net v => v.module.task.phase ≠ .idle ∧ endpointSerialPath expand v.module.config.endpoint = some p
  | monitor v => v.module.task.isSome = true ∧ endpointSerialPath expand v.module.endpoint = some p

def name : SessionTab Tls → String
  | net v => v.spec.name
  | monitor v => v.spec.name

def Uses (n : String) : SessionTab Tls → Prop
  | net v => v.Uses n
  | monitor v => v.Uses n

def Closes : SessionTab Tls → Closing Tls → Prop
  | net v, .net x es => v.Closes x es
  | monitor v, .monitor x es => v.Closes x es
  | _, _ => True

end SessionTab

inductive SessionEvent (Tls : Type) where
  | create (c : Creation Tls)
  | on (i : Nat) (e : TabEvent Tls)
  | close (i : Nat) (c : Closing Tls)

structure Session (Tls : Type) where
  tabs : Nat → Option (SessionTab Tls)
  next : Nat
  paths : SerialPathRegistry

namespace Session

def empty : Session Tls := ⟨fun _ => none, 0, .empty⟩

def put (s : Session Tls) (i : Nat) (t : SessionTab Tls) : Session Tls :=
  { s with tabs := Function.update s.tabs i (some t), paths := t.paths }

def drop (s : Session Tls) (i : Nat) : Session Tls := { s with tabs := Function.update s.tabs i none }

def push (expand : String → String) (s : Session Tls) (c : Creation Tls) : Session Tls :=
  { s with tabs := Function.update s.tabs s.next (some (.fresh expand s.paths c)), next := s.next + 1 }

def step (expand : String → String) (s : Session Tls) : SessionEvent Tls → Session Tls
  | .create c => (s.push expand c).put s.next ((SessionTab.fresh expand s.paths c).step expand c.start)
  | .on i e =>
    match s.tabs i with
    | none => s
    | some t => s.put i ((t.attach s.paths).step expand e)
  | .close i c =>
    match s.tabs i with
    | none => s
    | some t =>
      match (t.attach s.paths).close expand c with
      | none => s
      | some t' => (s.put i t').drop i

/-- The conflict check of every open tab answers with a conflict exactly when another tab runs on the path. -/
def Exact (expand : String → String) (s : Session Tls) : Prop :=
  ∀ i t p, s.tabs i = some t →
    ((s.paths.conflict t.moduleName p).isSome = true ↔ ∃ j u, j ≠ i ∧ s.tabs j = some u ∧ u.RunsOn expand p)

/-- No open tab but `i` uses the name. -/
def Free (s : Session Tls) (i : Nat) (n : String) : Prop := ∀ j t, j ≠ i → s.tabs j = some t → ¬ t.Uses n

/-- The name of a new tab and of an edit is used by no other open tab, and closing a tab sees its task end. -/
def Clear (s : Session Tls) : SessionEvent Tls → Prop
  | .create c => s.Free s.next c.name
  | .on i e => ∀ n, e.newName = some n → s.Free i n
  | .close i c => ∀ t, s.tabs i = some t → t.Closes c

end Session

variable {expand : String → String}

namespace SessionTab

def claimant (expand : String → String) : SessionTab Tls → Claimant
  | net v => v.module.claimant expand
  | monitor v => v.module.claimant expand

variable {t : SessionTab Tls}

theorem runsOn_iff {p : String} : t.RunsOn expand p ↔ (t.claimant expand).path = some p := by
  cases t with
  | net v =>
    simp only [RunsOn, claimant, LinkModule.claimant]
    split_ifs with h <;> simp [h]
  | monitor v =>
    simp only [RunsOn, claimant, MonitorModule.claimant]
    split_ifs with h <;> simp [h]

theorem claimant_name (expand : String → String) (t : SessionTab Tls) : (t.claimant expand).name = t.moduleName := by
  cases t <;> rfl

theorem claimant_paths (t : SessionTab Tls) : (t.claimant expand).paths = t.paths := by
  cases t <;> rfl

theorem claimant_attach (t : SessionTab Tls) (r : SerialPathRegistry) :
    (t.attach r).claimant expand = { t.claimant expand with paths := r } := by
  cases t <;> rfl

theorem moduleName_attach (t : SessionTab Tls) (r : SerialPathRegistry) : (t.attach r).moduleName = t.moduleName := by
  cases t <;> rfl

theorem attach_paths (t : SessionTab Tls) : t.attach t.paths = t := by
  cases t <;> rfl

theorem uses_moduleName (t : SessionTab Tls) : t.Uses t.moduleName := by
  cases t <;> exact Or.inl rfl

variable {r : SerialPathRegistry}

theorem uses_attach {n : String} : (t.attach r).Uses n ↔ t.Uses n := by
  cases t <;> exact Iff.rfl

theorem closes_attach {c : Closing Tls} : (t.attach r).Closes c ↔ t.Closes c := by
  cases t <;> cases c
  · exact ⟨fun h => ⟨h.1, h.2, h.3⟩, fun h => ⟨h.1, h.2, h.3⟩⟩
  · exact Iff.rfl
  · exact Iff.rfl
  · exact ⟨fun h => ⟨h.1, h.2⟩, fun h => ⟨h.1, h.2⟩⟩

/-- What a tab keeps by itself, and that its claim is right. -/
def Sound (expand : String → String) : SessionTab Tls → Prop
  | net v => v.module.Sound expand ∧ v.standing.Awaited
  | monitor v => (v.module.claimant expand).Owns ∧ v.Sound

theorem Sound.owns (h : t.Sound expand) : (t.claimant expand).Owns := by
  cases t with
  | net v => exact h.1.owns
  | monitor v => exact h.1

theorem Sound.attach {r' : SerialPathRegistry} (h : (t.attach r).Sound expand)
    (hr : ∀ p, (t.moduleName, p) ∈ r'.claims ↔ (t.moduleName, p) ∈ r.claims) : (t.attach r').Sound expand := by
  have howns : ((t.attach r').claimant expand).Owns := fun p => by
    have := h.owns p
    rw [claimant_attach] at this ⊢
    rw [← this]
    exact (t.claimant_name expand).symm ▸ hr p
  cases t with
  | net v => exact ⟨⟨howns, h.1.path⟩, h.2⟩
  | monitor v => exact ⟨howns, h.2.closed, h.2.armed, h.2.untouched⟩

/-- The names a tab uses claim nothing, but for the one of its module. -/
def NamesFree (t : SessionTab Tls) : Prop := ∀ n, t.Uses n → n ≠ t.moduleName → ∀ p, (n, p) ∉ t.paths.claims

/-- What a tab does that takes up at most the name `new`. -/
structure Change (expand : String → String) (t u : SessionTab Tls) (new : Option String) : Prop where
  tidy : (t.claimant expand).Tidy (u.claimant expand)
  sound : u.Sound expand
  uses : ∀ n, u.Uses n → t.Uses n ∨ new = some n

theorem Sound.change (h : t.Sound expand) : Change expand t t none :=
  ⟨h.owns.refl, h, fun _ => Or.inl⟩

theorem Change.trans {u w : SessionTab Tls} (h : Change expand t u none) (h' : Change expand u w none) : Change expand t w none :=
  ⟨h.tidy.trans h'.tidy, h'.sound, fun n hn => (h'.uses n hn).elim (h.uses n) nofun⟩

theorem Change.namesFree {u : SessionTab Tls} (h : Change expand t u none) (hf : t.NamesFree) : u.NamesFree := by
  intro n hn
  have hfree := h.tidy.free (n := n)
  rw [claimant_name, claimant_name, claimant_paths, claimant_paths] at hfree
  exact hfree (hf n ((h.uses n hn).resolve_right nofun))

theorem change_step (h : t.Sound expand) (hf : t.NamesFree) (e : TabEvent Tls) : Change expand t (t.step expand e) e.newName := by
  have hstay : Change expand t t e.newName := ⟨h.owns.refl, h, fun _ => Or.inl⟩
  cases t with
  | net v =>
    cases e with
    | net e =>
      have htidy := TabView.tidy_step h.1 h.2 (hf v.spec.name (Or.inr (Or.inl rfl))) e
      exact ⟨htidy.toTidy, ⟨htidy.sound, TabView.awaited_step h.2 e⟩, fun n => TabView.uses_step h.2⟩
    | monitor e => exact hstay
  | monitor v =>
    cases e with
    | net e => exact hstay
    | monitor e =>
      have htidy := MonitorView.tidy_step h.1 hf e
      exact ⟨htidy, ⟨htidy.owns, MonitorView.sound_step expand h.2 e⟩, fun n => MonitorView.uses_step⟩

theorem Change.step {u : SessionTab Tls} (h : Change expand t u none) (hf : t.NamesFree)
    {e : TabEvent Tls} (he : e.newName = none) : Change expand t (u.step expand e) none :=
  h.trans (he ▸ change_step h.sound (h.namesFree hf) e)

theorem change_close {u : SessionTab Tls} (h : t.Sound expand) (hf : t.NamesFree)
    {c : Closing Tls} (hc : t.Closes c) (hu : t.close expand c = some u) :
    Change expand t u none ∧ (u.claimant expand).path = none := by
  cases t with
  | net v =>
    cases c with
    | monitor x es => cases hu
    | net x es =>
      cases hu
      constructor
      · have hstop : Change expand (.net v) (.net (v.handleStop x)) none := h.change.step hf (e := .net (.stop x)) rfl
        refine closeLoop_keeps (I := fun u => Change expand (net v) (net u) none) (fun u e hu he => ?_) hc.unconfirmed hstop
        rcases e with ⟨y, _ | edit⟩ | id
        · exact hu.step hf (e := .net (.refresh y none)) rfl
        · exact he.elim
        · exact hu.step hf (e := .net .taskEnds) rfl
      · exact LinkModule.claimant_idle (by rw [(TabView.done_close h.2 hc).2]; rfl)
  | monitor v =>
    cases c with
    | net x es => cases hu
    | monitor x es =>
      cases hu
      constructor
      · have hstop : Change expand (.monitor v : SessionTab Tls) (.monitor (v.handleStop x)) none :=
          h.change.step hf (e := .monitor (.stop x)) rfl
        refine closeLoop_keeps (I := fun u => Change expand (monitor v : SessionTab Tls) (monitor u) none)
          (fun u e hu he => ?_) hc.unconfirmed hstop
        rcases e with ⟨y, _ | edit⟩ | id
        · exact hu.step hf (e := .monitor (.refresh y none)) rfl
        · exact he.elim
        · exact hu.step hf (e := .monitor (.taskEnds id)) rfl
      · exact MonitorModule.claimant_idle (MonitorView.done_close h.2 hc).2

theorem sound_fresh (expand : String → String) (r : SerialPathRegistry) (c : Creation Tls)
    (hfree : ∀ p, (c.name, p) ∉ r.claims) : (fresh expand r c).Sound expand := by
  cases c with
  | net spec device x => exact ⟨⟨fun p => iff_of_false (hfree p) nofun, rfl⟩, nofun⟩
  | monitor spec reconnect x => exact ⟨fun p => iff_of_false (hfree p) nofun, nofun, rfl, nofun⟩

theorem uses_fresh {c : Creation Tls} {n : String} : (fresh expand r c).Uses n ↔ n = c.name := by
  cases c <;> simp [fresh, Uses, TabView.Uses, MonitorView.Uses, TabView.editName, MonitorView.editName, TabView.new,
    MonitorView.new, LinkModule.new, MonitorModule.new, Creation.name]

end SessionTab

namespace Session

/-- The tabs are sound, no two of them use one name, and every claim is one of theirs. -/
structure Sound (expand : String → String) (s : Session Tls) : Prop where
  tabs : ∀ i t, s.tabs i = some t → (t.attach s.paths).Sound expand
  apart : ∀ i t, s.tabs i = some t → ∀ n, t.Uses n → s.Free i n
  claimed : ∀ n p, (n, p) ∈ s.paths.claims → ∃ i t, s.tabs i = some t ∧ t.moduleName = n
  fresh : ∀ i, s.next ≤ i → s.tabs i = none

variable {s : Session Tls} {t : SessionTab Tls}

theorem Sound.namesFree (h : s.Sound expand) {i : Nat} (ht : s.tabs i = some t) : (t.attach s.paths).NamesFree := by
  intro n hn hne p hm
  rw [SessionTab.uses_attach] at hn
  rw [SessionTab.moduleName_attach] at hne
  obtain ⟨j, u, hu, hname⟩ := h.claimed n p (by cases t <;> exact hm)
  by_cases hj : j = i
  · subst hj
    cases ht.symm.trans hu
    exact hne hname.symm
  · exact h.apart i t ht n hn j u hj hu (hname ▸ u.uses_moduleName)

theorem Sound.exact (h : s.Sound expand) : s.Exact expand := by
  have howns : ∀ {i t}, s.tabs i = some t → ∀ p, (t.moduleName, p) ∈ s.paths.claims ↔ t.RunsOn expand p := by
    intro i t ht p
    have := (h.tabs i t ht).owns p
    rw [SessionTab.claimant_attach, SessionTab.claimant_name] at this
    rw [SessionTab.runsOn_iff]
    exact this
  intro i t p ht
  rw [SerialPathRegistry.conflict_isSome]
  constructor
  · rintro ⟨n, hn, hm⟩
    obtain ⟨j, u, hu, rfl⟩ := h.claimed n p hm
    refine ⟨j, u, fun hj => ?_, hu, (howns hu p).1 hm⟩
    subst hj
    cases ht.symm.trans hu
    exact hn rfl
  · rintro ⟨j, u, hj, hu, hr⟩
    refine ⟨u.moduleName, fun he => ?_, (howns hu p).2 hr⟩
    exact h.apart i t ht _ t.uses_moduleName j u hj hu (he ▸ u.uses_moduleName)

theorem put_tabs_self (s : Session Tls) (i : Nat) (t : SessionTab Tls) : (s.put i t).tabs i = some t :=
  Function.update_self ..

theorem put_tabs_of_ne (s : Session Tls) {i j : Nat} (hj : j ≠ i) (t : SessionTab Tls) : (s.put i t).tabs j = s.tabs j :=
  Function.update_of_ne hj ..

theorem update_tabs_cases {i j : Nat} {u w : SessionTab Tls} (h : Function.update s.tabs i (some u) j = some w) :
    j = i ∧ w = u ∨ j ≠ i ∧ s.tabs j = some w := by
  rw [Function.update_apply] at h
  split_ifs at h with hj
  · exact Or.inl ⟨hj, (Option.some_inj.1 h).symm⟩
  · exact Or.inr ⟨hj, h⟩

theorem Sound.apart_update (h : s.Sound expand) {i : Nat} {u : SessionTab Tls} (hu : ∀ n, u.Uses n → s.Free i n) {j k : Nat}
    {w x : SessionTab Tls} (hw : Function.update s.tabs i (some u) j = some w) {n : String} (hn : w.Uses n) (hk : k ≠ j)
    (hx : Function.update s.tabs i (some u) k = some x) : ¬x.Uses n := by
  intro hxn
  rcases update_tabs_cases hw with ⟨rfl, rfl⟩ | ⟨hj, hw'⟩ <;> rcases update_tabs_cases hx with ⟨rfl, rfl⟩ | ⟨hk', hx'⟩
  · exact hk rfl
  · exact hu n hn k x hk' hx' hxn
  · exact hu n hxn j w hj hw' hn
  · exact h.apart j w hw' n hn k x hk hx' hxn

theorem drop_tabs (s : Session Tls) (i j : Nat) : (s.drop i).tabs j = if j = i then none else s.tabs j :=
  Function.update_apply ..

theorem Sound.put (h : s.Sound expand) {i : Nat} {u : SessionTab Tls} (ht : s.tabs i = some t)
    {new : Option String} (hc : SessionTab.Change expand (t.attach s.paths) u new)
    (hnew : ∀ n, new = some n → s.Free i n) : (s.put i u).Sound expand := by
  have huses : ∀ n, u.Uses n → s.Free i n := fun n hn =>
    (hc.uses n hn).elim (fun hu => h.apart i t ht n (SessionTab.uses_attach.1 hu)) (hnew n)
  -- the claims under the names of other tabs stay
  have hframe : ∀ n p, n ≠ t.moduleName → n ≠ u.moduleName → ((n, p) ∈ u.paths.claims ↔ (n, p) ∈ s.paths.claims) := by
    intro n p hn hn'
    have := hc.tidy.frame n p
    rw [SessionTab.claimant_name, SessionTab.claimant_name, SessionTab.moduleName_attach, SessionTab.claimant_paths,
      SessionTab.claimant_attach] at this
    exact this hn hn'
  refine ⟨fun j w hw => ?_, fun j w hw n hn k x hk hx => h.apart_update huses hw hn hk hx, fun n p hm => ?_, fun j hj => ?_⟩
  · rcases update_tabs_cases hw with ⟨rfl, rfl⟩ | ⟨hj, hw⟩
    · exact (SessionTab.attach_paths w).symm ▸ hc.sound
    refine (h.tabs j w hw).attach fun p => hframe _ p (fun he => ?_) (fun he => ?_)
    · exact h.apart i t ht _ t.uses_moduleName j w hj hw (he ▸ w.uses_moduleName)
    · exact huses _ u.uses_moduleName j w hj hw (he ▸ w.uses_moduleName)
  · by_cases hn : n = u.moduleName
    · exact ⟨i, u, put_tabs_self s i u, hn.symm⟩
    by_cases hn' : n = t.moduleName
    · have hgone := hc.tidy.gone
      rw [SessionTab.claimant_name, SessionTab.claimant_name, SessionTab.moduleName_attach, SessionTab.claimant_paths] at hgone
      exact absurd hm (hn' ▸ hgone (fun he => hn (hn'.trans he.symm)) p)
    obtain ⟨j, w, hw, hname⟩ := h.claimed n p ((hframe n p hn' hn).1 hm)
    refine ⟨j, w, ?_, hname⟩
    rw [put_tabs_of_ne s, hw]
    rintro rfl
    cases ht.symm.trans hw
    exact hn' hname.symm
  · rw [put_tabs_of_ne s, h.fresh j hj]
    rintro rfl
    exact nomatch ht.symm.trans (h.fresh j hj)

theorem Sound.drop (h : s.Sound expand) {i : Nat} (ht : s.tabs i = some t)
    (hpath : (t.claimant expand).path = none) : (s.drop i).Sound expand := by
  have hsub : ∀ {j w}, (s.drop i).tabs j = some w → j ≠ i ∧ s.tabs j = some w := by
    intro j w hw
    rw [drop_tabs] at hw
    split_ifs at hw with hj
    exact ⟨hj, hw⟩
  refine ⟨fun j w hw => h.tabs j w (hsub hw).2, fun j w hw n hn k x hk hx => ?_, fun n p hm => ?_, fun j hj => ?_⟩
  · exact h.apart j w (hsub hw).2 n hn k x hk (hsub hx).2
  · obtain ⟨j, w, hw, rfl⟩ := h.claimed n p hm
    refine ⟨j, w, ?_, rfl⟩
    rw [drop_tabs, if_neg, hw]
    rintro rfl
    cases ht.symm.trans hw
    have := (h.tabs j t ht).owns p
    rw [SessionTab.claimant_attach, SessionTab.claimant_name, hpath] at this
    exact nomatch this.1 hm
  · rw [drop_tabs, h.fresh j hj, ite_self]

theorem Sound.push (h : s.Sound expand) {c : Creation Tls} (hc : s.Free s.next c.name) : (s.push expand c).Sound expand := by
  have hne : ∀ {j w}, s.tabs j = some w → j ≠ s.next := by
    rintro j w hw rfl
    exact nomatch hw.symm.trans (h.fresh _ le_rfl)
  have huses : ∀ n, (SessionTab.fresh expand s.paths c).Uses n → s.Free s.next n := fun n hn => SessionTab.uses_fresh.1 hn ▸ hc
  refine ⟨fun j w hw => ?_, fun j w hw n hn k x hk hx => h.apart_update huses hw hn hk hx, fun n p hm => ?_, fun j hj => ?_⟩
  · rcases update_tabs_cases hw with ⟨-, rfl⟩ | ⟨-, hw⟩
    · have hnone : ∀ p, (c.name, p) ∉ s.paths.claims := fun p hm => by
        obtain ⟨j, w, hw, hname⟩ := h.claimed _ p hm
        exact hc j w (hne hw) hw (hname ▸ w.uses_moduleName)
      have := SessionTab.sound_fresh expand s.paths c hnone
      cases c <;> exact this
    · exact h.tabs j w hw
  · obtain ⟨j, w, hw, hname⟩ := h.claimed n p hm
    exact ⟨j, w, (Function.update_of_ne (hne hw) ..).trans hw, hname⟩
  · exact (Function.update_of_ne (Nat.ne_of_gt hj) ..).trans (h.fresh j (Nat.le_of_succ_le hj))

theorem Sound.step (h : s.Sound expand) {e : SessionEvent Tls} (hc : s.Clear e) : (s.step expand e).Sound expand := by
  cases e with
  | create c =>
    have hpush := h.push hc
    have htab : (s.push expand c).tabs s.next = some (.fresh expand s.paths c) := Function.update_self ..
    have hstart : c.start.newName = none := by cases c <;> rfl
    have hattach : (SessionTab.fresh expand s.paths c).attach (s.push expand c).paths = .fresh expand s.paths c := by
      cases c <;> rfl
    have hchange := SessionTab.change_step (hpush.tabs _ _ htab) (hpush.namesFree htab) c.start
    refine hpush.put htab ?_ (fun n hn => nomatch (show none = some n from hn))
    rw [hattach] at hchange ⊢
    exact hstart ▸ hchange
  | on i e =>
    rw [Session.step]
    cases ht : s.tabs i with
    | none => exact h
    | some t => exact h.put ht (SessionTab.change_step (h.tabs i t ht) (h.namesFree ht) e) hc
  | close i c =>
    rw [Session.step]
    cases ht : s.tabs i with
    | none => exact h
    | some t =>
      dsimp only
      cases hu : (t.attach s.paths).close expand c with
      | none => exact h
      | some u =>
        obtain ⟨hchange, hpath⟩ := SessionTab.change_close (h.tabs i t ht) (h.namesFree ht)
          (SessionTab.closes_attach.2 (hc t ht)) hu
        exact (h.put ht hchange nofun).drop (put_tabs_self s i u) hpath

theorem sound_empty (expand : String → String) : (empty : Session Tls).Sound expand where
  tabs _ _ h := nomatch (show none = some _ from h)
  apart _ _ h := nomatch (show none = some _ from h)
  claimed _ _ h := absurd h List.not_mem_nil
  fresh _ _ := rfl

end Session

/-- **Serial path conflicts are exact** as long as the names of new tabs and of edits are used by no other open tab and closing
a tab sees its task end. -/
theorem conflicts_exact_of_steps_clear (expand : String → String) {es : List (SessionEvent Tls)} {s : Session Tls}
    (h : Run (fun s e t => t = Session.step expand s e) Session.empty es s)
    (hclear : ∀ pre e u, pre ++ [e] <+: es → Run (fun s e t => t = Session.step expand s e) Session.empty pre u →
      u.Clear e) : s.Exact expand := by
  refine Session.Sound.exact
    (h.invariant_of_steps (I := Session.Sound expand) (C := Session.Clear) ?_ hclear (Session.sound_empty expand))
  rintro t e u ht hc rfl
  exact ht.step hc

end

def demoCreation (name : String) (now : Nat) : Creation Unit :=
  .net ⟨name, "", .server, .rtu demoLine⟩ ⟨none, none, none, none, ()⟩ ⟨now, .ok (), .cancelled⟩

def demoRename (name : String) : SetupValues Unit :=
  ⟨name, "", .server, .rtu demoLine, none, none, none, none, none⟩

def renamed : List (SessionEvent Unit) :=
  [.create (demoCreation "A" 0), .on 0 (.net (.refresh ⟨1, .ok (), .cancelled⟩ (some (demoRename "B")))),
    .on 0 (.net .taskEnds), .on 0 (.net (.refresh ⟨2, .ok (), .cancelled⟩ none))]

/-- Once the tab `A` is renamed, a new tab can take its name.  Both run on one serial line, the module of the old tab still
under the name of the new one, and neither is told of the other. -/
theorem renamed_tab_hides_conflict : ∃ s t u v, Run (fun s e t => t = Session.step id s e) Session.empty renamed s ∧
      (∀ i t, s.tabs i = some t → t.name ≠ "A") ∧
      t = s.step id (.create (demoCreation "A" 3)) ∧ t.tabs 0 = some u ∧ t.tabs 1 = some v ∧
      u.RunsOn id "/dev/ttyUSB0" ∧ v.RunsOn id "/dev/ttyUSB0" ∧
      t.paths.conflict u.moduleName "/dev/ttyUSB0" = none ∧ t.paths.conflict v.moduleName "/dev/ttyUSB0" = none := by
  refine ⟨_, _, _, _, Run.of_foldl _ _ _, ?_, rfl, rfl, rfl, ⟨nofun, rfl⟩, ⟨nofun, rfl⟩, by decide, by decide⟩
  rintro (_ | i) t ht
  · cases ht
    decide
  · exact nomatch (show none = some t from ht)

def shared : List (SessionEvent Unit) :=
  [.create (demoCreation "A" 0), .create (demoCreation "B" 1),
    .close 0 (.net ⟨2, .ok (), .cancelled⟩ [.taskEnds 0, .refresh ⟨3, .ok (), .cancelled⟩ none])]

theorem shared_clear : Meets (Session.step id) Session.Clear Session.empty shared := by
  refine ⟨(fun j t _ ht => nomatch (show none = some t from ht)), fun j t hj ht => ?_, fun t ht => ?_, trivial⟩
  · rcases j with _ | j
    · cases ht
      rintro (h | h | h) <;> exact absurd h (by decide)
    · exact nomatch (show none = some t from ht)
  · cases ht
    refine ⟨nofun, fun e he => ?_, fun _ => Or.inl rfl⟩
    rcases List.mem_pair.1 he with rfl | rfl <;> trivial

/-- The conflict is gone with it. -/
theorem shared_line_exact : ∃ s t, Run (fun s e t => t = Session.step id s e) Session.empty shared s ∧ s.tabs 1 = some t ∧
      ((s.paths.conflict t.moduleName "/dev/ttyUSB0").isSome = true ↔
        ∃ j u, j ≠ 1 ∧ s.tabs j = some u ∧ u.RunsOn id "/dev/ttyUSB0") :=
  ⟨_, _, Run.of_foldl _ _ _, rfl,
    conflicts_exact_of_steps_clear id (Run.of_foldl _ _ _) shared_clear.forall_prefix 1 _ "/dev/ttyUSB0" rfl⟩

end Modbus
end Ferrowl
