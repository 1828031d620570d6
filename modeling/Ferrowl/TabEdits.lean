import Ferrowl.TabLifecycle
/-!
# TabEdits — an edit that waits for a stop

An edit confirmed while the instance of a tab runs is kept in the pending slot until the stop of that instance settles.  Until
then commands are merged into the slot and further edits overwrite it.  A refresh of the source that settles and then applies an
edit is two interims here, the refresh and the edit.
-/
namespace Ferrowl.Modbus

open Lifecycle

section
variable {Tls : Type}

/-- What may happen to a tab while a stop is in flight, a `:reload` apart. -/
inductive Interim (Tls : Type) where
  | command (c : MergedCommand) (x : TabAmbient)
  | edit (values : SetupValues Tls) (x : TabAmbient)
  | refresh (x : TabAmbient)
  | taskEnds

/-- What is asked of a tab: the values of the last edit with the device config they leave, and the last command since. -/
structure Asked (Tls : Type) where
  device : LinkSettings Tls
  values : SetupValues Tls
  next : Option MergedCommand

namespace Asked

/-- An edit asks for its values; the reconnect flag and the TLS settings are kept where it has none. -/
def edited (device : LinkSettings Tls) (values : SetupValues Tls) : Asked Tls where
  device := ⟨values.timeoutMs, values.delayMs, values.intervalMs, values.reconnect.or device.reconnect,
    values.tls.getD device.tls⟩
  values := values
  next := none

def after (a : Asked Tls) : Interim Tls → Asked Tls
  | .command c _ => { a with next := some c }
  | .edit values _ => edited a.device values
  | .refresh _ | .taskEnds => a

def spec (a : Asked Tls) : ModuleSpec := ⟨a.values.name, a.values.configPath, a.values.role, a.values.endpoint⟩

def config (a : Asked Tls) : InstanceConfig Tls := ⟨a.values.role, a.values.endpoint, resolveTiming a.device, a.device.tls⟩

def setup (a : Asked Tls) : SetupEdit Tls := ⟨a.values.name, a.values.configPath, a.config⟩

end Asked

theorem LinkModule.start_config (m : LinkModule Tls) (spawned : Except InstanceError Unit) :
    (m.start spawned).1.config = m.config ∧ (m.start spawned).1.ownSerialPath = m.ownSerialPath := by
  rcases m.start_cases spawned with ⟨-, h⟩ | ⟨-, e, h⟩
  · rw [h]
    exact ⟨rfl, rfl⟩
  · rw [h]
    exact ⟨rfl, rfl⟩

namespace TabView

def passes (expand : String → String) (v : TabView Tls) : Interim Tls → TabView Tls
  | .command .start x => (v.handleStart x).1
  | .command .stop x => v.handleStop x
  | .command .restart x => (v.handleRestart x).1
  | .edit values x => v.applySetup expand values x
  | .refresh x => v.settle expand x
  | .taskEnds => { v with module := { v.module with task := v.module.task.taskEnds } }

/-- The module on which `start` is called, if it is, as it stands at the call. -/
def starting (expand : String → String) (v : TabView Tls) : Interim Tls → Option (LinkModule Tls)
  | .command .start _ =>
    match v.pending with
    | some (.applySetup _ _) => none
    | _ => some v.module
  | .command .stop _ => none
  | .command .restart x =>
    match v.pending with
    | some _ => none
    | none =>
      match v.module.requestStop x.now with
      | (_, .ok ()) => none
      | (module, .error _) => some module
  | .edit values x =>
    match v.pending with
    | some _ => none
    | none =>
      match v.module.requestStop x.now with
      | (_, .ok ()) => none
      | (module, .error _) => some (module.reconfigure expand (v.resolve values).2.config)
  | .refresh x =>
    match v.pending with
    | none => none
    | some op =>
      match v.module.pollStop x.now x.joined with
      | (_, none) => none
      | (module, some _) =>
        match op with
        | .stop => none
        | .restart => some module
        | .reload what => some (.new expand v.spec what.device module.paths)
        | .applySetup edit next => if next = some .stop then none else some (module.reconfigure expand edit.config)
  | .taskEnds => none

/-- A module after an interim in which `start` was called on `call`: what the call left, or one that does not run unless
it did before. -/
inductive Started (before : LinkModule Tls) : Option (LinkModule Tls) → LinkModule Tls → Prop where
  | called (m : LinkModule Tls) (spawned : Except InstanceError Unit) : Started before (some m) (m.start spawned).1
  | uncalled {after : LinkModule Tls} (h : after.task.phase = .running → before.task.phase = .running) :
    Started before none after

variable (expand : String → String)

theorem settle_started (v : TabView Tls) (x : TabAmbient) :
    Started v.module (v.starting expand (.refresh x)) (v.settle expand x).module := by
  simp only [starting, settle]
  cases v.pending with
  | none => exact .uncalled id
  | some op =>
    rcases v.module.pollStop_cases x.now x.joined with ⟨-, hr⟩ | ⟨h, d, r, -, hr⟩
    · rw [hr]
      exact .uncalled id
    rw [hr]
    cases op with
    | stop => exact .uncalled fun h => by cases h
    | restart | reload what => exact .called _ x.spawned
    | applySetup edit next =>
      cases next with
      | none => exact .called _ x.spawned
      | some command =>
        cases command with
        | stop => exact .uncalled fun h => by cases h
        | start | restart => exact .called _ x.spawned

theorem command_started (v : TabView Tls) (c : MergedCommand) (x : TabAmbient) :
    Started v.module (v.starting expand (.command c x)) (v.passes expand (.command c x)).module := by
  cases c with
  | start =>
    simp only [starting, passes, handleStart]
    cases v.pending with
    | none => exact .called _ x.spawned
    | some op =>
      cases op with
      | applySetup edit next => exact .uncalled id
      | _ => exact .called _ x.spawned
  | stop =>
    simp only [starting, passes, handleStop]
    cases v.pending with
    | none =>
      rcases v.module.requestStop_cases x.now with ⟨h, -, hr⟩ | ⟨-, hr⟩
      · rw [hr]
        exact .uncalled fun h => by cases h
      · rw [hr]
        exact .uncalled id
    | some op => cases op <;> exact .uncalled id
  | restart =>
    simp only [starting, passes, handleRestart]
    cases v.pending with
    | none =>
      rcases v.module.requestStop_cases x.now with ⟨h, -, hr⟩ | ⟨-, hr⟩
      · rw [hr]
        exact .uncalled fun h => by cases h
      · rw [hr]
        exact .called _ x.spawned
    | some op => cases op <;> exact .uncalled id

def Unsettled (v : TabView Tls) : Interim Tls → Prop
  | .refresh x => (v.module.pollStop x.now x.joined).2 = none
  | _ => True

/-- One interim before the settling, with the record of the calls of `start`. -/
def Waits (expand : String → String) (s : TabView Tls × List (LinkModule Tls)) (i : Interim Tls)
    (t : TabView Tls × List (LinkModule Tls)) : Prop :=
  s.1.Unsettled i ∧ t = (s.1.passes expand i, s.2 ++ (s.1.starting expand i).toList)

structure Defers (v : TabView Tls) (asked : Asked Tls) : Prop where
  device : v.device = asked.device
  pending : v.pending = some (.applySetup asked.setup asked.next)

variable {v : TabView Tls}

theorem defers_applySetup {values : SetupValues Tls} {x : TabAmbient}
    (hp : (v.applySetup expand values x).pending.isSome = true) :
    (v.applySetup expand values x).Defers (.edited v.device values) := by
  cases hv : v.pending with
  | some op =>
    simp only [applySetup, hv]
    exact ⟨rfl, rfl⟩
  | none =>
    rcases v.module.requestStop_cases x.now with ⟨h, -, hr⟩ | ⟨-, hr⟩
    · simp only [applySetup, hv, hr]
      exact ⟨rfl, rfl⟩
    · -- the edit was applied inline, which leaves nothing pending
      simp [applySetup, hv, hr, write, startModule, reconfigure, adopt] at hp

variable {asked : Asked Tls}

theorem Defers.passes (hd : v.Defers asked) {i : Interim Tls} (hi : v.Unsettled i) :
    (v.passes expand i).Defers (asked.after i) ∧ v.starting expand i = none := by
  have hp := hd.pending
  cases i with
  | command c x =>
    cases c with
    | start =>
      simp only [TabView.passes, handleStart, starting, hp]
      exact ⟨⟨hd.device, rfl⟩, trivial⟩
    | stop =>
      simp only [TabView.passes, handleStop, starting, hp]
      exact ⟨⟨hd.device, rfl⟩, trivial⟩
    | restart =>
      simp only [TabView.passes, handleRestart, starting, hp]
      exact ⟨⟨hd.device, rfl⟩, trivial⟩
  | edit values x =>
    have hs : (v.applySetup expand values x).pending.isSome = true := by
      simp only [applySetup, hp]
      rfl
    refine ⟨?_, by simp only [starting, hp]⟩
    rw [Asked.after, ← hd.device]
    exact defers_applySetup expand hs
  | refresh x =>
    rcases hr : v.module.pollStop x.now x.joined with ⟨module, result⟩
    have hn : result = none := by
      rw [Unsettled, hr] at hi
      exact hi
    subst hn
    simp only [TabView.passes, settle, starting, hp, hr]
    exact ⟨⟨hd.device, rfl⟩, trivial⟩
  | taskEnds => exact ⟨⟨hd.device, hp⟩, rfl⟩

/-- **Until the stop settles, the slot holds what is asked and nothing is started.** -/
theorem run_defers (hd : v.Defers asked) {is : List (Interim Tls)}
    {s : TabView Tls × List (LinkModule Tls)} (h : Run (Waits expand) (v, []) is s) :
    s.1.Defers (is.foldl Asked.after asked) ∧ s.2 = [] := by
  induction h with
  | nil => exact ⟨hd, rfl⟩
  | snoc _ hs ih =>
    obtain ⟨hi, rfl⟩ := hs
    obtain ⟨hu, hnone⟩ := ih.1.passes expand hi
    rw [List.foldl_append, List.foldl_cons, List.foldl_nil]
    refine ⟨hu, ?_⟩
    simp only [hnone, ih.2, Option.toList_none, List.append_nil]

theorem settleApply_leaves (v : TabView Tls) (edit : SetupEdit Tls) (next : Option MergedCommand)
    (stopped : Except InstanceError Unit) (x : TabAmbient) :
    (v.settleApply expand edit next stopped x).spec =
        ⟨edit.name, edit.configPath, edit.config.role, edit.config.endpoint⟩ ∧
      (v.settleApply expand edit next stopped x).device = v.device ∧
      (v.settleApply expand edit next stopped x).pending = v.pending ∧
      (v.settleApply expand edit next stopped x).module =
        if next = some .stop then v.module.reconfigure expand edit.config
        else ((v.module.reconfigure expand edit.config).start x.spawned).1 := by
  cases next with
  | none => exact ⟨rfl, rfl, rfl, rfl⟩
  | some command => cases command <;> exact ⟨rfl, rfl, rfl, rfl⟩

theorem Defers.settles (hd : v.Defers asked) {x : TabAmbient}
    (hs : (v.module.pollStop x.now x.joined).2.isSome = true) :
    (v.settle expand x).spec = asked.spec ∧ (v.settle expand x).device = asked.device ∧
      (v.settle expand x).pending = none ∧
      (v.settle expand x).module =
        (if asked.next = some .stop then (v.module.pollStop x.now x.joined).1.reconfigure expand asked.config
        else (((v.module.pollStop x.now x.joined).1.reconfigure expand asked.config).start x.spawned).1) ∧
      v.starting expand (.refresh x) =
        if asked.next = some .stop then none
        else some ((v.module.pollStop x.now x.joined).1.reconfigure expand asked.config) := by
  rcases hr : v.module.pollStop x.now x.joined with ⟨module, _ | stopped⟩
  · rw [hr] at hs
    exact nomatch hs
  simp only [settle, starting, hd.pending, hr, follow]
  obtain ⟨hspec, hdev, hpend, hmod⟩ := settleApply_leaves expand
    (write { v with module := module, pending := none, discardedEdit := none } (v.discardedEdit.toList.map discardLine))
    asked.setup asked.next stopped x
  exact ⟨hspec, hdev.trans hd.device, hpend, hmod, rfl⟩

end TabView
end

end Ferrowl.Modbus
