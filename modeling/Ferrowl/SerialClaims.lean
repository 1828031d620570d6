import Ferrowl.MonitorLifecycle
/-!
# SerialClaims — the serial lines that tabs claim

A tab claims its serial path under the name its module was built with.  What a tab does to the registry is tidy
(`TabView.tidy_step`, `MonitorView.tidy_step`): its own claim follows its instance and the claims under other names stay,
provided that a name its module may take claims nothing yet.
-/
namespace Ferrowl.Modbus

open Lifecycle

section
variable {Tls : Type}

namespace LinkModule

/-- A module holds the path of its endpoint from a start until its instance is idle again. -/
def claimant (expand : String → String) (m : LinkModule Tls) : Claimant :=
  ⟨m.name, if m.task.phase = .idle then none else endpointSerialPath expand m.config.endpoint, m.paths⟩

variable {expand : String → String}

/-- The module's claim is right, and the path it would claim is the one of its endpoint. -/
structure Sound (expand : String → String) (m : LinkModule Tls) : Prop where
  owns : (m.claimant expand).Owns
  path : m.ownSerialPath = endpointSerialPath expand m.config.endpoint

/-- What the module does leaves it sound and the claims of others alone. -/
structure Tidy (expand : String → String) (m m' : LinkModule Tls) : Prop extends
    Claimant.Tidy (m.claimant expand) (m'.claimant expand) where
  path : m'.ownSerialPath = endpointSerialPath expand m'.config.endpoint

variable {m : LinkModule Tls}

theorem Tidy.sound {m' : LinkModule Tls} (h : m.Tidy expand m') : m'.Sound expand := ⟨h.owns, h.path⟩

theorem Tidy.trans {m' m'' : LinkModule Tls} (h : m.Tidy expand m') (h' : m'.Tidy expand m'') : m.Tidy expand m'' :=
  ⟨h.toTidy.trans h'.toTidy, h'.path⟩

theorem Sound.refl (h : m.Sound expand) : m.Tidy expand m := ⟨h.owns.refl, h.path⟩

theorem claimant_idle (h : m.task.phase = .idle) : (m.claimant expand).path = none := if_pos h

theorem Sound.tidy_task (h : m.Sound expand) {task : TaskState}
    (ht : task.phase = .idle ↔ m.task.phase = .idle) : m.Tidy expand { m with task := task } := by
  refine ⟨?_, h.path⟩
  rw [show claimant expand { m with task := task } = m.claimant expand by simp only [claimant, ht]]
  exact h.owns.refl

theorem tidy_start (h : m.Sound expand) (spawned : Except InstanceError Unit) : m.Tidy expand (m.start spawned).1 := by
  rcases m.start_cases spawned with ⟨-, hs⟩ | ⟨-, e, hs⟩ <;> rw [hs]
  · refine ⟨?_, h.path⟩
    cases hp : m.ownSerialPath with
    | some path =>
      have := (m.claimant expand).tidy_claim path
      simpa [claimant, TaskState.phase, claimed, hp, ← h.path] using this
    | none =>
      have := h.owns.refl
      simpa [claimant, TaskState.phase, claimed, hp, ← h.path] using this
  · exact h.refl

theorem tidy_dropped (h : m.Sound expand) : m.Tidy expand m.dropped := ⟨(m.claimant expand).tidy_release, h.path⟩

theorem tidy_reconfigure (h : m.Sound expand) (ht : m.task.phase = .idle)
    (config : InstanceConfig Tls) : m.Tidy expand (m.reconfigure expand config) :=
  ⟨h.owns.tidy_rename (claimant_idle ht) (fun hn => absurd rfl hn), rfl⟩

theorem tidy_new (h : m.Sound expand) (ht : m.task.phase = .idle) {spec : ModuleSpec}
    (hfree : spec.name ≠ m.name → ∀ p, (spec.name, p) ∉ m.paths.claims)
    (device : LinkSettings Tls) : m.Tidy expand (LinkModule.new expand spec device m.paths) :=
  ⟨h.owns.tidy_rename (claimant_idle ht) hfree, rfl⟩

theorem Follows.tidy {m' : LinkModule Tls} {spec spec' : ModuleSpec} {name : Option String}
    (hf : m.Follows expand spec name m' spec') (h : m.Sound expand) (ht : m.task.phase = .idle)
    (hfree : name = none → spec.name ≠ m.name → ∀ p, (spec.name, p) ∉ m.paths.claims) : m.Tidy expand m' := by
  cases hf with
  | left => exact h.refl
  | restarted spawned => exact tidy_start h spawned
  | reloaded device spawned hn =>
    have hnew := tidy_new h ht (hfree hn) device
    exact hnew.trans (tidy_start hnew.sound spawned)
  | edited config hn => exact tidy_reconfigure h ht config
  | applied config spawned hn =>
    have hre := tidy_reconfigure h ht config
    exact hre.trans (tidy_start hre.sound spawned)

theorem start_name (m : LinkModule Tls) (spawned : Except InstanceError Unit) : (m.start spawned).1.name = m.name := by
  rcases m.start_cases spawned with ⟨-, h⟩ | ⟨-, e, h⟩ <;> rw [h]

theorem Follows.names {m' : LinkModule Tls} {spec spec' : ModuleSpec} {name : Option String}
    (hf : m.Follows expand spec name m' spec') :
    (m'.name = m.name ∨ m'.name = spec.name) ∧ (spec' = spec ∨ name = some spec'.name) := by
  cases hf with
  | left => exact ⟨Or.inl rfl, Or.inl rfl⟩
  | restarted spawned => exact ⟨Or.inl (start_name _ _), Or.inl rfl⟩
  | reloaded device spawned hn => exact ⟨Or.inr (start_name _ _), Or.inl rfl⟩
  | edited config hn => exact ⟨Or.inl rfl, Or.inr hn⟩
  | applied config spawned hn => exact ⟨Or.inl (start_name _ _), Or.inr hn⟩

end LinkModule

namespace TabView

variable {expand : String → String}

variable {v : TabView Tls}

/-- The name of the spec claims nothing unless the module has it. -/
def SpecFree (v : TabView Tls) : Prop := v.spec.name ≠ v.module.name → ∀ p, (v.spec.name, p) ∉ v.module.paths.claims

variable {name : Option String} {u : TabView Tls}

theorem Acts.tidy (ha : v.Acts expand name u) (h : v.module.Sound expand) (hfree : v.editName.or name = none → v.SpecFree) :
    v.module.Tidy expand u.module := by
  cases ha with
  | kept hm => exact hm ▸ h.refl
  | begun t d hv hm =>
    rw [hm]
    refine h.tidy_task (iff_of_false nofun ?_)
    rw [show v.module.task.phase = .running from congrArg Standing.phase hv]
    exact nofun
  | ended hv hf hp =>
    have hd := LinkModule.tidy_dropped h
    exact hd.trans (hf.tidy hd.sound rfl fun hn => hd.free (hfree hn))

theorem tidy_handleStart (h : v.module.Sound expand) (x : TabAmbient) : v.module.Tidy expand (v.handleStart x).1.module := by
  rw [handleStart]
  split
  · exact h.refl
  · exact LinkModule.tidy_start h x.spawned

theorem tidy_step (h : v.module.Sound expand) (hv : v.standing.Awaited) (hfree : v.SpecFree)
    (e : Event Tls) : v.module.Tidy expand (v.step expand e).module := by
  cases e with
  | start x => exact tidy_handleStart h x
  | stop x => exact (handleStop_acts expand hv x).tidy h (fun _ => hfree)
  | restart x => exact (handleRestart_acts expand hv x).tidy h (fun _ => hfree)
  | reload loaded x => exact (handleReload_acts expand hv loaded x).tidy h (fun _ => hfree)
  | refresh x confirmed =>
    have hs := (v.settle_acts expand x).tidy h (fun _ => hfree)
    cases confirmed with
    | none => exact hs
    | some values =>
      have ha := applySetup_acts expand ((v.settle_moves expand x).awaited hv) values x
      exact hs.trans (ha.tidy hs.sound (by simp))
  | taskEnds => exact h.tidy_task (by rw [taskEnds_phase])

theorem awaited_step (hv : v.standing.Awaited) (e : Event Tls) : (v.step expand e).standing.Awaited := by
  by_cases hc : v.Clear e
  · exact (step_moves expand hv e hc).awaited hv
  · exact (step_stranded expand hc).awaited

def Uses (v : TabView Tls) (n : String) : Prop := n = v.module.name ∨ n = v.spec.name ∨ v.editName = some n

def Event.newName : Event Tls → Option String
  | .refresh _ (some values) => some values.name
  | _ => none

variable {n : String}

theorem Acts.uses (ha : v.Acts expand name u) (hn : u.Uses n) : v.Uses n ∨ name = some n := by
  cases ha with
  | kept hm hs hp he | begun t d hv hm hs hp he =>
    rw [Uses, hm, hs, ← or_assoc] at hn
    rcases hn with hn | hn
    · exact Or.inl (or_assoc.1 (Or.inl hn))
    · exact (he n hn).imp_left (Or.inr ∘ Or.inr)
  | ended hv hf hp =>
    obtain ⟨hm, hs⟩ := hf.names
    rw [Uses, editName_of_none hp] at hn
    rcases hn with hn | hn | hn
    · exact Or.inl (hm.elim (fun h => Or.inl (hn.trans h)) (fun h => Or.inr (Or.inl (hn.trans h))))
    · rcases hs with hs | hs
      · exact Or.inl (Or.inr (Or.inl (hs ▸ hn)))
      -- the spec is that of an edit, which waited or comes with the command
      rw [← hn, Option.or_eq_some_iff] at hs
      exact hs.imp (Or.inr ∘ Or.inr) And.right
    · cases hn

theorem uses_handleStart {x : TabAmbient} (hn : (v.handleStart x).1.Uses n) : v.Uses n := by
  rw [handleStart] at hn
  split at hn
  · rename_i hp
    rwa [Uses, editName, hp]
  · rwa [Uses, startModule, LinkModule.start_name] at hn

theorem uses_step {e : Event Tls} (hv : v.standing.Awaited) (hn : (v.step expand e).Uses n) : v.Uses n ∨ e.newName = some n := by
  cases e with
  | start x => exact Or.inl (uses_handleStart hn)
  | stop x => exact (handleStop_acts expand hv x).uses hn
  | restart x => exact (handleRestart_acts expand hv x).uses hn
  | reload loaded x => exact (handleReload_acts expand hv loaded x).uses hn
  | refresh x confirmed =>
    cases confirmed with
    | none => exact (v.settle_acts expand x).uses hn
    | some values =>
      rcases (applySetup_acts expand ((v.settle_moves expand x).awaited hv) values x).uses hn with h | h
      · exact Or.inl (((v.settle_acts expand x).uses h).resolve_right nofun)
      · exact Or.inr h
  | taskEnds => exact Or.inl hn

end TabView
end

namespace MonitorModule

variable {expand : String → String}

/-- A monitor holds the path of its endpoint as long as it tracks a receive task. -/
def claimant (expand : String → String) (m : MonitorModule) : Claimant :=
  ⟨m.name, if m.task.isSome then endpointSerialPath expand m.endpoint else none, m.paths⟩

variable {m : MonitorModule}

theorem claimant_idle (h : m.task = none) : (m.claimant expand).path = none := by
  rw [claimant, h]
  rfl

theorem tidy_start (h : (m.claimant expand).Owns) (x : MonitorAmbient) :
    (m.claimant expand).Tidy ((m.start expand x).1.claimant expand) := by
  rcases m.start_cases expand x with ⟨-, hs⟩ | ⟨-, e, hs⟩ <;> rw [hs]
  · cases hp : endpointSerialPath expand m.endpoint with
    | some path =>
      have := (m.claimant expand).tidy_claim path
      simpa [claimant, hp] using this
    | none =>
      have := h.refl
      simpa [claimant, hp] using this
  · exact h.refl

theorem tidy_requestStop (h : (m.claimant expand).Owns) (now : Nat) :
    (m.claimant expand).Tidy ((m.requestStop now).claimant expand) := by
  have hc : (m.requestStop now).claimant expand = m.claimant expand := by
    rw [requestStop]
    cases m.stopDeadline with
    | some d => rfl
    | none => simp [claimant]
  rw [hc]
  exact h.refl

theorem tidy_settled (expand : String → String) (m : MonitorModule) : (m.claimant expand).Tidy (m.settled.claimant expand) :=
  (m.claimant expand).tidy_release

theorem tidy_reconfigure (h : (m.claimant expand).Owns) (ht : m.task = none) {spec : ModuleSpec}
    (hfree : spec.name ≠ m.name → ∀ p, (spec.name, p) ∉ m.paths.claims) (reconnect : Option Bool) :
    (m.claimant expand).Tidy ((m.reconfigure spec reconnect).claimant expand) :=
  h.tidy_rename (claimant_idle ht) hfree

variable {m' : MonitorModule} {spec spec' : ModuleSpec} {name : Option String}

theorem Follows.tidy (hf : m.Follows expand spec name m' spec') (h : (m.claimant expand).Owns) (ht : m.task = none)
    (hfree : ∀ n, n = spec.name ∨ name = some n → n ≠ m.name → ∀ p, (n, p) ∉ m.paths.claims) :
    (m.claimant expand).Tidy (m'.claimant expand) := by
  have hnew : ∀ {spec'} reconnect, spec' = spec ∨ name = some spec'.name →
      (m.claimant expand).Tidy ((m.reconfigure spec' reconnect).claimant expand) :=
    fun reconnect hn => tidy_reconfigure h ht (hfree _ (hn.imp_left (congrArg ModuleSpec.name))) reconnect
  cases hf with
  | left => exact h.refl
  | restarted x => exact tidy_start h x
  | rebuilt reconnect hn => exact hnew reconnect hn
  | renewed reconnect x hn => exact (hnew reconnect hn).trans (tidy_start (hnew reconnect hn).owns x)

theorem requestStop_name (m : MonitorModule) (now : Nat) : (m.requestStop now).name = m.name := by
  rw [requestStop]
  cases m.stopDeadline <;> rfl

theorem start_name (m : MonitorModule) (x : MonitorAmbient) : (m.start expand x).1.name = m.name := by
  rcases m.start_cases expand x with ⟨-, hs⟩ | ⟨-, e, hs⟩ <;> rw [hs]

theorem Follows.names (hf : m.Follows expand spec name m' spec') :
    (m'.name = m.name ∨ m'.name = spec'.name) ∧ (spec' = spec ∨ name = some spec'.name) := by
  cases hf with
  | left => exact ⟨Or.inl rfl, Or.inl rfl⟩
  | restarted x => exact ⟨Or.inl (start_name _ _), Or.inl rfl⟩
  | rebuilt reconnect hn => exact ⟨Or.inr rfl, hn⟩
  | renewed reconnect x hn => exact ⟨Or.inr (start_name _ _), hn⟩

end MonitorModule

namespace MonitorView

variable {expand : String → String}

def Uses (v : MonitorView) (n : String) : Prop := n = v.module.name ∨ n = v.spec.name ∨ v.editName = some n

/-- The names a tab uses claim nothing, but for the one of its module. -/
def NamesFree (v : MonitorView) : Prop := ∀ n, v.Uses n → n ≠ v.module.name → ∀ p, (n, p) ∉ v.module.paths.claims

variable {v u : MonitorView} {name : Option String}

theorem Acts.tidy (ha : v.Acts expand name u) (h : (v.module.claimant expand).Owns) (hfree : v.NamesFree) :
    (v.module.claimant expand).Tidy (u.module.claimant expand) := by
  cases ha with
  | kept hm => exact hm ▸ h.refl
  | asked now hm => exact hm ▸ MonitorModule.tidy_requestStop h now
  | ended hf hp =>
    have hset := v.module.tidy_settled expand
    exact hset.trans (hf.tidy hset.owns rfl fun n hn => hset.free (hfree n (Or.inr hn)))

variable {n : String}

theorem Acts.uses (ha : v.Acts expand name u) (hn : u.Uses n) : v.Uses n ∨ name = some n := by
  cases ha with
  | kept hm hs hp he =>
    rw [Uses, hm, hs, ← or_assoc] at hn
    rcases hn with hn | hn
    · exact Or.inl (or_assoc.1 (Or.inl hn))
    · exact (he n hn).imp_left (Or.inr ∘ Or.inr)
  | asked now hm hs hp he =>
    rw [Uses, hm, hs, MonitorModule.requestStop_name, ← or_assoc] at hn
    rcases hn with hn | hn
    · exact Or.inl (or_assoc.1 (Or.inl hn))
    · exact (he n hn).imp_left (Or.inr ∘ Or.inr)
  | ended hf hp =>
    obtain ⟨hm, hs⟩ := hf.names
    have hspec : n = u.spec.name → v.Uses n := fun h => Or.inr (h ▸ hs.imp_left (congrArg ModuleSpec.name))
    rw [Uses, editName, hp] at hn
    rcases hn with hn | hn | hn
    · exact Or.inl (hm.elim (fun h => Or.inl (hn.trans h)) (fun h => hspec (hn.trans h)))
    · exact Or.inl (hspec hn)
    · cases hn

theorem tidy_step (h : (v.module.claimant expand).Owns) (hfree : v.NamesFree) (e : Event) :
    (v.module.claimant expand).Tidy ((v.step expand e).module.claimant expand) := by
  cases v.step_steps expand e with
  | acts ha => exact ha.tidy h hfree
  | edited hw ha =>
    have ht := hw.tidy h hfree
    exact ht.trans (ha.tidy ht.owns fun n hn => ht.free (hfree n ((hw.uses hn).resolve_right nofun)))
  | started x he hp hu => exact hu ▸ MonitorModule.tidy_start h x
  | ends id hu =>
    have := h.refl
    simpa only [hu, taskEnds, MonitorModule.claimant, Option.isSome_map] using this

theorem uses_step {e : Event} (hn : (v.step expand e).Uses n) : v.Uses n ∨ e.newName = some n := by
  cases v.step_steps expand e with
  | acts ha => exact ha.uses hn
  | edited hw ha =>
    rcases ha.uses hn with h | h
    · exact Or.inl ((hw.uses h).resolve_right nofun)
    · exact Or.inr h
  | started x he hp hu =>
    rw [hu, Uses, startModule, MonitorModule.start_name] at hn
    exact Or.inl hn
  | ends id hu =>
    rw [hu] at hn
    exact Or.inl hn

end MonitorView

end Ferrowl.Modbus
