import Ferrowl.CsmsLifecycle
/-!
# CsmsRuns — commands, refreshes and the tasks of a CSMS tab

The commands `:start`, `:stop` and `:restart`, the refreshes of the view and the ends of the listening task come in any order. 
Beside the tab the last command is kept, and a record of the tasks that were started and of the stops that took effect.
-/
namespace Ferrowl.Ocpp

open List

open Lifecycle

variable {D : Type}

/-! ## Events -/

inductive CsmsEvent where
  | command (c : MergedCommand) (x : CsmsAmbient)
  | refresh (x : CsmsAmbient)
  | taskEnds

def CsmsEvent.Spawns : CsmsEvent → Prop
  | command _ x | refresh x => ∃ selfSigned, x.bound = .ok selfSigned
  | taskEnds => True

inductive TaskEffect where
  | started
  | stopped
  deriving DecidableEq, Repr

def StartedSince (effects : List TaskEffect) : Prop :=
  ∃ pre post, effects = pre ++ .started :: post ∧ TaskEffect.stopped ∉ post

namespace CsmsState

def alive : CsmsState → Bool
  | idle => false
  | running t => !t.finished
  | stopping t => !t.finished

def startEffects (s : CsmsState) (x : CsmsAmbient) : List TaskEffect :=
  match s, x.bound with
  | idle, .ok _ => [.started]
  | _, _ => []

end CsmsState

namespace CsmsTab

def sees (v : CsmsTab D) (x : CsmsAmbient) : CsmsAmbient := { x with online := (v.settle x).backend.alive && x.online }

def handle (v : CsmsTab D) (x : CsmsAmbient) : MergedCommand → CsmsTab D
  | .start => (v.handleStart x).1
  | .stop => v.handleStop
  | .restart => (v.handleRestart x).1

def handleEffects (v : CsmsTab D) (x : CsmsAmbient) : MergedCommand → List TaskEffect
  | .start =>
    match v.pending with
    | some (.applySetup _ _) => []
    | _ => v.backend.startEffects x
  | .stop => []
  | .restart =>
    match v.pending, v.backend.requestStop with
    | none, (backend, .error .notRunning) => backend.startEffects x
    | _, _ => []

def settleEffects (v : CsmsTab D) (x : CsmsAmbient) : List TaskEffect :=
  match v.pending with
  | none => []
  | some op =>
    match v.backend.pollStop x with
    | (_, none) => []
    | (backend, some _) =>
      .stopped :: match op with
        | .restart | .applySetup (.inPlace _ _ _) (some .start) | .applySetup (.inPlace _ _ _) (some .restart) =>
          backend.startEffects x
        | _ => []

def autoBindEffects (v : CsmsTab D) (x : CsmsAmbient) : List TaskEffect :=
  if v.wantRunning ∧ x.online = false ∧ v.pending.isNone then v.backend.startEffects x else []

end CsmsTab

structure CsmsRun (D : Type) where
  tab : CsmsTab D
  last : Option MergedCommand
  effects : List TaskEffect

namespace CsmsRun

def init (tab : CsmsTab D) : CsmsRun D := ⟨tab, none, []⟩

def step (r : CsmsRun D) : CsmsEvent → CsmsRun D
  | .command c x => ⟨r.tab.handle x c, some c, r.effects ++ r.tab.handleEffects x c⟩
  | .refresh x =>
    let x := r.tab.sees x
    ⟨r.tab.refresh x none, r.last, r.effects ++ r.tab.settleEffects x ++ (r.tab.settle x).autoBindEffects x⟩
  | .taskEnds => { r with tab := { r.tab with backend := r.tab.backend.taskEnds } }

/-! ## Where a tab stands -/

inductive Stands (v : CsmsTab D) : Prop where
  | idle (hp : v.pending = none) (hb : v.backend = .idle)
  | running (hp : v.pending = none) (t : Task) (hb : v.backend = .running t)
  | waiting (op : PendingLifecycle Empty (CsmsFollowUp D)) (hop : op = .stop ∨ op = .restart) (hp : v.pending = some op)
    (t : ToldTask) (hb : v.backend = .stopping t)

/-- The record has a task that was started and not stopped exactly if the backend has one. -/
def Recorded (effects : List TaskEffect) (s : CsmsState) : Prop := StartedSince effects ↔ s ≠ .idle

section
variable {effects : List TaskEffect} {s : CsmsState}

theorem startedSince_snoc : StartedSince (effects ++ [.started]) := ⟨effects, [], rfl, not_mem_nil⟩

theorem not_startedSince_snoc : ¬StartedSince (effects ++ [.stopped]) := by
  rintro ⟨pre, post, heq, hpost⟩
  rcases eq_nil_or_concat' post with rfl | ⟨post, e, rfl⟩
  · cases (append_inj' heq rfl).2
  · rw [← cons_append, ← append_assoc] at heq
    cases (append_inj' heq rfl).2
    exact hpost (by simp)

theorem recorded_stopped : Recorded (effects ++ [.stopped]) .idle := iff_of_false not_startedSince_snoc fun h => h rfl

theorem Recorded.start (h : Recorded effects s) (x : CsmsAmbient) (selfSigned : Bool) :
    Recorded (effects ++ s.startEffects x) (s.start x selfSigned).1 := by
  cases s with
  | idle =>
    cases hx : x.bound with
    | ok b =>
      simp only [CsmsState.startEffects, CsmsState.start, hx]
      exact iff_of_true startedSince_snoc nofun
    | error e =>
      simp only [CsmsState.startEffects, CsmsState.start, hx, append_nil]
      exact h
  | running t | stopping t =>
    simp only [CsmsState.startEffects, CsmsState.start, append_nil]
    exact h

theorem Recorded.taskEnds (h : Recorded effects s) : Recorded effects s.taskEnds := by
  cases s with
  | idle => exact h
  | running t | stopping t => exact h.trans (iff_of_true nofun nofun)

end

structure Sound (r : CsmsRun D) : Prop where
  stands : Stands r.tab
  recorded : Recorded r.effects r.tab.backend
  stop : r.last = some .stop → r.tab.wantRunning = false ∧ r.tab.pending ≠ some .restart ∧
    (r.tab.pending = none → r.tab.backend = .idle)

structure Wanted (r : CsmsRun D) : Prop where
  started : r.last = some .start ∨ r.last = some .restart → r.tab.pending = none → r.tab.backend ≠ .idle
  waits : r.last = some .start ∨ r.last = some .restart → r.tab.pending = some .stop → r.tab.wantRunning = true

section
variable {v w : CsmsTab D} {x : CsmsAmbient}

theorem Stands.congr (h : Stands v) (hp : w.pending = v.pending) (hb : w.backend = v.backend) : Stands w := by
  cases h with
  | idle hp' hb' => exact .idle (hp.trans hp') (hb.trans hb')
  | running hp' t hb' => exact .running (hp.trans hp') t (hb.trans hb')
  | waiting op hop hp' t hb' => exact .waiting op hop (hp.trans hp') t (hb.trans hb')

theorem Stands.start (h : Stands v) (hp : w.pending = v.pending) {selfSigned : Bool}
    (hb : w.backend = (v.backend.start x selfSigned).1) : Stands w := by
  cases h with
  | idle hp' hb' =>
    rw [hb'] at hb
    cases hx : x.bound with
    | ok b => exact .running (hp.trans hp') Task.fresh (by rw [hb]; simp only [CsmsState.start, hx])
    | error e => exact .idle (hp.trans hp') (by rw [hb]; simp only [CsmsState.start, hx])
  | running hp' t hb' => exact .running (hp.trans hp') t (by rw [hb, hb']; rfl)
  | waiting op hop hp' t hb' => exact .waiting op hop (hp.trans hp') t (by rw [hb, hb']; rfl)

/-! ## What the commands do -/

theorem Stands.handleStart (h : Stands v) : v.handleStart x = (({ v with wantRunning := true }.startBackend x).1,
        some (CsmsTab.startedLine "started" ({ v with wantRunning := true }.startBackend x).2)) ∧
      v.handleEffects x .start = v.backend.startEffects x := by
  obtain ⟨spec, device, path, backend, want, pending, replacement, lastStop, log⟩ := v
  cases h with
  | idle hp hb | running hp t hb => cases hp; exact ⟨rfl, rfl⟩
  | waiting op hop hp t hb => rcases hop with rfl | rfl <;> cases hp <;> exact ⟨rfl, rfl⟩

theorem Stands.alive_of_reported (h : Stands v) (hp : v.pending = none)
    (hlive : ∀ t, v.backend = .running t → t.finished = false) (hreport : ∃ text, (v.handleStart x).2 = some (.info, text)) :
    (v.handleStart x).1.backend.alive = true := by
  obtain ⟨text, htext⟩ := hreport
  rw [(h.handleStart (x := x)).1] at htext ⊢
  show ((v.backend.start x _).1).alive = true
  cases h with
  | idle _ hb =>
    cases hx : x.bound with
    | ok b =>
      rw [hb]
      simp only [CsmsState.start, hx]
      rfl
    | error e =>
      -- a listener that cannot be set up is reported
      simp [CsmsTab.startBackend, hb, CsmsState.start, hx, CsmsTab.startedLine] at htext
  | running _ t hb =>
    rw [hb]
    show (!t.finished) = true
    rw [hlive t hb]
    rfl
  | waiting op _ hp' => exact nomatch hp.symm.trans hp'

theorem Stands.handleStop (h : Stands v) : v.handleStop.wantRunning = false ∧
    (v.backend = .idle ∧ v.handleStop.pending = none ∧ v.handleStop.backend = .idle ∨
      v.backend ≠ .idle ∧ v.handleStop.pending = some .stop ∧ ∃ t, v.handleStop.backend = .stopping t) := by
  obtain ⟨spec, device, path, backend, want, pending, replacement, lastStop, log⟩ := v
  cases h with
  | idle hp hb => cases hp; cases hb; exact ⟨rfl, .inl ⟨rfl, rfl, rfl⟩⟩
  | running hp t hb => cases hp; cases hb; exact ⟨rfl, .inr ⟨nofun, rfl, _, rfl⟩⟩
  | waiting op hop hp t hb =>
    rcases hop with rfl | rfl <;> cases hp <;> cases hb <;> exact ⟨rfl, .inr ⟨nofun, rfl, t, rfl⟩⟩

theorem Stands.handleRestart (h : Stands v) :
    v.backend = .idle ∧ (v.handleRestart x).1 = ({ v with wantRunning := true }.startBackend x).1 ∧
        v.handleEffects x .restart = v.backend.startEffects x ∨
      v.backend ≠ .idle ∧ v.handleEffects x .restart = [] ∧ (v.handleRestart x).1.pending = some .restart ∧
        ∃ t, (v.handleRestart x).1.backend = .stopping t := by
  obtain ⟨spec, device, path, backend, want, pending, replacement, lastStop, log⟩ := v
  cases h with
  | idle hp hb => cases hp; cases hb; exact .inl ⟨rfl, rfl, rfl⟩
  | running hp t hb => cases hp; cases hb; exact .inr ⟨nofun, rfl, rfl, _, rfl⟩
  | waiting op hop hp t hb =>
    rcases hop with rfl | rfl <;> cases hp <;> cases hb <;> exact .inr ⟨nofun, rfl, rfl, t, rfl⟩

/-! ## What a refresh does -/

theorem Stands.settle (h : Stands v) : v.settle x = v ∧ v.settleEffects x = [] ∨ (v.settle x).pending = none ∧
        (v.pending = some .stop ∧ (v.settle x).backend = .idle ∧ (v.settle x).wantRunning = v.wantRunning ∧
            v.settleEffects x = [.stopped] ∨
          v.pending = some .restart ∧ (v.settle x).backend = (CsmsState.idle.start x (x.bound.toOption.getD false)).1 ∧
            v.settleEffects x = .stopped :: CsmsState.idle.startEffects x) := by
  obtain ⟨spec, device, path, backend, want, pending, replacement, lastStop, log⟩ := v
  cases h with
  | idle hp hb | running hp t hb => cases hp; exact .inl ⟨rfl, rfl⟩
  | waiting op hop hp t hb =>
    cases hp
    cases hb
    by_cases ht : t.finished = true
    · right
      rcases hop with rfl | rfl
      · simp only [CsmsTab.settle, CsmsTab.settleEffects, CsmsState.pollStop, if_pos ht]
        exact ⟨rfl, .inl ⟨trivial, rfl, rfl, trivial⟩⟩
      · simp only [CsmsTab.settle, CsmsTab.settleEffects, CsmsState.pollStop, if_pos ht]
        exact ⟨rfl, .inr ⟨trivial, rfl, trivial⟩⟩
    · left
      simp only [CsmsTab.settle, CsmsTab.settleEffects, CsmsState.pollStop, if_neg ht]
      exact ⟨trivial, trivial⟩

theorem settle_of_none (hp : v.pending = none) : v.settle x = v := by
  rw [CsmsTab.settle, hp]

theorem autoBind_spec (v : CsmsTab D) (x : CsmsAmbient) :
    (v.autoBind x).pending = v.pending ∧ (v.wantRunning = false → (v.autoBind x).wantRunning = false) ∧
      (v.pending ≠ none → v.autoBind x = v) ∧ ((v.autoBind x).backend = v.backend ∧ v.autoBindEffects x = [] ∧
          ¬(v.wantRunning = true ∧ x.online = false ∧ v.pending = none) ∨
        (v.autoBind x).backend = (v.backend.start x (x.bound.toOption.getD false)).1 ∧
          v.autoBindEffects x = v.backend.startEffects x ∧ v.wantRunning = true) := by
  by_cases h : v.wantRunning = true ∧ x.online = false ∧ v.pending.isNone = true
  · have heffects : v.autoBindEffects x = v.backend.startEffects x := if_pos h
    have hnone : v.pending ≠ none → v.autoBind x = v := fun hp => absurd (Option.isNone_iff_eq_none.1 h.2.2) hp
    cases hstart : (v.startBackend x).2 with
    | ok b =>
      have hbind : v.autoBind x = (v.startBackend x).1 := by
        rw [CsmsTab.autoBind, if_pos h, ← Prod.eta (v.startBackend x), hstart]
      refine ⟨?_, ?_, hnone, .inr ⟨?_, heffects, h.1⟩⟩ <;> rw [hbind]
      · rfl
      · exact fun hw => hw
      · rfl
    | error e =>
      have hbind : v.autoBind x =
          ({ (v.startBackend x).1 with wantRunning := false }.write [(.error, "listen failed: " ++ e.text)]) := by
        rw [CsmsTab.autoBind, if_pos h, ← Prod.eta (v.startBackend x), hstart]
      refine ⟨?_, ?_, hnone, .inr ⟨?_, heffects, h.1⟩⟩ <;> rw [hbind]
      · rfl
      · exact fun _ => rfl
      · rfl
  · have hbind : v.autoBind x = v := if_neg h
    rw [hbind]
    exact ⟨rfl, fun hw => hw, fun _ => rfl,
      .inl ⟨rfl, if_neg h, fun h' => h ⟨h'.1, h'.2.1, Option.isNone_iff_eq_none.2 h'.2.2⟩⟩⟩

end

/-! ## Runs -/

variable {r : CsmsRun D}

theorem Sound.command (h : r.Sound) (c : MergedCommand) (x : CsmsAmbient) : (r.step (.command c x)).Sound := by
  cases c with
  | start =>
    obtain ⟨htab, heffects⟩ := h.stands.handleStart (x := x)
    refine ⟨?_, ?_, nofun⟩
    · show Stands (r.tab.handleStart x).1
      rw [htab]
      exact h.stands.start rfl rfl
    · show Recorded (r.effects ++ r.tab.handleEffects x .start) (r.tab.handleStart x).1.backend
      rw [htab, heffects]
      exact h.recorded.start x _
  | stop =>
    have heffects : (r.step (.command .stop x)).effects = r.effects := append_nil _
    obtain ⟨hwant, ⟨hb, hp', hb'⟩ | ⟨hb, hp', t, hb'⟩⟩ := h.stands.handleStop
    · refine ⟨.idle hp' hb', ?_, fun _ => ⟨hwant, fun hr => (nomatch hp'.symm.trans hr), fun _ => hb'⟩⟩
      rw [heffects]
      exact h.recorded.trans (iff_of_false (fun hne => hne hb) fun hne => hne hb')
    refine ⟨.waiting .stop (.inl rfl) hp' t hb', ?_,
      fun _ => ⟨hwant, fun hr => (nomatch hp'.symm.trans hr), fun hn => nomatch hp'.symm.trans hn⟩⟩
    rw [heffects]
    exact h.recorded.trans (iff_of_true hb fun hi => nomatch hb'.symm.trans hi)
  | restart =>
    rcases h.stands.handleRestart (x := x) with ⟨-, htab, heffects⟩ | ⟨hb, heffects, hp', t, hb'⟩
    · refine ⟨?_, ?_, nofun⟩
      · show Stands (r.tab.handleRestart x).1
        rw [htab]
        exact h.stands.start rfl rfl
      · show Recorded (r.effects ++ r.tab.handleEffects x .restart) (r.tab.handleRestart x).1.backend
        rw [htab, heffects]
        exact h.recorded.start x _
    · refine ⟨.waiting .restart (.inr rfl) hp' t hb', ?_, nofun⟩
      show Recorded (r.effects ++ r.tab.handleEffects x .restart) (r.tab.handleRestart x).1.backend
      rw [heffects, append_nil]
      exact h.recorded.trans (iff_of_true hb fun hi => nomatch hb'.symm.trans hi)

theorem Sound.settle (h : r.Sound) (x : CsmsAmbient) : Sound ⟨r.tab.settle x, r.last, r.effects ++ r.tab.settleEffects x⟩ := by
  rcases h.stands.settle (x := x) with ⟨hv, heffects⟩ | ⟨hp, ⟨hstop, hb, hwant, heffects⟩ | ⟨hrestart, hb, heffects⟩⟩
  · rw [hv, heffects, append_nil]
    exact h
  · rw [heffects]
    refine ⟨.idle hp hb, ?_, fun hlast => ⟨hwant.trans (h.stop hlast).1, fun hr => (nomatch hp.symm.trans hr), fun _ => hb⟩⟩
    rw [hb]
    exact recorded_stopped
  have hstarted : Recorded (r.effects ++ r.tab.settleEffects x) (r.tab.settle x).backend := by
    rw [heffects, hb, ← singleton_append, ← append_assoc]
    exact recorded_stopped.start x _
  refine ⟨?_, hstarted, fun hlast => absurd hrestart (h.stop hlast).2.1⟩
  exact Stands.start (v := { r.tab with pending := none, backend := .idle }) (.idle rfl rfl) hp hb

theorem Sound.autoBind (h : r.Sound) (x : CsmsAmbient) :
    Sound ⟨r.tab.autoBind x, r.last, r.effects ++ r.tab.autoBindEffects x⟩ := by
  obtain ⟨hp, hwant, -, ⟨hb, heffects, -⟩ | ⟨hb, heffects, hw⟩⟩ := autoBind_spec r.tab x
  · rw [heffects, append_nil]
    refine ⟨h.stands.congr hp hb, ?_, fun hlast => ?_⟩
    · rw [hb]
      exact h.recorded
    · obtain ⟨hw', hpending, hidle⟩ := h.stop hlast
      exact ⟨hwant hw', fun hr => hpending (hp.symm.trans hr), fun hn => hb.trans (hidle (hp.symm.trans hn))⟩
  · rw [heffects]
    refine ⟨h.stands.start hp hb, ?_, fun hlast => ?_⟩
    · rw [hb]
      exact h.recorded.start x _
    · exact nomatch hw.symm.trans (h.stop hlast).1

theorem Sound.step (h : r.Sound) (ev : CsmsEvent) : (r.step ev).Sound := by
  cases ev with
  | command c x => exact h.command c x
  | refresh x => exact (h.settle (r.tab.sees x)).autoBind (r.tab.sees x)
  | taskEnds =>
    refine ⟨?_, h.recorded.taskEnds, fun hlast => ?_⟩
    · cases h.stands with
      | idle hp hb => exact .idle hp (congrArg CsmsState.taskEnds hb)
      | running hp t hb => exact .running hp t.ended (congrArg CsmsState.taskEnds hb)
      | waiting op hop hp t hb => exact .waiting op hop hp t.ended (congrArg CsmsState.taskEnds hb)
    · obtain ⟨hw, hpending, hidle⟩ := h.stop hlast
      exact ⟨hw, hpending, fun hp => congrArg CsmsState.taskEnds (hidle hp)⟩

variable {x : CsmsAmbient}

theorem start_ne_idle {b : Bool} (hx : x.bound = .ok b) (s : CsmsState) (selfSigned : Bool) :
    (s.start x selfSigned).1 ≠ .idle := by
  cases s with
  | idle =>
    simp only [CsmsState.start, hx]
    exact nofun
  | running t => exact nofun
  | stopping t => exact nofun

theorem start_of_ne_idle {s : CsmsState} (hs : s ≠ .idle) {selfSigned : Bool} : (s.start x selfSigned).1 = s := by
  cases s with
  | idle => exact absurd rfl hs
  | running t => rfl
  | stopping t => rfl

theorem autoBind_ne_idle {v : CsmsTab D} (hne : v.backend ≠ .idle) (x : CsmsAmbient) : (v.autoBind x).backend ≠ .idle := by
  obtain ⟨-, -, -, ⟨hb, -, -⟩ | ⟨hb, -, -⟩⟩ := autoBind_spec v x
  · rwa [hb]
  · rwa [hb, start_of_ne_idle hne]

theorem Wanted.command (hsound : r.Sound) {b : Bool} (hx : x.bound = .ok b) (c : MergedCommand) :
    (r.step (.command c x)).Wanted := by
  cases c with
  | start =>
    have htab : (r.step (.command .start x)).tab = ({ r.tab with wantRunning := true }.startBackend x).1 :=
      congrArg Prod.fst (hsound.stands.handleStart (x := x)).1
    constructor
    · intro _ _
      rw [htab]
      exact start_ne_idle hx _ _
    · intro _ _
      rw [htab]
      rfl
  | stop => exact ⟨fun hlast => hlast.elim nofun nofun, fun hlast => hlast.elim nofun nofun⟩
  | restart =>
    rcases hsound.stands.handleRestart (x := x) with ⟨-, htab, -⟩ | ⟨-, -, hp', -⟩
    · constructor
      · intro _ _
        show (r.tab.handleRestart x).1.backend ≠ .idle
        rw [htab]
        exact start_ne_idle hx _ _
      intro _ _
      show (r.tab.handleRestart x).1.wantRunning = true
      rw [htab]
      rfl
    · exact ⟨fun _ hn => (nomatch hp'.symm.trans hn), fun _ hs => (nomatch hp'.symm.trans hs)⟩

theorem Wanted.refresh (hsound : r.Sound) (h : r.Wanted) {b : Bool} (hx : x.bound = .ok b) : (r.step (.refresh x)).Wanted := by
  have hx' : (r.tab.sees x).bound = .ok b := hx
  have htab : (r.step (.refresh x)).tab = (r.tab.settle (r.tab.sees x)).autoBind (r.tab.sees x) := rfl
  obtain ⟨hp, -, hsame, hbind⟩ := autoBind_spec (r.tab.settle (r.tab.sees x)) (r.tab.sees x)
  rcases hsound.stands.settle (x := r.tab.sees x) with ⟨hv, -⟩ | ⟨hnone, ⟨hstop, hidle, hwant, -⟩ | ⟨-, hb, -⟩⟩
  · rw [hv] at hp hsame
    constructor
    · intro hlast hn
      rw [htab, hv]
      rw [htab, hv, hp] at hn
      exact autoBind_ne_idle (h.started hlast hn) _
    intro hlast hs
    rw [htab, hv] at hs ⊢
    rw [hp] at hs
    rw [hsame (fun hn => nomatch hs.symm.trans hn)]
    exact h.waits hlast hs
  · constructor
    · intro hlast _
      rw [htab]
      have honline : (r.tab.sees x).online = false := by
        show ((r.tab.settle x).backend.alive && x.online) = false
        have : (r.tab.settle x).backend = .idle := hidle
        rw [this]
        rfl
      rcases hbind with ⟨-, -, hnot⟩ | ⟨hb, -, -⟩
      · exact absurd ⟨hwant.trans (h.waits hlast hstop), honline, hnone⟩ hnot
      · rw [hb]
        exact start_ne_idle hx' _ _
    · intro _ hs
      rw [htab, hp, hnone] at hs
      cases hs
  · constructor
    · intro _ _
      rw [htab]
      refine autoBind_ne_idle ?_ _
      rw [hb]
      exact start_ne_idle hx' _ _
    · intro _ hs
      rw [htab, hp, hnone] at hs
      cases hs

theorem Wanted.step (hsound : r.Sound) (h : r.Wanted) {ev : CsmsEvent} (hev : ev.Spawns) : (r.step ev).Wanted := by
  cases ev with
  | command c x =>
    obtain ⟨b, hx⟩ := hev
    exact Wanted.command hsound hx c
  | refresh x =>
    obtain ⟨b, hx⟩ := hev
    exact h.refresh hsound hx
  | taskEnds =>
    refine ⟨fun hlast hp => ?_, h.waits⟩
    have hne := h.started hlast hp
    show r.tab.backend.taskEnds ≠ .idle
    cases hb : r.tab.backend with
    | idle => exact absurd hb hne
    | running t => exact nofun
    | stopping t => exact nofun

def run (r : CsmsRun D) (events : List CsmsEvent) : CsmsRun D := events.foldl step r

theorem Sound.run (h : r.Sound) (events : List CsmsEvent) : (r.run events).Sound := by
  induction events generalizing r with
  | nil => exact h
  | cons ev events ih => exact ih (h.step ev)

theorem Wanted.run (hsound : r.Sound) (h : r.Wanted) {events : List CsmsEvent}
    (hspawns : ∀ ev ∈ events, ev.Spawns) : (r.run events).Wanted := by
  induction events generalizing r with
  | nil => exact h
  | cons ev events ih =>
    exact ih (hsound.step ev) (h.step hsound (hspawns ev mem_cons_self)) fun ev' hev' =>
      hspawns ev' (mem_cons_of_mem _ hev')

def after (spec : OcppSpec) (devicePath : String) (device : D) (wantRunning : Bool) (events : List CsmsEvent) : CsmsRun D :=
  (init (.new spec devicePath device wantRunning)).run events

section
variable (spec : OcppSpec) (devicePath : String) (device : D) (wantRunning : Bool)

theorem sound_init : (init (.new spec devicePath device wantRunning)).Sound where
  stands := .idle rfl rfl
  recorded := iff_of_false (fun ⟨pre, post, heq, _⟩ => by simp [init] at heq) fun h => h rfl
  stop := nofun

theorem wanted_init : (init (.new spec devicePath device wantRunning)).Wanted :=
  ⟨fun hlast => hlast.elim nofun nofun, fun hlast => hlast.elim nofun nofun⟩

/-- **Starting a CSMS tab means that a server task runs**: a `:start` that reports success while nothing is pending leaves a
task alive, unless the backend still has one that ended by itself; and once all is settled no task is alive after a `:stop`, and
one was started since after a `:start` or `:restart`, where the listener could be set up. -/
theorem start_means_task (events : List CsmsEvent) (x : CsmsAmbient) :
    let r := after spec devicePath device wantRunning events
    r.tab.pending = none →
      ((∀ t, r.tab.backend = .running t → t.finished = false) →
        (∃ text, (r.tab.handleStart x).2 = some (.info, text)) → (r.tab.handleStart x).1.backend.alive = true) ∧
      (r.last = some .stop → (r.step (.refresh x)).tab.backend.alive = false) ∧
      (r.last = some .start ∨ r.last = some .restart → (∀ ev ∈ events, ev.Spawns) →
        StartedSince (r.step (.refresh x)).effects) := by
  intro r hp
  have hsound : r.Sound := (sound_init spec devicePath device wantRunning).run events
  refine ⟨fun hlive hreport => ?_, fun hlast => ?_, fun hlast hspawns => ?_⟩
  · exact hsound.stands.alive_of_reported hp hlive hreport
  · have hpending : (r.step (.refresh x)).tab.pending = none :=
      (autoBind_spec _ _).1.trans (by rw [settle_of_none hp, hp])
    rw [((hsound.step (.refresh x)).stop hlast).2.2 hpending]
    rfl
  have hwanted : r.Wanted := (wanted_init spec devicePath device wantRunning).run (sound_init ..) hspawns
  refine (hsound.step (.refresh x)).recorded.2 ?_
  show ((r.tab.settle (r.tab.sees x)).autoBind (r.tab.sees x)).backend ≠ .idle
  rw [settle_of_none hp]
  exact autoBind_ne_idle (hwanted.started hlast hp) _

/-- **An operation is pending on a CSMS tab exactly while its server is being stopped**, whatever comes when. -/
theorem pending_iff_stopping (events : List CsmsEvent) :
    let v := (after spec devicePath device wantRunning events).tab
    v.pending.isSome = true ↔ ∃ t, v.backend = .stopping t := by
  cases ((sound_init spec devicePath device wantRunning).run events).stands with
  | idle hp hb | running hp t hb | waiting op hop hp t hb =>
    dsimp only [after]
    rw [hp, hb]
    simp

end

def csmsSpec : OcppSpec := ⟨"csms", .v1_6, .server, .ws, "127.0.0.1", 9000, "/"⟩

def bindable : CsmsAmbient := ⟨.ok false, false, .ok ()⟩

def startedAgain : List CsmsEvent :=
  [.command .start bindable, .command .stop bindable, .command .start bindable, .taskEnds, .refresh bindable]

theorem started_again_runs : (after csmsSpec "" () false startedAgain).tab.pending = none ∧
      StartedSince ((after csmsSpec "" () false startedAgain).step (.refresh bindable)).effects ∧
      (((after csmsSpec "" () false startedAgain).tab.handleStart bindable).1.backend.alive = true) := by
  have hp : (after csmsSpec "" () false startedAgain).tab.pending = none := rfl
  obtain ⟨hstart, -, hsince⟩ := start_means_task csmsSpec "" () false startedAgain bindable hp
  refine ⟨hp, hsince (.inl rfl) fun ev hev => ?_, hstart (fun t ht => ?_) ⟨_, rfl⟩⟩
  · simp only [startedAgain, mem_cons, not_mem_nil, or_false] at hev
    rcases hev with rfl | rfl | rfl | rfl | rfl
    · exact ⟨false, rfl⟩
    · exact ⟨false, rfl⟩
    · exact ⟨false, rfl⟩
    · exact trivial
    · exact ⟨false, rfl⟩
  · cases (show CsmsState.running Task.fresh = .running t from ht)
    rfl

/-- The task of a started tab ends by itself, and another `:start` reports success without a task. -/
theorem dead_task_started :
    let r := after csmsSpec "" () false [.command .start bindable, .taskEnds]
    r.tab.pending = none ∧ (r.tab.handleStart bindable).2 = some (.info, "CSMS server started") ∧
      (r.tab.handleStart bindable).1.backend.alive = false := ⟨rfl, rfl, rfl⟩

end CsmsRun

end Ferrowl.Ocpp
