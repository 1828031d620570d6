import Ferrowl.Backoff
import Ferrowl.Ownership
import Ferrowl.RunTrace
import Ferrowl.Server
/-!
# Bridge — the downstream link and its reconnector

`DownstreamHandle` of `bridge/downstream.rs`: forwarded requests share one stored client behind a mutex, a failed exchange removes
it and notifies the reconnector task, which connects again and stores the new client.  Every await and every access to the shared
state is a step of its own; the `Notify` keeps one permit, handed to the reconnector at once when it waits.

Log lines are left out.  `C` is the type of clients, and `ι` names the calls.
-/
namespace Ferrowl.Modbus.Bridge

open Function

open Backoff (BackoffPolicy)

inductive Party (ι : Type) where
  | reconnector
  | call (i : ι)

inductive ReconnectorPc (C : Type) where
  | start
  | waiting
  | woken
  | connecting (backoff : Nat)
  | sleeping (backoff : Nat)
  | connected (client : C)
  | storing (client : C)
  | unlocking
  | ended

abbrev Answer := Except ExceptionCode (Option ResponsePdu)

inductive CallPc (C : Type) where
  | idle
  | queued (unit : UnitId) (request : RequestPdu)
  | holding (unit : UnitId) (request : RequestPdu)
  | calling (client : C) (unit : UnitId) (request : RequestPdu)
  | failed (client : C)
  | removed (client : C)
  | unlocked (client : C)
  | leaving (answer : Answer)
  | done (answer : Answer)
  | cancelled

structure Link (C ι : Type) where
  stored : Option C
  lock : Option (Party ι)
  permit : Bool
  reconnector : ReconnectorPc C
  calls : ι → CallPc C

inductive Event (C ι : Type) where
  /-- The reconnector polls `notified()`. -/
  | poll
  | resume
  | connect (result : Except String C)
  | slept
  | store
  | acquire (p : Party ι)
  | release (p : Party ι)
  | request (i : ι) (unit : UnitId) (request : RequestPdu)
  | look (i : ι)
  | returned (i : ι) (result : Except String (Option ResponsePdu))
  | remove (i : ι)
  | notify (i : ι)
  /-- The caller drops the future at one of its awaits. -/
  | cancel (i : ι)

section
variable {C ι : Type} [DecidableEq ι]

def Link.setCall (s : Link C ι) (i : ι) (pc : CallPc C) : Link C ι := { s with calls := update s.calls i pc }

omit [DecidableEq ι] in
def Link.notifyOne (s : Link C ι) : Link C ι :=
  match s.reconnector with
  | .waiting => { s with reconnector := .woken }
  | _ => { s with permit := true }

omit [DecidableEq ι] in
/-- The link when `spawn` returns.  The task may have reached its `notified()` before the notification or not. -/
def Link.spawn (polled : Bool) : Link C ι :=
  { stored := none, lock := none, permit := false, reconnector := if polled then .waiting else .start,
    calls := fun _ => .idle : Link C ι }.notifyOne

def step (reconnect : Bool) (s : Link C ι) : Event C ι → Option (Link C ι)
  | .poll =>
    match s.reconnector with
    | .start =>
      if s.permit then some { s with permit := false, reconnector := .connecting BackoffPolicy.default.initial }
      else some { s with reconnector := .waiting }
    | _ => none
  | .resume =>
    match s.reconnector with
    | .woken => some { s with reconnector := .connecting BackoffPolicy.default.initial }
    | _ => none
  | .connect result =>
    match s.reconnector, result with
    | .connecting _, .ok client => some { s with reconnector := .connected client }
    | .connecting backoff, .error _ => some { s with reconnector := if !reconnect then .ended else .sleeping backoff }
    | _, _ => none
  | .slept =>
    match s.reconnector with
    | .sleeping backoff => some { s with reconnector := .connecting (BackoffPolicy.default.afterWait backoff) }
    | _ => none
  | .store =>
    match s.reconnector with
    | .storing client => some { s with stored := some client, reconnector := .unlocking }
    | _ => none
  | .acquire p =>
    match s.lock with
    | some _ => none
    | none =>
      match p with
      | .reconnector =>
        match s.reconnector with
        | .connected client => some { s with lock := some p, reconnector := .storing client }
        | _ => none
      | .call i =>
        match s.calls i with
        | .queued unit request => some { s.setCall i (.holding unit request) with lock := some p }
        | _ => none
  | .release .reconnector =>
    match s.reconnector with
    | .unlocking => some { s with lock := none, reconnector := if !reconnect then .ended else .start }
    | _ => none
  | .release (.call i) =>
    match s.calls i with
    | .removed client => some { s.setCall i (.unlocked client) with lock := none }
    | .leaving answer => some { s.setCall i (.done answer) with lock := none }
    | _ => none
  | .request i unit request =>
    match s.calls i with
    | .idle => some (s.setCall i (.queued unit request))
    | _ => none
  | .look i =>
    match s.calls i with
    | .holding unit request =>
      match s.stored with
      | none => some (s.setCall i (.leaving (.error .gatewayPathUnavailable)))
      | some client => some (s.setCall i (.calling client unit request))
    | _ => none
  | .returned i result =>
    match s.calls i, result with
    | .calling _ _ _, .ok resp => some (s.setCall i (.leaving (.ok resp)))
    | .calling client _ _, .error _ => some (s.setCall i (.failed client))
    | _, _ => none
  | .remove i =>
    match s.calls i with
    | .failed client => some { s.setCall i (.removed client) with stored := none }
    | _ => none
  | .notify i =>
    match s.calls i with
    | .unlocked _ => some (s.setCall i (.done (.error .gatewayTargetDeviceFailedToRespond))).notifyOne
    | _ => none
  | .cancel i =>
    match s.calls i with
    | .queued _ _ => some (s.setCall i .cancelled)
    | .calling _ _ _ => some { s.setCall i .cancelled with lock := none }
    | _ => none

/-! ## The duty to reconnect -/

def ReconnectorPc.inLoop : ReconnectorPc C → Bool
  | .connecting _ | .sleeping _ | .connected _ | .storing _ => true
  | _ => false

def ReconnectorPc.guarded : ReconnectorPc C → Bool
  | .storing _ | .unlocking => true
  | _ => false

def CallPc.owes : CallPc C → Bool
  | .removed _ | .unlocked _ => true
  | _ => false

def CallPc.guarded : CallPc C → Bool
  | .holding _ _ | .calling _ _ _ | .failed _ | .removed _ | .leaving _ => true
  | _ => false

def CallPc.client : CallPc C → Option C
  | .calling client _ _ | .failed client => some client
  | _ => none

/-- Where the duty to bring the link back can be: a pending wake-up, kept as the permit or handed over to the waiting task,
the reconnector's loop, or a call that removed the client. -/
inductive Duty (ι : Type) where
  | permit
  | woken
  | loop
  | call (i : ι)
  deriving DecidableEq

def Duty.Held (permit : Bool) (reconnector : ReconnectorPc C) (calls : ι → CallPc C) : Duty ι → Prop
  | .permit => permit = true
  | .woken => reconnector = .woken
  | .loop => reconnector.inLoop = true
  | .call i => (calls i).owes = true

def Link.Has (s : Link C ι) : Duty ι → Prop := Duty.Held s.permit s.reconnector s.calls

def Party.Guarded (reconnector : ReconnectorPc C) (calls : ι → CallPc C) : Party ι → Prop
  | .reconnector => reconnector.guarded = true
  | .call i => (calls i).guarded = true

def Link.Guards (s : Link C ι) : Party ι → Prop := Party.Guarded s.reconnector s.calls

/-- While no client is stored one place has the duty to bring the link back, and while one is stored none has; the mutex
keeps the critical sections apart, so a call works with the client that is stored. -/
structure Link.Sound (s : Link C ι) : Prop where
  duty : Baton s.Has (s.stored = none)
  exclusive : Exclusive s.Guards s.lock
  uses : ∀ i c, (s.calls i).client = some c → s.stored = some c

section
variable {permit : Bool} {reconnector : ReconnectorPc C} {calls : ι → CallPc C} {i : ι} {pc : CallPc C}

theorem held_update_same (h : pc.owes = (calls i).owes) (e : Duty ι) :
    Duty.Held permit reconnector (update calls i pc) e ↔ Duty.Held permit reconnector calls e := by
  cases e with
  | call j =>
    by_cases hj : j = i
    · subst hj
      simp [Duty.Held, h]
    · simp [Duty.Held, hj]
  | _ => rfl

theorem held_update_gain (h : pc.owes = true) (e : Duty ι) : Duty.Held permit reconnector (update calls i pc) e ↔
      Duty.Held permit reconnector calls e ∨ e = .call i := by
  cases e with
  | call j =>
    by_cases hj : j = i
    · subst hj
      simp [Duty.Held, h]
    · simp [Duty.Held, hj]
  | _ => simp [Duty.Held]

theorem held_update_lose (h : pc.owes = false) (e : Duty ι) : Duty.Held permit reconnector (update calls i pc) e ↔
      Duty.Held permit reconnector calls e ∧ e ≠ .call i := by
  cases e with
  | call j =>
    by_cases hj : j = i
    · subst hj
      simp [Duty.Held, h]
    · simp [Duty.Held, hj]
  | _ => simp [Duty.Held]

theorem guarded_update {p : Party ι} (h : Party.Guarded reconnector (update calls i pc) p) :
    p ≠ .call i ∧ Party.Guarded reconnector calls p ∨ p = .call i ∧ pc.guarded = true := by
  cases p with
  | reconnector => exact Or.inl ⟨nofun, h⟩
  | call j =>
    by_cases hj : j = i
    · subst hj
      exact Or.inr ⟨rfl, by simpa [Party.Guarded] using h⟩
    · exact Or.inl ⟨by simpa using hj, by simpa [Party.Guarded, hj] using h⟩

omit [DecidableEq ι] in
theorem guarded_of_client {j : ι} {c : C} (h : (calls j).client = some c) : Party.Guarded reconnector calls (.call j) := by
  unfold Party.Guarded
  cases hc : calls j <;> simp_all [CallPc.client, CallPc.guarded]

theorem client_update {j : ι} {c : C} (h : (update calls i pc j).client = some c) :
    j ≠ i ∧ (calls j).client = some c ∨ j = i ∧ pc.client = some c := by
  by_cases hj : j = i
  · subst hj
    exact Or.inr ⟨rfl, by simpa using h⟩
  · exact Or.inl ⟨hj, by simpa [hj] using h⟩

end

variable {s t : Link C ι}

theorem Link.Sound.setCall (h : s.Sound) {i : ι} {pc : CallPc C} (howes : pc.owes = (s.calls i).owes)
    (hguard : pc.guarded = true → (s.calls i).guarded = true) (huses : ∀ c, pc.client = some c → s.stored = some c) :
    (s.setCall i pc).Sound where
  duty := h.duty.same (held_update_same howes) Iff.rfl
  exclusive := h.exclusive.mono (fun _ hp => (guarded_update hp).elim And.right (fun hp => hp.1 ▸ hguard hp.2))
  uses _ c hc := (client_update hc).elim (fun hc => h.uses _ c hc.2) (fun hc => huses c hc.2)

omit [DecidableEq ι] in
theorem Link.Sound.setReconnector (h : s.Sound) {pc : ReconnectorPc C} (hloop : pc.inLoop = s.reconnector.inLoop)
    (hwoken : pc = .woken ↔ s.reconnector = .woken) (hguard : pc.guarded = false) :
    ({ s with reconnector := pc } : Link C ι).Sound where
  duty := h.duty.same (fun e => by
    cases e with
    | woken => exact hwoken
    | loop => exact iff_of_eq (congrArg (· = true) hloop)
    | _ => rfl) Iff.rfl
  exclusive := h.exclusive.mono (fun p hp => by
    cases p with
    | reconnector => exact absurd hguard (by simpa [Link.Guards, Party.Guarded] using hp)
    | call i => exact hp)
  uses := h.uses

omit [DecidableEq ι] in
theorem Link.Sound.beginLoop (h : s.Sound) {a : Duty ι} (ha : s.Has a) (backoff : Nat) {permit : Bool}
    (hhas : ∀ e, Duty.Held permit (.connecting backoff) s.calls e ↔ s.Has e ∧ e ≠ a ∨ e = .loop) :
    ({ s with permit := permit, reconnector := .connecting backoff } : Link C ι).Sound where
  duty := h.duty.move ha hhas Iff.rfl
  exclusive := h.exclusive.mono (fun p hp => by
    cases p with
    | reconnector => cases hp
    | call i => exact hp)
  uses := h.uses

theorem Link.Sound.releaseCall (h : s.Sound) {i : ι} {pc : CallPc C} (howes : pc.owes = (s.calls i).owes)
    (hout : pc.guarded = false) (hin : (s.calls i).guarded = true) (hclient : pc.client = none) :
    ({ s.setCall i pc with lock := none } : Link C ι).Sound where
  duty := h.duty.same (held_update_same howes) Iff.rfl
  exclusive := h.exclusive.release (p := .call i) hin (fun _ hq => (guarded_update hq).elim And.symm
    (fun hq => absurd hq.2 (by simp [hout])))
  uses _ c hc := (client_update hc).elim (fun hc => h.uses _ c hc.2) (fun hc => nomatch hclient.symm.trans hc.2)

theorem sound_notifyOne {i : ι} {c : C} (h : s.Sound) (hc : s.calls i = .unlocked c) (answer : Answer) :
    (s.setCall i (.done answer)).notifyOne.Sound := by
  have hhas : s.Has (.call i) := by simp [Link.Has, Duty.Held, hc, CallPc.owes]
  have hlose : ∀ e, Duty.Held s.permit s.reconnector (update s.calls i (.done answer)) e ↔
      s.Has e ∧ e ≠ .call i := held_update_lose rfl
  have hguard : ∀ p, Party.Guarded s.reconnector (update s.calls i (.done answer)) p → s.Guards p :=
    fun p hp => (guarded_update hp).elim And.right (fun hp => nomatch hp.2)
  have huses : ∀ j c, (update s.calls i (.done answer) j).client = some c → s.stored = some c :=
    fun j c hj => (client_update hj).elim (fun hj => h.uses j c hj.2) (fun hj => nomatch hj.2)
  unfold Link.notifyOne
  split
  · rename_i hr
    replace hr : s.reconnector = .waiting := hr
    refine ⟨h.duty.move (b := .woken) hhas (fun e => ?_) Iff.rfl, h.exclusive.mono (fun p hp => ?_), huses⟩
    · rw [← hlose]
      cases e <;> simp [Link.Has, Link.setCall, Duty.Held, hr, ReconnectorPc.inLoop]
    · cases p with
      | reconnector => cases hp
      | call j => exact hguard _ hp
  · refine ⟨h.duty.move (b := .permit) hhas (fun e => ?_) Iff.rfl, h.exclusive.mono hguard, huses⟩
    rw [← hlose]
    cases e <;> simp [Link.Has, Link.setCall, Duty.Held]

theorem sound_step {e : Event C ι} (h : s.Sound) (hs : step true s e = some t) : t.Sound := by
  cases e with
  | poll =>
    simp only [step] at hs
    split at hs
    · rename_i hr
      split at hs <;> cases hs
      · rename_i hp
        refine h.beginLoop (a := .permit) hp _ (fun e => ?_)
        cases e <;> simp [Link.Has, Duty.Held, hr, ReconnectorPc.inLoop]
      · exact h.setReconnector (by rw [hr]; rfl) (by simp [hr]) rfl
    · cases hs
  | resume =>
    simp only [step] at hs
    split at hs <;> cases hs
    rename_i hr
    refine h.beginLoop (a := .woken) hr _ (fun e => ?_)
    cases e <;> simp [Link.Has, Duty.Held, hr, ReconnectorPc.inLoop]
  | connect result | slept =>
    simp only [step] at hs
    split at hs <;> cases hs <;> rename_i hr <;> exact h.setReconnector (by rw [hr]; rfl) (by simp [hr]) rfl
  | store =>
    simp only [step] at hs
    split at hs <;> cases hs
    rename_i client hr
    have hloop : s.Has .loop := by simp [Link.Has, Duty.Held, hr, ReconnectorPc.inLoop]
    refine ⟨h.duty.finish hloop (fun e => ?_) nofun, h.exclusive.mono (fun p hp => ?_), fun i c hc => ?_⟩
    · cases e <;> simp [Link.Has, Duty.Held, hr, ReconnectorPc.inLoop]
    · cases p with
      | reconnector => simp [Link.Guards, Party.Guarded, hr, ReconnectorPc.guarded]
      | call i => exact hp
    · exact nomatch (h.duty.is_live hloop).symm.trans (h.uses i c hc)
  | acquire p =>
    simp only [step] at hs
    split at hs
    · cases hs
    rename_i hlock
    have hex := h.exclusive
    rw [hlock] at hex
    split at hs <;> split at hs <;> cases hs
    · rename_i client hr
      refine ⟨h.duty.same (fun e => ?_) Iff.rfl, hex.acquire (fun q hq => ?_), h.uses⟩
      · cases e <;> simp [Link.Has, Duty.Held, hr, ReconnectorPc.inLoop]
      · cases q with
        | reconnector => exact Or.inr rfl
        | call i => exact Or.inl hq
    · rename_i i unit request hc
      refine ⟨h.duty.same (held_update_same (by rw [hc]; rfl)) Iff.rfl, hex.acquire (fun q hq => ?_), fun j c hj => ?_⟩
      · exact (guarded_update hq).imp And.right And.left
      · exact (client_update hj).elim (fun hj => h.uses _ c hj.2) (fun hj => nomatch hj.2)
  | release p =>
    cases p with
    | reconnector =>
      simp only [step] at hs
      split at hs <;> cases hs
      rename_i hr
      refine ⟨h.duty.same (fun e => ?_) Iff.rfl, h.exclusive.release (p := .reconnector) ?_ (fun q hq => ?_), h.uses⟩
      · cases e <;> simp [Link.Has, Duty.Held, hr, ReconnectorPc.inLoop]
      · simp [Link.Guards, Party.Guarded, hr, ReconnectorPc.guarded]
      · cases q with
        | reconnector => cases hq
        | call i => exact ⟨hq, nofun⟩
    | call i =>
      simp only [step] at hs
      split at hs <;> cases hs <;> rename_i hc <;> exact h.releaseCall (by rw [hc]; rfl) rfl (by rw [hc]; rfl) rfl
  | request i unit request =>
    simp only [step] at hs
    split at hs <;> cases hs
    rename_i hc
    exact h.setCall (by rw [hc]; rfl) nofun nofun
  | look i =>
    simp only [step] at hs
    split at hs
    · rename_i hc
      split at hs <;> cases hs <;> rename_i hst
      · exact h.setCall (by rw [hc]; rfl) (fun _ => by rw [hc]; rfl) nofun
      · exact h.setCall (by rw [hc]; rfl) (fun _ => by rw [hc]; rfl) (fun _ hx => hst.trans hx)
    · cases hs
  | returned i result =>
    simp only [step] at hs
    split at hs <;> cases hs <;> rename_i hc
    · exact h.setCall (by rw [hc]; rfl) (fun _ => by rw [hc]; rfl) nofun
    · exact h.setCall (by rw [hc]; rfl) (fun _ => by rw [hc]; rfl) (fun c hx => h.uses i c (by rw [hc]; exact hx))
  | remove i =>
    simp only [step] at hs
    split at hs <;> cases hs
    rename_i client hc
    have hstored : s.stored = some client := h.uses i client (by rw [hc]; rfl)
    have hin : s.Guards (.call i) := by simp [Link.Guards, Party.Guarded, hc, CallPc.guarded]
    refine ⟨h.duty.begin (by simp [hstored]) (held_update_gain rfl) rfl, h.exclusive.mono (fun q hq => ?_),
      fun j c hj => ?_⟩
    · exact (guarded_update hq).elim And.right (fun hq => hq.1 ▸ hin)
    -- another call with a client would hold the lock too
    rcases client_update hj with ⟨hne, hj⟩ | ⟨-, hj⟩
    · have hjin : s.Guards (.call j) := guarded_of_client hj
      cases h.exclusive.eq hjin hin
      exact absurd rfl hne
    · cases hj
  | notify i =>
    simp only [step] at hs
    split at hs <;> cases hs
    rename_i hc
    exact sound_notifyOne h hc _
  | cancel i =>
    simp only [step] at hs
    split at hs <;> cases hs <;> rename_i hc
    · exact h.setCall (by rw [hc]; rfl) nofun nofun
    · exact h.releaseCall (by rw [hc]; rfl) rfl (by rw [hc]; rfl) rfl

omit [DecidableEq ι] in
theorem sound_spawn (polled : Bool) : (Link.spawn polled : Link C ι).Sound := by
  have hexcl : Exclusive (Link.spawn polled : Link C ι).Guards none := fun p hp => by
    cases polled <;> cases p <;> cases hp
  cases polled
  · refine ⟨⟨some .permit, fun e => ?_, iff_of_true rfl rfl⟩, hexcl, nofun⟩
    cases e <;> simp [Link.Has, Duty.Held, Link.spawn, Link.notifyOne, ReconnectorPc.inLoop, CallPc.owes]
  · refine ⟨⟨some .woken, fun e => ?_, iff_of_true rfl rfl⟩, hexcl, nofun⟩
    cases e <;> simp [Link.Has, Duty.Held, Link.spawn, Link.notifyOne, ReconnectorPc.inLoop, CallPc.owes]

/-! ## The answers of the calls -/

def LinkStep (s : Link C ι) (e : Event C ι) (t : Link C ι) : Prop := step true s e = some t

theorem linkStep_det (s : Link C ι) (e : Event C ι) (t u : Link C ι) (ht : LinkStep s e t) (hu : LinkStep s e u) :
    t = u := Option.some.inj (ht.symm.trans hu)

section
variable (s₀ : Link C ι) (events : List (Event C ι)) (i : ι)

def Looked (x : Option C) : Prop := Occurs LinkStep s₀ events (.look i) (·.stored = x)

inductive Answers : Option C → Answer → Prop
  | unavailable : Answers none (.error .gatewayPathUnavailable)
  | relayed {c : C} {resp : Option ResponsePdu} (h : .returned i (.ok resp) ∈ events) : Answers (some c) (.ok resp)
  | removed {c : C} (h : Occurs LinkStep s₀ events (.remove i) (·.stored = some c)) :
      Answers (some c) (.error .gatewayTargetDeviceFailedToRespond)

/-- What a run so far must have done for a call to be at a point of its program. -/
def Explained : CallPc C → Prop
  | .idle | .queued _ _ | .holding _ _ => ∀ y, ¬ Looked s₀ events i y
  | .calling client _ _ | .failed client => ∀ y, Looked s₀ events i y ↔ y = some client
  | .removed client | .unlocked client =>
    (∀ y, Looked s₀ events i y ↔ y = some client) ∧ Occurs LinkStep s₀ events (.remove i) (·.stored = some client)
  | .leaving answer | .done answer => ∃ x, (∀ y, Looked s₀ events i y ↔ y = x) ∧ Answers s₀ events i x answer
  | .cancelled => True

end

section
variable {s₀ : Link C ι} {events : List (Event C ι)} {i : ι} {e : Event C ι}

theorem looked_snoc (h : Run LinkStep s₀ events s) (he : ∀ j, e = .look j → j ≠ i) (y : Option C) :
    Looked s₀ (events ++ [e]) i y ↔ Looked s₀ events i y := by
  unfold Looked
  rw [occurs_snoc linkStep_det h]
  exact or_iff_left (fun h => he i h.1 rfl)

theorem Answers.snoc (h : Run LinkStep s₀ events s) {x : Option C} {answer : Answer} (ha : Answers s₀ events i x answer) :
    Answers s₀ (events ++ [e]) i x answer := by
  cases ha with
  | unavailable => exact .unavailable
  | relayed h => exact .relayed (List.mem_append_left _ h)
  | removed hr => exact .removed ((occurs_snoc linkStep_det h).2 (Or.inl hr))

theorem Explained.snoc (h : Run LinkStep s₀ events s) (he : ∀ j, e = .look j → j ≠ i) {pc : CallPc C}
    (hpc : Explained s₀ events i pc) : Explained s₀ (events ++ [e]) i pc := by
  cases pc <;> simp only [Explained, looked_snoc h he] at hpc ⊢
  case removed | unlocked => exact ⟨hpc.1, (occurs_snoc linkStep_det h).2 (Or.inl hpc.2)⟩
  case leaving | done => exact ⟨hpc.choose, hpc.choose_spec.1, hpc.choose_spec.2.snoc h⟩
  all_goals exact hpc

theorem explained_update (h : Run LinkStep s₀ events s) (hall : ∀ i, Explained s₀ events i (s.calls i)) {j : ι}
    {pc : CallPc C} (ht : t.calls = update s.calls j pc) (he : ∀ k, e = .look k → k = j)
    (hpc : Explained s₀ (events ++ [e]) j pc) (i : ι) : Explained s₀ (events ++ [e]) i (t.calls i) := by
  rw [ht]
  by_cases hij : i = j
  · subst hij
    rw [update_self]
    exact hpc
  · rw [update_of_ne hij]
    exact (hall i).snoc h (fun k hk hki => hij (hki.symm.trans (he k hk)))

theorem explained_same (h : Run LinkStep s₀ events s) (hall : ∀ i, Explained s₀ events i (s.calls i))
    (ht : t.calls = s.calls) (he : ∀ k, e ≠ .look k) (i : ι) : Explained s₀ (events ++ [e]) i (t.calls i) := by
  rw [ht]
  exact (hall i).snoc h (fun k hk => absurd hk (he k))

omit [DecidableEq ι] in
theorem calls_notifyOne (s : Link C ι) : s.notifyOne.calls = s.calls := by
  unfold Link.notifyOne
  split <;> rfl

theorem looked_look (h : Run LinkStep s₀ events s) (hi : ∀ y, ¬ Looked s₀ events i y) (y : Option C) :
    Looked s₀ (events ++ [.look i]) i y ↔ y = s.stored := by
  unfold Looked
  rw [occurs_snoc linkStep_det h]
  exact ⟨fun h => h.elim (fun h => absurd h (hi y)) (fun h => h.2.symm), fun h => Or.inr ⟨rfl, h.symm⟩⟩

theorem explained_step (h : Run LinkStep s₀ events s) (hsound : s.Sound)
    (hall : ∀ i, Explained s₀ events i (s.calls i)) (hs : step true s e = some t) :
    ∀ i, Explained s₀ (events ++ [e]) i (t.calls i) := by
  have hold : ∀ {j pc}, s.calls j = pc → (∀ k, e ≠ .look k) → Explained s₀ (events ++ [e]) j pc :=
    fun hc he => (hc ▸ hall _).snoc h (fun k hk => absurd hk (he k))
  cases e with
  | request j unit request =>
    simp only [step] at hs
    split at hs <;> cases hs
    rename_i hc
    exact explained_update h hall rfl nofun (hold hc nofun :)
  | look j =>
    simp only [step] at hs
    split at hs
    · rename_i hc
      have hj := hall j
      rw [hc] at hj
      have hl := looked_look h hj
      split at hs <;> cases hs <;> rename_i hst <;> rw [hst] at hl
      · exact explained_update h hall rfl (fun k hk => (Event.look.inj hk).symm) ⟨none, hl, .unavailable⟩
      · exact explained_update h hall rfl (fun k hk => (Event.look.inj hk).symm) hl
    · cases hs
  | returned j result =>
    simp only [step] at hs
    split at hs <;> cases hs <;> rename_i hc
    · refine explained_update h hall rfl nofun ⟨_, (hold hc nofun :), .relayed ?_⟩
      exact List.mem_append_right _ List.mem_cons_self
    · exact explained_update h hall rfl nofun (hold hc nofun :)
  | remove j =>
    simp only [step] at hs
    split at hs <;> cases hs
    rename_i client hc
    have hstored : s.stored = some client := hsound.uses j client (by rw [hc]; rfl)
    exact explained_update h hall rfl nofun
      ⟨(hold hc nofun :), (occurs_snoc linkStep_det h).2 (Or.inr ⟨rfl, hstored⟩)⟩
  | notify j =>
    simp only [step] at hs
    split at hs <;> cases hs
    rename_i client hc
    obtain ⟨hl, hr⟩ := (hold hc nofun :)
    exact explained_update h hall (calls_notifyOne _) nofun ⟨_, hl, .removed hr⟩
  | cancel j =>
    simp only [step] at hs
    split at hs <;> cases hs <;> exact explained_update h hall rfl nofun trivial
  | acquire p =>
    simp only [step] at hs
    split at hs
    · cases hs
    split at hs <;> split at hs <;> cases hs
    · exact explained_same h hall rfl nofun
    · rename_i hc
      exact explained_update h hall rfl nofun (hold hc nofun :)
  | release p =>
    cases p with
    | reconnector =>
      simp only [step] at hs
      split at hs <;> cases hs
      exact explained_same h hall rfl nofun
    | call j =>
      simp only [step] at hs
      split at hs <;> cases hs <;> rename_i hc <;> exact explained_update h hall rfl nofun (hold hc nofun :)
  | poll =>
    simp only [step] at hs
    split at hs
    · split at hs <;> cases hs <;> exact explained_same h hall rfl nofun
    · cases hs
  | connect result | resume | slept | store =>
    simp only [step] at hs
    split at hs <;> cases hs <;> exact explained_same h hall rfl nofun

end

/-! ## Whole runs -/

theorem sound_and_explained {polled : Bool} {events : List (Event C ι)} (h : Run LinkStep (.spawn polled) events s) :
    s.Sound ∧ ∀ i, Explained (.spawn polled) events i (s.calls i) := by
  induction h with
  | nil =>
    refine ⟨sound_spawn polled, fun i => ?_⟩
    have hidle : (Link.spawn polled : Link C ι).calls i = .idle := by cases polled <;> rfl
    rw [hidle]
    rintro y ⟨pre, u, hp, -⟩
    exact absurd (List.prefix_nil.1 hp) (by simp)
  | snoc h hs ih => exact ⟨sound_step ih.1 hs, explained_step h ih.1 ih.2 hs⟩

/-- **The downstream link is never stranded**: whenever no client is stored exactly one place has the duty to bring it back; and
a call that is done looked once, and answers by what it found and how its exchange went. -/
theorem link_never_stranded {polled : Bool} {events : List (Event C ι)} (h : Run LinkStep (.spawn polled) events s) :
    (s.stored = none → ∃! d, s.Has d) ∧ (∀ c, s.reconnector = .storing c → s.stored = none) ∧
      ∀ i answer, s.calls i = .done answer →
        ∃ x, (∀ y, Looked (.spawn polled) events i y ↔ y = x) ∧ Answers (.spawn polled) events i x answer := by
  obtain ⟨hsound, hexpl⟩ := sound_and_explained h
  refine ⟨hsound.duty.existsUnique, fun c hc => ?_, fun i answer hi => ?_⟩
  · have hloop : s.Has .loop := by simp [Link.Has, Duty.Held, hc, ReconnectorPc.inLoop]
    exact hsound.duty.is_live hloop
  · have hi' := hexpl i
    rw [hi] at hi'
    exact hi'

/-- **Exchanges exclude each other**: a call at work with a client has the one that is stored, and nobody else is inside the
mutex. -/
theorem exchange_has_link_alone {polled : Bool} {events : List (Event C ι)} (h : Run LinkStep (.spawn polled) events s) {i : ι}
    {c : C} (hc : (s.calls i).client = some c) : s.stored = some c ∧ ∀ p, s.Guards p ↔ p = .call i := by
  obtain ⟨hsound, -⟩ := sound_and_explained h
  have hi : s.Guards (.call i) := by
    show (s.calls i).guarded = true
    cases hpc : s.calls i <;> first | rfl | (rw [hpc] at hc; cases hc)
  exact ⟨hsound.uses i c hc, fun p => ⟨fun hp => hsound.exclusive.eq hp hi, fun hp => hp ▸ hi⟩⟩

end

def failedExchange : List (Event Nat Unit) :=
  [.poll, .connect (.ok 7), .acquire .reconnector, .store, .release .reconnector, .poll, .request () 1 (.readCoils 0 1),
    .acquire (.call ()), .look (), .returned () (.error "timeout"), .remove (), .release (.call ()), .notify ()]

theorem failed_exchange_wakes_reconnector :
    ∃ s, Run LinkStep (.spawn false) failedExchange s ∧ s.stored = none ∧ (∃! d, s.Has d) ∧
      ∃ x, (∀ y, Looked (.spawn false) failedExchange () y ↔ y = x) ∧
        Answers (.spawn false) failedExchange () x (.error .gatewayTargetDeviceFailedToRespond) := by
  have hrun : Run LinkStep (.spawn false) failedExchange _ := Run.of_foldlM failedExchange rfl
  exact ⟨_, hrun, rfl, (link_never_stranded hrun).1 rfl, (link_never_stranded hrun).2.2 () _ rfl⟩

theorem first_exchange_alone : ∃ s, Run LinkStep (.spawn false) (failedExchange.take 9) s ∧ s.stored = some 7 ∧
    ∀ p, s.Guards p ↔ p = .call () := by
  have hrun : Run LinkStep (.spawn false) (failedExchange.take 9) _ := Run.of_foldlM _ rfl
  exact ⟨_, hrun, exchange_has_link_alone hrun rfl⟩

end Ferrowl.Modbus.Bridge
