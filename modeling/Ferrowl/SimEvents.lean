import Mathlib
import Ferrowl.ReadLog
import Ferrowl.RunTrace
/-!
# SimEvents — the event queues of scripts

`sim/events.rs`: a stream hands each published event to the queues attached to it, and a queue keeps the events its selector
accepts, at most `queueCapacity` of them.  Publishing holds the lock of the stream while it goes over the queues, but pops take
only the lock of their queue and may come between: the loop of `publish_with` is one step per queue.  Queues are told apart by
`Q`, as by their pointers.  The flag that ends the sleep of the script thread is left out.
-/
namespace Ferrowl.Sim

open Function List Option

def queueCapacity : Nat := 4096

section
variable {Q E : Type} [DecidableEq Q]

/-- The stream and the queues.  While an event is being handed out, `offering` has it with the queues still to come. -/
structure EventStream (Q E : Type) where
  nextSeq : Nat
  queues : List Q
  events : Q → List E
  offering : Option (E × List Q)

def EventStream.new : EventStream Q E := ⟨1, [], fun _ => [], none⟩

def offer (accepts : E → Bool) (events : List E) (event : E) : List E :=
  if accepts event then (if queueCapacity ≤ events.length then events.tail else events) ++ [event] else events

inductive Act (Q E : Type) where
  | publishWith (build : Nat → E)
  | offer
  | attach (queue : Q)
  | detach (queue : Q)
  | pop (queue : Q)

namespace EventStream

variable (selector : Q → E → Bool)

def step (s : EventStream Q E) : Act Q E → Option (EventStream Q E)
  | .publishWith build =>
    if s.offering.isSome then none
    else if s.queues = [] then some { s with nextSeq := (s.nextSeq + 1) % 2 ^ 64 }
    else some { s with nextSeq := (s.nextSeq + 1) % 2 ^ 64, offering := some (build s.nextSeq, s.queues) }
  | .offer =>
    match s.offering with
    | some (event, queue :: rest) =>
      some { s with
        events := update s.events queue (Sim.offer (selector queue) (s.events queue) event)
        offering := if rest = [] then none else some (event, rest) }
    | _ => none
  | .attach queue => if s.offering.isSome then none else some { s with queues := s.queues ++ [queue] }
  | .detach queue =>
    if s.offering.isSome then none else some { s with queues := s.queues.filter fun q => decide (q ≠ queue) }
  | .pop queue => some { s with events := update s.events queue (s.events queue).tail }

end EventStream

/-! ## Histories -/

/-- An event with the number of its publish and the queues that were attached then. -/
structure Published (Q E : Type) where
  number : Nat
  event : E
  attached : List Q

/-- What happened on a stream: how often was published, the sequence numbers builders got, the events they built, and for
each queue the numbered events it holds and those popped from it. -/
structure Ledger (Q E : Type) where
  count : Nat
  handed : List Nat
  published : List (Published Q E)
  inside : Q → List (Nat × E)
  popped : Q → List (Nat × E)

def Ledger.new : Ledger Q E := ⟨0, [], [], fun _ => [], fun _ => []⟩

def Ledger.record (selector : Q → E → Bool) (s : EventStream Q E) (l : Ledger Q E) : Act Q E → Ledger Q E
  | .publishWith build =>
    if s.queues = [] then { l with count := l.count + 1 }
    else
      { l with
        count := l.count + 1
        handed := l.handed ++ [s.nextSeq]
        published := l.published ++ [⟨l.count, build s.nextSeq, s.queues⟩] }
  | .offer =>
    match s.offering, l.published.getLast? with
    | some (event, queue :: _), some p =>
      { l with
        inside := update l.inside queue
          (Sim.offer (fun x => selector queue x.2) (l.inside queue) (p.number, event)) }
    | _, _ => l
  | .attach _ | .detach _ => l
  | .pop queue =>
    { l with
      inside := update l.inside queue (l.inside queue).tail
      popped := update l.popped queue (l.popped queue ++ (l.inside queue).head?.toList) }

structure Traced (Q E : Type) where
  stream : EventStream Q E
  ledger : Ledger Q E

namespace Traced

variable (selector : Q → E → Bool)

def new : Traced Q E := ⟨.new, .new⟩

def step (t : Traced Q E) (a : Act Q E) : Option (Traced Q E) :=
  (t.stream.step selector a).map fun s => ⟨s, t.ledger.record selector t.stream a⟩

/-- The events handed out as far as the queue is concerned: the one under way counts once it has come to the queue. -/
def seen (t : Traced Q E) (queue : Q) : List (Published Q E) :=
  match t.stream.offering with
  | some (_, rest) => if queue ∈ rest then t.ledger.published.dropLast else t.ledger.published
  | none => t.ledger.published

/-- The events published while the queue was attached that its selector accepts. -/
def accepted (t : Traced Q E) (queue : Q) : List (Nat × E) :=
  ((t.seen queue).filter fun p => decide (queue ∈ p.attached) && selector queue p.event).map fun p => (p.number, p.event)

def unread (t : Traced Q E) (queue : Q) : List (Nat × E) :=
  (t.accepted selector queue).filter fun x => decide (∀ y ∈ t.ledger.popped queue, y.1 < x.1)

def Once (t : Traced Q E) : Act Q E → Prop
  | .attach queue => queue ∉ t.stream.queues
  | _ => True

variable {selector : Q → E → Bool}

/-! ## One step -/

theorem offer_eq {accepts : E → Bool} {events : List E} (h : events.length ≤ queueCapacity) (event : E) :
    Sim.offer accepts events event = if accepts event then (events ++ [event]).rtake queueCapacity else events := by
  unfold Sim.offer
  split
  · split
    · rename_i hfull
      have hlen : events.length = queueCapacity := Nat.le_antisymm h hfull
      cases events with
      | nil => cases hlen
      | cons a rest =>
        simp only [List.rtake, length_append, length_singleton, hlen, Nat.add_sub_cancel_left]
        rfl
    · rename_i hroom
      rw [ReadLog.rtake_of_length_le]
      rw [length_append, length_singleton]
      omega
  · rfl

theorem map_offer {accepts : E → Bool} (events : List (Nat × E)) (x : Nat × E) :
    (Sim.offer (fun y => accepts y.2) events x).map Prod.snd = Sim.offer accepts (events.map Prod.snd) x.2 := by
  unfold Sim.offer
  rw [length_map]
  split
  · split
    · rw [map_append, map_tail]
      rfl
    · rw [map_append]
      rfl
  · rfl

theorem filter_after {l pre rest : List (Nat × E)} {a : Nat × E} (hs : l.Pairwise fun x y => x.1 < y.1)
    (h : l = pre ++ a :: rest) : (l.filter fun x => decide (a.1 < x.1)) = rest := by
  subst h
  obtain ⟨-, hrest, hpre⟩ := pairwise_append.1 hs
  rw [filter_append, filter_eq_nil_iff.2, nil_append, filter_cons_of_neg (by simp),
    filter_eq_self.2]
  · exact fun x hx => decide_eq_true (rel_of_pairwise_cons hrest hx)
  intro x hx
  have := hpre x hx a mem_cons_self
  simp only [decide_eq_true_eq]
  omega

/-- **What holds of a stream and its history.** -/
structure Sound (selector : Q → E → Bool) (t : Traced Q E) : Prop where
  nodup : t.stream.queues.Nodup
  offering : ∀ event rest, t.stream.offering = some (event, rest) → rest ≠ [] ∧ rest.Nodup ∧
    ∃ p, t.ledger.published.getLast? = some p ∧ p.event = event ∧ ∀ q ∈ rest, q ∈ p.attached
  sorted : t.ledger.published.Pairwise fun p p' => p.number < p'.number
  below : ∀ p ∈ t.ledger.published, p.number < t.ledger.count
  erased : ∀ q, t.stream.events q = (t.ledger.inside q).map Prod.snd
  inside : ∀ q, t.ledger.inside q = (t.unread selector q).rtake queueCapacity
  popped : ∀ q, ∀ x ∈ t.ledger.popped q, x ∈ t.accepted selector q

theorem seen_sublist (t : Traced Q E) (q : Q) : (t.seen q).Sublist t.ledger.published := by
  unfold seen
  split
  · split
    · exact dropLast_sublist _
    · exact List.Sublist.refl _
  · exact List.Sublist.refl _

variable {t : Traced Q E}

theorem Sound.sorted_accepted (h : t.Sound selector) (q : Q) : (t.accepted selector q).Pairwise fun x y => x.1 < y.1 :=
  ((h.sorted.sublist (t.seen_sublist q)).filter _).map _ fun _ _ hlt => hlt

theorem Sound.length_inside (h : t.Sound selector) (q : Q) : (t.ledger.inside q).length ≤ queueCapacity := by
  rw [h.inside q]
  exact ReadLog.length_rtake_le _ _

theorem unread_congr {u : Traced Q E} {q : Q} (hacc : u.accepted selector q = t.accepted selector q)
    (hpop : u.ledger.popped q = t.ledger.popped q) : u.unread selector q = t.unread selector q := by
  rw [unread, unread, hacc, hpop]

theorem Sound.quiet {u : Traced Q E} (h : t.Sound selector) (hoff : t.stream.offering = none)
    (hoff' : u.stream.offering = none) (hnodup : u.stream.queues.Nodup)
    (hevents : u.stream.events = t.stream.events) (hpub : u.ledger.published = t.ledger.published)
    (hcount : t.ledger.count ≤ u.ledger.count) (hin : u.ledger.inside = t.ledger.inside)
    (hpop : u.ledger.popped = t.ledger.popped) : u.Sound selector := by
  have hacc : ∀ q, u.accepted selector q = t.accepted selector q := fun q => by
    rw [accepted, accepted, seen, seen, hoff, hoff', hpub]
  refine ⟨hnodup, ?_, hpub ▸ h.sorted, fun p hp => ?_, fun q => ?_, fun q => ?_, fun q x hx => ?_⟩
  · rw [hoff']
    exact nofun
  · rw [hpub] at hp
    exact Nat.lt_of_lt_of_le (h.below p hp) hcount
  · rw [hevents, hin, h.erased q]
  · rw [hin, h.inside q, unread_congr (hacc q) (congrFun hpop q)]
  · rw [hpop] at hx
    rw [hacc q]
    exact h.popped q x hx

theorem Sound.publish (h : t.Sound selector) (hoff : t.stream.offering = none)
    (hq : t.stream.queues ≠ []) (build : Nat → E) (seq : Nat) (handed : List Nat) : Sound selector
      ⟨{ t.stream with nextSeq := seq, offering := some (build t.stream.nextSeq, t.stream.queues) }, { t.ledger with
          count := t.ledger.count + 1
          handed := handed
          published := t.ledger.published ++ [⟨t.ledger.count, build t.stream.nextSeq, t.stream.queues⟩] }⟩ := by
  generalize hu : (⟨_, _⟩ : Traced Q E) = u
  -- the event has come to no queue yet, and those that are not attached will not get it
  have hacc : ∀ q, u.accepted selector q = t.accepted selector q := by
    intro q
    subst hu
    simp only [accepted, seen, hoff]
    split
    · rw [dropLast_concat]
    · rename_i hnot
      simp [filter_append, hnot]
  have hpop : ∀ q, u.ledger.popped q = t.ledger.popped q := fun q => hu ▸ rfl
  have hunread : ∀ q, u.unread selector q = t.unread selector q := fun q => unread_congr (hacc q) (hpop q)
  refine ⟨?_, ?_, ?_, ?_, fun q => ?_, fun q => ?_, fun q x hx => ?_⟩
  · subst hu
    exact h.nodup
  · subst hu
    rintro event rest hrest
    cases hrest
    exact ⟨hq, h.nodup, _, List.getLast?_concat, rfl, fun q hq => hq⟩
  · subst hu
    refine pairwise_append.2 ⟨h.sorted, pairwise_singleton _ _, fun p hp p' hp' => ?_⟩
    cases mem_singleton.1 hp'
    exact h.below p hp
  · subst hu
    intro p hp
    rcases mem_append.1 hp with hp | hp
    · exact Nat.lt_succ_of_lt (h.below p hp)
    · cases mem_singleton.1 hp
      exact Nat.lt_succ_self _
  · subst hu
    exact h.erased q
  · rw [hunread q]
    subst hu
    exact h.inside q
  · rw [hacc q]
    rw [hpop q] at hx
    exact h.popped q x hx

theorem Sound.offer (h : t.Sound selector) {event : E} {queue : Q} {rest : List Q}
    (hoff : t.stream.offering = some (event, queue :: rest)) {p : Published Q E}
    (hp : t.ledger.published.getLast? = some p) (hpe : p.event = event)
    (hpa : ∀ q ∈ queue :: rest, q ∈ p.attached) (hnd : (queue :: rest).Nodup) : Sound selector ⟨{ t.stream with
          events := update t.stream.events queue (Sim.offer (selector queue) (t.stream.events queue) event)
          offering := if rest = [] then none else some (event, rest) }, { t.ledger with
          inside := update t.ledger.inside queue
            (Sim.offer (fun x => selector queue x.2) (t.ledger.inside queue) (p.number, event)) }⟩ := by
  generalize hu : (⟨_, _⟩ : Traced Q E) = u
  obtain ⟨init, hinit⟩ : ∃ init, t.ledger.published = init ++ [p] := List.getLast?_eq_some_iff.1 hp
  have hseen : ∀ q, u.seen q = if q ∈ rest then init else t.ledger.published := by
    intro q
    subst hu
    by_cases hrest : rest = []
    · simp [seen, hrest]
    · simp [seen, hrest, hinit]
  have hpop : u.ledger.popped = t.ledger.popped := hu ▸ rfl
  have hother : ∀ q, q ≠ queue → u.accepted selector q = t.accepted selector q := by
    intro q hq
    have : t.seen q = if q ∈ rest then init else t.ledger.published := by
      simp [seen, hoff, hq, hinit]
    rw [accepted, accepted, hseen, this]
  -- the event is the last the queue has seen
  have hself : u.accepted selector queue =
      t.accepted selector queue ++ if selector queue event then [(p.number, event)] else [] := by
    have hnot : queue ∉ rest := (nodup_cons.1 hnd).1
    have hbefore : t.seen queue = init := by simp [seen, hoff, hinit]
    have hatt : queue ∈ p.attached := hpa queue mem_cons_self
    rw [accepted, accepted, hseen, if_neg hnot, hbefore, hinit, filter_append, map_append]
    subst hpe
    by_cases hsel : selector queue p.event = true <;> simp [hatt, hsel]
  have hnewer : ∀ y ∈ t.accepted selector queue, y.1 < p.number := by
    intro y hy
    have hbefore : t.seen queue = init := by simp [seen, hoff, hinit]
    rw [accepted, hbefore] at hy
    obtain ⟨p', hp', rfl⟩ := mem_map.1 hy
    have hsorted := h.sorted
    rw [hinit] at hsorted
    exact (pairwise_append.1 hsorted).2.2 p' (mem_filter.1 hp').1 p (mem_singleton.2 rfl)
  have hunread : u.unread selector queue =
      t.unread selector queue ++ if selector queue event then [(p.number, event)] else [] := by
    rw [unread, unread, hself, hpop, filter_append]
    congr 1
    split
    · refine filter_eq_self.2 fun x hx => ?_
      cases mem_singleton.1 hx
      exact decide_eq_true fun y hy => hnewer y (h.popped queue y hy)
    · rfl
  refine ⟨?_, ?_, ?_, ?_, fun q => ?_, fun q => ?_, fun q x hx => ?_⟩
  · subst hu
    exact h.nodup
  · subst hu
    intro event' rest' hrest'
    by_cases hrest : rest = []
    · simp only [hrest, if_true] at hrest'
      cases hrest'
    · simp only [hrest, if_false] at hrest'
      cases hrest'
      exact ⟨hrest, (nodup_cons.1 hnd).2, p, hp, hpe, fun q hq => hpa q (mem_cons_of_mem _ hq)⟩
  · subst hu
    exact h.sorted
  · subst hu
    exact h.below
  · subst hu
    by_cases hq : q = queue
    · subst hq
      simp [map_offer, h.erased q]
    · simp only [update_of_ne hq, h.erased q]
  · by_cases hq : q = queue
    · subst hq
      have hin : u.ledger.inside q = Sim.offer (fun x => selector q x.2) (t.ledger.inside q) (p.number, event) := by
        subst hu
        exact update_self ..
      rw [hin, offer_eq (h.length_inside q), hunread, h.inside q]
      split
      · exact (ReadLog.rtake_append_singleton _ _ _).symm
      · rw [append_nil]
    · have hin : u.ledger.inside q = t.ledger.inside q := by
        subst hu
        exact update_of_ne hq _ _
      rw [hin, h.inside q, unread_congr (hother q hq) (congrFun hpop q)]
  · rw [hpop] at hx
    have hold := h.popped q x hx
    by_cases hq : q = queue
    · subst hq
      rw [hself]
      exact mem_append_left _ hold
    · rwa [hother q hq]

theorem Sound.pop (h : t.Sound selector) (queue : Q) : Sound selector
      ⟨{ t.stream with events := update t.stream.events queue (t.stream.events queue).tail }, { t.ledger with
          inside := update t.ledger.inside queue (t.ledger.inside queue).tail
          popped := update t.ledger.popped queue
            (t.ledger.popped queue ++ (t.ledger.inside queue).head?.toList) }⟩ := by
  generalize hu : (⟨_, _⟩ : Traced Q E) = u
  have hacc : ∀ q, u.accepted selector q = t.accepted selector q := fun q => by
    subst hu
    rfl
  refine ⟨?_, ?_, ?_, ?_, fun q => ?_, fun q => ?_, fun q x hx => ?_⟩
  · subst hu
    exact h.nodup
  · subst hu
    exact h.offering
  · subst hu
    exact h.sorted
  · subst hu
    exact h.below
  · subst hu
    by_cases hq : q = queue
    · subst hq
      simp [h.erased q]
    · simp only [update_of_ne hq, h.erased q]
  · by_cases hq : q = queue
    · subst hq
      have hin : u.ledger.inside q = (t.ledger.inside q).tail := by
        subst hu
        exact update_self ..
      have hpop : u.ledger.popped q = t.ledger.popped q ++ (t.ledger.inside q).head?.toList := by
        subst hu
        exact update_self ..
      rw [hin]
      cases hins : t.ledger.inside q with
      | nil =>
        rw [hins, List.head?_nil, toList_none, append_nil] at hpop
        rw [unread_congr (hacc q) hpop, ← h.inside q, hins]
        rfl
      | cons a rest =>
        -- what was published after the event popped is what stood behind it
        have hlen := h.length_inside q
        rw [hins, length_cons] at hlen
        obtain ⟨pre, hpre⟩ : a :: rest <:+ t.unread selector q := by
          rw [← hins, h.inside q]
          exact drop_suffix _ _
        have hafter : u.unread selector q = rest := by
          have hsplit : u.unread selector q = (t.unread selector q).filter fun x => decide (a.1 < x.1) := by
            rw [unread, unread, hacc, hpop, hins, List.filter_filter]
            refine filter_congr fun x _ => ?_
            rw [Bool.eq_iff_iff, Bool.and_eq_true, decide_eq_true_iff, decide_eq_true_iff, decide_eq_true_iff, List.head?_cons,
              toList_some, forall_mem_append, forall_mem_singleton, and_comm]
          rw [hsplit]
          exact filter_after ((h.sorted_accepted q).filter _) hpre.symm
        rw [hafter, ReadLog.rtake_of_length_le (Nat.le_of_succ_le hlen)]
        rfl
    · have hin : u.ledger.inside q = t.ledger.inside q := by
        subst hu
        exact update_of_ne hq _ _
      have hpop : u.ledger.popped q = t.ledger.popped q := by
        subst hu
        exact update_of_ne hq _ _
      rw [hin, h.inside q, unread_congr (hacc q) hpop]
  · rw [hacc q]
    by_cases hq : q = queue
    · subst hq
      have hpop : u.ledger.popped q = t.ledger.popped q ++ (t.ledger.inside q).head?.toList := by
        subst hu
        exact update_self ..
      rw [hpop] at hx
      rcases mem_append.1 hx with hx | hx
      · exact h.popped q x hx
      · have hmem : x ∈ t.ledger.inside q := mem_of_head? (mem_toList.1 hx)
        rw [h.inside q] at hmem
        exact (mem_filter.1 (mem_of_mem_drop hmem)).1
    · have hpop : u.ledger.popped q = t.ledger.popped q := by
        subst hu
        exact update_of_ne hq _ _
      rw [hpop] at hx
      exact h.popped q x hx

theorem sound_new : Sound selector (new : Traced Q E) :=
  ⟨nodup_nil, nofun, List.Pairwise.nil, nofun, fun _ => rfl, fun _ => (rtake_nil _).symm, nofun⟩

theorem Sound.step {u : Traced Q E} {a : Act Q E} (h : t.Sound selector) (hc : t.Once a)
    (hstep : t.step selector a = some u) : u.Sound selector := by
  obtain ⟨s, hs, rfl⟩ := map_eq_some_iff.1 hstep
  cases a with
  | publishWith build =>
    simp only [EventStream.step, ite_none_left_eq_some, not_isSome_iff_eq_none] at hs
    obtain ⟨hoff, hs⟩ := hs
    split at hs
    · rename_i hq
      cases hs
      simp only [Ledger.record, hq, if_true]
      exact h.quiet hoff hoff nodup_nil rfl rfl (Nat.le_succ _) rfl rfl
    rename_i hq
    cases hs
    simp only [Ledger.record, hq, if_false]
    exact h.publish hoff hq build _ _
  | offer =>
    simp only [EventStream.step] at hs
    split at hs
    · rename_i event queue rest hoff
      cases hs
      obtain ⟨-, hnd, p, hp, hpe, hpa⟩ := h.offering _ _ hoff
      simp only [Ledger.record, hoff, hp]
      exact h.offer hoff hp hpe hpa hnd
    · cases hs
  | attach queue =>
    simp only [EventStream.step, ite_none_left_eq_some, not_isSome_iff_eq_none] at hs
    obtain ⟨hoff, hs⟩ := hs
    cases hs
    refine h.quiet hoff hoff ?_ rfl rfl le_rfl rfl rfl
    exact nodup_append_comm.1 (nodup_cons.2 ⟨hc, h.nodup⟩)
  | detach queue =>
    simp only [EventStream.step, ite_none_left_eq_some, not_isSome_iff_eq_none] at hs
    obtain ⟨hoff, hs⟩ := hs
    cases hs
    exact h.quiet hoff hoff (h.nodup.filter _) rfl rfl le_rfl rfl rfl
  | pop queue =>
    cases hs
    exact h.pop queue

/-- **The sequence numbers builders get grow**, until they are used up. -/
structure Counts (t : Traced Q E) : Prop where
  next : t.stream.nextSeq = (t.ledger.count + 1) % 2 ^ 64
  handed : t.ledger.count < 2 ^ 64 → t.ledger.handed.Pairwise (· < ·) ∧ ∀ n ∈ t.ledger.handed, n ≤ t.ledger.count

omit [DecidableEq Q] in
theorem counts_new : Counts (new : Traced Q E) := ⟨rfl, fun _ => ⟨List.Pairwise.nil, nofun⟩⟩

theorem Counts.step {u : Traced Q E} {a : Act Q E} (h : t.Counts) (hstep : t.step selector a = some u) : u.Counts := by
  obtain ⟨s, hs, rfl⟩ := map_eq_some_iff.1 hstep
  cases a with
  | publishWith build =>
    simp only [EventStream.step, ite_none_left_eq_some, not_isSome_iff_eq_none] at hs
    obtain ⟨-, hs⟩ := hs
    have hnext : (t.stream.nextSeq + 1) % 2 ^ 64 = (t.ledger.count + 1 + 1) % 2 ^ 64 := by
      rw [h.next, Nat.mod_add_mod]
    split at hs
    · rename_i hq
      cases hs
      simp only [Ledger.record, hq, if_true]
      refine ⟨hnext, fun hlt => ?_⟩
      obtain ⟨hsorted, hle⟩ := h.handed (Nat.lt_of_succ_lt hlt)
      exact ⟨hsorted, fun n hn => Nat.le_succ_of_le (hle n hn)⟩
    rename_i hq
    cases hs
    simp only [Ledger.record, hq, if_false]
    refine ⟨hnext, fun hlt => ?_⟩
    obtain ⟨hsorted, hle⟩ := h.handed (Nat.lt_of_succ_lt hlt)
    have hseq : t.stream.nextSeq = t.ledger.count + 1 := h.next.trans (Nat.mod_eq_of_lt hlt)
    refine ⟨pairwise_append.2 ⟨hsorted, pairwise_singleton _ _, fun n hn m hm => ?_⟩, fun n hn => ?_⟩
    · cases mem_singleton.1 hm
      exact hseq ▸ Nat.lt_succ_of_le (hle n hn)
    rcases mem_append.1 hn with hn | hn
    · exact Nat.le_succ_of_le (hle n hn)
    · cases mem_singleton.1 hn
      exact hseq.le
  | offer =>
    simp only [EventStream.step] at hs
    split at hs
    · cases hs
      have hframe : (t.ledger.record selector t.stream .offer).count = t.ledger.count ∧
          (t.ledger.record selector t.stream .offer).handed = t.ledger.handed := by
        unfold Ledger.record
        dsimp only
        split <;> exact ⟨rfl, rfl⟩
      refine ⟨?_, ?_⟩
      · rw [hframe.1]
        exact h.next
      · rw [hframe.1, hframe.2]
        exact h.handed
    · cases hs
  | attach queue | detach queue =>
    simp only [EventStream.step, ite_none_left_eq_some, not_isSome_iff_eq_none] at hs
    cases hs.2
    exact ⟨h.next, h.handed⟩
  | pop queue =>
    cases hs
    exact ⟨h.next, h.handed⟩

abbrev Runs (selector : Q → E → Bool) : Traced Q E → List (Act Q E) → Traced Q E → Prop :=
  Run fun t a u => t.step selector a = some u

/-- **A queue is a sliding window**: if no queue is attached twice at a time, each holds, oldest first, the last accepted events
published while it was attached and after everything popped from it. -/
theorem queues_are_windows {acts : List (Act Q E)} {t : Traced Q E} (h : Runs selector new acts t)
    (hc : ∀ pre a u, pre ++ [a] <+: acts → Runs selector new pre u → u.Once a) :
    (∀ q, t.stream.events q = ((t.unread selector q).rtake queueCapacity).map Prod.snd) ∧
      (∀ q, t.ledger.inside q = (t.unread selector q).rtake queueCapacity ∧ ((t.ledger.inside q).map Prod.fst).Pairwise (· < ·)) ∧
      (t.ledger.count < 2 ^ 64 → t.ledger.handed.Pairwise (· < ·)) := by
  have hsound : t.Sound selector :=
    Run.invariant_of_steps (C := Once) (fun t a u ht hc hs => ht.step hc hs) h hc sound_new
  have hcounts : t.Counts := Run.invariant (I := Counts) (fun t a u ht hs => ht.step hs) h counts_new
  refine ⟨fun q => ?_, fun q => ⟨hsound.inside q, ?_⟩, fun hlt => (hcounts.handed hlt).1⟩
  · rw [hsound.erased q, hsound.inside q]
  · rw [hsound.inside q, pairwise_map]
    exact ((hsound.sorted_accepted q).filter _).sublist (drop_sublist _ _)

end Traced

end

def burst (k : Nat) : List (Act Unit Nat) :=
  .attach () :: (List.range k).flatMap fun _ => [.publishWith id, .offer]

theorem mem_burst {k : Nat} {a : Act Unit Nat}
    (h : a ∈ ((List.range k).flatMap fun _ => [.publishWith id, .offer] : List (Act Unit Nat))) :
    a = .publishWith id ∨ a = .offer := by
  obtain ⟨i, -, ha⟩ := mem_flatMap.1 h
  exact mem_pair.1 ha

theorem second_event_left : ∃ t : Traced Unit Nat, Traced.Runs (fun _ _ => true) .new (burst 2 ++ [.pop ()]) t ∧
    t.stream.events () = [2] ∧ t.ledger.handed = [1, 2] ∧
    t.stream.events () = ((t.unread (fun _ _ => true) ()).rtake queueCapacity).map Prod.snd := by
  have hrun : Traced.Runs (fun _ _ => true) .new (burst 2 ++ [.pop ()]) _ := Run.of_foldlM _ rfl
  refine ⟨_, hrun, rfl, rfl, (Traced.queues_are_windows hrun ?_).1 ()⟩
  refine Run.forall_of_head not_mem_nil fun a ha u => ?_
  rcases mem_append.1 ha with ha | ha
  · rcases mem_burst ha with rfl | rfl <;> trivial
  · cases mem_singleton.1 ha
    trivial

theorem burst_run (k : Nat) : ∃ t : Traced Unit Nat, Traced.Runs (fun _ _ => true) .new (burst k) t ∧
    t.stream.queues = [()] ∧ t.stream.offering = none ∧ t.stream.nextSeq = (k + 1) % 2 ^ 64 ∧ t.ledger.count = k ∧
    t.ledger.published = (List.range k).map (fun i => ⟨i, (i + 1) % 2 ^ 64, [()]⟩) ∧ t.ledger.popped = fun _ => [] := by
  induction k with
  | zero => exact ⟨_, Run.nil.snoc rfl, rfl, rfl, rfl, rfl, rfl, rfl⟩
  | succ k ih =>
    obtain ⟨t, ht, hq, hoff, hseq, hcount, hpub, hpop⟩ := ih
    have hacts : burst (k + 1) = burst k ++ [.publishWith id] ++ [.offer] := by
      simp [burst, range_succ]
    have hpublish : t.step (fun _ _ => true) (.publishWith id) = some
        ⟨{ t.stream with nextSeq := (t.stream.nextSeq + 1) % 2 ^ 64, offering := some (t.stream.nextSeq, [()]) },
          t.ledger.record (fun _ _ => true) t.stream (.publishWith id)⟩ := by
      simp [Traced.step, EventStream.step, hoff, hq]
    have hoffer : ∀ (u : Traced Unit Nat) (event : Nat), u.stream.offering = some (event, [()]) →
        u.step (fun _ _ => true) .offer = some
          ⟨{ u.stream with
              events := update u.stream.events () (offer (fun _ => true) (u.stream.events ()) event)
              offering := none }, u.ledger.record (fun _ _ => true) u.stream .offer⟩ := by
      intro u event hu
      simp [Traced.step, EventStream.step, hu]
    have hrun := (ht.snoc hpublish).snoc (hoffer _ _ rfl)
    rw [← hacts] at hrun
    refine ⟨_, hrun, hq, rfl, ?_, ?_, ?_, ?_⟩
    · simp [hseq]
    all_goals simp [Ledger.record, hq, hcount, hpub, hpop, hseq, range_succ]

/-- One more event than a queue holds is published, and one is popped.  The event that was dropped does not come back for it:
the queue is one short of the last events that were not popped. -/
theorem dropped_event_stays_out : ∃ t : Traced Unit Nat, Traced.Runs (fun _ _ => true) .new (burst 4097 ++ [.pop ()]) t ∧
      t.stream.events () = List.range' 3 4095 ∧
      (((t.accepted (fun _ _ => true) ()).filter fun x => decide (x ∉ t.ledger.popped ())).rtake queueCapacity).map Prod.snd =
        1 :: List.range' 3 4095 := by
  obtain ⟨t, ht, -, hoff, -, -, hpub, hpop⟩ := burst_run 4097
  have hsound : t.Sound fun _ _ => true := by
    refine Run.invariant_of_steps (C := Traced.Once) (fun t a u ht hc hs => ht.step hc hs) ht ?_ Traced.sound_new
    refine Run.forall_of_head not_mem_nil fun a ha u => ?_
    rcases mem_burst ha with rfl | rfl <;> trivial
  have hacc : t.accepted (fun _ _ => true) () = (List.range' 0 4097).map fun i => (i, i + 1) := by
    have hseen : t.seen () = t.ledger.published := by rw [Traced.seen, hoff]
    rw [Traced.accepted, hseen, hpub, List.filter_eq_self.2, List.map_map, List.range_eq_range']
    · refine map_congr_left fun i hi => ?_
      have hlt : i + 1 < 2 ^ 64 := by
        have := mem_range'_1.1 hi
        omega
      exact Prod.ext rfl (Nat.mod_eq_of_lt hlt)
    · intro p hp
      obtain ⟨i, -, rfl⟩ := List.mem_map.1 hp
      rfl
  -- the queue has dropped the first event and holds those from the second on
  have hinside : t.ledger.inside () = (List.range' 1 4096).map fun i => (i, i + 1) := by
    have hunread : t.unread (fun _ _ => true) () = (List.range' 0 4097).map fun i => (i, i + 1) := by
      rw [Traced.unread, hpop, hacc]
      exact filter_eq_self.2 fun x _ => decide_eq_true nofun
    rw [hsound.inside, hunread, List.rtake, length_map, length_range', ← map_drop, List.range'_succ]
    rfl
  have hrest : ((List.range' 2 4095).map fun i => (i, i + 1)).map Prod.snd = List.range' 3 4095 := by
    rw [List.map_map, show (3 : Nat) = 1 + 2 from rfl, ← List.map_add_range']
    exact map_congr_left fun i _ => Nat.add_comm i 1
  refine ⟨_, ht.snoc rfl, ?_, ?_⟩
  · simp only [update_self, hsound.erased, hinside]
    rw [List.range'_succ, map_cons, map_cons, tail_cons, hrest]
  have hkept : (((List.range' 0 4097).map fun i => (i, i + 1)).filter fun x => decide (x ∉ [(1, 2)])) =
      (0, 1) :: (List.range' 2 4095).map fun i => (i, i + 1) := by
    rw [List.range'_succ, List.range'_succ, map_cons, map_cons, filter_cons_of_pos (by simp),
      filter_cons_of_neg (by simp), filter_eq_self.2]
    intro x hx
    obtain ⟨i, hi, rfl⟩ := mem_map.1 hx
    have := mem_range'_1.1 hi
    simp
    omega
  have hpopped : (update t.ledger.popped () (t.ledger.popped () ++ (t.ledger.inside ()).head?.toList)) () =
      [(1, 2)] := by
    rw [update_self, hpop, hinside, List.range'_succ]
    rfl
  change (((t.accepted (fun _ _ => true) ()).filter fun x => decide (x ∉ update t.ledger.popped ()
    (t.ledger.popped () ++ (t.ledger.inside ()).head?.toList) ())).rtake queueCapacity).map Prod.snd = _
  rw [hpopped, hacc, hkept, ReadLog.rtake_of_length_le (by simp [queueCapacity]), map_cons, hrest]

end Ferrowl.Sim
