import Ferrowl.TabStore
/-!
# ClientPoll — the poll loop of the Modbus client

`ClientCore::poll_once` as the loop of `ClientCore::run` calls it, tick after tick: it reads the operation at an index of the
shared list, moves on after an answer with values, and gives an operation up after three exceptions.  The index and the count of
exceptions outlive the list, which the tab replaces at any time between two cycles (the lock is held for a whole cycle).

The device decides every outcome; the lines of the log are left out.
-/
namespace Ferrowl.Modbus.Client

open List Option

open Store (Memory Word)

def maxRetries : Nat := 3

inductive ReadOutcome where
  | values (words : List Word)
  | exception (code : ExceptionCode)
  | timeout
  | error
  deriving DecidableEq, Repr

structure PollState where
  index : Nat
  retries : Nat
  hadSuccess : Bool
  memory : Memory SlaveKey

inductive ReadFailure where
  | timeout
  | error
  deriving DecidableEq, Repr

def pollOnce (operations : List Operation) (outcome : ReadOutcome) (s : PollState) : PollState × Except ReadFailure Unit :=
  let count := operations.length
  let s := { s with index := if count ≤ s.index then 0 else s.index }
  match operations[s.index]? with
  | none => (s, .ok ())
  | some operation =>
    match outcome with
    | .values words =>
      ({ s with
        hadSuccess := true
        memory := (pollStore s.memory operation words).2
        index := (s.index + 1) % count
        retries := 0 }, .ok ())
    | .timeout => (s, .error .timeout)
    | .error => (s, .error .error)
    | .exception _ =>
      if maxRetries ≤ s.retries + 1 then ({ s with index := (s.index + 1) % count, retries := 0 }, .ok ())
      else ({ s with retries := s.retries + 1 }, .ok ())

structure Cycle where
  operations : List Operation
  outcome : ReadOutcome

structure Poll where
  position : Nat
  operation : Operation
  outcome : ReadOutcome
  skipped : Bool
  deriving DecidableEq, Repr

def ReadOutcome.isException : ReadOutcome → Bool
  | .exception _ => true
  | _ => false

def ReadOutcome.isValues : ReadOutcome → Bool
  | .values _ => true
  | _ => false

def PollState.poll (s : PollState) (c : Cycle) : Option Poll :=
  let index := if c.operations.length ≤ s.index then 0 else s.index
  c.operations[index]?.map (fun operation =>
    ⟨index, operation, c.outcome, c.outcome.isException && decide (maxRetries ≤ s.retries + 1)⟩)

structure PollRun where
  state : PollState
  polls : List Poll
  failed : Option ReadFailure

def PollRun.start (memory : Memory SlaveKey) : PollRun := ⟨⟨0, 0, false, memory⟩, [], none⟩

def PollRun.cycle (r : PollRun) (c : Cycle) : PollRun :=
  if r.failed.isSome then r
  else
    let out := pollOnce c.operations c.outcome r.state
    ⟨out.1, r.polls ++ (r.state.poll c).toList,
      match out.2 with
      | .ok () => none
      | .error e => some e⟩

def PollRun.cycles (r : PollRun) (cs : List Cycle) : PollRun := cs.foldl PollRun.cycle r

/-! ## One cycle -/

def Poll.completed (p : Poll) : Bool := p.outcome.isValues || p.skipped

/-- **What a cycle does.**  Nothing, with nothing to read; otherwise it makes its read and ends the loop, moves on with the
count of exceptions cleared, or stays with one exception more, which is not the third. -/
inductive Cycled (r : PollRun) (c : Cycle) : Prop where
  | idle : c.operations = [] → (r.cycle c).polls = r.polls → (r.cycle c).state.retries = r.state.retries →
      (r.cycle c).failed = none → Cycled r c
  | ended (p : Poll) : r.state.poll c = some p → (r.cycle c).polls = r.polls ++ [p] → p.skipped = false →
      (r.cycle c).state.retries = r.state.retries → (r.cycle c).failed ≠ none → Cycled r c
  | moved (p : Poll) : r.state.poll c = some p → (r.cycle c).polls = r.polls ++ [p] → p.completed = true →
      (p.skipped = true → p.outcome.isException = true ∧ maxRetries ≤ r.state.retries + 1) →
      (r.cycle c).state.retries = 0 → (r.cycle c).state.index = (p.position + 1) % c.operations.length →
      (r.cycle c).failed = none → Cycled r c
  | stayed (p : Poll) : r.state.poll c = some p → (r.cycle c).polls = r.polls ++ [p] → p.completed = false →
      p.skipped = false → p.outcome.isException = true → r.state.retries + 1 < maxRetries →
      (r.cycle c).state.retries = r.state.retries + 1 → (r.cycle c).state.index = p.position →
      (r.cycle c).failed = none → Cycled r c

theorem poll_place {s : PollState} {c : Cycle} {p : Poll} (h : s.poll c = some p) :
    p.position = (if c.operations.length ≤ s.index then 0 else s.index) ∧ p.outcome = c.outcome ∧
      c.operations[p.position]? = some p.operation ∧
      p.skipped = (c.outcome.isException && decide (maxRetries ≤ s.retries + 1)) := by
  obtain ⟨operation, hop, rfl⟩ := map_eq_some_iff.1 h
  exact ⟨rfl, rfl, hop, rfl⟩

theorem cycled {r : PollRun} (h : r.failed = none) (c : Cycle) : Cycled r c := by
  have hcycle : r.cycle c = ⟨(pollOnce c.operations c.outcome r.state).1, r.polls ++ (r.state.poll c).toList,
      match (pollOnce c.operations c.outcome r.state).2 with
      | .ok () => none
      | .error e => some e⟩ := by
    rw [PollRun.cycle, h]
    rfl
  cases hp : r.state.poll c with
  | none =>
    have hempty : c.operations = [] := by
      by_contra hne
      have hpos := length_pos_iff.2 hne
      have hnone := map_eq_none_iff.1 hp
      rw [List.getElem?_eq_none_iff] at hnone
      split at hnone <;> omega
    rw [hp] at hcycle
    simp only [pollOnce, hempty, List.getElem?_nil] at hcycle
    refine .idle hempty ?_ ?_ ?_
    · rw [hcycle, toList_none, append_nil]
    · rw [hcycle]
    · rw [hcycle]
  | some p =>
    obtain ⟨hplace, hout, hop, hskip⟩ := poll_place hp
    rw [hp] at hcycle
    simp only [pollOnce, ← hplace, hop, toList_some] at hcycle
    cases hc : c.outcome with
    | values words =>
      simp only [hc] at hcycle hskip
      refine .moved p hp (by rw [hcycle]) ?_ (fun hs => ?_) (by rw [hcycle]) (by rw [hcycle]) (by rw [hcycle])
      · rw [Poll.completed, hout, hc]
        rfl
      · rw [hskip] at hs
        cases hs
    | timeout | error =>
      simp only [hc] at hcycle hskip
      exact .ended p hp (by rw [hcycle]) hskip (by rw [hcycle]) (by rw [hcycle]; exact some_ne_none _)
    | exception code =>
      simp only [hc] at hcycle hskip
      have hexc : p.outcome.isException = true := by rw [hout, hc]; rfl
      by_cases hmax : maxRetries ≤ r.state.retries + 1
      · rw [if_pos hmax] at hcycle
        have hskipped : p.skipped = true := by rw [hskip, decide_eq_true hmax]; rfl
        refine .moved p hp (by rw [hcycle]) ?_ (fun _ => ⟨hexc, hmax⟩) (by rw [hcycle]) (by rw [hcycle]) (by rw [hcycle])
        rw [Poll.completed, hskipped, Bool.or_true]
      rw [if_neg hmax] at hcycle
      have hskipped : p.skipped = false := by rw [hskip, decide_eq_false hmax, Bool.and_false]
      refine .stayed p hp (by rw [hcycle]) ?_ hskipped hexc (by omega) (by rw [hcycle]) (by rw [hcycle]) (by rw [hcycle])
      rw [Poll.completed, hskipped, hout, hc]
      rfl

/-! ## Giving an operation up -/

def PollRun.Keeps (r : PollRun) (c : Cycle) : Prop :=
  0 < r.state.retries → ∀ p, r.state.poll c = some p → ∃ q, r.polls.getLast? = some q ∧ q.operation = p.operation

/-- **No exceptions are carried over**: as long as some are pending, every read is of the operation read last. -/
def Steady : PollRun → List Cycle → Prop
  | _, [] => True
  | r, c :: cs => (r.failed = none → r.Keeps c) ∧ Steady (r.cycle c) cs

/-- The two reads before a given up operation, which like its own ended in exceptions; under `same` they were of the same
operation. -/
def AfterTwo (same : Prop) (pre : List Poll) (p : Poll) : Prop :=
  ∃ pre' q q', pre = pre' ++ [q, q'] ∧ q.outcome.isException = true ∧ q'.outcome.isException = true ∧
    (same → q.operation = p.operation ∧ q'.operation = p.operation)

/-- What the count of exceptions counts, and when an operation is given up. -/
structure Counted (same : Prop) (r : PollRun) : Prop where
  few : r.state.retries < maxRetries
  pending : r.failed = none → ∃ pre tail, r.polls = pre ++ tail ∧ tail.length = r.state.retries ∧
    (∀ p ∈ tail, p.outcome.isException = true) ∧ (same → ∀ p ∈ tail, ∀ q ∈ tail, p.operation = q.operation)
  skips : ∀ pre p post, r.polls = pre ++ p :: post → p.skipped = true → p.outcome.isException = true ∧ AfterTwo same pre p

variable {polls : List Poll}

theorem skips_append {same : Prop} {p : Poll}
    (h : ∀ pre q post, polls = pre ++ q :: post → q.skipped = true → q.outcome.isException = true ∧ AfterTwo same pre q)
    (hp : p.skipped = true → p.outcome.isException = true ∧ AfterTwo same polls p) :
    ∀ pre q post, polls ++ [p] = pre ++ q :: post → q.skipped = true → q.outcome.isException = true ∧ AfterTwo same pre q := by
  intro pre q post heq hskip
  rcases eq_nil_or_concat post with rfl | ⟨post', last, rfl⟩
  · obtain ⟨rfl, hlast⟩ := append_inj' heq rfl
    obtain rfl := singleton_inj.1 hlast
    exact hp hskip
  · rw [concat_eq_append, ← cons_append, ← append_assoc] at heq
    obtain ⟨hpolls, -⟩ := append_inj' heq rfl
    exact h pre q post' hpolls hskip

theorem counted_cycle {same : Prop} {r : PollRun} (h : Counted same r) {c : Cycle}
    (hkeeps : same → r.failed = none → r.Keeps c) : Counted same (r.cycle c) := by
  cases hf : r.failed with
  | some e =>
    have hsame : r.cycle c = r := by rw [PollRun.cycle, hf]; rfl
    rw [hsame]
    exact h
  | none =>
    obtain ⟨pre, tail, hpolls, hlen, hexc, hop⟩ := h.pending hf
    -- with exceptions pending, the new read is of their operation
    have hnew : ∀ p, r.state.poll c = some p → same → ∀ q ∈ tail, q.operation = p.operation := by
      intro p hp hs q hq
      have hpos : 0 < r.state.retries := by
        rw [← hlen]
        exact length_pos_of_mem hq
      obtain ⟨last, hlast, heq⟩ := hkeeps hs hf hpos p hp
      have hne : tail ≠ [] := ne_nil_of_mem hq
      rw [hpolls, List.getLast?_append_of_ne_nil _ hne] at hlast
      rw [← heq]
      exact hop hs q hq last (mem_of_getLast? hlast)
    cases cycled hf c with
    | idle _ hps hr hn =>
      refine ⟨hr ▸ h.few, fun _ => ⟨pre, tail, hps.trans hpolls, hlen.trans hr.symm, hexc, hop⟩, ?_⟩
      rw [hps]
      exact h.skips
    | ended p hp hps hskip hr hn =>
      refine ⟨hr ▸ h.few, fun hnone => absurd hnone hn, ?_⟩
      rw [hps]
      exact skips_append h.skips (fun hs => by rw [hskip] at hs; cases hs)
    | moved p hp hps hcomp hskip hr hidx hn =>
      refine ⟨by rw [hr]; decide, fun _ => ⟨r.polls ++ [p], [], by rw [hps, append_nil], hr.symm, by simp, by simp⟩, ?_⟩
      rw [hps]
      refine skips_append h.skips (fun hs => ?_)
      obtain ⟨hexcp, hmax⟩ := hskip hs
      refine ⟨hexcp, ?_⟩
      -- two exceptions were pending, and this is the third
      have hfew := h.few
      have htwo : tail.length = 2 := by
        unfold maxRetries at hmax hfew
        omega
      obtain ⟨q, q', rfl⟩ := length_eq_two.1 htwo
      exact ⟨pre, q, q', hpolls, hexc q (by simp), hexc q' (by simp),
        fun hs => ⟨hnew p hp hs q (by simp), hnew p hp hs q' (by simp)⟩⟩
    | stayed p hp hps hcomp hskip hexcp hlt hr hidx hn =>
      refine ⟨by rw [hr]; exact hlt, fun _ => ⟨pre, tail ++ [p], ?_, ?_, ?_, ?_⟩, ?_⟩
      · rw [hps, hpolls, append_assoc]
      · rw [length_append, hlen, hr]
        rfl
      · intro q hq
        rcases mem_append.1 hq with hq | hq
        · exact hexc q hq
        · obtain rfl := mem_singleton.1 hq
          exact hexcp
      · intro hs q hq q' hq'
        have hall : ∀ x ∈ tail ++ [p], x.operation = p.operation := by
          intro x hx
          rcases mem_append.1 hx with hx | hx
          · exact hnew p hp hs x hx
          · rw [mem_singleton.1 hx]
        rw [hall q hq, hall q' hq']
      · rw [hps]
        exact skips_append h.skips (fun hs => by rw [hskip] at hs; cases hs)

theorem counted_cycles {same : Prop} : ∀ (cs : List Cycle) {r : PollRun}, Counted same r → (same → Steady r cs) →
    Counted same (r.cycles cs)
  | [], _, h, _ => h
  | _ :: cs, _, h, hs =>
    counted_cycles cs (counted_cycle h (fun s => (hs s).1)) (fun s => (hs s).2)

theorem counted_start (same : Prop) (memory : Memory SlaveKey) : Counted same (PollRun.start memory) where
  few := Nat.zero_lt_succ 2
  pending _ := ⟨[], [], rfl, rfl, by simp, by simp⟩
  skips pre p post h := by
    have hlen := congrArg List.length h
    simp [PollRun.start] at hlen

/-! ## Taking turns -/

def moves (polls : List Poll) : Nat := polls.countP Poll.completed

/-- **The operations of a list take turns**, from a position and a count of exceptions on: every read is of the operation
as many places on as the loop has moved on, around the list, and it moves on after at most three reads. -/
structure InTurn (operations : List Operation) (position retries : Nat) (polls : List Poll) : Prop where
  places : ∀ k p, polls[k]? = some p → p.position = (position + moves (polls.take k)) % operations.length ∧
    operations[p.position]? = some p.operation
  pace : ∀ k ≤ polls.length, k + retries ≤ 3 * moves (polls.take k) + 2

def PollState.place (s : PollState) (operations : List Operation) : Nat :=
  if operations.length ≤ s.index then 0 else s.index

variable {operations : List Operation}

theorem PollState.place_lt (s : PollState) (hne : operations ≠ []) : s.place operations < operations.length := by
  have hlen := length_pos_iff.2 hne
  unfold PollState.place
  split <;> omega

theorem inTurn_nil (operations : List Operation) (position : Nat) {retries : Nat} (h : retries < maxRetries) :
    InTurn operations position retries [] where
  places k p hp := by simp at hp
  pace k hk := by
    have hmax : maxRetries = 3 := rfl
    simp only [length_nil, Nat.le_zero] at hk
    omega

theorem inTurn_cons {position retries position' retries' : Nat} {p : Poll}
    (hr : retries < maxRetries) (hplace : p.position = position)
    (hlt : position < operations.length) (hop : operations[p.position]? = some p.operation)
    (hnext : if p.completed then position' = (position + 1) % operations.length ∧ retries' = 0
      else position' = position ∧ retries' = retries + 1)
    (h : InTurn operations position' retries' polls) :
    InTurn operations position retries (p :: polls) := by
  have hmoves : ∀ k, moves ((p :: polls).take (k + 1)) = moves (polls.take k) + if p.completed then 1 else 0 := by
    intro k
    rw [take_succ_cons, moves, countP_cons]
    rfl
  constructor
  · intro k q hq
    cases k with
    | zero =>
      obtain rfl : p = q := Option.some.inj hq
      refine ⟨?_, hop⟩
      rw [hplace, take_zero, moves, countP_nil, Nat.add_zero, Nat.mod_eq_of_lt hlt]
    | succ k =>
      obtain ⟨hpos, hqop⟩ := h.places k q hq
      refine ⟨?_, hqop⟩
      rw [hpos, hmoves]
      split at hnext
      · rename_i hc
        rw [hnext.1, if_pos hc, Nat.mod_add_mod]
        congr 1
        omega
      · rename_i hc
        rw [hnext.1, if_neg hc, Nat.add_zero]
  · intro k hk
    have hmax : maxRetries = 3 := rfl
    cases k with
    | zero => omega
    | succ k =>
      have hpace := h.pace k (Nat.le_of_succ_le_succ hk)
      rw [hmoves]
      split at hnext
      · rename_i hc
        rw [if_pos hc]
        omega
      · rename_i hc
        rw [if_neg hc]
        omega

theorem cycles_of_failed {r : PollRun} (h : r.failed ≠ none) : ∀ cs : List Cycle, r.cycles cs = r
  | [] => rfl
  | c :: cs => by
    have hcycle : r.cycle c = r := by
      rw [PollRun.cycle, if_pos (isSome_iff_ne_none.2 h)]
    show (r.cycle c).cycles cs = r
    rw [hcycle]
    exact cycles_of_failed h cs

theorem inTurn_cycles {operations : List Operation} (hne : operations ≠ []) : ∀ (cs : List Cycle) {r : PollRun},
    r.state.retries < maxRetries → (∀ c ∈ cs, c.operations = operations) → (r.cycles cs).failed = none →
    ∃ polls, (r.cycles cs).polls = r.polls ++ polls ∧ polls.length = cs.length ∧
      InTurn operations (r.state.place operations) r.state.retries polls
  | [], r, hr, _, _ => ⟨[], (append_nil _).symm, rfl, inTurn_nil operations _ hr⟩
  | c :: cs, r, hr, hops, hn => by
    have hlen := length_pos_iff.2 hne
    obtain rfl : c.operations = operations := hops c mem_cons_self
    have hn' : ((r.cycle c).cycles cs).failed = none := hn
    have hf : r.failed = none := by
      by_contra hf
      rw [cycles_of_failed hf] at hn
      exact hf hn
    have hfc : (r.cycle c).failed = none := by
      by_contra hf
      rw [cycles_of_failed hf] at hn'
      exact hf hn'
    have hplace := r.state.place_lt hne
    -- where the next cycle reads, and how many exceptions it finds pending
    have hrest : ∀ p, r.state.poll c = some p → (r.cycle c).polls = r.polls ++ [p] →
        (r.cycle c).state.retries < maxRetries →
        (if p.completed then (r.cycle c).state.place c.operations = (r.state.place c.operations + 1) % c.operations.length ∧
            (r.cycle c).state.retries = 0
          else (r.cycle c).state.place c.operations = r.state.place c.operations ∧
            (r.cycle c).state.retries = r.state.retries + 1) →
        ∃ polls, ((r.cycle c).cycles cs).polls = r.polls ++ polls ∧ polls.length = (c :: cs).length ∧
          InTurn c.operations (r.state.place c.operations) r.state.retries polls := by
      intro p hp hps hr' hnext
      obtain ⟨polls, hpolls, hcount, hturn⟩ :=
        inTurn_cycles hne cs hr' (fun d hd => hops d (mem_cons_of_mem c hd)) hn'
      obtain ⟨hpos, -, hop, -⟩ := poll_place hp
      refine ⟨p :: polls, ?_, by rw [length_cons, length_cons, hcount],
        inTurn_cons hr hpos hplace hop hnext hturn⟩
      rw [hpolls, hps, append_assoc]
      rfl
    cases cycled hf c with
    | idle hempty _ _ _ => exact absurd hempty hne
    | ended p _ _ _ _ hfail => exact absurd hfc hfail
    | moved p hp hps hcomp _ hr' hidx _ =>
      refine hrest p hp hps (by rw [hr']; decide) ?_
      obtain ⟨hpos, -⟩ := poll_place hp
      have hmod := Nat.mod_lt (p.position + 1) hlen
      rw [if_pos hcomp, PollState.place, hidx, if_neg (by omega), hpos]
      exact ⟨rfl, hr'⟩
    | stayed p hp hps hcomp _ _ hlt hr' hidx _ =>
      refine hrest p hp hps (by rw [hr']; exact hlt) ?_
      obtain ⟨hpos, -⟩ := poll_place hp
      have hsame : p.position = r.state.place c.operations := hpos
      rw [if_neg (by rw [hcomp]; exact Bool.false_ne_true), PollState.place, hidx, if_neg (by omega)]
      exact ⟨hsame, hr'⟩

theorem InTurn.visits {position retries : Nat} (h : InTurn operations position retries polls)
    (hlen : 3 * operations.length ≤ polls.length) {j : Nat} (hj : j < operations.length)
    (hpos : position < operations.length) : ∃ p ∈ polls, p.position = j := by
  obtain ⟨t, ht, hplace⟩ : ∃ t < operations.length, (position + t) % operations.length = j := by
    refine ⟨(j + (operations.length - position)) % operations.length, Nat.mod_lt _ (by omega), ?_⟩
    rw [Nat.add_mod_mod, show position + (j + (operations.length - position)) = j + operations.length by omega,
      Nat.add_mod_right, Nat.mod_eq_of_lt hj]
  -- the first count of reads after which the loop has moved on more than `t` times
  have hex : ∃ k, t < moves (polls.take k) := by
    have hpace := h.pace (3 * operations.length) hlen
    exact ⟨3 * operations.length, by omega⟩
  have hle : Nat.find hex ≤ 3 * operations.length := by
    have hpace := h.pace (3 * operations.length) hlen
    exact Nat.find_min' hex (by omega)
  have hover := Nat.find_spec hex
  have hbefore : ∀ m, m < Nat.find hex → moves (polls.take m) ≤ t := fun m hm => Nat.not_lt.1 (Nat.find_min hex hm)
  generalize Nat.find hex = k at hle hover hbefore
  cases k with
  | zero => simp [moves] at hover
  | succ k =>
    have hk : k < polls.length := by omega
    have hone : moves (polls.take (k + 1)) ≤ moves (polls.take k) + 1 := by
      rw [take_succ_eq_append_getElem hk, moves, countP_append]
      exact Nat.add_le_add_left (countP_le_length) _
    have hexact : moves (polls.take k) = t := by
      have := hbefore k (Nat.lt_succ_self k)
      omega
    refine ⟨polls[k], getElem_mem hk, ?_⟩
    rw [(h.places k polls[k] (List.getElem?_eq_getElem hk)).1, hexact, hplace]

/-- **The poll loop.** An operation is given up only after three exceptions in a row, reads of itself if no other operation is
read while exceptions are pending. While the list stays the same its operations take turns, and three times as many cycles as
operations read every one of them. -/
theorem poll_loop_retries (memory : Memory SlaveKey) (cycles : List Cycle) :
    (∀ pre p post, ((PollRun.start memory).cycles cycles).polls = pre ++ p :: post → p.skipped = true →
      p.outcome.isException = true ∧ AfterTwo (Steady (PollRun.start memory) cycles) pre p) ∧
    ∀ (before stretch : List Cycle) (operations : List Operation), cycles = before ++ stretch → operations ≠ [] →
      (∀ c ∈ stretch, c.operations = operations) → ((PollRun.start memory).cycles cycles).failed = none →
      ∃ polls, ((PollRun.start memory).cycles cycles).polls = ((PollRun.start memory).cycles before).polls ++ polls ∧
        polls.length = stretch.length ∧ InTurn operations (((PollRun.start memory).cycles before).state.place operations)
          ((PollRun.start memory).cycles before).state.retries polls ∧
        (3 * operations.length ≤ stretch.length → ∀ j < operations.length, ∃ p ∈ polls, p.position = j) := by
  constructor
  · exact (counted_cycles cycles (counted_start _ memory) id).skips
  rintro before stretch operations rfl hne hops hn
  have hsplit : (PollRun.start memory).cycles (before ++ stretch) =
      ((PollRun.start memory).cycles before).cycles stretch := foldl_append
  have hr : ((PollRun.start memory).cycles before).state.retries < maxRetries :=
    (counted_cycles before (counted_start False memory) False.elim).few
  rw [hsplit] at hn ⊢
  generalize (PollRun.start memory).cycles before = r at hn hr ⊢
  obtain ⟨polls, hpolls, hlen, hturn⟩ := inTurn_cycles hne stretch hr hops hn
  refine ⟨polls, hpolls, hlen, hturn, fun hlong j hj => hturn.visits ?_ hj (r.state.place_lt hne)⟩
  rw [hlen]
  exact hlong

def holdingRead (start : Nat) : Operation := ⟨1, .readHoldingRegisters, Store.Range.new start 1⟩

def replacedList : List Cycle :=
  [⟨[holdingRead 0], .exception .illegalDataAddress⟩, ⟨[holdingRead 0], .exception .illegalDataAddress⟩,
    ⟨[holdingRead 5, holdingRead 9], .exception .illegalDataAddress⟩]

/-- **An operation given up after one exception**: two were pending from the operation of the list before. -/
theorem replaced_operation_skipped : ((PollRun.start (Memory.empty SlaveKey)).cycles replacedList).polls =
      [⟨0, holdingRead 0, .exception .illegalDataAddress, false⟩, ⟨0, holdingRead 0, .exception .illegalDataAddress, false⟩,
        ⟨0, holdingRead 5, .exception .illegalDataAddress, true⟩] ∧
      ((PollRun.start (Memory.empty SlaveKey)).cycles replacedList).state.index = 1 := by
  decide

end Ferrowl.Modbus.Client
