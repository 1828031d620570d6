import Ferrowl.ReadLog
import Mathlib.Data.List.Rotate
import Mathlib.Data.Nat.ModEq
/-!
# Ring — the fixed-capacity ring buffer

`ferrowl-ring`: items in an array of `cap` slots, in order from the slot `head` on and around its end.  `Lays` says what that
means: turned so that `head` comes first, the array is the items followed by empty slots.
-/
namespace Ferrowl

open List

structure Ring (α : Type) (cap : Nat) where
  buf : List (Option α)
  head : Nat
  len : Nat
  size : buf.length = cap

namespace Ring

variable {α : Type} {cap : Nat}

def new (α : Type) (cap : Nat) : Ring α cap := ⟨List.replicate cap none, 0, 0, length_replicate⟩

def isEmpty (r : Ring α cap) : Bool := decide (r.len = 0)

def isFull (r : Ring α cap) : Bool := decide (r.len = cap)

def push (r : Ring α cap) (item : α) : Ring α cap :=
  if cap = 0 then r
  else if r.len = cap then
    ⟨r.buf.set r.head (some item), (r.head + 1) % cap, r.len, by rw [length_set]; exact r.size⟩
  else
    ⟨r.buf.set ((r.head + r.len) % cap) (some item), r.head, r.len + 1, by rw [length_set]; exact r.size⟩

def peek (r : Ring α cap) : Option α :=
  if r.isEmpty then none else r.buf[r.head]?.join

def iter (r : Ring α cap) : List α := (r.buf.drop r.head ++ r.buf.take r.head).filterMap id

def peekN (r : Ring α cap) (n : Nat) : List α := r.iter.take n

def pop (r : Ring α cap) : Option α × Ring α cap :=
  if r.isEmpty then (none, r)
  else
    (r.buf[r.head]?.join, ⟨r.buf.set r.head none, (r.head + 1) % cap, r.len - 1, by rw [length_set]; exact r.size⟩)

def popTimes : Nat → Ring α cap → List α × Ring α cap
  | 0, r => ([], r)
  | n + 1, r =>
    let (item, r') := r.pop
    let (items, r'') := popTimes n r'
    (item.toList ++ items, r'')

def popN (r : Ring α cap) (n : Nat) : List α × Ring α cap := popTimes (min n r.len) r

def clear (r : Ring α cap) : Ring α cap :=
  ⟨r.buf.map fun _ => none, 0, 0, by rw [length_map]; exact r.size⟩

def fromIter (cap : Nat) (items : List α) : Ring α cap := items.foldl push (new α cap)

/-! ## Layout -/

/-- **The ring lays out the items**: from `head` on and around come the items, then empty slots. -/
structure Lays (r : Ring α cap) (q : List α) : Prop where
  turned : r.buf.rotate r.head = q.map some ++ List.replicate (cap - q.length) none
  len : r.len = q.length
  le : q.length ≤ cap
  head : r.head ≤ cap - 1

theorem set_rotate {β : Type} {l : List β} {h k : Nat} (hk : k < l.length) (x : β) :
    (l.set ((h + k) % l.length) x).rotate h = (l.rotate h).set k x := by
  have hpos : 0 < l.length := Nat.zero_lt_of_lt hk
  refine ext_getElem? fun i => ?_
  by_cases hi : i < l.length
  · rw [List.getElem?_rotate (by rw [length_set]; exact hi), length_set, List.getElem?_set, List.getElem?_set,
      List.getElem?_rotate hi, length_rotate]
    -- the slots that many places behind `h` are pairwise different
    have hiff : (h + k) % l.length = (i + h) % l.length ↔ k = i := by
      rw [Nat.add_comm i h]
      constructor
      · intro he
        have := Nat.ModEq.add_left_cancel' h he
        rwa [Nat.ModEq, Nat.mod_eq_of_lt hk, Nat.mod_eq_of_lt hi] at this
      · rintro rfl
        rfl
    by_cases hki : k = i
    · rw [if_pos (hiff.2 hki), if_pos hki, if_pos (Nat.mod_lt _ hpos), if_pos hk]
    · rw [if_neg (mt hiff.1 hki), if_neg hki]
  · rw [List.getElem?_eq_none (by rw [length_rotate, length_set]; omega),
      List.getElem?_eq_none (by rw [length_set, length_rotate]; omega)]

theorem buf_set_rotate (r : Ring α cap) {k : Nat} (hk : k < cap) (y : Option α) :
    (r.buf.set ((r.head + k) % cap) y).rotate r.head = (r.buf.rotate r.head).set k y := by
  have := set_rotate (h := r.head) (r.size.symm ▸ hk) y
  rwa [r.size] at this

theorem lays_new : (new α cap).Lays [] :=
  ⟨by simp [new], rfl, Nat.zero_le _, Nat.zero_le _⟩

variable {r : Ring α cap} {q : List α}

namespace Lays

theorem iter (h : r.Lays q) : r.iter = q := by
  have hhead : r.head ≤ r.buf.length := r.size.symm ▸ h.head.trans (Nat.sub_le _ _)
  rw [Ring.iter, ← rotate_eq_drop_append_take hhead, h.turned]
  simp [filterMap_append]

theorem slot (h : r.Lays q) {k : Nat} (hk : k < cap) : r.buf[(r.head + k) % cap]? = some q[k]? := by
  have hget : (r.buf.rotate r.head)[k]? = r.buf[(r.head + k) % cap]? := by
    rw [List.getElem?_rotate (r.size.symm ▸ hk), r.size, Nat.add_comm]
  rw [← hget, h.turned, List.getElem?_append, length_map]
  split
  · rename_i hkq
    rw [List.getElem?_map, List.getElem?_eq_getElem hkq]
    rfl
  · rename_i hkq
    have := h.le
    rw [List.getElem?_replicate_of_lt (by omega), List.getElem?_eq_none (by omega)]

theorem head_lt (h : r.Lays q) (hcap : 0 < cap) : r.head < cap := by
  have := h.head
  omega

theorem front (h : r.Lays q) (hcap : 0 < cap) : r.buf[r.head]?.join = q.head? := by
  have hslot := h.slot hcap
  rw [Nat.add_zero, Nat.mod_eq_of_lt (h.head_lt hcap)] at hslot
  rw [hslot, Option.join_some, List.head?_eq_getElem?]

theorem set_front (h : r.Lays q) (hcap : 0 < cap) (y : Option α) :
    (r.buf.set r.head y).rotate ((r.head + 1) % cap) = ((r.buf.rotate r.head).set 0 y).rotate 1 := by
  have hset := r.buf_set_rotate hcap y
  have hmod := rotate_mod (r.buf.set r.head y) (r.head + 1)
  rw [Nat.add_zero, Nat.mod_eq_of_lt (h.head_lt hcap)] at hset
  rw [length_set, r.size] at hmod
  rw [← hset, rotate_rotate, hmod]

theorem push (h : r.Lays q) (x : α) : (r.push x).Lays ((q ++ [x]).rtake cap) := by
  unfold Ring.push
  split
  · rename_i hcap
    subst hcap
    have hq : q = [] := eq_nil_of_length_eq_zero (Nat.le_zero.1 h.le)
    subst hq
    exact h
  rename_i hcap
  have hpos : 0 < cap := Nat.pos_of_ne_zero hcap
  split
  · -- full: the slot of the oldest item takes the new one and is the last from the next head on
    rename_i hfull
    rw [h.len] at hfull
    obtain ⟨a, q, rfl⟩ : ∃ a l, q = a :: l := exists_cons_of_length_pos (hfull ▸ hpos)
    have hwin : ((a :: q) ++ [x]).rtake cap = q ++ [x] := by
      simp only [List.rtake, length_append, length_singleton, hfull, Nat.add_sub_cancel_left]
      rfl
    rw [hwin]
    refine ⟨?_, ?_, ?_, ?_⟩
    · rw [h.set_front hpos, h.turned]
      rw [length_cons] at hfull
      simp [hfull]
    · simp only [h.len, length_cons, length_append, length_nil]
    · simp only [← hfull, length_cons, length_append, length_nil, le_refl]
    · exact Nat.le_sub_one_of_lt (Nat.mod_lt _ hpos)
  rename_i hnot
  rw [h.len] at hnot
  have hlt : q.length < cap := Nat.lt_of_le_of_ne h.le hnot
  have hwin : (q ++ [x]).rtake cap = q ++ [x] := by
    refine ReadLog.rtake_of_length_le ?_
    rw [length_append]
    exact hlt
  rw [hwin]
  refine ⟨?_, ?_, ?_, h.head⟩
  · have hset := r.buf_set_rotate hlt (some x)
    obtain ⟨n, hn⟩ : ∃ n, cap - q.length = n + 1 := ⟨cap - q.length - 1, by omega⟩
    have hn' : cap - (q.length + 1) = n := by omega
    simp only [h.len]
    rw [hset, h.turned, hn, set_append_right _ _ (by rw [length_map])]
    simp [replicate_succ, hn']
  · simp only [h.len, length_append, length_singleton]
  · rw [length_append]
    exact hlt

theorem peek (h : r.Lays q) : r.peek = q.head? := by
  unfold Ring.peek Ring.isEmpty
  rw [h.len]
  cases q with
  | nil => rfl
  | cons a q =>
    have hpos : 0 < cap := Nat.lt_of_lt_of_le (Nat.succ_pos _) h.le
    rw [h.front hpos]
    simp

theorem pop_fst (h : r.Lays q) : r.pop.1 = q.head? := by
  have hpeek := h.peek
  unfold Ring.peek at hpeek
  unfold Ring.pop
  split
  · rename_i he
    rwa [if_pos he] at hpeek
  · rename_i he
    rwa [if_neg he] at hpeek

theorem pop_snd (h : r.Lays q) : r.pop.2.Lays q.tail := by
  unfold Ring.pop Ring.isEmpty
  rw [h.len]
  cases q with
  | nil => exact h
  | cons a q =>
    have hpos : 0 < cap := Nat.lt_of_lt_of_le (Nat.succ_pos _) h.le
    have hle : q.length + 1 ≤ cap := h.le
    refine ⟨?_, ?_, ?_, ?_⟩
    · simp only [length_cons, Nat.succ_ne_zero, decide_false, Bool.false_eq_true, if_false, tail_cons]
      rw [h.set_front hpos, h.turned]
      have hn : cap - q.length = cap - (q.length + 1) + 1 := by omega
      simp [hn, replicate_succ']
    · simp
    · exact Nat.le_of_succ_le hle
    · simpa using Nat.le_sub_one_of_lt (Nat.mod_lt (r.head + 1) hpos)

theorem popTimes (h : r.Lays q) {n : Nat} (hn : n ≤ q.length) :
    (Ring.popTimes n r).1 = q.take n ∧ (Ring.popTimes n r).2.Lays (q.drop n) := by
  induction n generalizing r q with
  | zero => exact ⟨rfl, h⟩
  | succ n ih =>
    cases q with
    | nil => exact absurd hn (Nat.not_succ_le_zero n)
    | cons a q =>
      obtain ⟨hitems, hrest⟩ := ih h.pop_snd (Nat.le_of_succ_le_succ hn)
      refine ⟨?_, hrest⟩
      simp only [Ring.popTimes, h.pop_fst, hitems]
      rfl

theorem popN (h : r.Lays q) (n : Nat) : (r.popN n).1 = q.take n ∧ (r.popN n).2.Lays (q.drop n) := by
  have hmin : min n r.len ≤ q.length := h.len ▸ Nat.min_le_right _ _
  obtain ⟨hitems, hrest⟩ := h.popTimes hmin
  rw [h.len, Nat.min_comm] at hitems hrest
  rw [take_eq_take_min, Nat.min_comm]
  refine ⟨?_, ?_⟩
  · rw [Ring.popN, h.len, Nat.min_comm, hitems]
  rw [Ring.popN, h.len, Nat.min_comm]
  rcases Nat.le_total n q.length with hle | hle
  · rwa [Nat.min_eq_right hle] at hrest ⊢
  · rw [Nat.min_eq_left hle] at hrest ⊢
    rwa [drop_eq_nil_of_le hle, ← drop_length (l := q)]

end Lays

theorem lays_clear (r : Ring α cap) : r.clear.Lays [] := by
  refine ⟨?_, rfl, Nat.zero_le _, Nat.zero_le _⟩
  simp [Ring.clear, map_const', r.size]

theorem lays_fromIter (items : List α) : (fromIter cap items).Lays (items.rtake cap) := by
  induction items using List.reverseRecOn with
  | nil => exact (rtake_nil cap).symm ▸ lays_new
  | append_singleton items x ih =>
    rw [fromIter, foldl_append, ReadLog.rtake_append_singleton]
    exact ih.push x

/-! ## Histories -/

inductive Op (α : Type) where
  | push (item : α)
  | pop
  | popN (n : Nat)
  | clear
  | fromIter (items : List α)

def step (r : Ring α cap) : Op α → Ring α cap
  | .push item => r.push item
  | .pop => r.pop.2
  | .popN n => (r.popN n).2
  | .clear => r.clear
  | .fromIter items => Ring.fromIter cap items

/-- The history of an unbounded queue, read through a window of `cap` entries: it starts anew with an emptied or another
ring. -/
def record (cap : Nat) (log : ReadLog α) : Op α → ReadLog α
  | .push item => log.append item
  | .pop => log.pop cap
  | .popN n => log.popN cap n
  | .clear => .empty
  | .fromIter items => .ofList items

theorem Lays.step {log : ReadLog α} (h : r.Lays (log.window cap)) (op : Op α) :
    (r.step op).Lays ((record cap log op).window cap) := by
  cases op with
  | push item =>
    rw [record, ReadLog.window_append]
    exact h.push item
  | pop =>
    rw [record, ReadLog.window_pop]
    exact h.pop_snd
  | popN n =>
    rw [record, ReadLog.window_popN]
    exact (h.popN n).2
  | clear =>
    rw [record, ReadLog.empty, ReadLog.window_ofList, rtake_nil]
    exact r.lays_clear
  | fromIter items =>
    rw [record, ReadLog.window_ofList]
    exact lays_fromIter items

def ofOps (cap : Nat) (ops : List (Op α)) : Ring α cap := ops.foldl step (new α cap)

def history (cap : Nat) (ops : List (Op α)) : ReadLog α := ops.foldl (record cap) .empty

theorem lays_of_ops (ops : List (Op α)) : (ofOps cap ops).Lays ((history cap ops).window cap) := by
  induction ops using List.reverseRecOn with
  | nil =>
    rw [history, foldl_nil, ReadLog.empty, ReadLog.window_ofList, rtake_nil]
    exact lays_new
  | append_singleton ops op ih =>
    rw [ofOps, history, foldl_append, foldl_append]
    exact ih.step op

/-- **A ring is a bounded queue that forgets its oldest item**: for any capacity and after any operations it yields the last
at most `cap` items of its history behind the last one taken out, and it answers as the queue of these does. -/
theorem ring_refines_window (cap : Nat) (ops : List (Op α)) : (ofOps cap ops).iter = (history cap ops).window cap ∧
      (ofOps cap ops).len = (ofOps cap ops).iter.length ∧ ((ofOps cap ops).isEmpty = true ↔ (history cap ops).window cap = []) ∧
      ((ofOps cap ops).isFull = true ↔ ((history cap ops).window cap).length = cap) ∧
      (ofOps cap ops).peek = ((history cap ops).window cap).head? ∧ (ofOps cap ops).pop.1 = ((history cap ops).window cap).head? ∧
      ∀ n, (ofOps cap ops).peekN n = ((history cap ops).window cap).take n ∧
        ((ofOps cap ops).popN n).1 = ((history cap ops).window cap).take n := by
  have h : (ofOps cap ops).Lays ((history cap ops).window cap) := lays_of_ops ops
  refine ⟨h.iter, ?_, ?_, ?_, h.peek, h.pop_fst, fun n => ⟨?_, (h.popN n).1⟩⟩
  · rw [h.len, h.iter]
  · rw [isEmpty, h.len, decide_eq_true_eq, length_eq_zero_iff]
  · rw [isFull, h.len, decide_eq_true_eq]
  · rw [peekN, h.iter]

example : (ofOps 3 [.fromIter [1, 2, 3, 4, 5], .pop, .push 6]).iter = [4, 5, 6] := by decide

end Ring

end Ferrowl
