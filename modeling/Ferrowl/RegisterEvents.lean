import Ferrowl.StoreEffects
import Ferrowl.Tab
/-!
# RegisterEvents — what the store tap publishes for scripts

`RegisterTap::written` gets every sourced write of the store and publishes an event for each register the write touches.  The tap
sees the store after the write, so it rebuilds the register's words from before.  A builder that would panic is `none`; no builder
of a successful write does (`register_events_exact`).

The tap is modelled up to the calls of `publish_with`, as the list of its builders.  The thread's executing script and the clock
are parameters.
-/
namespace Ferrowl.Modbus

open List Option

open Store (Range CellType CellKind Memory Word WriteSource StoreWrite SliceMap TapCall)
open Codec (Register Value)

inductive ScriptOwner where
  | module
  | session
  deriving DecidableEq, Repr

structure ScriptId where
  owner : ScriptOwner
  name : String
  deriving DecidableEq, Repr

inductive RegisterEventSource where
  | remote
  | poll
  | set
  | lua (script : Option ScriptId)
  deriving DecidableEq, Repr

structure RegisterEvent where
  seq : Nat
  timestampMs : Nat
  name : String
  old : Option Value
  new : Option Value
  source : RegisterEventSource
  changed : Bool

def eventSource (executing : Option ScriptId) : WriteSource → RegisterEventSource
  | .remote => .remote
  | .poll => .poll
  | .command => .set
  | .script => .lua executing

namespace RegisterTap

def wordChanged (mask : List Word) (write : StoreWrite SlaveKey) (inRegister inWrite i : Nat) : Option Bool := do
  let bits := (mask[inRegister + i]?).getD 0xFFFF#16
  let old ← write.old[inWrite + i]?
  let new ← write.new[inWrite + i]?
  return (old ^^^ new) &&& bits != 0

section
variable (executing : Option ScriptId) (clock : Nat → Nat)

/-- The builder of the event of one register, of which `overlap` was written. -/
def build (write : StoreWrite SlaveKey) (memory : Memory SlaveKey) (name : String) (register : Register) (key : SlaveKey)
    (regRange overlap : Range) (seq : Nat) : Option RegisterEvent := do
  let inRegister := overlap.start - regRange.start
  let inWrite := overlap.start - write.range.start
  let span := overlap.length
  let newWords := memory.readUnchecked key regRange
  let oldWords ← newWords.mapM (fun words =>
    (slice? write.old inWrite (inWrite + span)).bind (copyFromSlice? words inRegister (inRegister + span)))
  let mask := Codec.maskWords register.format
  let changed ← (List.range span).anyM (wordChanged mask write inRegister inWrite)
  return {
    seq := seq
    timestampMs := clock seq
    name := name
    old := oldWords.bind (fun w => (register.decode w).toOption)
    new := newWords.bind (fun w => (register.decode w).toOption)
    source := eventSource executing write.source
    changed := changed }

def written (registers : Std.HashMap String Register) (write : StoreWrite SlaveKey) (memory : Memory SlaveKey) :
    List (Nat → Option RegisterEvent) :=
  registers.toList.filterMap (fun (name, register) =>
    match registerMemBinding register with
    | none => none
    | some (_, key, regRange) =>
      if key ≠ write.id then none
      else (regRange.intersect write.range).map (build executing clock write memory name register key regRange))

end
end RegisterTap

/-! ## The words of a register -/

theorem addrs_split {r o : Range} (hstart : r.start ≤ o.start) (hstop : o.stop ≤ r.stop) :
    r.addrs = List.range' r.start (o.start - r.start) ++ (o.addrs ++ List.range' o.stop (r.stop - o.stop)) := by
  have hle := o.le
  have hmid : o.addrs ++ List.range' o.stop (r.stop - o.stop) = List.range' o.start (r.stop - o.start) := by
    rw [Range.addrs, show o.stop = o.start + o.length by unfold Range.length; omega, List.range'_append_1]
    congr 1
    unfold Range.length
    omega
  have hall : List.range' r.start (o.start - r.start) ++ List.range' o.start (r.stop - o.start) = r.addrs := by
    have happ := List.range'_append_1 (s := r.start) (m := o.start - r.start) (n := r.stop - o.start)
    rw [Nat.add_sub_cancel' hstart] at happ
    rw [happ, Range.addrs]
    congr 1
    unfold Range.length
    omega
  rw [hmid, hall]

theorem slice_addrs {r o : Range} (hstart : r.start ≤ o.start) (hstop : o.stop ≤ r.stop) (f : Nat → Word) :
    slice? (r.addrs.map f) (o.start - r.start) (o.start - r.start + o.length) = some (o.addrs.map f) := by
  have h := slice?_append ((List.range' r.start (o.start - r.start)).map f) (o.addrs.map f)
    ((List.range' o.stop (r.stop - o.stop)).map f)
  simp only [← map_append, ← addrs_split hstart hstop, length_map, length_range', Range.length_addrs] at h
  exact h

theorem copy_addrs {r o : Range} (hstart : r.start ≤ o.start) (hstop : o.stop ≤ r.stop) {f g : Nat → Word}
    (hsame : ∀ a ∈ r, a ∉ o → g a = f a) :
    copyFromSlice? (r.addrs.map g) (o.start - r.start) (o.start - r.start + o.length) (o.addrs.map f) = some (r.addrs.map f) := by
  have hle := o.le
  have hlen : (o.addrs.map f).length = (o.addrs.map g).length := by rw [length_map, length_map]
  have h := copyFromSlice?_append ((List.range' r.start (o.start - r.start)).map g) (o.addrs.map g)
    ((List.range' o.stop (r.stop - o.stop)).map g) hlen
  have hout : ∀ a, r.start ≤ a → a < r.stop → (a < o.start ∨ o.stop ≤ a) → g a = f a := by
    intro a h1 h2 h3
    refine hsame a ⟨h1, h2⟩ (fun ha => ?_)
    rw [Range.mem_def] at ha
    omega
  have hbefore : (List.range' r.start (o.start - r.start)).map g = (List.range' r.start (o.start - r.start)).map f := by
    refine map_congr_left (fun a ha => ?_)
    rw [mem_range'_1] at ha
    exact hout a ha.1 (by omega) (Or.inl (by omega))
  have hafter : (List.range' o.stop (r.stop - o.stop)).map g = (List.range' o.stop (r.stop - o.stop)).map f := by
    refine map_congr_left (fun a ha => ?_)
    rw [mem_range'_1] at ha
    exact hout a (by omega) (by omega) (Or.inr ha.1)
  rw [hbefore, hafter] at h
  rw [addrs_split hstart hstop]
  simp only [map_append, hbefore, hafter]
  simp only [length_map, length_range', Range.length_addrs] at h
  exact h

theorem getElem?_addrs_map (r : Range) (f : Nat → Word) {i : Nat} (hi : i < r.length) :
    (r.addrs.map f)[i]? = some (f (r.start + i)) := by
  rw [List.getElem?_map, Range.addrs, List.getElem?_range' hi, map_some, Nat.one_mul]

theorem getD_new_addrs_map (start : Nat) (f : Nat → Word) {n i : Nat} (hi : i < n) :
    ((Range.new start n).addrs.map f)[i]?.getD 0 = f (start + i) := by
  rw [getElem?_addrs_map _ _ (by rw [Range.new_length]; exact hi), getD_some, Range.new_start]

theorem length_new_addrs_map (start n : Nat) (f : Nat → Word) : ((Range.new start n).addrs.map f).length = n := by
  rw [length_map, Range.length_addrs, Range.new_length]

/-! ## Events of a write -/

theorem forall₂_filter_filterMap {α β : Type} {p : α → Bool} {f : α → Option β} {R : α → β → Prop} :
    ∀ {l : List α}, (∀ x ∈ l, (p x = false ∧ f x = none) ∨ (p x = true ∧ ∃ y, f x = some y ∧ R x y)) →
      List.Forall₂ R (l.filter p) (l.filterMap f)
  | [], _ => List.Forall₂.nil
  | x :: l, h => by
    have ih := forall₂_filter_filterMap (fun y hy => h y (mem_cons_of_mem x hy))
    rcases h x mem_cons_self with ⟨hp, hf⟩ | ⟨hp, y, hf, hR⟩
    · rw [filter_cons, hp, filterMap_cons_none hf]
      exact ih
    · rw [filter_cons, hp, filterMap_cons_some hf]
      exact List.Forall₂.cons hR ih

def touches (id : SlaveKey) (range : Range) (r : Register) : Bool :=
  match registerMemBinding r with
  | some (_, key, regRange) => decide (key = id) && regRange.addrs.any (fun a => decide (a ∈ range))
  | none => false

/-- A bit of the mask differs between two lists of words. -/
def OwnedBitsDiffer (mask old new : List Word) : Prop :=
  ∃ i j : Nat, (mask.getD i 0).getLsbD j = true ∧ (old.getD i 0).getLsbD j ≠ (new.getD i 0).getLsbD j

theorem and_mask_ne_zero {old new bits : Word} :
    ((old ^^^ new) &&& bits != 0) = true ↔ ∃ j, bits.getLsbD j = true ∧ old.getLsbD j ≠ new.getLsbD j := by
  rw [bne_iff_ne]
  constructor
  · intro h
    by_contra hno
    refine h (BitVec.eq_of_getLsbD_eq (fun j _ => ?_))
    rw [BitVec.getLsbD_and, BitVec.getLsbD_xor, show (0 : Word).getLsbD j = false from BitVec.getLsbD_zero]
    by_cases hb : bits.getLsbD j = true
    · have heq : old.getLsbD j = new.getLsbD j := by_contra (fun hne => hno ⟨j, hb, hne⟩)
      rw [heq, Bool.xor_self, Bool.false_and]
    · rw [Bool.not_eq_true] at hb
      rw [hb, Bool.and_false]
  · rintro ⟨j, hb, hne⟩ h
    have hj := congrArg (fun w : Word => w.getLsbD j) h
    simp only [BitVec.getLsbD_and, BitVec.getLsbD_xor, hb, Bool.and_true] at hj
    exact hne (by simpa using hj)

/-- What an event says of the register at `words` between two memories. -/
structure EventOf (m m' : Memory SlaveKey) (name : String) (r : Register) (seq : Nat) (source : RegisterEventSource)
    (timestampMs : Nat) (e : RegisterEvent) : Prop where
  stamp : e.seq = seq ∧ e.timestampMs = timestampMs ∧ e.name = name ∧ e.source = source
  values : ∃ kind key range old new, registerMemBinding r = some (kind, key, range) ∧ m.Holds key range old ∧
    m'.Holds key range new ∧ e.old = (r.decode old).toOption ∧ e.new = (r.decode new).toOption ∧
    (e.changed = true ↔ OwnedBitsDiffer r.writeMask old new)

/-- A write of `range` under `id` as the tap gets it, with the memories before and after it. -/
structure Wrote (m m' : Memory SlaveKey) (source : WriteSource) (id : SlaveKey) (range : Range)
    (write : StoreWrite SlaveKey) : Prop where
  call : write.source = source ∧ write.id = id ∧ write.range = range
  old : write.old = range.addrs.map (m.valueAt id)
  new : write.new = range.addrs.map (m'.valueAt id)
  frame : ∀ a, a ∉ range → m'.cellAt id a = m.cellAt id a
  kept : ∀ k a, (m'.cellAt k a).isSome = (m.cellAt k a).isSome

variable {range : Range}

theorem eq_of_holds {m : Memory SlaveKey} {id : SlaveKey} {words : List Word}
    (h : m.Holds id range words) : words = range.addrs.map (m.valueAt id) := by
  have hget : words = (words.map some).map (fun o => o.getD 0) := by
    rw [List.map_map]
    exact (List.map_id words).symm
  rw [hget, ← h, List.map_map]
  rfl

theorem wrote_of_reports {m m' : Memory SlaveKey} {source : WriteSource} {id : SlaveKey}
    {values : List Word} {call : TapCall SlaveKey} (h : Store.Reports m m' source id range call)
    (hcell : ∀ k a, m'.cellAt k a = Store.setValues m.cellAt id range values k a) : Wrote m m' source id range call.1 where
  call := h.write
  old := eq_of_holds h.old
  new := eq_of_holds h.new
  frame a ha := by rw [hcell, Store.setValues, if_neg (fun hin => ha hin.2)]
  kept k a := by
    rw [hcell, Store.setValues]
    split
    · rw [isSome_map]
    · rfl

theorem intersect_within {r t o : Range} (h : r.intersect t = some o) :
    o.start < o.stop ∧ (r.start ≤ o.start ∧ o.stop ≤ r.stop) ∧ t.start ≤ o.start ∧ o.stop ≤ t.stop := by
  unfold Range.intersect at h
  split at h
  · cases h
    simp only
    omega
  · cases h

theorem length_binding {r : Register} {kind : CellKind} {key : SlaveKey}
    (h : registerMemBinding r = some (kind, key, range)) : range.length = r.writeMask.length := by
  rw [Register.writeMask, Codec.length_maskWords]
  unfold registerMemBinding at h
  split at h
  · simp only [Option.some.injEq, Prod.mk.injEq] at h
    rw [← h.2.2, Range.new_length]
  · cases h

section
variable {m m' : Memory SlaveKey} {source : WriteSource} {id : SlaveKey} {range regRange overlap : Range}
  {write : StoreWrite SlaveKey}

theorem Wrote.same (hw : Wrote m m' source id range write) (hover : regRange.intersect range = some overlap) {a : Nat}
    (ha : a ∈ regRange) (ho : a ∉ overlap) : m'.valueAt id a = m.valueAt id a := by
  have hout : a ∉ range := fun hin => ho ((Range.mem_intersect hover a).2 ⟨ha, hin⟩)
  rw [Memory.valueAt, Memory.valueAt, hw.frame a hout]

theorem Wrote.read (hw : Wrote m m' source id range write) (hover : regRange.intersect range = some overlap)
    (hdecl : ∀ a ∈ regRange, (m.cellAt id a).isSome = true) :
    m'.readUnchecked id regRange = some (regRange.addrs.map (m'.valueAt id)) := by
  obtain ⟨hne, ⟨h1, h2⟩, -⟩ := intersect_within hover
  have hdecl' : ∀ a ∈ regRange, (m'.cellAt id a).isSome = true := fun a ha => (hw.kept _ a).trans (hdecl a ha)
  have hkey := Memory.containsKey_of_declared (hdecl' overlap.start ⟨h1, Nat.lt_of_lt_of_le hne h2⟩)
  rw [Memory.readUnchecked_eq, if_pos ⟨hkey, fun a ha => hdecl' a (Range.mem_addrs.1 ha)⟩]

theorem Wrote.wordChanged (hw : Wrote m m' source id range write) (hover : regRange.intersect range = some overlap)
    {mask : List Word} (hmask : regRange.length = mask.length) {i : Nat} (hi : i < overlap.length) :
    RegisterTap.wordChanged mask write (overlap.start - regRange.start) (overlap.start - range.start) i =
      some ((m.valueAt id (overlap.start + i) ^^^ m'.valueAt id (overlap.start + i)) &&&
        mask.getD (overlap.start - regRange.start + i) 0 != 0) := by
  obtain ⟨-, ⟨hr1, hr2⟩, hw1, hw2⟩ := intersect_within hover
  unfold Range.length at hi
  have hwi : overlap.start - range.start + i < range.length := by
    unfold Range.length
    omega
  have hri : overlap.start - regRange.start + i < mask.length := by
    rw [← hmask, Range.length]
    omega
  have haddr : range.start + (overlap.start - range.start + i) = overlap.start + i := by omega
  unfold RegisterTap.wordChanged
  rw [hw.old, hw.new, getElem?_addrs_map _ _ hwi, getElem?_addrs_map _ _ hwi, haddr, getD_eq_getElem?_getD,
    List.getElem?_eq_getElem hri]
  rfl

theorem Wrote.differ (hw : Wrote m m' source id range write) (hover : regRange.intersect range = some overlap)
    {mask : List Word} (hmask : regRange.length = mask.length) : ((List.range overlap.length).any (fun i =>
        (m.valueAt id (overlap.start + i) ^^^ m'.valueAt id (overlap.start + i)) &&&
          mask.getD (overlap.start - regRange.start + i) 0 != 0)) = true ↔
      OwnedBitsDiffer mask (regRange.addrs.map (m.valueAt id)) (regRange.addrs.map (m'.valueAt id)) := by
  obtain ⟨-, ⟨hr1, hr2⟩, -⟩ := intersect_within hover
  have hget : ∀ (f : Nat → Word) {k : Nat}, k < regRange.length →
      (regRange.addrs.map f).getD k 0 = f (regRange.start + k) := by
    intro f k hk
    rw [List.getD_eq_getElem?_getD, getElem?_addrs_map _ _ hk, Option.getD_some]
  simp only [List.any_eq_true, List.mem_range, and_mask_ne_zero]
  constructor
  · rintro ⟨i, hi, j, hbit, hne⟩
    unfold Range.length at hi
    have hk : overlap.start - regRange.start + i < regRange.length := by
      unfold Range.length
      omega
    refine ⟨overlap.start - regRange.start + i, j, hbit, ?_⟩
    rw [hget _ hk, hget _ hk, show regRange.start + (overlap.start - regRange.start + i) = overlap.start + i by omega]
    exact hne
  rintro ⟨k, j, hbit, hne⟩
  have hk : k < regRange.length := by
    by_contra hout
    rw [getD_eq_getElem?_getD, List.getElem?_eq_none (by omega), getD_none] at hbit
    exact absurd hbit (by simp)
  rw [hget _ hk, hget _ hk] at hne
  have hin : regRange.start + k ∈ overlap := by
    by_contra hout
    unfold Range.length at hk
    exact hne (by rw [hw.same hover ⟨Nat.le_add_right _ _, by omega⟩ hout])
  rw [Range.mem_def] at hin
  refine ⟨regRange.start + k - overlap.start, by unfold Range.length; omega, j, ?_, ?_⟩
  · rw [show overlap.start - regRange.start + (regRange.start + k - overlap.start) = k by omega]
    exact hbit
  · rw [show overlap.start + (regRange.start + k - overlap.start) = regRange.start + k by omega]
    exact hne

variable (executing : Option ScriptId) (clock : Nat → Nat)

theorem build_spec (hw : Wrote m m' source id range write) (name : String) {r : Register} {kind : CellKind}
    (hbind : registerMemBinding r = some (kind, id, regRange))
    (hdecl : ∀ a ∈ regRange, (m.cellAt id a).isSome = true) (hover : regRange.intersect range = some overlap)
    (seq : Nat) : ∃ e, RegisterTap.build executing clock write m' name r id regRange overlap seq = some e ∧
      EventOf m m' name r seq (eventSource executing source) (clock seq) e := by
  obtain ⟨-, ⟨hr1, hr2⟩, hw1, hw2⟩ := intersect_within hover
  have hmask := length_binding hbind
  have hold : (slice? write.old (overlap.start - range.start) (overlap.start - range.start + overlap.length)).bind
      (copyFromSlice? (regRange.addrs.map (m'.valueAt id)) (overlap.start - regRange.start)
        (overlap.start - regRange.start + overlap.length)) = some (regRange.addrs.map (m.valueAt id)) := by
    rw [hw.old, slice_addrs hw1 hw2, bind_some]
    exact copy_addrs hr1 hr2 (fun a ha ho => hw.same hover ha ho)
  obtain ⟨changed, hchanged, hdiffer⟩ : ∃ changed, (List.range overlap.length).anyM (RegisterTap.wordChanged
      (Codec.maskWords r.format) write (overlap.start - regRange.start) (overlap.start - range.start)) = some changed ∧
      (changed = true ↔ OwnedBitsDiffer r.writeMask (regRange.addrs.map (m.valueAt id)) (regRange.addrs.map (m'.valueAt id))) :=
    ⟨_, anyM_of_forall (fun i hi => hw.wordChanged hover hmask (mem_range.1 hi)), hw.differ hover hmask⟩
  have hdecl' : ∀ a ∈ regRange, (m'.cellAt id a).isSome = true := fun a ha => (hw.kept _ a).trans (hdecl a ha)
  obtain ⟨hsource, -, hrange⟩ := hw.call
  refine ⟨⟨seq, clock seq, name, (r.decode (regRange.addrs.map (m.valueAt id))).toOption,
    (r.decode (regRange.addrs.map (m'.valueAt id))).toOption, eventSource executing source, changed⟩, ?_,
    ⟨rfl, rfl, rfl, rfl⟩, kind, id, regRange, _, _, hbind, Memory.holds_valueAt hdecl,
    Memory.holds_valueAt hdecl', rfl, rfl, hdiffer⟩
  unfold RegisterTap.build
  rw [hrange, hsource, hw.read hover hdecl]
  simp only [mapM_some, hold, hchanged]
  rfl

theorem written_spec (hw : Wrote m m' source id range write) {registers : Std.HashMap String Register}
    (hdecl : ∀ p ∈ registers.toList, ∀ kind key regRange, registerMemBinding p.2 = some (kind, key, regRange) →
      ∀ a ∈ regRange, (m.cellAt key a).isSome = true) : List.Forall₂ (fun p build => ∀ seq, ∃ e, build seq = some e ∧
        EventOf m m' p.1 p.2 seq (eventSource executing source) (clock seq) e)
      (registers.toList.filter (fun p => touches id range p.2)) (RegisterTap.written executing clock registers write m') := by
  obtain ⟨-, hid, hrange⟩ := hw.call
  unfold RegisterTap.written
  refine forall₂_filter_filterMap (fun p hp => ?_)
  obtain ⟨name, r⟩ := p
  unfold touches
  simp only [hid, hrange]
  cases hbind : registerMemBinding r with
  | none => exact Or.inl ⟨rfl, rfl⟩
  | some b =>
    obtain ⟨kind, key, regRange⟩ := b
    simp only
    by_cases hkey : key = id
    · subst hkey
      cases hover : regRange.intersect range with
      | none =>
        refine Or.inl ⟨?_, by simp⟩
        rw [Bool.and_eq_false_iff, List.any_eq_false]
        refine Or.inr (fun a ha hin => ?_)
        exact Range.intersect_eq_none.1 hover a (Range.mem_addrs.1 ha) (of_decide_eq_true hin)
      | some overlap =>
        obtain ⟨hne, ⟨h1, h2⟩, h3, h4⟩ := intersect_within hover
        refine Or.inr ⟨?_, _, by simp, fun seq =>
          build_spec executing clock hw name hbind (hdecl _ hp kind key regRange hbind) hover seq⟩
        rw [Bool.and_eq_true, List.any_eq_true]
        refine ⟨decide_eq_true rfl, overlap.start, Range.mem_addrs.2 ⟨h1, Nat.lt_of_lt_of_le hne h2⟩, ?_⟩
        exact decide_eq_true ⟨h3, Nat.lt_of_lt_of_le hne h4⟩
    · exact Or.inl ⟨by simp [hkey], by simp [hkey]⟩

end

/-- **Register events are exact**: a write publishes one event for each register that has a word in the written range, with the
decodings before and after it, and says that the register changed exactly when a bit it owns did. -/
theorem register_events_exact (executing : Option ScriptId) (clock : Nat → Nat)
    (registers : Std.HashMap String Register) (slices : SlaveKey → Option SliceMap) (source : WriteSource) (id : SlaveKey)
    (range : Range) (values : List Word)
    (hdecl : ∀ (name : String) (r : Register), registers[name]? = some r → ∀ kind key regRange,
      registerMemBinding r = some (kind, key, regRange) → ∀ a ∈ regRange, (Memory.cellAt ⟨slices, true⟩ key a).isSome = true) :
    let m : Memory SlaveKey := ⟨slices, true⟩
    let Exact := fun (m' : Memory SlaveKey) (calls : List (TapCall SlaveKey)) =>
      List.Forall₂ (fun p build => ∀ seq, ∃ e, build seq = some e ∧
          EventOf m m' p.1 p.2 seq (eventSource executing source) (clock seq) e)
        (registers.toList.filter (fun p => touches id range p.2))
        (calls.flatMap (fun call => RegisterTap.written executing clock registers call.1 call.2))
    (∀ ty, (m.writeFrom source id ty range values).1 = .ok () →
      Exact (m.writeFrom source id ty range values).2.1 (m.writeFrom source id ty range values).2.2) ∧
    ((m.writeUncheckedFrom source id range values).1 = true →
      Exact (m.writeUncheckedFrom source id range values).2.1 (m.writeUncheckedFrom source id range values).2.2) := by
  intro m Exact
  have hall : ∀ p ∈ registers.toList, ∀ kind key regRange, registerMemBinding p.2 = some (kind, key, regRange) →
      ∀ a ∈ regRange, (m.cellAt key a).isSome = true := fun p hp =>
    hdecl p.1 p.2 (Std.HashMap.mem_toList_iff_getElem?_eq_some.1 hp)
  have hexact : ∀ (m' : Memory SlaveKey) (calls : List (TapCall SlaveKey)) (accepted : Prop), accepted →
      Store.Told m m' source id range accepted calls →
      (∀ k a, m'.cellAt k a = Store.setValues m.cellAt id range values k a) → Exact m' calls := by
    intro m' calls accepted ha htold hcell
    obtain ⟨call, rfl, hrep⟩ := htold.1 ha
    have hw := written_spec executing clock (wrote_of_reports hrep hcell) hall
    rw [← hrep.shown] at hw
    simpa only [Exact, flatMap_cons, flatMap_nil, append_nil, ← hrep.shown] using hw
  refine ⟨fun ty hok => ?_, fun hok => ?_⟩
  · refine hexact _ _ _ hok (Store.told_writeFrom rfl source id ty range values) (fun k a => ?_)
    have heq := m.writeFrom_eq source id ty range values
    have hres := congrArg Prod.fst heq
    have hmem := congrArg Prod.snd heq
    simp only at hres hmem
    rw [hmem]
    exact Memory.cellAt_write (hres ▸ hok) k a
  refine hexact _ _ _ hok (Store.told_writeUncheckedFrom rfl source id range values) (fun k a => ?_)
  have heq := m.writeUncheckedFrom_eq source id range values
  have hres := congrArg Prod.fst heq
  have hmem := congrArg Prod.snd heq
  simp only at hres hmem
  rw [hmem]
  exact Memory.cellAt_writeUnchecked_ok (hres ▸ hok) k a

def wordPair : Memory SlaveKey :=
  ((Memory.empty SlaveKey).addRanges ⟨1, .holdingRegister⟩ (CellKind.readWrite .register) [Range.new 0 2]).2

def textPair : Std.HashMap String Register :=
  Std.HashMap.insert ∅ "a" { slaveId := 1, access := .readWrite, kind := .holdingRegister, address := .fixed 0,
                             format := .ascii .left 2 }

/-- The second word of the text is written. -/
theorem second_word_write_event :
    (Memory.writeUncheckedFrom ⟨wordPair.slices, true⟩ .remote ⟨1, .holdingRegister⟩ (Range.new 1 1) [7]).1 = true ∧
      List.Forall₂ (fun p build => ∀ seq, ∃ e, build seq = some e ∧ EventOf ⟨wordPair.slices, true⟩
            (Memory.writeUncheckedFrom ⟨wordPair.slices, true⟩ .remote ⟨1, .holdingRegister⟩ (Range.new 1 1) [7]).2.1
            p.1 p.2 seq .remote seq e) (textPair.toList.filter (fun p => touches ⟨1, .holdingRegister⟩ (Range.new 1 1) p.2))
        ((Memory.writeUncheckedFrom ⟨wordPair.slices, true⟩ .remote ⟨1, .holdingRegister⟩ (Range.new 1 1) [7]).2.2.flatMap
          (fun call => RegisterTap.written none id textPair call.1 call.2)) := by
  have hok : (Memory.writeUncheckedFrom ⟨wordPair.slices, true⟩ .remote ⟨1, .holdingRegister⟩ (Range.new 1 1) [7]).1 =
      true := by decide
  refine ⟨hok, (register_events_exact none id textPair wordPair.slices .remote ⟨1, .holdingRegister⟩ (Range.new 1 1)
    [7] ?_).2 hok⟩
  intro name r hr kind key regRange hbind a ha
  rw [textPair, Std.HashMap.getElem?_insert] at hr
  split at hr
  · cases hr
    cases hbind
    have hcells : ∀ i < 2, (Memory.cellAt ⟨wordPair.slices, true⟩ ⟨1, .holdingRegister⟩ i).isSome = true := by decide
    exact hcells a ha.2
  · rw [Std.HashMap.getElem?_empty] at hr
    cases hr

end Ferrowl.Modbus
