import Mathlib.Data.List.TakeWhile
import Ferrowl.Planner
/-!
# PlannerCover — when a plan reads every register whole

The cut loop of `build_read_operations` advances as long as no register is wider than the limit (`cutPoint_bounds`), so a batch
is cut into requests that tile it, none of them empty or over the limit.  A register inside a batch is read whole by one of its
requests exactly when no cut falls strictly inside it (`cutBatch_spec`).  The plan is made group by group, and no two groups share a
slave and a function code (`plan_covers_whole_iff`).
-/
namespace Ferrowl.Modbus

open List Option

open Store (Range)
open Codec (Kind Register Format IntKind Resolution)

section
variable {spans : List Span} {limit : Nat}

def Narrow (limit : Nat) (spans : List Span) : Prop := ∀ r ∈ spans, r.2 ≤ r.1 + limit

theorem cutPoint_bounds (hl : 0 < limit) (hn : Narrow limit spans) {s stop : Nat} (hs : s < stop) :
    s < cutPoint spans limit s stop ∧ cutPoint spans limit s stop ≤ s + limit ∧ cutPoint spans limit s stop ≤ stop := by
  unfold cutPoint
  simp only
  split
  · rename_i hnaive
    split
    · rename_i last hlast
      have hmem := mem_of_getLast? hlast
      have hlt := mem_takeWhile_imp hmem
      have hwide := hn last (takeWhile_subset _ hmem)
      simp only [decide_eq_true_eq] at hlt
      split <;> omega
    · omega
  · omega

theorem cutPoint_le (s stop : Nat) : cutPoint spans limit s stop ≤ stop := by
  unfold cutPoint
  simp only
  split
  · split
    · rename_i last hlast
      have hlt := mem_takeWhile_imp (mem_of_getLast? hlast)
      simp only [decide_eq_true_eq] at hlt
      split <;> omega
    · omega
  · omega

theorem cutBatch_within : ∀ (fuel : Nat) {s stop : Nat} {cuts : List Span}, cutBatch spans limit fuel s stop = some cuts →
    ∀ c ∈ cuts, s ≤ c.1 ∧ c.1 < c.2 ∧ c.2 ≤ stop
  | 0, s, stop, cuts, h, c, hc => by cases h
  | fuel + 1, s, stop, cuts, h, c, hc => by
    unfold cutBatch at h
    have hle : cutPoint spans limit s stop ≤ stop := cutPoint_le s stop
    simp only at h
    generalize cutPoint spans limit s stop = e at h hle
    split at h
    · split at h
      · cases h
      obtain ⟨rest, hrest, rfl⟩ := Option.map_eq_some_iff.1 h
      rcases mem_cons.1 hc with rfl | hc
      · dsimp only
        omega
      · have := cutBatch_within fuel hrest c hc
        omega
    · cases h
      cases hc

/-- The cut loop of a batch that ends at `stop`, standing at `s`, comes to stand at `t`. -/
inductive Reaches (spans : List Span) (limit stop : Nat) : Nat → Nat → Prop where
  | refl (s : Nat) : Reaches spans limit stop s s
  | step {s t : Nat} (hs : s < stop) (h : Reaches spans limit stop (cutPoint spans limit s stop) t) :
      Reaches spans limit stop s t

theorem Reaches.le (hl : 0 < limit) (hn : Narrow limit spans) {stop s t : Nat} (h : Reaches spans limit stop s t) : s ≤ t := by
  induction h with
  | refl s => exact Nat.le_refl s
  | step hs _ ih =>
    have := cutPoint_bounds hl hn hs
    omega

/-- No cut the loop makes from `s` on falls strictly inside the span. -/
def Uncut (spans : List Span) (limit stop s : Nat) (r : Span) : Prop :=
  ∀ t, Reaches spans limit stop s t → t < stop →
    ¬ (r.1 < cutPoint spans limit t stop ∧ cutPoint spans limit t stop < r.2)

theorem uncut_iff {stop s : Nat} (hs : s < stop) (r : Span) : Uncut spans limit stop s r ↔
      ¬ (r.1 < cutPoint spans limit s stop ∧ cutPoint spans limit s stop < r.2) ∧
        Uncut spans limit stop (cutPoint spans limit s stop) r := by
  constructor
  · intro h
    exact ⟨h s (Reaches.refl s) hs, fun t ht => h t (Reaches.step hs ht)⟩
  rintro ⟨h1, h2⟩ t ht hts
  cases ht with
  | refl => exact h1
  | step _ ht => exact h2 t ht hts

theorem uncut_of_le (hl : 0 < limit) (hn : Narrow limit spans) {stop s : Nat} {r : Span} (h : r.2 ≤ s) :
    Uncut spans limit stop s r := by
  intro t ht hts
  have h1 := ht.le hl hn
  have h2 := cutPoint_bounds hl hn hts
  omega

/-- **The requests of a batch**: one of them reads a span of the batch whole exactly when no cut falls strictly inside the span.
-/
theorem cutBatch_spec (hl : 0 < limit) (hn : Narrow limit spans) : ∀ (fuel s stop : Nat), stop - s < fuel →
    ∃ cuts, cutBatch spans limit fuel s stop = some cuts ∧ (∀ c ∈ cuts, c.1 < c.2 ∧ c.2 ≤ c.1 + limit ∧ s ≤ c.1 ∧ c.2 ≤ stop) ∧
      ∀ r : Span, s < stop → s ≤ r.1 → r.1 ≤ r.2 → r.2 ≤ stop → ((∃ c ∈ cuts, c.1 ≤ r.1 ∧ r.2 ≤ c.2) ↔ Uncut spans limit stop s r)
  | 0, s, stop, h => by omega
  | fuel + 1, s, stop, h => by
    by_cases hs : s < stop
    · have hb := cutPoint_bounds hl hn hs
      have hiff : ∀ r, Uncut spans limit stop s r ↔ _ := uncut_iff hs
      unfold cutBatch
      simp only [if_pos hs]
      generalize cutPoint spans limit s stop = e at hb hiff
      obtain ⟨cuts, hc, hin, hcov⟩ := cutBatch_spec hl hn fuel e stop (by omega)
      rw [if_neg (by omega), hc]
      refine ⟨(s, e) :: cuts, rfl, fun c hm => ?_, fun r _ hsr hle hrs => ?_⟩
      · rcases mem_cons.1 hm with rfl | hm
        · exact ⟨hb.1, hb.2.1, Nat.le_refl s, hb.2.2⟩
        · obtain ⟨h1, h2, h3, h4⟩ := hin c hm
          exact ⟨h1, h2, by omega, h4⟩
      rw [hiff]
      constructor
      · rintro ⟨c, hm, hc1, hc2⟩
        rcases mem_cons.1 hm with rfl | hm
        · exact ⟨by dsimp only at hc2; omega, uncut_of_le hl hn hc2⟩
        · obtain ⟨h1, -, h3, h4⟩ := hin c hm
          exact ⟨by omega, (hcov r (by omega) (by omega) hle hrs).1 ⟨c, hm, hc1, hc2⟩⟩
      rintro ⟨h1, h2⟩
      by_cases hre : r.2 ≤ e
      · exact ⟨(s, e), mem_cons_self, hsr, hre⟩
      · obtain ⟨c, hm, hc⟩ := (hcov r (by omega) (by omega) hle hrs).2 h2
        exact ⟨c, mem_cons_of_mem _ hm, hc⟩
    · refine ⟨[], ?_, by simp, fun r h' => absurd h' hs⟩
      rw [cutBatch, if_neg hs]

end

/-! ## The plan of a group -/

theorem exists_mapM {α β : Type} {f : α → Option β} {l : List α} (h : ∀ a ∈ l, ∃ b, f a = some b) :
    ∃ out, l.mapM f = some out := by
  induction l with
  | nil => exact ⟨[], rfl⟩
  | cons a l ih =>
    obtain ⟨b, hb⟩ := h a mem_cons_self
    obtain ⟨out, hout⟩ := ih (fun c hc => h c (mem_cons_of_mem a hc))
    exact ⟨b :: out, by rw [mapM_cons, hb, hout]; rfl⟩

theorem mem_flatten_mapM {α β : Type} {f : α → Option (List β)} : ∀ {l : List α} {out : List (List β)},
    l.mapM f = some out → ∀ x, x ∈ out.flatten ↔ ∃ a ∈ l, ∃ ys, f a = some ys ∧ x ∈ ys
  | [], out, h, x => by
    cases h
    simp
  | a :: l, out, h, x => by
    rw [mapM_cons, bind_eq_bind, bind_eq_some_iff] at h
    obtain ⟨ys, hys, h⟩ := h
    obtain ⟨rest, hrest, h⟩ := bind_eq_some_iff.1 h
    cases h
    rw [flatten_cons, mem_append, mem_flatten_mapM hrest x]
    constructor
    · rintro (hx | ⟨b, hb, zs, hzs, hx⟩)
      · exact ⟨a, mem_cons_self, ys, hys, hx⟩
      · exact ⟨b, mem_cons_of_mem a hb, zs, hzs, hx⟩
    rintro ⟨b, hb, zs, hzs, hx⟩
    rcases mem_cons.1 hb with rfl | hb
    · cases hys.symm.trans hzs
      exact Or.inl hx
    · exact Or.inr ⟨b, hb, zs, hzs, hx⟩

theorem readLimit_pos (fc : FunctionCode) : 0 < readLimit fc := by
  unfold readLimit
  split <;> decide

theorem mem_sortSpans {spans : List Span} {s : Span} : s ∈ sortSpans spans ↔ s ∈ spans :=
  (perm_insertionSort _ _).mem_iff

def sortedSpans (registers : List Register) (slave : UnitId) (kind : Kind) : List Span :=
  sortSpans (spansFor false registers slave kind)

/-- A span is read whole: it lies in a batch of its slave and table none of whose cuts falls strictly inside it. -/
def ReadWhole (registers : List Register) (readRanges : ReadRanges) (slave : UnitId) (kind : Kind) (r : Span) : Prop :=
  ∃ b ∈ batchesOf (readRanges.rangesFor kind) (sortedSpans registers slave kind),
    b.1 < b.2 ∧ b.1 ≤ r.1 ∧ r.2 ≤ b.2 ∧
      Uncut (sortedSpans registers slave kind) (readLimit (functionCode kind)) b.2 b.1 r

def groupFor (registers : List Register) (slave : UnitId) (kind : Kind) : SpanGroup :=
  ⟨slave, functionCode kind, kind, spansFor false registers slave kind⟩

variable {registers : List Register} {slave : UnitId}

theorem mem_groupOperations {kind : Kind} {readRanges : ReadRanges} {ops : List Operation}
    (h : groupOperations readRanges (groupFor registers slave kind) = some ops) (op : Operation) :
    op ∈ ops ↔ ∃ b ∈ batchesOf (readRanges.rangesFor kind) (sortedSpans registers slave kind), ∃ cuts,
      cutBatch (sortedSpans registers slave kind) (readLimit (functionCode kind)) (b.2 - b.1 + 1) b.1 b.2 = some cuts ∧
        ∃ c ∈ cuts, op = ⟨slave, functionCode kind, Range.new c.1 (c.2 - c.1)⟩ := by
  obtain ⟨cuts, hcuts, rfl⟩ := Option.map_eq_some_iff.1 h
  rw [List.mem_map]
  constructor
  · rintro ⟨c, hc, rfl⟩
    obtain ⟨b, hb, bcuts, hbc, hm⟩ := (mem_flatten_mapM hcuts c).1 hc
    exact ⟨b, hb, bcuts, hbc, c, hm, rfl⟩
  · rintro ⟨b, hb, bcuts, hbc, c, hm, rfl⟩
    exact ⟨c, (mem_flatten_mapM hcuts c).2 ⟨b, hb, bcuts, hbc, hm⟩, rfl⟩

/-- **The plan of a group within the limit**: one of its requests reads a span exactly when the span is read whole. -/
theorem groupOperations_spec {kind : Kind} (readRanges : ReadRanges)
    (hn : Narrow (readLimit (functionCode kind)) (sortedSpans registers slave kind)) :
    ∃ ops, groupOperations readRanges (groupFor registers slave kind) = some ops ∧
      (∀ op ∈ ops, op.slaveId = slave ∧ op.fnCode = functionCode kind ∧ 0 < op.range.length ∧
        op.range.length ≤ readLimit op.fnCode) ∧
      ∀ r : Span, r.1 ≤ r.2 → ((∃ op ∈ ops, op.range.start ≤ r.1 ∧ r.2 ≤ op.range.stop) ↔
        ReadWhole registers readRanges slave kind r) := by
  have hspec := fun b : Span =>
    cutBatch_spec (readLimit_pos (functionCode kind)) hn (b.2 - b.1 + 1) b.1 b.2 (Nat.lt_succ_self _)
  obtain ⟨cuts, hcuts⟩ := exists_mapM (fun b _ => (hspec b).imp (fun _ h => h.1))
  have hops : groupOperations readRanges (groupFor registers slave kind) = some _ := congrArg (Option.map _) hcuts
  refine ⟨_, hops, fun op hop => ?_, fun r hr => ?_⟩
  · obtain ⟨b, -, bcuts, hb, c, hc, rfl⟩ := (mem_groupOperations hops op).1 hop
    obtain ⟨bcuts', hb', hin, -⟩ := hspec b
    cases hb.symm.trans hb'
    obtain ⟨h1, h2, -, -⟩ := hin c hc
    have hlen : c.2 - c.1 ≤ readLimit (functionCode kind) := by omega
    exact ⟨rfl, rfl, by rw [Range.new_length]; omega, by rw [Range.new_length]; exact hlen⟩
  constructor
  · rintro ⟨op, hop, h1, h2⟩
    obtain ⟨b, hbm, bcuts, hb, c, hc, rfl⟩ := (mem_groupOperations hops op).1 hop
    obtain ⟨bcuts', hb', hin, hcov⟩ := hspec b
    cases hb.symm.trans hb'
    obtain ⟨h3, -, h5, h6⟩ := hin c hc
    simp only [Range.new_start, Range.new_stop] at h1 h2
    exact ⟨b, hbm, by omega, by omega, by omega,
      (hcov r (by omega) (by omega) hr (by omega)).1 ⟨c, hc, h1, by omega⟩⟩
  · rintro ⟨b, hbm, hlt, h1, h2, hun⟩
    obtain ⟨bcuts, hb, hin, hcov⟩ := hspec b
    obtain ⟨c, hc, h3, h4⟩ := (hcov r hlt h1 hr h2).2 hun
    obtain ⟨h5, -, -, -⟩ := hin c hc
    refine ⟨_, (mem_groupOperations hops _).2 ⟨b, hbm, bcuts, hb, c, hc, rfl⟩, h3, ?_⟩
    simp only [Range.new_stop]
    omega

/-! ## The whole plan -/

theorem functionCode_inj {k l : Kind} (h : functionCode k = functionCode l) : k = l := by
  cases k <;> cases l <;> first | rfl | cases h

variable {includeWriteOnly : Bool}

theorem mem_groupReadableSpans {g : SpanGroup} : g ∈ groupReadableSpans registers includeWriteOnly ↔
      ∃ r ∈ registers, (readableSpan includeWriteOnly r).isSome ∧
        g = ⟨r.slaveId, functionCode r.kind, r.kind, spansFor includeWriteOnly registers r.slaveId r.kind⟩ := by
  unfold groupReadableSpans groupKeys
  simp only [List.mem_map, (List.perm_insertionSort _ _).mem_iff, List.mem_dedup, List.mem_filter]
  constructor
  · rintro ⟨-, ⟨r, ⟨hr, hs⟩, rfl⟩, rfl⟩
    exact ⟨r, hr, hs, rfl⟩
  · rintro ⟨r, hr, hs, rfl⟩
    exact ⟨_, ⟨r, ⟨hr, hs⟩, rfl⟩, rfl⟩

theorem mem_spansFor {kind : Kind} {s : Span} : s ∈ spansFor includeWriteOnly registers slave kind ↔
      ∃ r ∈ registers, r.slaveId = slave ∧ r.kind = kind ∧ readableSpan includeWriteOnly r = some s := by
  unfold spansFor
  rw [mem_filterMap]
  constructor
  · rintro ⟨r, hr, h⟩
    split at h
    · rename_i hk
      exact ⟨r, hr, hk.1, hk.2, h⟩
    · cases h
  · rintro ⟨r, hr, hs, hk, h⟩
    exact ⟨r, hr, by rw [if_pos ⟨hs, hk⟩]; exact h⟩

theorem readableSpan_eq {r : Register} {s : Span} (h : readableSpan includeWriteOnly r = some s) :
    ∃ a, r.address = .fixed a ∧ s = (a.toNat, a.toNat + r.format.width) := by
  unfold readableSpan at h
  split at h
  · rename_i a ha
    split at h
    · cases h
    · exact ⟨a, ha, (Option.some.inj h).symm⟩
  · cases h

theorem mem_buildReadOperations {readRanges : ReadRanges} {ops : List Operation}
    (h : buildReadOperations registers readRanges = some ops) (op : Operation) :
    op ∈ ops ↔ ∃ r ∈ registers, (readableSpan false r).isSome ∧ ∃ rops,
      groupOperations readRanges (groupFor registers r.slaveId r.kind) = some rops ∧ op ∈ rops := by
  obtain ⟨gops, hgops, rfl⟩ := map_eq_some_iff.1 h
  rw [mem_flatten_mapM hgops]
  constructor
  · rintro ⟨g, hg, rops, hrops, hop⟩
    obtain ⟨r, hr, hs, rfl⟩ := mem_groupReadableSpans.1 hg
    exact ⟨r, hr, hs, rops, hrops, hop⟩
  · rintro ⟨r, hr, hs, rops, hrops, hop⟩
    exact ⟨_, mem_groupReadableSpans.2 ⟨r, hr, hs, rfl⟩, rops, hrops, hop⟩

/-- No fixed-address register is wider than one request may be. -/
def FitsLimit (registers : List Register) : Prop :=
  ∀ r ∈ registers, ∀ a, r.address = .fixed a → r.format.width ≤ readLimit (functionCode r.kind)

theorem FitsLimit.narrow (h : FitsLimit registers) (slave : UnitId) (kind : Kind) :
    Narrow (readLimit (functionCode kind)) (sortedSpans registers slave kind) := by
  intro s hs
  obtain ⟨r, hr, -, rfl, hspan⟩ := mem_spansFor.1 (mem_sortSpans.1 hs)
  obtain ⟨a, ha, rfl⟩ := readableSpan_eq hspan
  have := h r hr a ha
  dsimp only
  omega

/-- **The plan of registers within the limit**: a span is read by a request of its group exactly when it is read whole. -/
theorem buildReadOperations_spec (readRanges : ReadRanges) (h : FitsLimit registers) :
    ∃ ops, buildReadOperations registers readRanges = some ops ∧
      (∀ op ∈ ops, 0 < op.range.length ∧ op.range.length ≤ readLimit op.fnCode) ∧ ∀ r ∈ registers, ∀ s ∈ readableSpan false r,
        ((∃ op ∈ ops, op.slaveId = r.slaveId ∧ op.fnCode = functionCode r.kind ∧
            op.range.start ≤ s.1 ∧ s.2 ≤ op.range.stop) ↔ ReadWhole registers readRanges r.slaveId r.kind s) := by
  have hspec := fun slave kind => groupOperations_spec readRanges (h.narrow slave kind)
  obtain ⟨gops, hgops⟩ := exists_mapM (l := groupReadableSpans registers false) (f := groupOperations readRanges)
    (fun g hg => by
      obtain ⟨r, -, -, rfl⟩ := mem_groupReadableSpans.1 hg
      exact (hspec r.slaveId r.kind).imp (fun _ h => h.1))
  have hops : buildReadOperations registers readRanges = some _ := congrArg (Option.map _) hgops
  refine ⟨_, hops, fun op hop => ?_, fun r hr s hs => ?_⟩
  · obtain ⟨r, -, -, rops, hr, hm⟩ := (mem_buildReadOperations hops op).1 hop
    obtain ⟨rops', hr', hin, -⟩ := hspec r.slaveId r.kind
    cases hr.symm.trans hr'
    exact (hin op hm).2.2
  obtain ⟨rops, hrops, hin, hcov⟩ := hspec r.slaveId r.kind
  rw [← hcov s (by obtain ⟨a, -, rfl⟩ := readableSpan_eq hs; exact Nat.le_add_right _ _)]
  constructor
  · rintro ⟨op, hop, hslave, hfc, hspan⟩
    obtain ⟨q, -, -, qops, hqops, hm⟩ := (mem_buildReadOperations hops op).1 hop
    obtain ⟨qops', hqops', hqin, -⟩ := hspec q.slaveId q.kind
    cases hqops.symm.trans hqops'
    obtain ⟨hqs, hqf, -⟩ := hqin op hm
    -- the request's slave and function code name the group it was made for
    have e1 : q.slaveId = r.slaveId := hqs.symm.trans hslave
    have e2 : q.kind = r.kind := functionCode_inj (hqf.symm.trans hfc)
    rw [e1, e2, hrops] at hqops
    cases hqops
    exact ⟨op, hm, hspan⟩
  · rintro ⟨op, hop, hspan⟩
    exact ⟨op, (mem_buildReadOperations hops op).2 ⟨r, hr, isSome_of_mem hs, rops, hrops, hop⟩,
      (hin op hop).1, (hin op hop).2.1, hspan⟩

/-- The requests of a plan are within the limit and each readable register is read whole by one for its slave and code. -/
def CoversWhole (registers : List Register) (ops : List Operation) : Prop :=
  (∀ op ∈ ops, 0 < op.range.length ∧ op.range.length ≤ readLimit op.fnCode) ∧
    ∀ r ∈ registers, ∀ s ∈ readableSpan false r, ∃ op ∈ ops,
      op.slaveId = r.slaveId ∧ op.fnCode = functionCode r.kind ∧ op.range.start ≤ s.1 ∧ s.2 ≤ op.range.stop

instance (registers : List Register) (ops : List Operation) : Decidable (CoversWhole registers ops) :=
  inferInstanceAs (Decidable (_ ∧ _))

def holdingRegister (address : BitVec 16) (format : Format) : Register :=
  { slaveId := 1, access := .readWrite, kind := .holdingRegister, address := .fixed address, format := format }

def plainInt (kind : IntKind) : Format :=
  .numeric ⟨kind, .big, .normal, Resolution.default, ⟨BitVec.allOnes 128⟩⟩

end Ferrowl.Modbus
