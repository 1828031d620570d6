import Ferrowl.PlannerBatches
/-!
# PlannerEnds — when the cut loop comes to its end

The cut loop of `build_read_operations` puts a cut back to the start of the register that reaches over it.  A register wider than
the limit pulls the cut back to its own start, where the loop then stands for ever, unless another register starts inside its
first `limit` addresses and takes the cut over (`Stuck`).
-/
namespace Ferrowl.Modbus

open Store (Range)
open Codec (Kind Access Address Register)

section
variable {spans : List Span} {limit stop : Nat}

/-- The cut loop of a batch that ends at `stop` leaves the batch, started at `s`. -/
def CutEnds (spans : List Span) (limit stop s : Nat) : Prop := ∃ t, Reaches spans limit stop s t ∧ stop ≤ t

/-- A span wider than the limit with no other one starting strictly inside its first `limit` addresses. -/
def Stuck (limit : Nat) (spans : List Span) (r : Span) : Prop :=
  r.1 + limit < r.2 ∧ ∀ q ∈ spans, ¬ (r.1 < q.1 ∧ q.1 < r.1 + limit)

/-- A place a cut was made at: a span starts there, or the span that starts last before it has ended. -/
def CutPlace (spans : List Span) (s : Nat) : Prop :=
  (∃ r ∈ spans, r.1 = s) ∨ ∀ r ∈ spans, r.1 < s → (∀ q ∈ spans, q.1 < s → q.Le r) → r.2 ≤ s

theorem last_spec (hsort : spans.Pairwise Span.Le) {n : Nat} :
    (spans.takeWhile (fun r => r.1 < n)).getLast? = none ∧ (∀ r ∈ spans, n ≤ r.1) ∨
    ∃ last, (spans.takeWhile (fun r => r.1 < n)).getLast? = some last ∧ last ∈ spans ∧ last.1 < n ∧
      ∀ r ∈ spans, r.1 < n → r.Le last := by
  cases hlast : (spans.takeWhile (fun r => r.1 < n)).getLast? with
  | none =>
    refine Or.inl ⟨rfl, fun r hr => Nat.le_of_not_lt (fun hlt => ?_)⟩
    obtain ⟨last, h, -⟩ := exists_last hlt hsort hr
    rw [hlast] at h
    cases h
  | some last =>
    have hmem := List.mem_of_getLast? hlast
    have hlt := List.mem_takeWhile_imp hmem
    simp only [decide_eq_true_eq] at hlt
    refine Or.inr ⟨last, rfl, List.takeWhile_subset _ hmem, hlt, fun r hr hrn => ?_⟩
    obtain ⟨last', h, hle⟩ := exists_last hrn hsort hr
    rw [hlast] at h
    cases h
    exact hle

/-- **What one cut comes to**: the limit or the end of the batch, or the start of the last span before the limit when that
span reaches over it. -/
theorem cutPoint_cases (limit stop : Nat) (hsort : spans.Pairwise Span.Le) (s : Nat) :
    (cutPoint spans limit s stop = min (s + limit) stop ∧
      (min (s + limit) stop < stop → ∀ r ∈ spans, r.1 < s + limit → (∀ q ∈ spans, q.1 < s + limit → q.Le r) → r.2 ≤ s + limit)) ∨
    ∃ last ∈ spans, s + limit < stop ∧ cutPoint spans limit s stop = last.1 ∧ last.1 < s + limit ∧ s + limit < last.2 ∧
      ∀ r ∈ spans, r.1 < s + limit → r.Le last := by
  unfold cutPoint
  simp only
  by_cases hnaive : min (s + limit) stop < stop
  · have hmin : min (s + limit) stop = s + limit := by omega
    rw [hmin] at hnaive ⊢
    rw [if_pos hnaive]
    rcases last_spec hsort (n := s + limit) with ⟨hnone, hall⟩ | ⟨last, hlast, hmem, hlt, hmax⟩
    · rw [hnone]
      refine Or.inl ⟨rfl, fun _ r hr hrs => ?_⟩
      have := hall r hr
      omega
    rw [hlast]
    by_cases hover : last.2 > s + limit
    · exact Or.inr ⟨last, hmem, hnaive, if_pos hover, hlt, hover, hmax⟩
    refine Or.inl ⟨if_neg hover, fun _ r hr hrs hrmax => ?_⟩
    have h1 := hmax r hr hrs
    have h2 := hrmax last hmem hlt
    unfold Span.Le at h1 h2
    omega
  · rw [if_neg hnaive]
    exact Or.inl ⟨rfl, fun h => absurd h hnaive⟩

theorem cutPoint_le_of_stuck (hsort : spans.Pairwise Span.Le) {r : Span} (hr : r ∈ spans) (hst : Stuck limit spans r)
    (hstop : r.1 + limit < stop) {s : Nat} (hs : s ≤ r.1) : cutPoint spans limit s stop ≤ r.1 := by
  obtain ⟨hwide, hfree⟩ := hst
  rcases cutPoint_cases limit stop hsort s with ⟨heq, hend⟩ | ⟨last, hlast, -, heq, hlt, -, -⟩
  · rw [heq]
    by_contra hpast
    have hmin : min (s + limit) stop = s + limit := by omega
    -- among the spans that start with `r`, the last one ends at the earliest where `r` does
    obtain ⟨last, hl, hm, hln, hmax⟩ := (last_spec hsort (n := s + limit)).resolve_left
      (fun h => by have := h.2 r hr; omega)
    have hle := hmax r hr (by omega)
    have h2 := hend (by omega) last hm hln hmax
    have hno := hfree last hm
    unfold Span.Le at hle
    omega
  · rw [heq]
    by_contra hpast
    exact hfree last hlast ⟨by omega, by omega⟩

theorem not_ends_of_stuck (hsort : spans.Pairwise Span.Le) {r : Span} (hr : r ∈ spans) (hst : Stuck limit spans r)
    (hstop : r.2 ≤ stop) {s : Nat} (hs : s ≤ r.1) : ¬ CutEnds spans limit stop s := by
  have hwide := hst.1
  rintro ⟨t, ht, hend⟩
  have hinv : t ≤ r.1 := by
    clear hend
    induction ht with
    | refl s => exact hs
    | step _ _ ih => exact ih (cutPoint_le_of_stuck hsort hr hst (by omega) hs)
  omega

theorem lt_cutPoint (hl : 0 < limit) (hsort : spans.Pairwise Span.Le) (hfree : ∀ r ∈ spans, ¬ Stuck limit spans r) {s : Nat}
    (hs : s < stop) (hplace : CutPlace spans s) : s < cutPoint spans limit s stop ∧
      (cutPoint spans limit s stop < stop → CutPlace spans (cutPoint spans limit s stop)) := by
  rcases cutPoint_cases limit stop hsort s with ⟨heq, hend⟩ | ⟨last, hlast, -, heq, hlt, hover, hmax⟩
  · rw [heq]
    refine ⟨by omega, fun hlt => Or.inr ?_⟩
    have hmin : min (s + limit) stop = s + limit := by omega
    rw [hmin] at hlt ⊢
    exact hend (by omega)
  rw [heq]
  refine ⟨?_, fun _ => Or.inl ⟨last, hlast, rfl⟩⟩
  by_contra hback
  have hlow : last.1 = s := by
    rcases hplace with ⟨r, hr, hrs⟩ | hended
    · have hle := hmax r hr (by omega)
      unfold Span.Le at hle
      omega
    · by_contra hne
      have := hended last hlast (by omega) (fun q hq hqs => hmax q hq (by omega))
      omega
  refine hfree last hlast ⟨by omega, fun q hq hin => ?_⟩
  have hle := hmax q hq (by omega)
  unfold Span.Le at hle
  omega

theorem ends_of_cutBatch : ∀ (fuel : Nat) {s : Nat} {cuts : List Span}, cutBatch spans limit fuel s stop = some cuts →
    CutEnds spans limit stop s
  | 0, s, cuts, h => by cases h
  | fuel + 1, s, cuts, h => by
    unfold cutBatch at h
    by_cases hs : s < stop
    · simp only [if_pos hs] at h
      split at h
      · cases h
      · obtain ⟨rest, hrest, -⟩ := Option.map_eq_some_iff.1 h
        obtain ⟨t, ht, hend⟩ := ends_of_cutBatch fuel hrest
        exact ⟨t, Reaches.step hs ht, hend⟩
    · exact ⟨s, Reaches.refl s, Nat.le_of_not_lt hs⟩

theorem exists_cutBatch (hl : 0 < limit) (hsort : spans.Pairwise Span.Le) (hfree : ∀ r ∈ spans, ¬ Stuck limit spans r) :
    ∀ (fuel s : Nat), stop - s < fuel → (s < stop → CutPlace spans s) → ∃ cuts, cutBatch spans limit fuel s stop = some cuts
  | 0, s, hfuel, _ => by omega
  | fuel + 1, s, hfuel, hplace => by
    unfold cutBatch
    by_cases hs : s < stop
    · obtain ⟨hadv, hnext⟩ := lt_cutPoint hl hsort hfree hs (hplace hs)
      obtain ⟨cuts, hcuts⟩ := exists_cutBatch hl hsort hfree fuel (cutPoint spans limit s stop) (by omega) hnext
      refine ⟨(s, cutPoint spans limit s stop) :: cuts, ?_⟩
      simp only [if_pos hs, if_neg (Nat.not_le.2 hadv), hcuts]
      rfl
    · exact ⟨[], if_neg hs⟩

end

/-! ## The plan -/

def PlanEnds (registers : List Register) (readRanges : ReadRanges) : Prop :=
  ∀ g ∈ groupReadableSpans registers false, ∀ b ∈ batchesOf (readRanges.rangesFor g.kind) (sortSpans g.spans),
    CutEnds (sortSpans g.spans) (readLimit g.fc) b.2 b.1

theorem cutPlace_of_batch {explicit : List Range} {spans : List Span} {b : Span} (h : b ∈ batchesOf explicit spans) :
    CutPlace spans b.1 := by
  rcases mem_batchesOf h with hb | ⟨s, hs, t, -, rfl, -⟩
  · exact Or.inl ⟨b, hb, rfl⟩
  · exact Or.inl ⟨s, hs, rfl⟩

variable {registers : List Register} {readRanges : ReadRanges}

theorem planEnds_of_some {ops : List Operation}
    (h : buildReadOperations registers readRanges = some ops) : PlanEnds registers readRanges := by
  intro g hg b hb
  obtain ⟨gops, hgops, -⟩ := Option.map_eq_some_iff.1 h
  obtain ⟨rops, hrops⟩ := exists_of_mapM hgops _ hg
  obtain ⟨cuts, hcuts, -⟩ := Option.map_eq_some_iff.1 hrops
  obtain ⟨bcuts, hbcuts⟩ := exists_of_mapM hcuts _ hb
  exact ends_of_cutBatch _ hbcuts

theorem exists_plan (hfree : ∀ g ∈ groupReadableSpans registers false, ∀ r ∈ g.spans, ¬ Stuck (readLimit g.fc) g.spans r) :
    ∃ ops, buildReadOperations registers readRanges = some ops := by
  have hgroup : ∀ g ∈ groupReadableSpans registers false, ∃ ops, groupOperations readRanges g = some ops := by
    intro g hg
    have hsorted : ∀ r ∈ sortSpans g.spans, ¬ Stuck (readLimit g.fc) (sortSpans g.spans) r := by
      intro r hr hst
      exact hfree g hg r (mem_sortSpans.1 hr) ⟨hst.1, fun q hq => hst.2 q (mem_sortSpans.2 hq)⟩
    have hcut : ∀ b ∈ batchesOf (readRanges.rangesFor g.kind) (sortSpans g.spans), ∃ cuts,
        cutBatch (sortSpans g.spans) (readLimit g.fc) (b.2 - b.1 + 1) b.1 b.2 = some cuts := fun b hb =>
      exists_cutBatch (readLimit_pos g.fc) (sorted_sortSpans g.spans) hsorted _ b.1 (Nat.lt_succ_self _)
        (fun _ => cutPlace_of_batch hb)
    obtain ⟨cuts, hcuts⟩ := exists_mapM hcut
    exact ⟨_, congrArg (Option.map _) hcuts⟩
  obtain ⟨gops, hgops⟩ := exists_mapM hgroup
  exact ⟨_, congrArg (Option.map _) hgops⟩

variable {r : Register}

theorem readableSpan_false {s : Span} : readableSpan false r = some s ↔
      ∃ a, r.address = .fixed a ∧ r.access ≠ .writeOnly ∧ s = (a.toNat, a.toNat + r.format.width) := by
  unfold readableSpan
  cases hr : r.address with
  | fixed a =>
    by_cases hw : r.access = .writeOnly
    · simp [hw]
    simp only [Bool.not_false, Bool.true_and, beq_iff_eq, if_neg hw, Option.some.injEq]
    constructor
    · intro h
      exact ⟨a, rfl, hw, h.symm⟩
    · rintro ⟨b, hb, -, rfl⟩
      cases hb
      rfl
  | virtual => simp

/-- A polled register of the same slave and table starts strictly inside the first `limit` addresses of `r`, which is
at `a`. -/
def Relieved (registers : List Register) (r : Register) (a : BitVec 16) : Prop :=
  ∃ q ∈ registers, q.slaveId = r.slaveId ∧ q.kind = r.kind ∧ q.access ≠ .writeOnly ∧
    ∃ b, q.address = .fixed b ∧ a.toNat < b.toNat ∧ b.toNat < a.toNat + readLimit (functionCode r.kind)

theorem stuck_iff {a : BitVec 16} : Stuck (readLimit (functionCode r.kind)) (spansFor false registers r.slaveId r.kind)
        (a.toNat, a.toNat + r.format.width) ↔ readLimit (functionCode r.kind) < r.format.width ∧ ¬ Relieved registers r a := by
  unfold Stuck Relieved
  constructor
  · rintro ⟨hwide, hfree⟩
    refine ⟨by dsimp only at hwide; omega, ?_⟩
    rintro ⟨q, hq, hslave, hkind, hacc, b, hb, h1, h2⟩
    exact hfree (b.toNat, b.toNat + q.format.width)
      (mem_spansFor.2 ⟨q, hq, hslave, hkind, readableSpan_false.2 ⟨b, hb, hacc, rfl⟩⟩) ⟨h1, h2⟩
  rintro ⟨hwide, hfree⟩
  refine ⟨by dsimp only; omega, fun s hs hin => hfree ?_⟩
  obtain ⟨q, hq, hslave, hkind, hspan⟩ := mem_spansFor.1 hs
  obtain ⟨b, hb, hacc, rfl⟩ := readableSpan_false.1 hspan
  exact ⟨q, hq, hslave, hkind, hacc, b, hb, hin⟩

theorem relieved_of_ends (h : PlanEnds registers readRanges) (hr : r ∈ registers) {a : BitVec 16}
    (ha : r.address = .fixed a) (hacc : r.access ≠ .writeOnly)
    (hwide : readLimit (functionCode r.kind) < r.format.width) : Relieved registers r a := by
  by_contra hno
  have hspan : readableSpan false r = some (a.toNat, a.toNat + r.format.width) := readableSpan_false.2 ⟨a, ha, hacc, rfl⟩
  have hmem : (a.toNat, a.toNat + r.format.width) ∈ sortedSpans registers r.slaveId r.kind :=
    mem_sortSpans.2 (mem_spansFor.2 ⟨r, hr, rfl, rfl, hspan⟩)
  have hst := stuck_iff.2 ⟨hwide, hno⟩
  have hst' : Stuck (readLimit (functionCode r.kind)) (sortedSpans registers r.slaveId r.kind)
      (a.toNat, a.toNat + r.format.width) := ⟨hst.1, fun q hq => hst.2 q (mem_sortSpans.1 hq)⟩
  have hbatch : ∃ b ∈ batchesOf (readRanges.rangesFor r.kind) (sortedSpans registers r.slaveId r.kind),
      b.1 ≤ a.toNat ∧ a.toNat + r.format.width ≤ b.2 := exists_batch hmem
  obtain ⟨b, hb, h1, h2⟩ := hbatch
  exact not_ends_of_stuck (sorted_sortSpans _) hmem hst' h2 h1
    (h _ (mem_groupReadableSpans.2 ⟨r, hr, by rw [hspan]; rfl, rfl⟩) b hb)

theorem exists_plan_of_relieved (h : ∀ r ∈ registers, ∀ a, r.address = .fixed a → r.access ≠ .writeOnly →
      readLimit (functionCode r.kind) < r.format.width → Relieved registers r a) :
    ∃ ops, buildReadOperations registers readRanges = some ops := by
  refine exists_plan (fun g hg s hs hst => ?_)
  obtain ⟨r, hr, hread, rfl⟩ := mem_groupReadableSpans.1 hg
  obtain ⟨q, hq, hslave, hkind, hspan⟩ := mem_spansFor.1 hs
  obtain ⟨a, ha, hacc, rfl⟩ := readableSpan_false.1 hspan
  dsimp only at hst
  rw [← hslave, ← hkind] at hst
  obtain ⟨hwide, hno⟩ := stuck_iff.1 hst
  exact hno (h q hq a ha hacc hwide)

theorem exists_plan_iff : (∃ ops, buildReadOperations registers readRanges = some ops) ↔ PlanEnds registers readRanges :=
  ⟨fun ⟨_, h⟩ => planEnds_of_some h,
    fun h => exists_plan_of_relieved (fun _ hr _ ha hacc hwide => relieved_of_ends h hr ha hacc hwide)⟩

/-- **The plan is made** exactly when every polled register wider than the request limit of its table has another polled
register of its slave and table starting strictly inside its first `limit` addresses. -/
theorem plan_ends_iff (registers : List Register) (readRanges : ReadRanges) :
    ((∃ ops, buildReadOperations registers readRanges = some ops) ↔ PlanEnds registers readRanges) ∧
    (PlanEnds registers readRanges ↔ ∀ r ∈ registers, ∀ a, r.address = .fixed a → r.access ≠ .writeOnly →
      readLimit (functionCode r.kind) < r.format.width → Relieved registers r a) :=
  ⟨exists_plan_iff, fun h _ hr _ ha hacc hwide => relieved_of_ends h hr ha hacc hwide,
    fun h => exists_plan_iff.1 (exists_plan_of_relieved h)⟩

/-- A string of 126 words in the holding registers: the cut at 125 is put back to 0 again and again. -/
theorem wide_string_is_never_planned : cutPoint [(0, 126)] 125 0 126 = 0 ∧
      buildReadOperations [holdingRegister 0 (.ascii .left 126)] ⟨[], [], [], []⟩ = none ∧
      ¬ PlanEnds [holdingRegister 0 (.ascii .left 126)] ⟨[], [], [], []⟩ := by
  refine ⟨by decide, by decide, fun h => ?_⟩
  have hst : Stuck 125 [(0, 126)] (0, 126) := ⟨by decide, by decide⟩
  exact not_ends_of_stuck (by simp) (by simp) hst (Nat.le_refl _) (Nat.le_refl _)
    (h ⟨1, .readHoldingRegisters, .holdingRegister, [(0, 126)]⟩
      (mem_groupReadableSpans.2 ⟨_, List.mem_singleton_self _, rfl, rfl⟩) (0, 126) (by decide))

end Ferrowl.Modbus
