import Mathlib.Data.List.Dedup
import Mathlib.Order.Lex
import Ferrowl.Pdu
import Ferrowl.StoreMemory
/-!
# Planner — batched read operations and gap cells

The planning half of `module/modbus/build.rs`: the readable registers of each slave and table are grouped, grouped into batches
by the explicit read ranges, and each batch is cut so that no request exceeds the protocol limit.  A plan that is never returned
(the cut loop stops advancing when a register is wider than the limit) is `none`.

The explicit ranges are the ones `ReadRanges::ranges_for` parses from the device config.
-/
namespace Ferrowl.Modbus

open Store (Range CellType CellKind)
open Codec (Kind Access Address Register)

abbrev Span := Nat × Nat

structure Operation where
  slaveId : UnitId
  fnCode : FunctionCode
  range : Range
  deriving DecidableEq, Repr

structure ReadRanges where
  holding : List Range
  input : List Range
  coils : List Range
  discrete : List Range
  deriving DecidableEq, Repr

def ReadRanges.rangesFor (rr : ReadRanges) : Kind → List Range
  | .holdingRegister => rr.holding
  | .inputRegister => rr.input
  | .coil => rr.coils
  | .discreteInput => rr.discrete

def functionCode : Kind → FunctionCode
  | .coil => .readCoils
  | .discreteInput => .readDiscreteInputs
  | .holdingRegister => .readHoldingRegisters
  | .inputRegister => .readInputRegisters

def readLimit : FunctionCode → Nat
  | .readCoils | .readDiscreteInputs => 2000
  | _ => 125

def fnCodeKey : FunctionCode → Nat
  | .readCoils => 1
  | .readDiscreteInputs => 2
  | .readHoldingRegisters => 3
  | .readInputRegisters => 4
  | _ => 0

def readableSpan (includeWriteOnly : Bool) (r : Register) : Option Span :=
  match r.address with
  | .fixed addr =>
    if !includeWriteOnly && r.access == .writeOnly then none
    else some (addr.toNat, addr.toNat + r.format.width)
  | .virtual => none

def spansFor (includeWriteOnly : Bool) (registers : List Register) (slave : UnitId) (kind : Kind) : List Span :=
  registers.filterMap (fun r => if r.slaveId = slave ∧ r.kind = kind then readableSpan includeWriteOnly r else none)

structure SpanGroup where
  slaveId : UnitId
  fc : FunctionCode
  kind : Kind
  spans : List Span

def groupKeys (includeWriteOnly : Bool) (registers : List Register) : List (UnitId × Kind) :=
  ((registers.filter (fun r => (readableSpan includeWriteOnly r).isSome)).map
    (fun r => (r.slaveId, r.kind))).dedup.insertionSort
      (fun k l => k.1 < l.1 ∨ (k.1 = l.1 ∧ fnCodeKey (functionCode k.2) ≤ fnCodeKey (functionCode l.2)))

def groupReadableSpans (registers : List Register) (includeWriteOnly : Bool) : List SpanGroup :=
  (groupKeys includeWriteOnly registers).map
    (fun k => ⟨k.1, functionCode k.2, k.2, spansFor includeWriteOnly registers k.1 k.2⟩)

def sortSpans (spans : List Span) : List Span :=
  spans.insertionSort (fun s t => s.1 < t.1 ∨ (s.1 = t.1 ∧ s.2 ≤ t.2))

def mergeFrom (last : Span) : List Span → List Span
  | [] => [last]
  | s :: spans => if s.1 ≤ last.2 then mergeFrom (last.1, max last.2 s.2) spans else last :: mergeFrom s spans

def mergeSpans : List Span → List Span
  | [] => []
  | s :: spans => mergeFrom s spans

def windowOf (windows : List Span) (s : Span) : Option Nat :=
  windows.findIdx? (fun w => decide (s.1 < w.2) && decide (w.1 < s.2))

/-- One span of the grouping loop: the bounds of its window grow over it, or it stays uncovered. -/
def assignSpan (windows : List Span) (st : List (Option Span) × List Span) (s : Span) :
    List (Option Span) × List Span :=
  match windowOf windows s with
  | some i => (st.1.modify i (fun b => let b := b.getD s; some (min b.1 s.1, max b.2 s.2)), st.2)
  | none => (st.1, st.2 ++ [s])

def batchesOf (explicit : List Range) (spans : List Span) : List Span :=
  if explicit.isEmpty then spans
  else
    let windows := mergeSpans (sortSpans (explicit.map (fun r => (r.start, r.stop))))
    let (bounds, uncovered) := spans.foldl (assignSpan windows) (List.replicate windows.length none, [])
    sortSpans (bounds.filterMap id ++ sortSpans uncovered)

/-- Where a batch is cut after `s`: at the limit, or, when the register that starts last before that point reaches over
it, at that register's start. -/
def cutPoint (spans : List Span) (limit s stop : Nat) : Nat :=
  let naive := min (s + limit) stop
  if naive < stop then
    match (spans.takeWhile (fun r => r.1 < naive)).getLast? with
    | some last => if last.2 > naive then last.1 else naive
    | none => naive
  else naive

/-- The cut loop of one batch; `none` when it does not advance any more. -/
def cutBatch (spans : List Span) (limit : Nat) : Nat → Nat → Nat → Option (List Span)
  | 0, _, _ => none
  | fuel + 1, s, stop =>
    if s < stop then
      let e := cutPoint spans limit s stop
      if e ≤ s then none else (cutBatch spans limit fuel e stop).map ((s, e) :: ·)
    else some []

def groupOperations (readRanges : ReadRanges) (g : SpanGroup) : Option (List Operation) :=
  let spans := sortSpans g.spans
  ((batchesOf (readRanges.rangesFor g.kind) spans).mapM (fun b => cutBatch spans (readLimit g.fc) (b.2 - b.1 + 1) b.1 b.2)).map
      (fun cuts => cuts.flatten.map (fun c => ⟨g.slaveId, g.fc, Range.new c.1 (c.2 - c.1)⟩))

def buildReadOperations (registers : List Register) (readRanges : ReadRanges) : Option (List Operation) :=
  ((groupReadableSpans registers false).mapM (groupOperations readRanges)).map List.flatten

/-- The sub-intervals of `[cur, stop)` that the sorted, merged spans leave open. -/
def subtractSpans (cur stop : Nat) : List Span → List Range
  | [] => if cur < stop then [Range.new cur (stop - cur)] else []
  | c :: covered =>
    if c.2 ≤ cur ∨ c.1 ≥ stop then subtractSpans cur stop covered
    else
      let gap := if c.1 > cur then [Range.new cur (c.1 - cur)] else []
      let cur' := max cur c.2
      if cur' ≥ stop then gap else gap ++ subtractSpans cur' stop covered

def cellTypeOf : Kind → CellType
  | .coil | .discreteInput => .coil
  | .holdingRegister | .inputRegister => .register

/-- The gap cells inside the explicit ranges that no register backs, to be declared as `Read`. -/
def explicitReadCoverage (registers : List Register) (readRanges : ReadRanges) :
    List (SlaveKey × CellKind × Range) :=
  (groupReadableSpans registers true).flatMap (fun g =>
    let explicit := readRanges.rangesFor g.kind
    if explicit.isEmpty then []
    else
      let covered := mergeSpans (sortSpans g.spans)
      explicit.flatMap (fun r =>
        (subtractSpans r.start r.stop covered).map
          (fun gap => (⟨g.slaveId, g.kind⟩, CellKind.read (cellTypeOf g.kind), gap))))

end Ferrowl.Modbus
