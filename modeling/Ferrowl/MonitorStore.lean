import Mathlib
import Ferrowl.Pdu
/-!
# MonitorStore — what the passive monitor keeps

`monitor/record.rs` and `monitor/table.rs`: for each slave a ring of the latest records with a count of all pushes, and the table
of observed words.  A slave without a ring is one with an empty ring, and a region without a word is `none` everywhere.
-/
namespace Ferrowl.Modbus.Monitor

open Store (Word)
open Codec (Kind)

inductive RecordStatus where
  | ok
  | unmatched
  | exception (code : ExceptionCode)
  deriving DecidableEq, Repr

structure TableShape where
  kind : Kind
  address : BitVec 16
  quantity : BitVec 16
  writeAddress : Option (BitVec 16)
  writeQuantity : Option (BitVec 16)
  values : List Word
  deriving DecidableEq, Repr

structure MonitorRecord where
  timestamp : Nat
  status : RecordStatus
  operation : FunctionCode
  shape : Option TableShape
  deriving DecidableEq, Repr

def recordRingCapacity : Nat := 200

structure SlaveRing where
  ring : List MonitorRecord
  generation : Nat

structure RecordLog where
  records : UnitId → SlaveRing

def RecordLog.empty : RecordLog := ⟨fun _ => ⟨[], 0⟩⟩

def SlaveRing.push (entry : SlaveRing) (record : MonitorRecord) : SlaveRing where
  ring := (if entry.ring.length = recordRingCapacity then entry.ring.tail else entry.ring) ++ [record]
  generation := entry.generation + 1

def RecordLog.push (log : RecordLog) (slave : UnitId) (record : MonitorRecord) : RecordLog :=
  ⟨Function.update log.records slave ((log.records slave).push record)⟩

@[simp] theorem RecordLog.records_push_self (log : RecordLog) (slave : UnitId) (record : MonitorRecord) :
    (log.push slave record).records slave = (log.records slave).push record := Function.update_self ..

theorem RecordLog.records_push_of_ne (log : RecordLog) {slave other : UnitId} (h : other ≠ slave)
    (record : MonitorRecord) : (log.push slave record).records other = log.records other := Function.update_of_ne h ..

def RecordLog.recordsFor (log : RecordLog) (slave : UnitId) : List MonitorRecord := (log.records slave).ring

def RecordLog.generationFor (log : RecordLog) (slave : UnitId) : Nat := (log.records slave).generation

/-- The ring holds the latest of all records ever pushed, and the generation counts them. -/
def SlaveRing.Holds (entry : SlaveRing) (history : List MonitorRecord) : Prop :=
  entry.ring = history.rtake recordRingCapacity ∧ entry.generation = history.length

theorem rtake_concat_of_full {α : Type} (l : List α) (x : α) {n : Nat} (hn : 0 < n) :
    (if (l.rtake n).length = n then (l.rtake n).tail else l.rtake n) ++ [x] = (l ++ [x]).rtake n := by
  obtain ⟨k, rfl⟩ := Nat.exists_eq_succ_of_ne_zero hn.ne'
  rw [List.rtake_concat_succ]
  congr 1
  unfold List.rtake
  rw [List.length_drop]
  split
  · rw [List.tail_drop]
    congr 1
    omega
  · congr 1
    omega

theorem SlaveRing.Holds.push {entry : SlaveRing} {history : List MonitorRecord} (h : entry.Holds history)
    (record : MonitorRecord) : (entry.push record).Holds (history ++ [record]) := by
  obtain ⟨hring, hgen⟩ := h
  refine ⟨?_, by simp [SlaveRing.push, hgen]⟩
  unfold SlaveRing.push
  rw [hring]
  exact rtake_concat_of_full history record (by decide)

structure ObservedTable where
  values : SlaveKey → Option (BitVec 16 → Option Word)
  seen : UnitId → Bool

def ObservedTable.empty : ObservedTable := ⟨fun _ => none, fun _ => false⟩

/-- The loop of `write_words`; it ends at the first address past the last one. -/
def writeRegion (address : BitVec 16) (region : BitVec 16 → Option Word) : Nat → List Word → BitVec 16 → Option Word
  | _, [] => region
  | offset, word :: words =>
    if address.toNat + offset % 2 ^ 16 < 2 ^ 16 then
      writeRegion address (Function.update region (address + BitVec.ofNat 16 offset) (some word)) (offset + 1) words
    else region

def ObservedTable.writeWords (table : ObservedTable) (key : SlaveKey) (address : BitVec 16) (words : List Word) :
    ObservedTable :=
  { table with
    values := Function.update table.values key
      (some (writeRegion address ((table.values key).getD (fun _ => none)) 0 words)) }

def ObservedTable.markSeen (table : ObservedTable) (slave : UnitId) : ObservedTable :=
  { table with seen := Function.update table.seen slave true }

end Ferrowl.Modbus.Monitor
