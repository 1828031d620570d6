import Ferrowl.MonitorStore
import Ferrowl.ReadLog
import Ferrowl.RunTrace
/-!
# MonitorMessages — the message table of a monitor

A refresh of the monitor view (`monitor/view/mod.rs`) shows the records of the selected unit, the latest first.  It keeps the rows
it made, with the unit, the log and the generation they were made for, and puts only the rows of newer records before them.

A log is known by its address.  The texts of what comes from other crates, and of the clock, are parameters; which unit is
selected is given with the refresh.
-/
namespace Ferrowl.Modbus.Monitor

open List

open Store (Word)
open Codec (Kind)

def RecordLog.recentFor (log : RecordLog) (slave : UnitId) (n : Nat) : List MonitorRecord :=
  (log.records slave).ring.drop ((log.records slave).ring.length - n)

/-! ## Rows -/

inductive StatusStyle where
  | success
  | error
  deriving DecidableEq, Repr

structure MessageRow where
  time : String
  status : String
  slave : String
  operation : String
  address : String
  quantity : String
  payload : String
  statusStyle : Option StatusStyle
  deriving DecidableEq, Repr

/-- The two clocks a row is dated by, in nanoseconds; the second counts from the epoch. -/
structure Clocks where
  now : Nat
  wallNow : Nat

/-- How other crates print what a row shows; a timestamp is in milliseconds. -/
structure RowTexts where
  exceptionCode : ExceptionCode → String
  functionCode : FunctionCode → String
  unit : UnitId → String
  timestamp : Nat → String

def formatRecordStatus (texts : RowTexts) : RecordStatus → String
  | .ok => "OK"
  | .unmatched => "Unmatched"
  | .exception code => texts.exceptionCode code

def recordStatusStyle : RecordStatus → Option StatusStyle
  | .ok => some .success
  | .exception _ => some .error
  | .unmatched => none

def hexWord (w : Word) : String :=
  String.ofList ((List.range 4).map fun i => Nat.digitChar (w.toNat / 16 ^ (3 - i) % 16))

def hexWords (words : List Word) : String := "[" ++ " ".intercalate (words.map hexWord) ++ "]"

def formatRecordPayload (record : MonitorRecord) : String :=
  match record.shape with
  | none => ""
  | some shape =>
    if shape.values.isEmpty then ""
    else
      match shape.kind with
      | .coil | .discreteInput => "[" ++ " ".intercalate (shape.values.map fun w => toString w.toNat) ++ "]"
      | .holdingRegister | .inputRegister => hexWords shape.values

def formatRecordAddressQuantity (record : MonitorRecord) : String × String :=
  match record.shape with
  | none => ("", "")
  | some shape =>
    let address := toString shape.address.toNat
    let quantity := toString shape.quantity.toNat
    match shape.writeAddress, shape.writeQuantity with
    | some writeAddress, some writeQuantity =>
      (address ++ "/" ++ toString writeAddress.toNat, quantity ++ "/" ++ toString writeQuantity.toNat)
    | _, _ => (address, quantity)

/-- The time of a row is the wall clock, set back by the age of the record. -/
def messageRow (texts : RowTexts) (unit : UnitId) (record : MonitorRecord) (clocks : Clocks) : MessageRow where
  time := texts.timestamp ((clocks.wallNow - (clocks.now - record.timestamp)) / 1000000)
  status := formatRecordStatus texts record.status
  slave := texts.unit unit
  operation := texts.functionCode record.operation
  address := (formatRecordAddressQuantity record).1
  quantity := (formatRecordAddressQuantity record).2
  payload := formatRecordPayload record
  statusStyle := recordStatusStyle record.status

/-! ## The view -/

/-- The log of the module and the rows of the view, with what they were made from. -/
structure MessageView where
  address : Nat
  log : RecordLog
  rows : List MessageRow
  cachedUnit : Option UnitId
  cachedLog : Option Nat
  cachedGeneration : Nat

inductive MessageEvent where
  | push (slave : UnitId) (record : MonitorRecord)
  | replaceLog (address : Nat)
  | refresh (selected : Option UnitId) (clocks : Clocks)

namespace MessageView

def init (address : Nat) : MessageView := ⟨address, .empty, [], none, none, 0⟩

section
variable (texts : RowTexts)

def rebuilt (v : MessageView) (unit : UnitId) (clocks : Clocks) : List MessageRow :=
  (v.log.recordsFor unit).reverse.map fun record => messageRow texts unit record clocks

def refreshedRows (v : MessageView) (unit : UnitId) (clocks : Clocks) : List MessageRow :=
  let generation := v.log.generationFor unit
  let sameSource := decide (v.cachedUnit = some unit) && decide (v.cachedLog = some v.address)
  if !sameSource || decide (generation < v.cachedGeneration) then v.rebuilt texts unit clocks
  else
    let delta := generation - v.cachedGeneration
    if 0 < delta then
      if recordRingCapacity ≤ delta then v.rebuilt texts unit clocks
      else
        (((v.log.recentFor unit delta).reverse.map fun record => messageRow texts unit record clocks) ++ v.rows).take
          recordRingCapacity
    else v.rows

def refresh (v : MessageView) (selected : Option UnitId) (clocks : Clocks) : MessageView :=
  match selected with
  | none =>
    if v.cachedUnit.isSome then { v with rows := [], cachedUnit := none, cachedLog := none, cachedGeneration := 0 } else v
  | some unit =>
    { v with
      rows := v.refreshedRows texts unit clocks
      cachedUnit := some unit
      cachedLog := some v.address
      cachedGeneration := v.log.generationFor unit }

def step (v : MessageView) : MessageEvent → Option MessageView
  | .push slave record => some { v with log := v.log.push slave record }
  | .replaceLog address => if v.cachedLog = some address then none else some { v with address := address, log := .empty }
  | .refresh selected clocks => some (v.refresh texts selected clocks)

/-- **The rows are those of the records**, made at some time each. -/
def Shows (unit : UnitId) (rows : List MessageRow) (records : List MonitorRecord) : Prop :=
  List.Forall₂ (fun row record => ∃ clocks, row = messageRow texts unit record clocks) rows records

/-- What was pushed to each slave of the log, and what the cached rows were made from: the first of these, as many as were
counted then.  Rows that were cached for another log say nothing. -/
structure Sound (v : MessageView) (pushed : UnitId → List MonitorRecord) : Prop where
  holds : ∀ unit, (v.log.records unit).Holds (pushed unit)
  cached : ∀ unit, v.cachedUnit = some unit → v.cachedLog = some v.address →
    v.cachedGeneration ≤ (pushed unit).length ∧
      Shows texts unit v.rows (((pushed unit).take v.cachedGeneration).reverse.take recordRingCapacity)

variable {texts}

theorem shows_map (unit : UnitId) (records : List MonitorRecord) (clocks : Clocks) :
    Shows texts unit (records.map fun record => messageRow texts unit record clocks) records := by
  rw [Shows, forall₂_map_left_iff, forall₂_same]
  exact fun record _ => ⟨clocks, rfl⟩

variable {v : MessageView} {pushed : UnitId → List MonitorRecord}

theorem Sound.recordsFor (h : v.Sound texts pushed) (unit : UnitId) :
    (v.log.recordsFor unit).reverse = (pushed unit).reverse.take recordRingCapacity := by
  rw [RecordLog.recordsFor, (h.holds unit).1, rtake_eq_reverse_take_reverse, reverse_reverse]

theorem Sound.shows_rebuilt (h : v.Sound texts pushed) (unit : UnitId) (clocks : Clocks) :
    Shows texts unit (v.rebuilt texts unit clocks) ((pushed unit).reverse.take recordRingCapacity) := by
  rw [← h.recordsFor]
  exact shows_map unit _ clocks

theorem Sound.recentFor (h : v.Sound texts pushed) (unit : UnitId) {generation : Nat} (hle : generation ≤ (pushed unit).length)
    (hlt : (pushed unit).length - generation < recordRingCapacity) :
    v.log.recentFor unit ((pushed unit).length - generation) = (pushed unit).drop generation := by
  rw [RecordLog.recentFor, (h.holds unit).1, ← List.rtake, ReadLog.rtake_rtake, Nat.min_eq_right hlt.le,
    ReadLog.drop_eq_rtake hle]

theorem take_append_take {α : Type} (n : Nat) (a b : List α) : (a ++ b.take n).take n = (a ++ b).take n := by
  rw [take_append, take_append, take_take, Nat.min_eq_left (Nat.sub_le _ _)]

theorem Sound.shows_refreshed (h : v.Sound texts pushed) (unit : UnitId) (clocks : Clocks) :
    Shows texts unit (v.refreshedRows texts unit clocks) ((pushed unit).reverse.take recordRingCapacity) := by
  have hgen : v.log.generationFor unit = (pushed unit).length := (h.holds unit).2
  unfold refreshedRows
  simp only [hgen]
  split
  · exact h.shows_rebuilt unit clocks
  rename_i hsame
  simp only [Bool.or_eq_true, Bool.not_eq_true', not_or, Bool.not_eq_false, Bool.and_eq_true, decide_eq_true_eq] at hsame
  obtain ⟨hle, hrows⟩ := h.cached unit hsame.1.1 hsame.1.2
  -- what is new comes before what was there
  have hsplit : (pushed unit).reverse = ((pushed unit).drop v.cachedGeneration).reverse ++
      ((pushed unit).take v.cachedGeneration).reverse := by
    rw [← reverse_append, take_append_drop]
  split
  · split
    · exact h.shows_rebuilt unit clocks
    rename_i hfits
    rw [h.recentFor unit hle (Nat.lt_of_not_le hfits), hsplit,
      ← take_append_take _ _ ((pushed unit).take v.cachedGeneration).reverse]
    exact forall₂_take _ (rel_append (shows_map unit _ clocks) hrows)
  · rename_i hnew
    have hall : (pushed unit).take v.cachedGeneration = pushed unit := take_of_length_le (by omega)
    rwa [hall] at hrows

theorem sound_init (address : Nat) : (init address).Sound texts fun _ => [] :=
  ⟨fun _ => ⟨rfl, rfl⟩, nofun⟩

theorem Sound.push (h : v.Sound texts pushed) (slave : UnitId) (record : MonitorRecord) :
    Sound texts { v with log := v.log.push slave record }
      (Function.update pushed slave (pushed slave ++ [record])) := by
  refine ⟨fun unit => ?_, fun unit hunit hlog => ?_⟩
  · by_cases hu : unit = slave
    · subst hu
      rw [RecordLog.records_push_self, Function.update_self]
      exact (h.holds unit).push record
    · rw [RecordLog.records_push_of_ne _ hu, Function.update_of_ne hu]
      exact h.holds unit
  obtain ⟨hle, hrows⟩ := h.cached unit hunit hlog
  by_cases hu : unit = slave
  · subst hu
    rw [Function.update_self, length_append, take_append_of_le_length hle]
    exact ⟨Nat.le_add_right_of_le hle, hrows⟩
  · rw [Function.update_of_ne hu]
    exact ⟨hle, hrows⟩

theorem Sound.refresh (h : v.Sound texts pushed) (selected : Option UnitId) (clocks : Clocks) :
    (v.refresh texts selected clocks).Sound texts pushed := by
  cases selected with
  | none =>
    simp only [MessageView.refresh]
    split
    · exact ⟨h.holds, nofun⟩
    · exact h
  | some unit =>
    refine ⟨h.holds, ?_⟩
    rintro _ ⟨rfl⟩ -
    have hgen : v.log.generationFor unit = (pushed unit).length := (h.holds unit).2
    simp only [MessageView.refresh, hgen, take_length]
    exact ⟨Nat.le_refl _, h.shows_refreshed unit clocks⟩

theorem Sound.step {u : MessageView} {e : MessageEvent} (h : v.Sound texts pushed)
    (hs : v.step texts e = some u) : ∃ pushed', u.Sound texts pushed' := by
  cases e with
  | push slave record =>
    cases hs
    exact ⟨_, h.push slave record⟩
  | replaceLog address =>
    simp only [MessageView.step] at hs
    split at hs
    · cases hs
    · rename_i hne
      cases hs
      exact ⟨fun _ => [], fun _ => ⟨rfl, rfl⟩, fun unit _ hlog => absurd hlog hne⟩
  | refresh selected clocks =>
    cases hs
    exact ⟨pushed, h.refresh selected clocks⟩

variable (texts)

/-- **The message table equals one made from scratch**: after every refresh with a unit selected its rows are, the latest
first, those of the records of that unit, whatever was pushed, selected, replaced and refreshed before. -/
theorem message_table_rebuilt {address : Nat} {es : List MessageEvent} {unit : UnitId} {clocks : Clocks} {v : MessageView}
    (hrun : Run (fun v e u => v.step texts e = some u) (init address) (es ++ [.refresh (some unit) clocks]) v) :
    Shows texts unit v.rows (v.log.recordsFor unit).reverse := by
  obtain ⟨u, hu, hs⟩ := hrun.of_snoc
  obtain ⟨pushed, hsound⟩ : ∃ pushed, u.Sound texts pushed :=
    hu.invariant (I := fun u => ∃ pushed, u.Sound texts pushed)
      (fun _ _ _ ⟨_, h⟩ hs => h.step hs) ⟨_, sound_init address⟩
  cases hs
  rw [(hsound.refresh (some unit) clocks).recordsFor unit]
  exact hsound.shows_refreshed unit clocks

end

def plainTexts : RowTexts := ⟨fun _ => "Exception", fun _ => "ReadCoils", fun _ => "1", fun _ => "00:00"⟩

def twoRecords : List MessageEvent :=
  [.push 1 ⟨3, .ok, .readCoils, none⟩, .refresh (some 1) ⟨5, 5⟩, .push 1 ⟨7, .unmatched, .readCoils, none⟩]

def lastRefresh : MessageEvent := .refresh (some 1) ⟨9, 9⟩

/-- The row of the second record is put before that of the first. -/
theorem message_table_two_records : ∃ v : MessageView,
    (twoRecords ++ [lastRefresh]).foldlM (step plainTexts) (init 0) = some v ∧ v.rows.length = 2 ∧
      Shows plainTexts 1 v.rows (v.log.recordsFor 1).reverse := by
  obtain ⟨v, hv, hlen⟩ : ∃ v : MessageView, (twoRecords ++ [lastRefresh]).foldlM (step plainTexts) (init 0) = some v ∧
      v.rows.length = 2 := ⟨_, rfl, rfl⟩
  exact ⟨v, hv, hlen, message_table_rebuilt plainTexts (Run.of_foldlM (twoRecords ++ [lastRefresh]) hv)⟩

end MessageView

end Ferrowl.Modbus.Monitor
