import Ferrowl.StoreFlat
import Ferrowl.Codec
import Ferrowl.Device
import Ferrowl.Planner
/-!
# Tab — a Modbus tab and what its user does to the register set

A tab (`module/modbus/view`) keeps its register set four times: the rows of its table, the register list of its module, the
register map the Lua bridges read and the definitions of its device config.  A mutation that rebuilds the operation list yields
`none` where `build_read_operations` does not return.

`encode` is `Register::encode`, `display` the text of a config value.  The values of virtual registers and the contents of log
lines are left out; a rejected declaration is kept in the log by subject and range.
-/
namespace Ferrowl.Modbus

open Store (Range CellType CellKind Memory Word WriteSource)
open Codec (Kind Address Register Resolution)

inductive Subject where
  | register (name : String)
  | gapCell (key : SlaveKey)
  deriving DecidableEq, Repr

structure Rejection where
  subject : Subject
  range : Range
  deriving DecidableEq, Repr

structure RegisterEntry where
  name : String
  description : String
  register : Register
  namedValues : List NamedValue
  deriving DecidableEq, Repr

structure ModbusModule where
  registers : List RegisterEntry
  luaRegisters : Std.HashMap String Register
  operations : List Operation
  memory : Memory SlaveKey
  log : List Rejection
  readRanges : ReadRanges

structure DeviceConfig where
  definitions : Std.TreeMap String RegisterDef
  readRanges : ReadRanges

/-- Cells that back a register of a table: read-write where the table can be written. -/
def memKind (kind : Kind) : CellKind :=
  match kind with
  | .coil | .holdingRegister => CellKind.readWrite (cellTypeOf kind)
  | .discreteInput | .inputRegister => CellKind.read (cellTypeOf kind)

/-- The memory binding of a fixed-address register, `none` for a virtual one. -/
def registerMemBinding (r : Register) : Option (CellKind × SlaveKey × Range) :=
  match r.address with
  | .fixed addr => some (memKind r.kind, ⟨r.slaveId, r.kind⟩, Range.new addr.toNat r.format.width)
  | .virtual => none

namespace ModbusModule

def declare (m : ModbusModule) (key : SlaveKey) (kind : CellKind) (range : Range) (subject : Subject) : ModbusModule :=
  match m.memory.addRanges key kind [range] with
  | (true, memory) => { m with memory := memory }
  | (false, memory) => { m with memory := memory, log := m.log ++ [⟨subject, range⟩] }

def declareGaps (m : ModbusModule) : ModbusModule :=
  (explicitReadCoverage (m.registers.map (·.register)) m.readRanges).foldl
    (fun m gap => m.declare gap.1 gap.2.1 gap.2.2 (.gapCell gap.1)) m

def rebuildOperations (m : ModbusModule) : Option ModbusModule :=
  (buildReadOperations (m.registers.map (·.register)) m.readRanges).map (fun ops => { m with operations := ops })

def setReadRanges (m : ModbusModule) (readRanges : ReadRanges) : Option ModbusModule :=
  (declareGaps { m with readRanges := readRanges }).rebuildOperations

def addRegister (m : ModbusModule) (entry : RegisterEntry) : ModbusModule :=
  { m with
    luaRegisters := m.luaRegisters.insert entry.name entry.register
    registers := m.registers ++ [entry] }

def removeRegisterByName (m : ModbusModule) (name : String) : ModbusModule :=
  { m with
    luaRegisters := m.luaRegisters.erase name
    registers := m.registers.filter (fun e => e.name != name) }

def updateRegister (m : ModbusModule) (idx : Nat) (entry : RegisterEntry) : ModbusModule :=
  match m.registers[idx]? with
  | none => m
  | some slot =>
    { m with
      luaRegisters := (m.luaRegisters.erase slot.name).insert entry.name entry.register
      registers := m.registers.set idx entry }

section
variable (encode : Register → String → Option (List Word)) (display : Scalar → String)

/-- One definition of the construction loop: its entry, its declaration and its default value. -/
def addDefinition (m : ModbusModule) (d : String × RegisterDef) : ModbusModule :=
  let register := d.2.register
  let m := { m with registers := m.registers ++ [⟨d.1, d.2.description, register, d.2.values⟩] }
  match d.2.memRange with
  | none => m
  | some range =>
    let key : SlaveKey := ⟨d.2.slaveId, d.2.kind⟩
    let m := m.declare key (memKind d.2.kind) range (.register d.1)
    match d.2.default.bind (fun v => encode register (display v)) with
    | none => m
    | some raw => { m with memory := (m.memory.writeUnchecked key (Range.new range.start raw.length) raw).2 }

/-- `ModbusModule::new`: every definition, then the gap cells, the operation list and the write tap. -/
def new (device : DeviceConfig) : Option ModbusModule :=
  let start : ModbusModule := ⟨[], ∅, [], Memory.empty SlaveKey, [], device.readRanges⟩
  let m := (device.definitions.toList.foldl (addDefinition encode display) start).declareGaps
  m.rebuildOperations.map (fun m =>
    { m with
      luaRegisters := Std.HashMap.ofList (m.registers.map (fun e => (e.name, e.register)))
      memory := { m.memory with tap := true } })

end

end ModbusModule

/-! ## The view -/

/-- A row of the table; `value` is the unscaled text of the shown value, empty until one was decoded. -/
structure Definition where
  name : String
  description : String
  register : Register
  namedValues : List NamedValue
  value : String
  deriving DecidableEq, Repr

def Definition.ofEntry (e : RegisterEntry) : Definition := ⟨e.name, e.description, e.register, e.namedValues, ""⟩

/-- A re-ordering of the rows.  Column texts and the comparison of `cmp_definitions` are not looked at: sorting by any
column in any direction rearranges the rows. -/
structure RowSort where
  sort : List Definition → List Definition
  perm : ∀ rows, (sort rows).Perm rows

def RowSort.sortBy (le : Definition → Definition → Bool) : RowSort where
  sort rows := rows.insertionSort (fun a b => le a b = true)
  perm rows := List.perm_insertionSort _ rows

inductive Role where
  | client
  | server
  deriving DecidableEq, Repr

inductive ValueWrite where
  | command
  | silent
  deriving DecidableEq, Repr

/-- What a register dialog hands over when it is confirmed. -/
structure EditedRegister where
  name : String
  description : String
  register : Register
  value : Option String
  namedValues : Option (List NamedValue)
  default : Option Scalar
  deriving DecidableEq, Repr

structure Tab where
  modbusModule : ModbusModule
  role : Role
  device : DeviceConfig
  table : List Definition
  sorted : Bool

namespace Tab

def rowsOf (m : ModbusModule) : List Definition := m.registers.map Definition.ofEntry

section
variable (encode : Register → String → Option (List Word)) (display : Scalar → String)

def new (role : Role) (device : DeviceConfig) : Option Tab :=
  (ModbusModule.new encode display device).map (fun m => ⟨m, role, device, rowsOf m, false⟩)

/-- The store write of a value: a command goes past the write tap, a seed does not. -/
def writeValue (memory : Memory SlaveKey) (write : ValueWrite) (key : SlaveKey) (range : Range) (words : List Word) :
    Memory SlaveKey :=
  match write with
  | .command => (memory.writeUncheckedFrom WriteSource.command key range words).2.1
  | .silent => (memory.writeUnchecked key range words).2

/-- Whether a set value goes to the tab's own store: on a server always, on a client when a write-only register's command
was taken. -/
def storesValue (role : Role) (r : Register) (sent : Bool) : Bool :=
  match role with
  | .server => true
  | .client => sent && r.access == .writeOnly

/-- `set_register_value`'s effect on the store; `sent` is whether the client takes the write command. -/
def setRegisterValue (t : Tab) (name value : String) (write : ValueWrite) (sent : Bool) : Tab :=
  match t.table.find? (fun d => d.name == name) with
  | none => t
  | some d =>
    match d.register.address, encode d.register value with
    | .fixed addr, some raw =>
      let memory := t.modbusModule.memory
      let key : SlaveKey := ⟨d.register.slaveId, d.register.kind⟩
      let range := Range.new addr.toNat raw.length
      let merged := d.register.mergeWrite ((memory.readUnchecked key range).getD []) raw
      if storesValue t.role d.register sent then
        { t with modbusModule := { t.modbusModule with memory := writeValue memory write key range merged } }
      else t
    | _, _ => t

def blankDef (values : List NamedValue) (description : String) (default : Option Scalar) : RegisterDef where
  slaveId := 0
  kind := .holdingRegister
  address := none
  isVirtual := false
  access := .readWrite
  valueType := .u16
  endian := .big
  wordOrder := .normal
  resolution := Resolution.default.bits
  bitmask := none
  length := 1
  alignment := .left
  values := values
  update := none
  description := description
  default := default

def declareRegister (m : ModbusModule) (name : String) (r : Register) : ModbusModule :=
  match registerMemBinding r with
  | none => m
  | some (kind, key, range) => m.declare key kind range (.register name)

def addRow (t : Tab) (edited : EditedRegister) : Option Tab :=
  let namedValues := edited.namedValues.getD []
  let d := syncRegisterDef (blankDef namedValues edited.description edited.default) edited.register
  let entry : RegisterEntry := ⟨edited.name, edited.description, edited.register, namedValues⟩
  (declareRegister (t.modbusModule.addRegister entry) edited.name edited.register).rebuildOperations.map (fun m =>
    { t with
      modbusModule := m
      device := { t.device with definitions := t.device.definitions.insert edited.name d }
      table := t.table ++ [Definition.ofEntry entry] })

def applyAdd (t : Tab) (edited : EditedRegister) (sent : Bool) : Option Tab :=
  (t.addRow edited).map (fun t =>
    match edited.value, edited.default with
    | some value, _ => t.setRegisterValue encode edited.name value .command sent
    | none, some v => t.setRegisterValue encode edited.name (display v) .silent sent
    | none, none => t)

/-- The config's definitions after an edit: the definition is synced in place and moved when it was renamed. -/
def editDefinitions (definitions : Std.TreeMap String RegisterDef) (edited : EditedRegister) (originalName : String) :
    Std.TreeMap String RegisterDef :=
  match definitions[originalName]? with
  | none => definitions
  | some d =>
    let d := { syncRegisterDef d edited.register with
      description := edited.description
      values := edited.namedValues.getD d.values
      default := edited.default }
    if edited.name = originalName then definitions.insert originalName d
    else (definitions.erase originalName).insert edited.name d

/-- `apply_edit` up to the value writes: the row at `idx`, the module's entry at the same position and the definition of
the original name are replaced. -/
def editRow (t : Tab) (edited : EditedRegister) (idx : Nat) (originalName : String) : Option Tab :=
  match t.table[idx]? with
  | none => t.modbusModule.rebuildOperations.map (fun m => { t with modbusModule := m })
  | some slot =>
    let entry : RegisterEntry :=
      ⟨edited.name, edited.description, edited.register, edited.namedValues.getD slot.namedValues⟩
    let m := declareRegister (t.modbusModule.updateRegister idx entry) edited.name edited.register
    m.rebuildOperations.map (fun m =>
      { t with
        modbusModule := m
        device := { t.device with definitions := editDefinitions t.device.definitions edited originalName }
        table := t.table.set idx (Definition.ofEntry entry) })

/-- The shown value a server keeps over an edit that leaves the address alone. -/
def preservedValue (t : Tab) (edited : EditedRegister) (idx : Nat) : Option String :=
  match t.table[idx]? with
  | none => none
  | some slot =>
    if t.role = .server ∧ edited.value = none ∧ slot.register.address = edited.register.address ∧ slot.value ≠ ""
    then some slot.value else none

def applyEdit (t : Tab) (edited : EditedRegister) (idx : Nat) (originalName : String) (sent : Bool) : Option Tab :=
  (t.editRow edited idx originalName).map (fun t' =>
    match edited.value, t.preservedValue edited idx with
    | some value, _ => t'.setRegisterValue encode edited.name value .command sent
    | none, some v => t'.setRegisterValue encode edited.name v .silent sent
    | none, none => t')

end

def deleteRegisterByName (t : Tab) (name : String) : Option Tab :=
  (t.modbusModule.removeRegisterByName name).rebuildOperations.map (fun m =>
    { t with
      modbusModule := m
      device := { t.device with definitions := t.device.definitions.erase name }
      table := t.table.filter (fun d => d.name != name) })

def applyReadRanges (t : Tab) (readRanges : ReadRanges) : Option Tab :=
  (t.modbusModule.setReadRanges readRanges).map (fun m =>
    { t with modbusModule := m, device := { t.device with readRanges := readRanges } })

/-- `:order` by a column; an unknown column changes nothing. -/
def applyOrder (t : Tab) (column : Option RowSort) : Tab :=
  match column with
  | none => t
  | some s => { t with sorted := true, table := s.sort t.table }

/-- `:order` without a column: the rows of the module's register list. -/
def clearOrder (t : Tab) : Tab := { t with sorted := false, table := rowsOf t.modbusModule }

/-- The table part of a refresh: values are decoded anew and an ordered table is sorted again. -/
def refresh (t : Tab) (shown : Definition → String) (s : RowSort) : Tab :=
  let rows := t.table.map (fun d => { d with value := shown d })
  { t with table := if t.sorted then s.sort rows else rows }

/-! ## Runs -/

inductive Action where
  | add (edited : EditedRegister) (sent : Bool)
  | edit (edited : EditedRegister) (idx : Nat) (originalName : String) (sent : Bool)
  | delete (name : String)
  | readRanges (readRanges : ReadRanges)
  | order (column : Option RowSort)
  | clearOrder
  | refresh (shown : Definition → String) (s : RowSort)
  | write (key : SlaveKey) (range : Range) (values : List Word)

/-- One action; `write` is any other traffic into the shared memory. -/
def step (encode : Register → String → Option (List Word)) (display : Scalar → String) (t : Tab) :
    Action → Option Tab
  | .add edited sent => t.applyAdd encode display edited sent
  | .edit edited idx originalName sent => t.applyEdit encode edited idx originalName sent
  | .delete name => t.deleteRegisterByName name
  | .readRanges readRanges => t.applyReadRanges readRanges
  | .order column => some (t.applyOrder column)
  | .clearOrder => some t.clearOrder
  | .refresh shown s => some (t.refresh shown s)
  | .write key range values =>
    some { t with modbusModule :=
      { t.modbusModule with memory := (t.modbusModule.memory.writeUnchecked key range values).2 } }

/-! ## What the value writes leave alone -/

def Revalued (t t' : Tab) : Prop :=
  ∃ memory : Memory SlaveKey, t' = { t with modbusModule := { t.modbusModule with memory := memory } } ∧
    ∀ k a, (memory.cellAt k a).isSome = (t.modbusModule.memory.cellAt k a).isSome

theorem Revalued.refl (t : Tab) : t.Revalued t := ⟨t.modbusModule.memory, rfl, fun _ _ => rfl⟩

section
variable {encode : Register → String → Option (List Word)} {display : Scalar → String}

theorem declared_writeValue (memory : Memory SlaveKey) (write : ValueWrite) (key : SlaveKey) (range : Range)
    (words : List Word) (k : SlaveKey) (a : Nat) :
    ((writeValue memory write key range words).cellAt k a).isSome = (memory.cellAt k a).isSome := by
  cases write with
  | command =>
    have h := congrArg Prod.snd (Memory.writeUncheckedFrom_eq memory WriteSource.command key range words)
    simp only at h
    rw [writeValue, h]
    exact Memory.declared_writeUnchecked _ _ _ _ k a
  | silent => exact Memory.declared_writeUnchecked _ _ _ _ k a

theorem revalued_setRegisterValue (t : Tab) (name value : String) (write : ValueWrite) (sent : Bool) :
    t.Revalued (t.setRegisterValue encode name value write sent) := by
  unfold setRegisterValue
  split
  · exact Revalued.refl t
  split
  · simp only
    split
    · exact ⟨_, rfl, fun k a => declared_writeValue _ _ _ _ _ k a⟩
    · exact Revalued.refl t
  · exact Revalued.refl t

theorem applyAdd_some {t t' : Tab} {edited : EditedRegister} {sent : Bool}
    (h : t.applyAdd encode display edited sent = some t') : ∃ t₁, t.addRow edited = some t₁ ∧ t₁.Revalued t' := by
  obtain ⟨t₁, h₁, rfl⟩ := Option.map_eq_some_iff.1 h
  refine ⟨t₁, h₁, ?_⟩
  split
  · exact revalued_setRegisterValue t₁ _ _ _ _
  · exact revalued_setRegisterValue t₁ _ _ _ _
  · exact Revalued.refl t₁

theorem applyEdit_some {t t' : Tab} {edited : EditedRegister} {idx : Nat} {originalName : String} {sent : Bool}
    (h : t.applyEdit encode edited idx originalName sent = some t') :
    ∃ t₁, t.editRow edited idx originalName = some t₁ ∧ t₁.Revalued t' := by
  obtain ⟨t₁, h₁, rfl⟩ := Option.map_eq_some_iff.1 h
  refine ⟨t₁, h₁, ?_⟩
  split
  · exact revalued_setRegisterValue t₁ _ _ _ _
  · exact revalued_setRegisterValue t₁ _ _ _ _
  · exact Revalued.refl t₁

end

end Tab
end Ferrowl.Modbus
