import Ferrowl.RunTrace
import Ferrowl.PlannerBatches
import Ferrowl.Tab
/-!
# TabStore — what a tab polls can be stored

The operation list of a tab is planned from its registers and read ranges, the cells of its memory are declared by other code at
other moments: a register's when it is added or edited, a read range's gap cells when the module is built or the ranges change.
-/
namespace Ferrowl.Modbus

open List Option

open Store (Range CellKind Memory Word WriteSource seg setValues)
open Codec (Kind Register)

/-- The store of a module has a cell under the key at the address. -/
def ModbusModule.Declared (m : ModbusModule) (key : SlaveKey) (a : Nat) : Prop :=
  (m.memory.cellAt key a).isSome = true

/-- The same registers and read ranges, no fewer cells, no shorter log. -/
structure ModbusModule.Extends (m m' : ModbusModule) : Prop where
  registers : m'.registers = m.registers
  lua : m'.luaRegisters = m.luaRegisters
  readRanges : m'.readRanges = m.readRanges
  declared : ∀ k a, m.Declared k a → m'.Declared k a
  log : m'.log = [] → m.log = []

namespace ModbusModule

theorem Extends.refl (m : ModbusModule) : m.Extends m := ⟨rfl, rfl, rfl, fun _ _ h => h, id⟩

variable {m : ModbusModule}

theorem Extends.trans {m' m'' : ModbusModule} (h : m.Extends m') (h' : m'.Extends m'') : m.Extends m'' where
  registers := h'.registers.trans h.registers
  lua := h'.lua.trans h.lua
  readRanges := h'.readRanges.trans h.readRanges
  declared k a hd := h'.declared k a (h.declared k a hd)
  log hl := h.log (h'.log hl)

theorem declare_memory (m : ModbusModule) (key : SlaveKey) (kind : CellKind) (range : Range) (subject : Subject) :
    (m.declare key kind range subject).memory = (m.memory.addRanges key kind [range]).2 := by
  unfold declare
  split <;> rename_i h <;> rw [h]

theorem declare_extends (m : ModbusModule) (key : SlaveKey) (kind : CellKind) (range : Range) (subject : Subject) :
    m.Extends (m.declare key kind range subject) where
  registers := by unfold declare; split <;> rfl
  lua := by unfold declare; split <;> rfl
  readRanges := by unfold declare; split <;> rfl
  declared k a h := by
    rw [Declared, declare_memory]
    exact Memory.declared_addRange_mono h
  log h := by
    unfold declare at h
    split at h
    · exact h
    · exact absurd h (by simp)

theorem declared_of_log_nil {key : SlaveKey} {kind : CellKind} {range : Range} {subject : Subject}
    (h : (m.declare key kind range subject).log = []) {a : Nat} (ha : a ∈ range) :
    (m.declare key kind range subject).Declared key a := by
  unfold declare at h ⊢
  split at h
  · rename_i memory hadd
    have hok := ((m.memory.cellAt_addRange key kind range key a).2 (congrArg Prod.fst hadd)).2 rfl ha
    rw [hadd] at hok
    exact hok
  · exact absurd h (by simp)

theorem declare_foldl : ∀ (gaps : List (SlaveKey × CellKind × Range)) (m : ModbusModule),
    m.Extends (gaps.foldl (fun m gap => m.declare gap.1 gap.2.1 gap.2.2 (.gapCell gap.1)) m) ∧
      ((gaps.foldl (fun m gap => m.declare gap.1 gap.2.1 gap.2.2 (.gapCell gap.1)) m).log = [] → ∀ gap ∈ gaps, ∀ a ∈ gap.2.2,
          (gaps.foldl (fun m gap => m.declare gap.1 gap.2.1 gap.2.2 (.gapCell gap.1)) m).Declared gap.1 a)
  | [], m => ⟨Extends.refl m, fun _ _ h => nomatch h⟩
  | g :: gaps, m => by
    obtain ⟨hext, hdecl⟩ := declare_foldl gaps (m.declare g.1 g.2.1 g.2.2 (.gapCell g.1))
    refine ⟨(m.declare_extends _ _ _ _).trans hext, fun hlog gap hgap a ha => ?_⟩
    rcases mem_cons.1 hgap with rfl | hgap
    · exact hext.declared _ _ (declared_of_log_nil (hext.log hlog) ha)
    · exact hdecl hlog gap hgap a ha

/-! ## Registers and read ranges with cells -/

def CellsDeclared (m : ModbusModule) : Prop :=
  ∀ e ∈ m.registers, ∀ s ∈ readableSpan true e.register, ∀ x, s.Has x →
    m.Declared ⟨e.register.slaveId, e.register.kind⟩ x

/-- Every address of the read ranges of a register's table has a cell for the register's slave. -/
def RangesDeclared (m : ModbusModule) (r : Register) : Prop :=
  ∀ range ∈ m.readRanges.rangesFor r.kind, ∀ x ∈ range, m.Declared ⟨r.slaveId, r.kind⟩ x

structure Backed (m : ModbusModule) : Prop where
  cells : m.CellsDeclared
  ranges : ∀ e ∈ m.registers, (readableSpan false e.register).isSome → m.RangesDeclared e.register

theorem readableSpan_true {r : Register} {s : Span} (h : readableSpan false r = some s) : readableSpan true r = some s := by
  unfold readableSpan at h ⊢
  split at h
  · split at h
    · cases h
    · exact h
  · cases h

theorem Backed.operations (hb : m.Backed) {ops : List Operation}
    (hops : buildReadOperations (m.registers.map (·.register)) m.readRanges = some ops) {op : Operation} (hop : op ∈ ops) :
    op.range.start < op.range.stop ∧ ∀ x ∈ op.range, m.Declared (SlaveKey.fromSlaveFn op.slaveId op.fnCode) x := by
  obtain ⟨r, hr, hread, hslave, hfc, hne, haddr⟩ := mem_operation hops hop
  obtain ⟨e, he, rfl⟩ := mem_map.1 hr
  refine ⟨hne, fun x hx => ?_⟩
  rw [hslave, hfc, fromSlaveFn_functionCode]
  rcases haddr x hx with ⟨q, hq, hqs, hqk, s, hs, hsx⟩ | ⟨range, hrange, hxr⟩
  · obtain ⟨f, hf, rfl⟩ := mem_map.1 hq
    rw [← hqs, ← hqk]
    exact hb.cells f hf s (readableSpan_true hs) x hsx
  · exact hb.ranges e he hread range hrange x hxr

theorem Backed.of_entries {m' : ModbusModule} (hb : m.Backed)
    (hranges : m'.readRanges = m.readRanges) (hdecl : ∀ k a, m.Declared k a → m'.Declared k a)
    (hentries : ∀ e ∈ m'.registers, e ∈ m.registers ∨
      (∀ s ∈ readableSpan true e.register, ∀ x, s.Has x → m'.Declared ⟨e.register.slaveId, e.register.kind⟩ x) ∧
        ((readableSpan false e.register).isSome → m'.RangesDeclared e.register)) : m'.Backed where
  cells e he s hs x hx := by
    rcases hentries e he with hold | hnew
    · exact hdecl _ _ (hb.cells e hold s hs x hx)
    · exact hnew.1 s hs x hx
  ranges e he hread := by
    rcases hentries e he with hold | hnew
    · intro range hrange x hx
      rw [hranges] at hrange
      exact hdecl _ _ (hb.ranges e hold hread range hrange x hx)
    · exact hnew.2 hread

theorem backed_declareGaps (hcells : m.CellsDeclared) (hlog : m.declareGaps.log = []) : m.declareGaps.Backed := by
  obtain ⟨hext, hgaps⟩ := declare_foldl (explicitReadCoverage (m.registers.map (·.register)) m.readRanges) m
  have hcells' : m.declareGaps.CellsDeclared := by
    intro e he s hs x hx
    rw [show m.declareGaps.registers = m.registers from hext.registers] at he
    exact hext.declared _ _ (hcells e he s hs x hx)
  refine ⟨hcells', fun e he hread range hrange x hx => ?_⟩
  rw [show m.declareGaps.registers = m.registers from hext.registers] at he
  rw [show m.declareGaps.readRanges = m.readRanges from hext.readRanges] at hrange
  have hread' : (readableSpan true e.register).isSome := by
    obtain ⟨s, hs⟩ := isSome_iff_exists.1 hread
    rw [readableSpan_true hs]
    rfl
  rcases mem_explicitReadCoverage (mem_map_of_mem he) hread' hrange hx with
    ⟨gap, hgap, hkey, hxg⟩ | ⟨q, hq, hqs, hqk, s, hs, hsx⟩
  · rw [← hkey]
    exact hgaps hlog gap hgap x hxg
  · obtain ⟨f, hf, rfl⟩ := mem_map.1 hq
    rw [← hqs, ← hqk]
    exact hext.declared _ _ (hcells f hf s hs x hsx)

theorem declareGaps_extends (m : ModbusModule) : m.Extends m.declareGaps := (declare_foldl _ m).1

theorem Extends.cells {m' : ModbusModule} (h : m.Extends m') (hc : m.CellsDeclared) : m'.CellsDeclared := by
  intro e he s hs x hx
  rw [h.registers] at he
  exact h.declared _ _ (hc e he s hs x hx)

theorem Extends.backed {m' : ModbusModule} (h : m.Extends m') (hb : m.Backed) : m'.Backed :=
  hb.of_entries h.readRanges h.declared (fun _ he => Or.inl (h.registers ▸ he))

/-! ## Construction -/

theorem registerMemBinding_of_span {r : Register} {s : Span} (h : readableSpan true r = some s) :
    ∃ range, registerMemBinding r = some (memKind r.kind, ⟨r.slaveId, r.kind⟩, range) ∧ ∀ x, s.Has x → x ∈ range := by
  obtain ⟨a, ha, rfl⟩ := readableSpan_eq h
  refine ⟨Range.new a.toNat r.format.width, by unfold registerMemBinding; rw [ha], fun x hx => ?_⟩
  rw [Range.mem_def, Range.new_start, Range.new_stop]
  exact hx

theorem memRange_of_span {d : RegisterDef} {s : Span} (h : readableSpan true d.register = some s) :
    ∃ range, d.memRange = some range ∧ ∀ x, s.Has x → x ∈ range := by
  obtain ⟨a, ha, rfl⟩ := readableSpan_eq h
  refine ⟨Range.new a.toNat d.format.width, ?_, fun x hx => ?_⟩
  · unfold RegisterDef.memRange
    rw [show addressOf d.isVirtual d.address = .fixed a from ha]
  · rw [Range.mem_def, Range.new_start, Range.new_stop]
    exact hx

section
variable (encode : Register → String → Option (List Word)) (display : Scalar → String)

theorem writeUnchecked_extends (m : ModbusModule) (key : SlaveKey) (range : Range) (values : List Word) :
    m.Extends { m with memory := (m.memory.writeUnchecked key range values).2 } where
  registers := rfl
  lua := rfl
  readRanges := rfl
  declared k a h := by
    show ((m.memory.writeUnchecked key range values).2.cellAt k a).isSome = true
    rw [Memory.declared_writeUnchecked]
    exact h
  log := id

theorem addDefinition_spec (m : ModbusModule) (d : String × RegisterDef) :
    Extends { m with registers := m.registers ++ [⟨d.1, d.2.description, d.2.register, d.2.values⟩] }
        (m.addDefinition encode display d) ∧
      ((m.addDefinition encode display d).log = [] → ∀ s ∈ readableSpan true d.2.register, ∀ x, s.Has x →
        (m.addDefinition encode display d).Declared ⟨d.2.slaveId, d.2.kind⟩ x) := by
  unfold addDefinition
  simp only
  generalize ({ m with registers := m.registers ++ [⟨d.1, d.2.description, d.2.register, d.2.values⟩] } : ModbusModule) = m₁
  cases hrange : d.2.memRange with
  | none =>
    refine ⟨Extends.refl m₁, fun _ s hs => ?_⟩
    obtain ⟨range, h, -⟩ := memRange_of_span hs
    rw [hrange] at h
    cases h
  | some range =>
    simp only
    have hdecl := m₁.declare_extends ⟨d.2.slaveId, d.2.kind⟩ (memKind d.2.kind) range (.register d.1)
    have hspan : (m₁.declare ⟨d.2.slaveId, d.2.kind⟩ (memKind d.2.kind) range (.register d.1)).log = [] →
        ∀ s ∈ readableSpan true d.2.register, ∀ x, s.Has x →
          (m₁.declare ⟨d.2.slaveId, d.2.kind⟩ (memKind d.2.kind) range (.register d.1)).Declared
            ⟨d.2.slaveId, d.2.kind⟩ x := by
      intro hlog s hs x hx
      obtain ⟨range', h, hin⟩ := memRange_of_span hs
      cases hrange.symm.trans h
      exact declared_of_log_nil hlog (hin x hx)
    split
    · exact ⟨hdecl, hspan⟩
    -- the default value only writes into cells that exist
    have hwrite := writeUnchecked_extends
      (m₁.declare ⟨d.2.slaveId, d.2.kind⟩ (memKind d.2.kind) range (.register d.1)) ⟨d.2.slaveId, d.2.kind⟩
    exact ⟨hdecl.trans (hwrite _ _), fun hlog s hs x hx => (hwrite _ _).declared _ _ (hspan hlog s hs x hx)⟩

theorem registers_foldl_addDefinition : ∀ (ds : List (String × RegisterDef)) (m : ModbusModule),
    (ds.foldl (addDefinition encode display) m).registers =
      m.registers ++ ds.map (fun d => ⟨d.1, d.2.description, d.2.register, d.2.values⟩)
  | [], m => by simp
  | d :: ds, m => by
    rw [foldl_cons, registers_foldl_addDefinition ds, (addDefinition_spec encode display m d).1.registers]
    simp

theorem addDefinition_cells {m : ModbusModule} {d : String × RegisterDef} (hcells : m.log = [] → m.CellsDeclared)
    (hlog : (m.addDefinition encode display d).log = []) : (m.addDefinition encode display d).CellsDeclared := by
  obtain ⟨hext, hspan⟩ := addDefinition_spec encode display m d
  intro e he s hs x hx
  rw [hext.registers] at he
  rcases mem_append.1 he with he | he
  · exact hext.declared _ _ (hcells (hext.log hlog) e he s hs x hx)
  · obtain rfl := mem_singleton.1 he
    exact hspan hlog s hs x hx

theorem foldl_addDefinition_cells : ∀ (ds : List (String × RegisterDef)) {m : ModbusModule},
    (m.log = [] → m.CellsDeclared) → (ds.foldl (addDefinition encode display) m).log = [] →
      (ds.foldl (addDefinition encode display) m).CellsDeclared
  | [], _, hcells, hlog => hcells hlog
  | _ :: ds, _, hcells, hlog =>
    foldl_addDefinition_cells ds (fun h => addDefinition_cells encode display hcells h) hlog

/-- The operation list is the plan of the module's registers and read ranges. -/
def Planned (m : ModbusModule) : Prop :=
  buildReadOperations (m.registers.map (·.register)) m.readRanges = some m.operations

theorem rebuildOperations_some {m m' : ModbusModule} (h : m.rebuildOperations = some m') : m'.Planned ∧ m.Extends m' := by
  obtain ⟨ops, hops, rfl⟩ := map_eq_some_iff.1 h
  exact ⟨hops, rfl, rfl, rfl, fun _ _ h => h, id⟩

theorem backed_new {device : DeviceConfig} {m : ModbusModule} (h : new encode display device = some m)
    (hlog : m.log = []) : m.Backed ∧ m.Planned := by
  unfold new at h
  obtain ⟨m₁, hm₁, rfl⟩ := map_eq_some_iff.1 h
  obtain ⟨hplan, hext⟩ := rebuildOperations_some hm₁
  generalize hm₀ : device.definitions.toList.foldl (addDefinition encode display)
    ⟨[], ∅, [], Memory.empty SlaveKey, [], device.readRanges⟩ = m₀ at hext
  have hgaps : m₀.declareGaps.log = [] := hext.log hlog
  have hcells : m₀.CellsDeclared := by
    rw [← hm₀]
    refine foldl_addDefinition_cells encode display _ (fun _ e he => nomatch he) ?_
    rw [hm₀]
    exact m₀.declareGaps_extends.log hgaps
  -- the Lua map and the write tap are no part of the cells
  obtain ⟨hc, hr⟩ := hext.backed (backed_declareGaps hcells hgaps)
  exact ⟨⟨hc, hr⟩, hplan⟩

end

end ModbusModule

/-! ## Runs of a tab -/

namespace Tab

open ModbusModule

/-- Without a logged rejection, every register and polled read range has cells and the operation list is theirs. -/
def Stored (t : Tab) : Prop := t.modbusModule.log = [] → t.modbusModule.Backed ∧ t.modbusModule.Planned

/-- A polled register enters the register list only where the read ranges of its table have cells for its slave. -/
def Covered (t : Tab) : Action → Prop
  | .add edited _ => (readableSpan false edited.register).isSome → t.modbusModule.RangesDeclared edited.register
  | .edit edited _ _ _ => (readableSpan false edited.register).isSome → t.modbusModule.RangesDeclared edited.register
  | _ => True

theorem declareRegister_spec (m : ModbusModule) (name : String) (r : Register) :
    m.Extends (declareRegister m name r) ∧ ((declareRegister m name r).log = [] →
      ∀ s ∈ readableSpan true r, ∀ x, s.Has x → (declareRegister m name r).Declared ⟨r.slaveId, r.kind⟩ x) := by
  unfold declareRegister
  cases hbind : registerMemBinding r with
  | none =>
    refine ⟨Extends.refl m, fun _ s hs => ?_⟩
    obtain ⟨range, h, -⟩ := registerMemBinding_of_span hs
    rw [hbind] at h
    cases h
  | some b =>
    obtain ⟨kind, key, range⟩ := b
    refine ⟨m.declare_extends _ _ _ _, fun hlog s hs x hx => ?_⟩
    obtain ⟨range', h, hin⟩ := registerMemBinding_of_span hs
    cases hbind.symm.trans h
    exact declared_of_log_nil hlog (hin x hx)

theorem stored_declareRegister {t : Tab} {m₁ m' : ModbusModule} {name : String} {r : Register} (hst : t.Stored)
    (hcov : (readableSpan false r).isSome → t.modbusModule.RangesDeclared r)
    (h : (declareRegister m₁ name r).rebuildOperations = some m') (hlog' : m'.log = [])
    (hlog : m₁.log = t.modbusModule.log) (hmem : m₁.memory = t.modbusModule.memory)
    (hranges : m₁.readRanges = t.modbusModule.readRanges)
    (hentries : ∀ e ∈ m₁.registers, e ∈ t.modbusModule.registers ∨ e.register = r) : m'.Backed ∧ m'.Planned := by
  obtain ⟨hplan, hext⟩ := rebuildOperations_some h
  obtain ⟨hdecl, hspan⟩ := declareRegister_spec m₁ name r
  have hl : (declareRegister m₁ name r).log = [] := hext.log hlog'
  obtain ⟨hb, -⟩ := hst (hlog ▸ hdecl.log hl)
  have hold : ∀ k a, t.modbusModule.Declared k a → (declareRegister m₁ name r).Declared k a :=
    fun k a h => hdecl.declared k a (by rw [Declared, hmem]; exact h)
  refine ⟨hext.backed (hb.of_entries (hdecl.readRanges.trans hranges) hold (fun e he => ?_)), hplan⟩
  rw [hdecl.registers] at he
  refine (hentries e he).imp id (fun her => ?_)
  rw [her]
  refine ⟨hspan hl, fun hread range hrange x hx => ?_⟩
  rw [hdecl.readRanges, hranges] at hrange
  exact hold _ _ (hcov hread range hrange x hx)

theorem Revalued.stored {t t' : Tab} (h : t.Revalued t') (hst : t.Stored) : t'.Stored := by
  obtain ⟨memory, rfl, hsome⟩ := h
  intro hlog
  obtain ⟨hb, hplan⟩ := hst hlog
  have hext : t.modbusModule.Extends { t.modbusModule with memory := memory } :=
    ⟨rfl, rfl, rfl, fun k a h => by rw [Declared, hsome]; exact h, id⟩
  exact ⟨hext.backed hb, hplan⟩

section
variable {encode : Register → String → Option (List Word)} {display : Scalar → String}

theorem stored_addRow {t t' : Tab} {edited : EditedRegister} (hst : t.Stored)
    (hcov : (readableSpan false edited.register).isSome → t.modbusModule.RangesDeclared edited.register)
    (h : t.addRow edited = some t') : t'.Stored := by
  obtain ⟨m', hm', rfl⟩ := map_eq_some_iff.1 h
  intro hlog
  refine stored_declareRegister hst hcov hm' hlog rfl rfl rfl (fun e he => ?_)
  refine (mem_append.1 he).imp id (fun he => ?_)
  rw [mem_singleton.1 he]

theorem stored_editRow {t t' : Tab} {edited : EditedRegister} {idx : Nat} {originalName : String} (hst : t.Stored)
    (hcov : (readableSpan false edited.register).isSome → t.modbusModule.RangesDeclared edited.register)
    (h : t.editRow edited idx originalName = some t') : t'.Stored := by
  unfold editRow at h
  split at h
  · obtain ⟨m', hm', rfl⟩ := map_eq_some_iff.1 h
    obtain ⟨hplan, hext⟩ := rebuildOperations_some hm'
    exact fun hlog => ⟨hext.backed (hst (hext.log hlog)).1, hplan⟩
  obtain ⟨m', hm', rfl⟩ := map_eq_some_iff.1 h
  intro hlog
  unfold updateRegister at hm'
  split at hm'
  · exact stored_declareRegister hst hcov hm' hlog rfl rfl rfl (fun _ he => Or.inl he)
  refine stored_declareRegister hst hcov hm' hlog rfl rfl rfl (fun e he => ?_)
  rcases mem_or_eq_of_mem_set he with he | rfl
  · exact Or.inl he
  · exact Or.inr rfl

theorem stored_delete {t t' : Tab} {name : String} (hst : t.Stored) (h : t.deleteRegisterByName name = some t') : t'.Stored := by
  obtain ⟨m', hm', rfl⟩ := map_eq_some_iff.1 h
  obtain ⟨hplan, hext⟩ := rebuildOperations_some hm'
  intro hlog
  have hb := (hst (hext.log hlog)).1
  have hdel : (t.modbusModule.removeRegisterByName name).Backed :=
    hb.of_entries rfl (fun _ _ h => h) (fun e he => Or.inl (mem_of_mem_filter he))
  exact ⟨hext.backed hdel, hplan⟩

theorem stored_readRanges {t t' : Tab} {readRanges : ReadRanges} (hst : t.Stored)
    (h : t.applyReadRanges readRanges = some t') : t'.Stored := by
  obtain ⟨m', hm', rfl⟩ := map_eq_some_iff.1 h
  obtain ⟨hplan, hext⟩ := rebuildOperations_some hm'
  intro hlog
  have hgaps := hext.log hlog
  have hlog₀ : t.modbusModule.log = [] :=
    (declareGaps_extends { t.modbusModule with readRanges := readRanges }).log hgaps
  have hcells : CellsDeclared { t.modbusModule with readRanges := readRanges } := (hst hlog₀).1.cells
  exact ⟨hext.backed (backed_declareGaps hcells hgaps), hplan⟩

theorem stored_step {t t' : Tab} {a : Action} (hst : t.Stored) (hcov : t.Covered a)
    (h : t.step encode display a = some t') : t'.Stored := by
  cases a with
  | add edited sent =>
    obtain ⟨t₁, h₁, hrev⟩ := applyAdd_some h
    exact hrev.stored (stored_addRow hst hcov h₁)
  | edit edited idx originalName sent =>
    obtain ⟨t₁, h₁, hrev⟩ := applyEdit_some h
    exact hrev.stored (stored_editRow hst hcov h₁)
  | delete name => exact stored_delete hst h
  | readRanges readRanges => exact stored_readRanges hst h
  | order column =>
    cases h
    cases column <;> exact hst
  | clearOrder | refresh shown s =>
    cases h
    exact hst
  | write key range values =>
    cases h
    exact Revalued.stored ⟨_, rfl, fun k a => Memory.declared_writeUnchecked _ _ _ _ k a⟩ hst

theorem stored_new {role : Role} {device : DeviceConfig} {t : Tab} (h : Tab.new encode display role device = some t) :
    t.Stored := by
  obtain ⟨m, hm, rfl⟩ := map_eq_some_iff.1 h
  exact backed_new encode display hm

end

end Tab

/-! ## Poll answers -/

def pollStore (memory : Memory SlaveKey) (op : Operation) (values : List Word) : Bool × Memory SlaveKey :=
  let res := memory.writeUncheckedFrom WriteSource.poll (SlaveKey.fromSlaveFn op.slaveId op.fnCode) op.range values
  (res.1, res.2.1)

theorem pollStore_eq (memory : Memory SlaveKey) (op : Operation) (values : List Word) :
    pollStore memory op values = memory.writeUnchecked (SlaveKey.fromSlaveFn op.slaveId op.fnCode) op.range values :=
  memory.writeUncheckedFrom_eq WriteSource.poll _ op.range values

theorem pollStore_full {memory : Memory SlaveKey} {op : Operation} (hne : op.range.start < op.range.stop)
    (hdecl : ∀ x ∈ op.range, (memory.cellAt (SlaveKey.fromSlaveFn op.slaveId op.fnCode) x).isSome = true)
    {values : List Word} (hlen : values.length = op.range.length) : (pollStore memory op values).1 = true ∧ ∀ x ∈ op.range,
      (pollStore memory op values).2.valueAt (SlaveKey.fromSlaveFn op.slaveId op.fnCode) x =
        values.getD (x - op.range.start) 0 := by
  rw [pollStore_eq]
  generalize SlaveKey.fromSlaveFn op.slaveId op.fnCode = key at hdecl ⊢
  have hkey := Memory.containsKey_of_declared (hdecl op.range.start ⟨Nat.le_refl _, hne⟩)
  have hok := Memory.writeUnchecked_ok.2 ⟨hlen.symm, hkey, hdecl⟩
  refine ⟨hok, fun x hx => ?_⟩
  obtain ⟨c, hc⟩ := isSome_iff_exists.1 (hdecl x hx)
  rw [Memory.valueAt, Memory.cellAt_writeUnchecked_ok hok, setValues, if_pos ⟨rfl, hx⟩, hc]
  rfl

namespace Tab

/-- **What a tab polls is storable throughout a session** in which polled registers enter covered tables only and no declaration
was rejected. -/
theorem planned_reads_stay_storable (encode : Register → String → Option (List Word)) (display : Scalar → String)
    (role : Role) (device : DeviceConfig) (t₀ t : Tab) (as : List Action) (h₀ : Tab.new encode display role device = some t₀)
    (hrun : Run (fun t a t' => t.Covered a ∧ t.step encode display a = some t') t₀ as t)
    (hlog : t.modbusModule.log = []) : ∀ op ∈ t.modbusModule.operations,
      (∀ x ∈ op.range, (t.modbusModule.memory.cellAt (SlaveKey.fromSlaveFn op.slaveId op.fnCode) x).isSome = true) ∧
      ∀ values : List Word, values.length = op.range.length →
        (pollStore t.modbusModule.memory op values).1 = true ∧ ∀ x ∈ op.range,
          (pollStore t.modbusModule.memory op values).2.valueAt (SlaveKey.fromSlaveFn op.slaveId op.fnCode) x =
            values.getD (x - op.range.start) 0 := by
  have hst : t.Stored :=
    Run.invariant (I := Stored) (fun _ _ _ hst hs => stored_step hst hs.1 hs.2) hrun (stored_new h₀)
  obtain ⟨hb, hplan⟩ := hst hlog
  intro op hop
  obtain ⟨hne, hdecl⟩ := hb.operations hplan hop
  exact ⟨hdecl, fun values hlen => pollStore_full hne hdecl hlen⟩

def plainDef (valueType : ValueType) (address : BitVec 16) : RegisterDef :=
  { blankDef [] "" none with slaveId := 1, address := some address, valueType := valueType }

def bridgedDevice : DeviceConfig where
  definitions := .ofList [("a", plainDef .u16 8)]
  readRanges := ⟨[Range.new 0 10], [], [], []⟩

def addedAs (name : String) (d : RegisterDef) : EditedRegister := ⟨name, "", d.register, none, none, none⟩

def after (device : DeviceConfig) (a : Action) : Option Tab :=
  (Tab.new (fun _ _ => none) (fun _ => "") .client device).bind (·.step (fun _ _ => none) (fun _ => "") a)

/-- The word at 12 enters the table while the range 0 to 9 has its cells. -/
theorem added_word_stays_storable : ∃ t₀ t, Tab.new (fun _ _ => none) (fun _ => "") .client bridgedDevice = some t₀ ∧
      t₀.step (fun _ _ => none) (fun _ => "") (.add (addedAs "b" (plainDef .u16 12)) false) = some t ∧
      t.modbusModule.log = [] ∧ t.modbusModule.operations.length = 2 ∧ ∀ op ∈ t.modbusModule.operations,
        ∀ x ∈ op.range, (t.modbusModule.memory.cellAt (SlaveKey.fromSlaveFn op.slaveId op.fnCode) x).isSome = true := by
  obtain ⟨t, ht⟩ := isSome_iff_exists.1
    (show (after bridgedDevice (.add (addedAs "b" (plainDef .u16 12)) false)).isSome = true by decide)
  have hend : (after bridgedDevice (.add (addedAs "b" (plainDef .u16 12)) false)).map
      (fun t => (t.modbusModule.log, t.modbusModule.operations.length)) = some ([], 2) := by decide
  rw [ht] at hend
  obtain ⟨t₀, h₀, hstep⟩ := bind_eq_some_iff.1 ht
  have hstart : (Tab.new (fun _ _ => none) (fun _ => "") .client bridgedDevice).map (fun t =>
      (t.modbusModule.readRanges.holding, (List.range 10).all (fun x =>
        (t.modbusModule.memory.cellAt ⟨1, .holdingRegister⟩ x).isSome))) = some ([Range.new 0 10], true) := by decide
  rw [h₀] at hstart
  obtain ⟨hlog, hlen⟩ := Prod.ext_iff.1 (Option.some.inj hend)
  obtain ⟨hranges, hcells⟩ := Prod.ext_iff.1 (Option.some.inj hstart)
  have hcov : t₀.Covered (.add (addedAs "b" (plainDef .u16 12)) false) := by
    intro _ range hrange x hx
    have hr : t₀.modbusModule.readRanges.holding = [Range.new 0 10] := hranges
    change range ∈ t₀.modbusModule.readRanges.holding at hrange
    rw [hr, mem_singleton] at hrange
    subst hrange
    exact all_eq_true.1 hcells x (mem_range.2 hx.2)
  exact ⟨t₀, t, h₀, hstep, hlog, hlen, fun op hop =>
    (planned_reads_stay_storable _ _ _ _ t₀ t _ h₀ (Run.nil.snoc ⟨hcov, hstep⟩) hlog op hop).1⟩

/-- **A rejected register is polled all the same**: the two words at 9 start on a gap cell, so they are not declared, while
the window's request grows over them. -/
theorem rejected_register_is_polled : (after bridgedDevice (.add (addedAs "b" (plainDef .u32 9)) false)).map (fun t =>
        (t.modbusModule.operations, t.modbusModule.log, (t.modbusModule.memory.cellAt ⟨1, .holdingRegister⟩ 10).isSome)) =
      some ([⟨1, .readHoldingRegisters, Range.new 8 3⟩], [⟨.register "b", Range.new 9 2⟩], false) := by
  decide

end Tab
end Ferrowl.Modbus
