import Ferrowl.StoreEffects
import Ferrowl.PlannerEnds
import Ferrowl.TabStore
/-!
# TabDeclarations — construction declares every register

`ModbusModule::new` declares the cells of the definitions one after the other, then the gap cells of the read ranges.  Two
definitions of one slave and table may share addresses, but they declare them with the same kind; a gap cell is declared with
another kind, but at no register's address (`explicitReadCoverage_apart`).
-/
namespace Ferrowl.Modbus

open List Option

open Store (Range CellKind Cell Memory Word FlatMap)
open Codec (Kind Register)

/-- A register of the slave and table has the address among its words. -/
def Occupied (registers : List Register) (key : SlaveKey) (a : Nat) : Prop :=
  ∃ r ∈ registers, r.slaveId = key.slaveId ∧ r.kind = key.kind ∧ ∃ s, readableSpan true r = some s ∧ s.Has a

theorem occupied_append {registers : List Register} {r : Register} {key : SlaveKey} {a : Nat} :
    Occupied (registers ++ [r]) key a ↔ Occupied registers key a ∨
      (r.slaveId = key.slaveId ∧ r.kind = key.kind ∧ ∃ s, readableSpan true r = some s ∧ s.Has a) := by
  unfold Occupied
  constructor
  · rintro ⟨q, hq, h⟩
    rcases mem_append.1 hq with hq | hq
    · exact Or.inl ⟨q, hq, h⟩
    · obtain rfl := mem_singleton.1 hq
      exact Or.inr h
  · rintro (⟨q, hq, h⟩ | h)
    · exact ⟨q, mem_append_left _ hq, h⟩
    · exact ⟨r, mem_append_right _ (mem_singleton_self r), h⟩

namespace ModbusModule

def kindAt (m : ModbusModule) (key : SlaveKey) (a : Nat) : Option CellKind := (m.memory.cellAt key a).map (·.kind)

theorem declareCell_kind {kind : CellKind} {o : Option Cell} (h : ∀ c, o = some c → c.kind = kind) :
    ∃ c, Store.declareCell kind o = some c ∧ c.kind = kind := by
  cases o with
  | none => exact ⟨Cell.zeroed kind, rfl, rfl⟩
  | some c =>
    have hw : ¬ c.Conflicts kind := by
      rw [Cell.Conflicts, h c rfl]
      simp
    obtain ⟨c', hc'⟩ := ne_none_iff_exists'.1 (fun h => hw (Store.widenCell_eq_none.1 h))
    refine ⟨c', hc', ?_⟩
    obtain rfl := Store.widenCell_eq_some hc'
    obtain rfl := h c rfl
    have hmeet : ¬ c.kind.access.Meet c.kind.access := by
      unfold Store.Access.Meet
      cases c.kind.access <;> decide
    rw [Cell.widened, if_neg hmeet]

theorem declare_accepted (m : ModbusModule) (key : SlaveKey) (kind : CellKind) (range : Range) (subject : Subject)
    (h : ∀ a ∈ range, ∀ k, m.kindAt key a = some k → k = kind) : (m.declare key kind range subject).log = m.log ∧ ∀ k a,
      (m.declare key kind range subject).kindAt k a = if k = key ∧ a ∈ range then some kind else m.kindAt k a := by
  have hcell : ∀ a ∈ range, ∃ c, Store.declareCell kind (m.memory.cellAt key a) = some c ∧ c.kind = kind :=
    fun a ha => declareCell_kind (fun c hc => h a ha c.kind (by rw [kindAt, hc]; rfl))
  have hok : (m.memory.addRanges key kind [range]).1 = true := by
    rcases m.memory.addRanges_cases key kind [range] with ⟨hnone, -⟩ | ⟨_, -, hok, -⟩
    · have hd : FlatMap.Declarable kind (m.memory.cellAt key) range := by
        intro a ha
        obtain ⟨c, hc, -⟩ := hcell a (Range.mem_addrs.1 ha)
        rw [hc]
        rfl
      rw [FlatMap.addRanges, foldlM_cons, FlatMap.addRange, if_pos hd] at hnone
      cases hnone
    · exact hok
  refine ⟨?_, fun k a => ?_⟩
  · unfold declare
    split
    · rfl
    · rename_i hadd
      rw [hadd] at hok
      cases hok
  rw [kindAt, declare_memory, ((m.memory.cellAt_addRange key kind range k a).2 hok).1]
  split
  · rename_i hin
    obtain ⟨rfl, ha⟩ := hin
    obtain ⟨c, hc, hk⟩ := hcell a ha
    rw [hc, map_some, hk]
  · rfl

theorem declare_registers (m : ModbusModule) (key : SlaveKey) (kind : CellKind) (range : Range) (subject : Subject) :
    (m.declare key kind range subject).registers = m.registers := (m.declare_extends key kind range subject).registers

theorem kindAt_writeUnchecked (m : ModbusModule) (key : SlaveKey) (range : Range) (values : List Word) (k : SlaveKey)
    (a : Nat) : kindAt { m with memory := (m.memory.writeUnchecked key range values).2 } k a = m.kindAt k a := by
  unfold kindAt
  rw [Memory.cellAt_writeUnchecked]
  split
  · rw [Option.map_map]
    rfl
  · rfl

/-! ## The definitions -/

/-- Nothing was rejected, and the cells are those of the registers with the kind of their table. -/
structure Bare (m : ModbusModule) : Prop where
  log : m.log = []
  backed : ∀ key a, Occupied (m.registers.map (·.register)) key a → m.kindAt key a = some (memKind key.kind)
  free : ∀ key a k, m.kindAt key a = some k → Occupied (m.registers.map (·.register)) key a

theorem bare_start (readRanges : ReadRanges) : Bare ⟨[], ∅, [], Memory.empty SlaveKey, [], readRanges⟩ := by
  refine ⟨rfl, ?_, ?_⟩
  · rintro key a ⟨r, hr, -⟩
    cases hr
  · intro key a k h
    cases h

variable {m : ModbusModule}

theorem Bare.kind (h : m.Bare) {key : SlaveKey} {a : Nat} {k : CellKind}
    (hk : m.kindAt key a = some k) : k = memKind key.kind := by
  have := h.backed key a (h.free key a k hk)
  rw [hk] at this
  exact Option.some.inj this

theorem Bare.of_kinds {m' : ModbusModule} (h : m.Bare) (hlog : m'.log = m.log)
    (hkinds : ∀ key a, m'.kindAt key a = m.kindAt key a)
    (hocc : ∀ key a, Occupied (m'.registers.map (·.register)) key a ↔ Occupied (m.registers.map (·.register)) key a) :
    m'.Bare where
  log := hlog.trans h.log
  backed key a ho := (hkinds key a).trans (h.backed key a ((hocc key a).1 ho))
  free key a k hk := (hocc key a).2 (h.free key a k ((hkinds key a).symm.trans hk))

theorem readableSpan_memRange (d : RegisterDef) :
    readableSpan true d.register = d.memRange.map (fun range => (range.start, range.stop)) := by
  have haddress : d.register.address = addressOf d.isVirtual d.address := rfl
  unfold readableSpan RegisterDef.memRange
  rw [haddress]
  cases addressOf d.isVirtual d.address <;> rfl

theorem occupied_register {d : RegisterDef} {range : Range} (h : d.memRange = some range) (key : SlaveKey) (a : Nat) :
    (d.register.slaveId = key.slaveId ∧ d.register.kind = key.kind ∧
        ∃ s, readableSpan true d.register = some s ∧ s.Has a) ↔ key = ⟨d.slaveId, d.kind⟩ ∧ a ∈ range := by
  rw [readableSpan_memRange, h]
  constructor
  · rintro ⟨hs, hk, s, hspan, ha⟩
    cases hspan
    exact ⟨by rw [show d.slaveId = key.slaveId from hs, show d.kind = key.kind from hk], ha⟩
  · rintro ⟨rfl, ha⟩
    exact ⟨rfl, rfl, _, rfl, ha⟩

/-- **The declaration of a definition is accepted**: every cell of its slave and table has the kind it declares. -/
theorem Bare.declare {m' : ModbusModule} (h : m.Bare) {d : RegisterDef}
    (hregs : m'.registers.map (·.register) = m.registers.map (·.register) ++ [d.register])
    (hlog : m'.log = m.log) (hkinds : ∀ key a, m'.kindAt key a = m.kindAt key a) {range : Range}
    (hrange : d.memRange = some range) (subject : Subject) :
    (m'.declare ⟨d.slaveId, d.kind⟩ (memKind d.kind) range subject).Bare := by
  obtain ⟨hl, hk⟩ := m'.declare_accepted ⟨d.slaveId, d.kind⟩ (memKind d.kind) range subject
    (fun a _ k hk => h.kind ((hkinds _ a).symm.trans hk))
  have hocc : ∀ key a,
      Occupied ((m'.declare ⟨d.slaveId, d.kind⟩ (memKind d.kind) range subject).registers.map (·.register)) key a ↔
        Occupied (m.registers.map (·.register)) key a ∨ (key = ⟨d.slaveId, d.kind⟩ ∧ a ∈ range) := by
    intro key a
    rw [declare_registers, hregs, occupied_append, occupied_register hrange]
  refine ⟨hl.trans (hlog.trans h.log), fun key a ho => ?_, fun key a k hkind => ?_⟩
  · rw [hk]
    split
    · rename_i hin
      rw [hin.1]
    · rename_i hout
      rw [hkinds]
      exact h.backed key a (((hocc key a).1 ho).resolve_right hout)
  · rw [hk] at hkind
    split at hkind
    · rename_i hin
      exact (hocc key a).2 (Or.inr hin)
    · rw [hkinds] at hkind
      exact (hocc key a).2 (Or.inl (h.free key a k hkind))

section
variable (encode : Register → String → Option (List Word)) (display : Scalar → String)

theorem bare_addDefinition {m : ModbusModule} (hm : m.Bare) (d : String × RegisterDef) :
    (m.addDefinition encode display d).Bare := by
  unfold addDefinition
  simp only
  have hregs : ({ m with registers := m.registers ++ [⟨d.1, d.2.description, d.2.register, d.2.values⟩] } :
      ModbusModule).registers.map (·.register) = m.registers.map (·.register) ++ [d.2.register] := map_append
  cases hrange : d.2.memRange with
  | none =>
    refine hm.of_kinds rfl (fun _ _ => rfl) (fun key a => ?_)
    rw [hregs, occupied_append, readableSpan_memRange, hrange]
    simp
  | some range =>
    have hbare := hm.declare hregs rfl (fun _ _ => rfl) hrange (.register d.1)
    simp only
    split
    · exact hbare
    · exact hbare.of_kinds rfl (kindAt_writeUnchecked _ _ _ _) (fun _ _ => Iff.rfl)

theorem bare_foldl_addDefinition : ∀ (ds : List (String × RegisterDef)) {m : ModbusModule}, m.Bare →
    (ds.foldl (addDefinition encode display) m).Bare
  | [], _, hm => hm
  | d :: ds, _, hm => bare_foldl_addDefinition ds (bare_addDefinition encode display hm d)

theorem readRanges_foldl_addDefinition : ∀ (ds : List (String × RegisterDef)) (m : ModbusModule),
    (ds.foldl (addDefinition encode display) m).readRanges = m.readRanges
  | [], _ => rfl
  | d :: ds, m => by
    rw [foldl_cons, readRanges_foldl_addDefinition ds, (addDefinition_spec encode display m d).1.readRanges]

end

/-! ## The gap cells -/

/-- Nothing was rejected, the registers have the kind of their table and every other cell is only read. -/
structure Furnished (m : ModbusModule) : Prop where
  log : m.log = []
  backed : ∀ key a, Occupied (m.registers.map (·.register)) key a → m.kindAt key a = some (memKind key.kind)
  spare : ∀ key a k, ¬ Occupied (m.registers.map (·.register)) key a → m.kindAt key a = some k →
    k = CellKind.read (cellTypeOf key.kind)

theorem Bare.furnished (h : m.Bare) : m.Furnished :=
  ⟨h.log, h.backed, fun key a k hn hk => absurd (h.free key a k hk) hn⟩

theorem Furnished.declareGap (hm : m.Furnished) {gap : SlaveKey × CellKind × Range}
    (hkind : gap.2.1 = CellKind.read (cellTypeOf gap.1.kind))
    (hfree : ∀ a ∈ gap.2.2, ¬ Occupied (m.registers.map (·.register)) gap.1 a) :
    (m.declare gap.1 gap.2.1 gap.2.2 (.gapCell gap.1)).Furnished := by
  obtain ⟨hl, hk⟩ := m.declare_accepted gap.1 gap.2.1 gap.2.2 (.gapCell gap.1)
    (fun a ha k h => (hm.spare gap.1 a k (hfree a ha) h).trans hkind.symm)
  have hr := m.declare_registers gap.1 gap.2.1 gap.2.2 (.gapCell gap.1)
  refine ⟨hl.trans hm.log, fun key a h => ?_, fun key a k hn h => ?_⟩
  · rw [hr] at h
    have hout : ¬ (key = gap.1 ∧ a ∈ gap.2.2) := fun hin => hfree a hin.2 (hin.1 ▸ h)
    rw [hk, if_neg hout]
    exact hm.backed key a h
  rw [hr] at hn
  rw [hk] at h
  split at h
  · rename_i hin
    rw [hin.1, ← hkind]
    exact (Option.some.inj h).symm
  · exact hm.spare key a k hn h

theorem Furnished.declareGaps {registers : List RegisterEntry} : ∀ (gaps : List (SlaveKey × CellKind × Range))
    {m : ModbusModule}, m.registers = registers → m.Furnished → (∀ gap ∈ gaps, gap.2.1 = CellKind.read (cellTypeOf gap.1.kind) ∧
      ∀ a ∈ gap.2.2, ¬ Occupied (registers.map (·.register)) gap.1 a) →
    (gaps.foldl (fun m gap => m.declare gap.1 gap.2.1 gap.2.2 (.gapCell gap.1)) m).Furnished
  | [], _, _, hm, _ => hm
  | gap :: gaps, m, hr, hm, hgaps => by
    obtain ⟨hkind, hfree⟩ := hgaps gap mem_cons_self
    refine Furnished.declareGaps gaps ((m.declare_registers _ _ _ _).trans hr) (Furnished.declareGap hm hkind ?_)
      (fun g hg => hgaps g (mem_cons_of_mem gap hg))
    rw [hr]
    exact hfree

theorem furnished_declareGaps (hm : m.Furnished) : m.declareGaps.Furnished := by
  refine Furnished.declareGaps _ rfl hm (fun gap hgap => ?_)
  obtain ⟨hkind, hfree⟩ := explicitReadCoverage_apart hgap
  refine ⟨hkind, fun a ha ⟨r, hr, hslave, hk, s, hs, hsa⟩ => ?_⟩
  exact hfree a ha r hr hslave hk s hs hsa

/-! ## Construction -/

section
variable (encode : Register → String → Option (List Word)) (display : Scalar → String)

/-- `ModbusModule::new` up to the operation list: all its declarations and default values. -/
def declared (device : DeviceConfig) : ModbusModule :=
  (device.definitions.toList.foldl (addDefinition encode display)
    ⟨[], ∅, [], Memory.empty SlaveKey, [], device.readRanges⟩).declareGaps

variable (device : DeviceConfig)

theorem new_eq : new encode display device = (declared encode display device).rebuildOperations.map (fun m => { m with
        luaRegisters := Std.HashMap.ofList (m.registers.map (fun e => (e.name, e.register)))
        memory := { m.memory with tap := true } }) := rfl

theorem furnished_declared : (declared encode display device).Furnished :=
  furnished_declareGaps (Bare.furnished (bare_foldl_addDefinition encode display _ (bare_start device.readRanges)))

theorem registers_declared : (declared encode display device).registers =
    device.definitions.toList.map (fun d => ⟨d.1, d.2.description, d.2.register, d.2.values⟩) := by
  rw [declared, (declareGaps_extends _).registers, registers_foldl_addDefinition]
  rfl

theorem kindAt_declared {device : DeviceConfig} {name : String} {d : RegisterDef}
    (hd : device.definitions[name]? = some d) {addr : BitVec 16} (haddr : d.register.address = .fixed addr) {i : Nat}
    (hi : i < d.format.width) :
    (declared encode display device).kindAt ⟨d.slaveId, d.kind⟩ (addr.toNat + i) = some (memKind d.kind) := by
  refine (furnished_declared encode display device).backed ⟨d.slaveId, d.kind⟩ _ ?_
  rw [registers_declared]
  have hmem : (name, d) ∈ device.definitions.toList := Std.TreeMap.mem_toList_iff_getElem?_eq_some.2 hd
  refine ⟨d.register, ?_, rfl, rfl, (addr.toNat, addr.toNat + d.format.width), ?_, ?_⟩
  · rw [List.map_map]
    exact mem_map.2 ⟨(name, d), hmem, rfl⟩
  · unfold readableSpan
    rw [haddr]
    rfl
  · exact ⟨Nat.le_add_right _ _, Nat.add_lt_add_left hi _⟩

theorem new_some {device : DeviceConfig} {m : ModbusModule} (h : new encode display device = some m) :
    m.log = (declared encode display device).log ∧
      ∀ key a, m.memory.cellAt key a = (declared encode display device).memory.cellAt key a := by
  rw [new_eq] at h
  generalize declared encode display device = m₀ at h ⊢
  obtain ⟨m₁, hm₁, rfl⟩ := map_eq_some_iff.1 h
  obtain ⟨ops, hops, rfl⟩ := map_eq_some_iff.1 hm₁
  exact ⟨rfl, fun _ _ => rfl⟩

theorem exists_new_iff : (∃ m, new encode display device = some m) ↔
    PlanEnds (device.definitions.toList.map (·.2.register)) device.readRanges := by
  have hregs : (declared encode display device).registers.map (·.register) =
      device.definitions.toList.map (·.2.register) := by
    rw [registers_declared, List.map_map]
    rfl
  have hranges : (declared encode display device).readRanges = device.readRanges := by
    rw [declared, (declareGaps_extends _).readRanges, readRanges_foldl_addDefinition]
  rw [← exists_plan_iff, new_eq, rebuildOperations, hregs, hranges]
  constructor
  · rintro ⟨m, hm⟩
    obtain ⟨m₁, hm₁, -⟩ := map_eq_some_iff.1 hm
    obtain ⟨ops, hops, -⟩ := map_eq_some_iff.1 hm₁
    exact ⟨ops, hops⟩
  · rintro ⟨ops, hops⟩
    rw [hops]
    exact ⟨_, rfl⟩

end

theorem accepts_memKind {c : Cell} {kind : Kind} (h : c.kind = memKind kind) : c.acceptsRead (cellTypeOf kind) = true ∧
      (c.acceptsWrite (cellTypeOf kind) = true ↔ kind = .coil ∨ kind = .holdingRegister) := by
  unfold Cell.acceptsRead Cell.acceptsWrite
  rw [h]
  cases kind <;> decide

/-- **Construction declares everything**: no declaration is rejected, and every word of every fixed-address register has a cell
under its slave and table, readable, and writable exactly for coils and holding registers. -/
theorem construction_declares_everything (encode : Register → String → Option (List Word)) (display : Scalar → String)
    (device : DeviceConfig) : (declared encode display device).log = [] ∧
    (∀ (name : String) (d : RegisterDef), device.definitions[name]? = some d →
      ∀ addr, d.register.address = .fixed addr → ∀ i < d.format.width,
      ∃ c, (declared encode display device).memory.cellAt ⟨d.slaveId, d.kind⟩ (addr.toNat + i) = some c ∧
        c.acceptsRead (cellTypeOf d.kind) = true ∧
        (c.acceptsWrite (cellTypeOf d.kind) = true ↔ d.kind = .coil ∨ d.kind = .holdingRegister)) ∧
    ((∃ m, new encode display device = some m) ↔ PlanEnds (device.definitions.toList.map (·.2.register)) device.readRanges) ∧
    ∀ m, new encode display device = some m → m.log = [] ∧
      ∀ key a, m.memory.cellAt key a = (declared encode display device).memory.cellAt key a := by
  have hf := furnished_declared encode display device
  refine ⟨hf.log, fun name d hd addr haddr i hi => ?_, exists_new_iff encode display device, fun m hm => ?_⟩
  · obtain ⟨c, hc, hk⟩ := map_eq_some_iff.1 (kindAt_declared encode display hd haddr hi)
    exact ⟨c, hc, accepts_memKind hk⟩
  · obtain ⟨hlog, hcells⟩ := new_some encode display hm
    exact ⟨hlog.trans hf.log, hcells⟩

end ModbusModule
end Ferrowl.Modbus
