import Ferrowl.CodecOwned
import Ferrowl.RegisterEvents
import Ferrowl.TabDeclarations
/-!
# TabDefaults — the default values a tab starts with

`ModbusModule::new` goes through the definitions in the order of their names and stores the words of each default as they were
encoded, without the merge the later writes of the tab use.
-/
namespace Ferrowl.Modbus

open List Codec Option

open Store (Range CellKind Memory Word)
open Codec (FloatKind IntKind Register Value NumericFormat)

namespace ModbusModule

section
variable (readFloat : (k : FloatKind) → List Char → Option (BitVec k.bits)) (display : Scalar → String)

def encodeText (r : Register) (s : String) : Option (List Word) := (Codec.encode readFloat r.format s).toOption

def defaultWords (d : RegisterDef) : Option (List Word) :=
  d.default.bind (fun v => encodeText readFloat d.register (display v))

def defaultAt (d : RegisterDef) (key : SlaveKey) (a : Nat) : Option Word :=
  match d.memRange, defaultWords readFloat display d with
  | some range, some raw => if key = ⟨d.slaveId, d.kind⟩ ∧ a ∈ range then raw[a - range.start]? else none
  | _, _ => none

/-- The word the last definition with a default over the address stores there. -/
def lastDefault (ds : List (String × RegisterDef)) (key : SlaveKey) (a : Nat) : Option Word :=
  ds.reverse.findSome? (fun d => defaultAt readFloat display d.2 key a)

variable {d : RegisterDef} {raw : List Word}

theorem length_defaultWords (h : defaultWords readFloat display d = some raw) : raw.length = d.format.width := by
  obtain ⟨v, -, henc⟩ := bind_eq_some_iff.1 h
  unfold encodeText at henc
  cases hw : Codec.encode readFloat d.register.format (display v) with
  | error e =>
    rw [hw] at henc
    cases henc
  | ok words =>
    rw [hw] at henc
    obtain rfl := Option.some.inj henc
    exact length_encode hw

/-! ## Construction -/

theorem valueAt_declare (m : ModbusModule) (key : SlaveKey) (kind : CellKind) (range : Range) (subject : Subject)
    (k : SlaveKey) (a : Nat) : (m.declare key kind range subject).memory.valueAt k a = m.memory.valueAt k a := by
  rw [declare_memory, Memory.valueAt_addRanges]

theorem new_start_eq {range : Range} (h : d.memRange = some range) {n : Nat}
    (hn : n = d.format.width) : Range.new range.start n = range := by
  unfold RegisterDef.memRange at h
  split at h
  · obtain rfl := Option.some.inj h
    rw [Range.new_start, hn]
  · cases h

variable {m : ModbusModule}

theorem declared_cells (hm : m.Bare) (d : String × RegisterDef) (range : Range) :
    ∀ a ∈ range, ((declare { m with registers := m.registers ++ [⟨d.1, d.2.description, d.2.register, d.2.values⟩] }
      ⟨d.2.slaveId, d.2.kind⟩ (memKind d.2.kind) range (.register d.1)).memory.cellAt ⟨d.2.slaveId, d.2.kind⟩ a).isSome =
        true := by
  intro a ha
  obtain ⟨-, hkinds⟩ := declare_accepted { m with registers := m.registers ++
    [⟨d.1, d.2.description, d.2.register, d.2.values⟩] } ⟨d.2.slaveId, d.2.kind⟩ (memKind d.2.kind) range (.register d.1)
    (fun _ _ _ hk => hm.kind hk)
  have hkind := hkinds ⟨d.2.slaveId, d.2.kind⟩ a
  rw [if_pos ⟨rfl, ha⟩, kindAt] at hkind
  obtain ⟨c, hc, -⟩ := map_eq_some_iff.1 hkind
  rw [hc]
  rfl

theorem valueAt_addDefinition (hm : m.Bare) (d : String × RegisterDef) (key : SlaveKey) (a : Nat) :
    (m.addDefinition (encodeText readFloat) display d).memory.valueAt key a =
      (defaultAt readFloat display d.2 key a).getD (m.memory.valueAt key a) := by
  have hwords : (d.2.default.bind fun v => encodeText readFloat d.2.register (display v)) =
      defaultWords readFloat display d.2 := rfl
  unfold addDefinition defaultAt
  simp only [hwords]
  cases hrange : d.2.memRange with
  | none => rfl
  | some range =>
    cases hraw : defaultWords readFloat display d.2 with
    | none => exact valueAt_declare _ _ _ _ _ key a
    | some raw =>
      simp only
      have hlen := length_defaultWords readFloat display hraw
      have hnew := new_start_eq hrange hlen
      have hfull : range.length = raw.length := by rw [← hnew, Range.new_length]
      rw [hnew, Memory.valueAt_writeUnchecked hfull (declared_cells hm d range), valueAt_declare]
      split
      · rename_i hin
        have hlt : a - range.start < raw.length := by
          have ha := Range.mem_def.1 hin.2
          rw [← hfull, Range.length]
          omega
        rw [getD_eq_getElem?_getD, List.getElem?_eq_getElem hlt]
        rfl
      · rfl

theorem valueAt_foldl_addDefinition (key : SlaveKey) (a : Nat) : ∀ (ds : List (String × RegisterDef)) {m : ModbusModule},
    m.Bare → (ds.foldl (addDefinition (encodeText readFloat) display) m).memory.valueAt key a =
      (lastDefault readFloat display ds key a).getD (m.memory.valueAt key a)
  | [], _, _ => rfl
  | d :: ds, m, hm => by
    rw [foldl_cons, valueAt_foldl_addDefinition key a ds (bare_addDefinition _ display hm d),
      valueAt_addDefinition readFloat display hm d, lastDefault, lastDefault, reverse_cons, List.findSome?_append]
    cases List.findSome? (fun d => defaultAt readFloat display d.2 key a) ds.reverse with
    | none =>
      rw [none_or, List.findSome?_singleton]
      rfl
    | some w => rfl

theorem valueAt_declareGaps (m : ModbusModule) (key : SlaveKey) (a : Nat) :
    m.declareGaps.memory.valueAt key a = m.memory.valueAt key a := by
  unfold declareGaps
  generalize explicitReadCoverage (m.registers.map (·.register)) m.readRanges = gaps
  induction gaps generalizing m with
  | nil => rfl
  | cons gap gaps ih => rw [foldl_cons, ih, valueAt_declare]

theorem valueAt_declared (device : DeviceConfig) (key : SlaveKey) (a : Nat) :
    (declared (encodeText readFloat) display device).memory.valueAt key a =
      (lastDefault readFloat display device.definitions.toList key a).getD 0 := by
  rw [declared, valueAt_declareGaps, valueAt_foldl_addDefinition readFloat display key a _ (bare_start device.readRanges)]
  rfl

/-! ## Registers -/

def storedValue (memory : Memory SlaveKey) (r : Register) : Option Value :=
  match r.address with
  | .fixed addr => (memory.readUnchecked ⟨r.slaveId, r.kind⟩ (Range.new addr.toNat r.format.width)).bind
      (fun ws => (r.decode ws).toOption)
  | .virtual => none

variable {device : DeviceConfig}

theorem storedValue_new {encode : Register → String → Option (List Word)}
    (h : new encode display device = some m) (r : Register) :
    storedValue m.memory r = storedValue (declared encode display device).memory r := by
  rw [new_eq] at h
  generalize declared encode display device = m₀ at h ⊢
  obtain ⟨m₁, hm₁, rfl⟩ := map_eq_some_iff.1 h
  obtain ⟨ops, hops, rfl⟩ := map_eq_some_iff.1 hm₁
  rfl

theorem encode_integer {nf : NumericFormat} {s : String} (h : Codec.encode readFloat (.numeric nf) s = .ok raw) :
    nf.bitField.fits nf.kind.bits = true ∧ ∃ val, Codec.parseInt nf.kind s.toList = some val ∧ raw = Codec.encoded nf val := by
  unfold Codec.encode Codec.parseValue at h
  simp only at h
  cases hf : nf.bitField.fits nf.kind.bits with
  | false =>
    rw [hf] at h
    cases h
  | true =>
    rw [hf] at h
    cases hp : Codec.parseInt nf.kind s.toList with
    | none =>
      rw [hp] at h
      cases h
    | some val =>
      rw [hp] at h
      have henc : Codec.encodeValue (.numeric nf) (.numeric (.int nf.kind val) nf.resolution) = .ok raw := h
      rw [encodeValue_numeric hf] at henc
      exact ⟨rfl, val, rfl, (Except.ok.inj henc).symm⟩

theorem decode_encoded {r : Register} {nf : NumericFormat} (hnf : r.format = .numeric nf)
    (hf : nf.bitField.fits nf.kind.bits = true) (val : BitVec nf.kind.bits) :
    ∃ field : BitVec nf.kind.bits, r.decode (Codec.encoded nf val) = .ok (.numeric (.int nf.kind field) nf.resolution) ∧
      field.setWidth 128 = Codec.restrictField nf.bitField val := by
  refine ⟨_, Codec.Register.decode_of_length hnf hf (length_encoded nf val), ?_⟩
  rw [Codec.encoded, orderWords_orderWords]
  exact fieldOf_encodeInt hf val

theorem exists_lastDefault {name : String} {addr : BitVec 16} {v : Scalar} {i : Nat}
    (hd : device.definitions[name]? = some d) (haddr : d.register.address = .fixed addr) (hv : d.default = some v)
    (henc : Codec.encode readFloat d.register.format (display v) = .ok raw) (hi : i < d.format.width) :
    ∃ w, lastDefault readFloat display device.definitions.toList ⟨d.slaveId, d.kind⟩ (addr.toNat + i) = some w := by
  have hlen : raw.length = d.format.width := length_encode henc
  have hwords : defaultWords readFloat display d = some raw := by
    rw [defaultWords, hv, bind_some, encodeText, henc]
    rfl
  have hrange : d.memRange = some (Range.new addr.toNat d.format.width) := by
    unfold RegisterDef.memRange
    rw [show addressOf d.isVirtual d.address = .fixed addr from haddr]
  have hown : defaultAt readFloat display d ⟨d.slaveId, d.kind⟩ (addr.toNat + i) = some (raw.get ⟨i, hlen ▸ hi⟩) := by
    have hin : addr.toNat + i ∈ Range.new addr.toNat d.format.width :=
      ⟨Nat.le_add_right _ _, Nat.add_lt_add_left hi _⟩
    rw [defaultAt, hrange, hwords]
    show (if _ = _ ∧ addr.toNat + i ∈ Range.new addr.toNat d.format.width then _ else none) = _
    rw [if_pos ⟨rfl, hin⟩, Range.new_start, Nat.add_sub_cancel_left, List.getElem?_eq_getElem (by omega)]
    rfl
  have hmem : (name, d) ∈ device.definitions.toList.reverse :=
    mem_reverse.2 (Std.TreeMap.mem_toList_iff_getElem?_eq_some.2 hd)
  refine isSome_iff_exists.1 (List.findSome?_isSome_iff.2 ⟨(name, d), hmem, ?_⟩)
  rw [hown]
  rfl

theorem storedValue_declared {name : String} {addr : BitVec 16}
    (hd : device.definitions[name]? = some d) (haddr : d.register.address = .fixed addr)
    (hw : 0 < d.format.width) (hlen : raw.length = d.format.width) {v : Value} (hraw : d.register.decode raw = .ok v) :
    storedValue (declared (encodeText readFloat) display device).memory d.register = some v ↔ ∀ i < d.format.width,
        (lastDefault readFloat display device.definitions.toList ⟨d.slaveId, d.kind⟩ (addr.toNat + i)).getD 0 &&&
            d.register.writeMask[i]?.getD 0 = raw[i]?.getD 0 &&& d.register.writeMask[i]?.getD 0 := by
  have hcells : ∀ a ∈ Range.new addr.toNat d.format.width,
      ((declared (encodeText readFloat) display device).memory.cellAt ⟨d.slaveId, d.kind⟩ a).isSome = true := by
    intro a ha
    rw [Range.mem_def, Range.new_start, Range.new_stop] at ha
    have hi : a - addr.toNat < d.format.width := by omega
    obtain ⟨c, hc, -⟩ := map_eq_some_iff.1 (kindAt_declared (encodeText readFloat) display hd haddr hi)
    rw [Nat.add_sub_cancel' ha.1] at hc
    rw [hc]
    rfl
  have hread := Memory.readUnchecked_of_declared hw hcells
  have hwords : ((Range.new addr.toNat d.format.width).addrs.map
      ((declared (encodeText readFloat) display device).memory.valueAt ⟨d.slaveId, d.kind⟩)).length = d.format.width :=
    length_new_addrs_map ..
  have hstored : storedValue (declared (encodeText readFloat) display device).memory d.register = some v ↔
      d.register.decode ((Range.new addr.toNat d.format.width).addrs.map
        ((declared (encodeText readFloat) display device).memory.valueAt ⟨d.slaveId, d.kind⟩)) = .ok v := by
    have hbind : storedValue (declared (encodeText readFloat) display device).memory d.register =
        ((declared (encodeText readFloat) display device).memory.readUnchecked ⟨d.slaveId, d.kind⟩
          (Range.new addr.toNat d.format.width)).bind (fun ws => (d.register.decode ws).toOption) := by
      rw [storedValue, haddr]
      rfl
    rw [hbind, hread, bind_some, toOption_eq_some]
  rw [hstored, Codec.Register.decode_eq_iff hlen hwords hraw]
  unfold Codec.SameOwned
  rw [show d.register.writeMask.length = d.format.width from length_maskWords d.format]
  refine forall₂_congr (fun i hi => ?_)
  rw [getD_new_addrs_map _ _ hi, valueAt_declared]
  exact eq_comm

end

/-- **The defaults a tab starts with.** The register decodes to its default, restricted to its field, exactly when on each of
its words the last definition with a default over the word stores the same owned bits: a later default clears the bits of an
earlier one, whether it owns them or not. -/
theorem default_restricted_iff (readFloat : (k : FloatKind) → List Char → Option (BitVec k.bits))
    (display : Scalar → String) (device : DeviceConfig) (name : String) (d : RegisterDef) (addr : BitVec 16)
    (nf : NumericFormat) (v : Scalar) (raw : List Word) (hd : device.definitions[name]? = some d)
    (haddr : d.register.address = .fixed addr) (hnf : d.register.format = .numeric nf) (hv : d.default = some v)
    (henc : Codec.encode readFloat d.register.format (display v) = .ok raw) :
    ∃ (val field : BitVec nf.kind.bits), Codec.parseInt nf.kind (display v).toList = some val ∧
      field.setWidth 128 = Codec.restrictField nf.bitField val ∧
      ∀ m, m = declared (encodeText readFloat) display device ∨ new (encodeText readFloat) display device = some m →
        (storedValue m.memory d.register = some (.numeric (.int nf.kind field) nf.resolution) ↔ ∀ i < d.format.width, ∃ w,
            lastDefault readFloat display device.definitions.toList ⟨d.slaveId, d.kind⟩ (addr.toNat + i) = some w ∧
            w &&& d.register.writeMask[i]?.getD 0 = raw[i]?.getD 0 &&& d.register.writeMask[i]?.getD 0) := by
  have hlen : raw.length = d.format.width := length_encode henc
  have hlast : ∀ i < d.format.width, ∃ w, lastDefault readFloat display device.definitions.toList ⟨d.slaveId, d.kind⟩
      (addr.toNat + i) = some w := fun i hi => exists_lastDefault readFloat display hd haddr hv henc hi
  rw [hnf] at henc
  obtain ⟨hf, val, hval, rfl⟩ := encode_integer readFloat henc
  obtain ⟨field, hdec, hfield⟩ := decode_encoded hnf hf val
  refine ⟨val, field, hval, hfield, fun m hm => ?_⟩
  have hsame : storedValue m.memory d.register =
      storedValue (declared (encodeText readFloat) display device).memory d.register := by
    rcases hm with rfl | hm
    · rfl
    · exact storedValue_new display hm d.register
  rw [hsame, storedValue_declared readFloat display hd haddr (Codec.Register.width_pos hnf) hlen hdec]
  refine forall₂_congr (fun i hi => ?_)
  obtain ⟨w, hw⟩ := hlast i hi
  rw [hw, getD_some]
  constructor
  · intro h
    exact ⟨w, rfl, h⟩
  · rintro ⟨w', hw', h⟩
    obtain rfl := Option.some.inj hw'
    exact h

def byteDef (mask : String) (default : BitVec 64) : RegisterDef where
  slaveId := 1
  kind := .holdingRegister
  address := some 7
  isVirtual := false
  access := .readWrite
  valueType := .u16
  endian := .big
  wordOrder := .normal
  resolution := 0x3FF0000000000000#64
  bitmask := some mask
  length := 1
  alignment := .left
  values := []
  update := none
  description := ""
  default := some (.int default)

def showInt : Scalar → String
  | .int v => String.ofList (Codec.decimalOf .i64 v)
  | _ => ""

def bytesDevice : DeviceConfig where
  definitions := ((∅ : Std.TreeMap String RegisterDef).insert "high" (byteDef "0xFF00" 1)).insert "low" (byteDef "0xFF" 5)
  readRanges := ⟨[], [], [], []⟩

theorem bytesDevice_high : bytesDevice.definitions["high"]? = some (byteDef "0xFF00" 1) := by decide +kernel

theorem format_high : (byteDef "0xFF00" 1).register.format = .numeric (Codec.maskedU16 0xFF00#128) := by decide +kernel

theorem encode_high : Codec.encode (fun _ _ => none) (byteDef "0xFF00" 1).register.format (showInt (.int 1)) =
    .ok [0x0100#16] := by
  decide +kernel

/-- The default of the high byte, with the low byte's after it. -/
theorem high_byte_default : ∃ (val field : BitVec 16), Codec.parseInt .u16 (showInt (.int 1)).toList = some val ∧
    field.setWidth 128 = Codec.restrictField ⟨0xFF00#128⟩ val ∧
    ∀ m, m = declared (encodeText (fun _ _ => none)) showInt bytesDevice ∨
        new (encodeText (fun _ _ => none)) showInt bytesDevice = some m →
      (storedValue m.memory (byteDef "0xFF00" 1).register = some (.numeric (.int .u16 field) Codec.Resolution.default) ↔
        ∀ i < (byteDef "0xFF00" 1).format.width, ∃ w,
          lastDefault (fun _ _ => none) showInt bytesDevice.definitions.toList ⟨1, .holdingRegister⟩ ((7#16).toNat + i) = some w ∧
          w &&& (byteDef "0xFF00" 1).register.writeMask[i]?.getD 0 =
            [0x0100#16][i]?.getD 0 &&& (byteDef "0xFF00" 1).register.writeMask[i]?.getD 0) :=
  default_restricted_iff (fun _ _ => none) showInt bytesDevice "high" (byteDef "0xFF00" 1) 7#16
    (Codec.maskedU16 0xFF00#128) (.int 1) [0x0100#16] bytesDevice_high rfl format_high rfl encode_high

/-- **A default that another one erases**: the registers own disjoint bits of the word, both defaults encode, the module is
returned, and the high byte decodes to zero where its default is 1. -/
theorem high_byte_default_erased :
    (byteDef "0xFF00" 1).register.writeMask[0]?.getD 0 &&& (byteDef "0xFF" 5).register.writeMask[0]?.getD 0 = 0 ∧
      Codec.encode (fun _ _ => none) (byteDef "0xFF00" 1).register.format (showInt (.int 1)) = .ok [0x0100#16] ∧
      ∃ m, new (encodeText (fun _ _ => none)) showInt bytesDevice = some m ∧
        storedValue m.memory (byteDef "0xFF00" 1).register = some (.numeric (.int .u16 0#16) Codec.Resolution.default) := by
  have hsome : (new (encodeText (fun _ _ => none)) showInt bytesDevice).isSome = true := by decide +kernel
  obtain ⟨m, hm⟩ := isSome_iff_exists.1 hsome
  refine ⟨by decide +kernel, encode_high, m, hm, ?_⟩
  -- the word holds the low byte's default, which the high byte decodes to zero
  have hdec : (byteDef "0xFF00" 1).register.decode [5#16] = .ok (.numeric (.int .u16 0#16) Codec.Resolution.default) := by
    have hfield : Codec.fieldOf (Codec.maskedU16 0xFF00#128).bitField 16 (Codec.rawWords .big 1 [5#16]) = 0#16 := by
      decide +kernel
    rw [← hfield]
    exact Codec.Register.decode_of_length format_high (by decide) rfl
  rw [storedValue_new showInt hm, storedValue_declared (fun _ _ => none) showInt bytesDevice_high rfl (by decide +kernel)
    (by decide +kernel) hdec]
  decide +kernel

end ModbusModule
end Ferrowl.Modbus
