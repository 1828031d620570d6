import Ferrowl.CodecOwned
import Ferrowl.LuaValue
import Ferrowl.RegisterEvents
/-!
# ScriptBridge — registers as scripts read and set them

`RegisterBridge` of `lua.rs` with the conversions of `lua/value_conv.rs`: `C_Register:Get` decodes a register's words and hands
the raw number to the script, `C_Register:Set` encodes a value and stores its words.

The standard library's float conversions and the texts of formats and codec errors are parameters; the connection status is left
out.
-/
namespace Ferrowl.Modbus

open Store (Range Memory Word WriteSource TapCall)
open Codec (FloatKind IntKind Format Register Value Resolution NumericPrimitive NumericFormat CodecError Address maskedRegister)

/-- What the bridge takes from elsewhere: float conversions and texts. -/
structure Conversions where
  readFloat : (k : FloatKind) → List Char → Option (BitVec k.bits)
  showFloat : (k : FloatKind) → BitVec k.bits → List Char
  i128AsF32 : Int → BitVec 32
  f64AsF32 : BitVec 64 → BitVec 32
  f32AsF64 : BitVec 32 → BitVec 64
  showFormat : Format → String
  showError : CodecError → String

def formatResolution : Format → Option Resolution
  | .numeric nf => some nf.resolution
  | .float ff => some ff.resolution
  | .ascii _ _ => none

def minValue (k : IntKind) : Int := if k.signed then -2 ^ (k.bits - 1) else 0

def maxValue (k : IntKind) : Int := if k.signed then 2 ^ (k.bits - 1) - 1 else 2 ^ k.bits - 1

/-- `MAX as f64`: rounded up to a power of two where the kind has more digits than a float. -/
def maxAsF64 (k : IntKind) : Int := (f64Whole? (i128AsF64 (maxValue k))).getD 0

section
variable (conv : Conversions)

/-! ## Conversions -/

/-- An integer if the text is one, else a float, else the text. -/
def Scalar.fromInput (s : String) : Scalar :=
  match Codec.intFromStr 64 (trim s.toList) with
  | some i => .int i
  | none =>
    match conv.readFloat .f64 (trim s.toList) with
    | some f => .float f
    | none => .text s

def Scalar.toValue (res : Resolution) : Scalar → Value
  | .int i => .numeric (.int .i64 i) res
  | .float f => .numeric (.float .f64 f) res
  | .text s => .ascii s

def strToValue (s : String) (r : Register) : Value :=
  (Scalar.fromInput conv s).toValue ((formatResolution r.format).getD Resolution.default)

def virtualValueFromType (value : Lua.ValueType) (r : Register) : Except String Value :=
  let res := (formatResolution r.format).getD Resolution.default
  match value with
  | .nil => .error "cannot Set nil value"
  | .string s => .ok (strToValue conv s r)
  | .bool b => .ok (.numeric (.int .i64 (if b then 1 else 0)) res)
  | .int v =>
    if minValue .i64 ≤ v ∧ v ≤ maxValue .i64 then .ok (.numeric (.int .i64 (BitVec.ofInt 64 v)) res)
    else .ok (.numeric (.float .f64 (i128AsF64 v)) res)
  | .float v => .ok (.numeric (.float .f64 v) res)

/-- An integer as the variant a format expects; every kind but the widest signed one checks its range. -/
def intValueForFormat (v : Int) (format : Format) : Except String Value :=
  match format with
  | .numeric nf =>
    if nf.kind = .i128 ∨ (minValue nf.kind ≤ v ∧ v ≤ maxValue nf.kind) then
      .ok (.numeric (.int nf.kind (BitVec.ofInt nf.kind.bits v)) nf.resolution)
    else .error ("value " ++ toString v ++ " out of range for format " ++ conv.showFormat format)
  | .float ff =>
    match ff.kind with
    | .f32 => .ok (.numeric (.float .f32 (conv.i128AsF32 v)) ff.resolution)
    | .f64 => .ok (.numeric (.float .f64 (i128AsF64 v)) ff.resolution)
  | .ascii _ _ => .ok (.ascii (toString v))

/-- A float as the variant a format expects; an integer format takes whole numbers of its range. -/
def floatValueForFormat (v : BitVec 64) (format : Format) : Except String Value :=
  let text := "value " ++ String.ofList (conv.showFloat .f64 v)
  match format with
  | .numeric nf =>
    match f64Whole? v with
    | none => .error (text ++ " is not a whole number for integer format " ++ conv.showFormat format)
    | some n =>
      if n < minValue nf.kind ∨ maxAsF64 nf.kind < n then
        .error (text ++ " out of range for format " ++ conv.showFormat format)
      else .ok (.numeric (.int nf.kind (BitVec.ofInt nf.kind.bits (min n (maxValue nf.kind)))) nf.resolution)
  | .float ff =>
    match ff.kind with
    | .f32 => .ok (.numeric (.float .f32 (conv.f64AsF32 v)) ff.resolution)
    | .f64 => .ok (.numeric (.float .f64 v) ff.resolution)
  | .ascii _ _ => .ok (.ascii (String.ofList (conv.showFloat .f64 v)))

/-- A script's value as the variant a format expects; a string never gets here. -/
def typedValueFromType (value : Lua.ValueType) (format : Format) : Option (Except String Value) :=
  match value with
  | .nil => some (.error "cannot Set nil value")
  | .string _ => none
  | .bool b => some (intValueForFormat conv (if b then 1 else 0) format)
  | .int v => some (intValueForFormat conv v format)
  | .float v => some (floatValueForFormat conv v format)

def asHostInt (k : IntKind) (val : BitVec k.bits) : Int := if k.signed then val.toInt else (val.setWidth 128).toInt

def valueToType : Value → Lua.ValueType
  | .numeric (.int k val) _ => .int (asHostInt k val)
  | .numeric (.float .f32 val) _ => .float (conv.f32AsF64 val)
  | .numeric (.float .f64 val) _ => .float val
  | .ascii s => .string s

/-! ## Events of virtual registers -/

/-- Equal numbers, what is no number equal to itself; integers by their text. -/
def primitivesEqual : NumericPrimitive → NumericPrimitive → Bool
  | .float .f32 x, .float .f32 y => f32Rank x == f32Rank y
  | .float .f64 x, .float .f64 y => f64Rank x == f64Rank y
  | p, q => (Codec.UnscaledValue.numeric p).display conv.showFloat == (Codec.UnscaledValue.numeric q).display conv.showFloat

def valuesEqual : Value → Value → Bool
  | .numeric p r, .numeric q s => f64PartialCmp r.bits s.bits == some .eq && primitivesEqual conv p q
  | .ascii s, .ascii t => s == t
  | _, _ => false

def virtualEvent (clock : Nat → Nat) (name : String) (old : Option Value) (new : Value) (source : RegisterEventSource)
    (seq : Nat) : RegisterEvent where
  seq := seq
  timestampMs := clock seq
  name := name
  changed := old.all (fun old => !valuesEqual conv old new)
  old := old
  new := some new
  source := source

end

/-! ## The bridge -/

structure RegisterBridge where
  memory : Memory SlaveKey
  virtualStore : Std.HashMap String Value
  registers : Std.HashMap String Register

/-- What a `Set` answers and leaves behind: the calls of the store's tap, and the events published past it. -/
structure BridgeWrite where
  result : Except String Unit
  bridge : RegisterBridge
  tapCalls : List (TapCall SlaveKey)
  published : List (Nat → RegisterEvent)

def keyOf (r : Register) : SlaveKey := ⟨r.slaveId, r.kind⟩

namespace RegisterBridge

def register (b : RegisterBridge) (name : String) : Except String Register :=
  match b.registers[name]? with
  | some r => .ok r
  | none => .error ("unknown register '" ++ name ++ "'")

def rejected (b : RegisterBridge) (error : String) : BridgeWrite := ⟨.error error, b, [], []⟩

section
variable (conv : Conversions)

def read (b : RegisterBridge) (name : String) : Except String Lua.ValueType :=
  match b.register name with
  | .error e => .error e
  | .ok r =>
    match r.address with
    | .virtual =>
      match b.virtualStore[name]? with
      | some v => .ok (valueToType conv v)
      | none => .error ("virtual register '" ++ name ++ "' not set")
    | .fixed addr =>
      match b.memory.readUnchecked (keyOf r) (Range.new addr.toNat r.format.width) with
      | none => .error ("register '" ++ name ++ "' not readable")
      | some raw =>
        match r.decode raw with
        | .error e => .error ("decode '" ++ name ++ "': " ++ conv.showError e)
        | .ok v => .ok (valueToType conv v)

/-- The words a value is stored as: a string goes the way of typed text. -/
def rawWordsFor (name : String) (r : Register) (value : Lua.ValueType) : Except String (List Word) :=
  let encoded (e : Except CodecError (List Word)) : Except String (List Word) :=
    match e with
    | .ok raw => .ok raw
    | .error e => .error ("encode '" ++ name ++ "': " ++ conv.showError e)
  match value with
  | .string s => encoded (Codec.encode conv.readFloat r.format s)
  | value =>
    match typedValueFromType conv value r.format with
    | some (.ok typed) => encoded (r.encodeValue typed)
    | some (.error e) => .error e
    -- `unreachable!`: the string was taken above
    | none => .error ""

variable (executing : Option ScriptId) (clock : Nat → Nat)

def write (b : RegisterBridge) (name : String) (value : Lua.ValueType) : BridgeWrite :=
  match b.register name with
  | .error e => b.rejected e
  | .ok r =>
    match r.address with
    | .virtual =>
      match virtualValueFromType conv value r with
      | .error e => b.rejected e
      | .ok v =>
        ⟨.ok (), { b with virtualStore := b.virtualStore.insert name v }, [],
          [virtualEvent conv clock name b.virtualStore[name]? v (.lua executing)]⟩
    | .fixed addr =>
      match rawWordsFor conv name r value with
      | .error e => b.rejected e
      | .ok raw =>
        let out := b.memory.writeUncheckedFrom WriteSource.script (keyOf r) (Range.new addr.toNat raw.length) raw
        ⟨if out.1 then .ok () else .error ("write to '" ++ name ++ "' rejected (not writable)"),
          { b with memory := out.2.1 }, out.2.2, []⟩

end

def has (b : RegisterBridge) (name : String) : Bool := (b.register name).isOk

def held (b : RegisterBridge) (name : String) : Option Value :=
  b.registers[name]?.bind (fun r =>
    match r.address with
    | .virtual => b.virtualStore[name]?
    | .fixed addr => (b.memory.readUnchecked (keyOf r) (Range.new addr.toNat r.format.width)).bind
        (fun raw => (r.decode raw).toOption))

section
variable {b : RegisterBridge} {name : String} {r : Register} {addr : BitVec 16}

theorem held_fixed (hr : b.registers[name]? = some r) (ha : r.address = .fixed addr) {v : Value} : b.held name = some v ↔
      ∃ ws, b.memory.readUnchecked (keyOf r) (Range.new addr.toNat r.format.width) = some ws ∧ r.decode ws = .ok v := by
  simp only [held, hr, Option.bind_some, ha, Option.bind_eq_some_iff]
  exact exists_congr (fun ws => and_congr_right (fun _ => Codec.toOption_eq_some))

theorem read_ok (conv : Conversions) {x : Lua.ValueType} :
    b.read conv name = .ok x ↔ ∃ v, b.held name = some v ∧ valueToType conv v = x := by
  unfold read register held
  cases b.registers[name]? with
  | none => simp
  | some r =>
    simp only [Option.bind_some]
    cases r.address with
    | virtual => cases b.virtualStore[name]? <;> simp
    | fixed addr =>
      simp only
      cases b.memory.readUnchecked (keyOf r) (Range.new addr.toNat r.format.width) with
      | none => simp
      | some raw =>
        simp only [Option.bind_some]
        cases r.decode raw <;> simp [Except.toOption]

section
variable (conv : Conversions) (executing : Option ScriptId) (clock : Nat → Nat) {value : Lua.ValueType}

theorem write_ok (hr : b.registers[name]? = some r) (ha : r.address = .fixed addr)
    (hok : (b.write conv executing clock name value).result = .ok ()) : ∃ raw, rawWordsFor conv name r value = .ok raw ∧
      (b.memory.writeUnchecked (keyOf r) (Range.new addr.toNat raw.length) raw).1 = true ∧
      (b.write conv executing clock name value).bridge =
        { b with memory := (b.memory.writeUnchecked (keyOf r) (Range.new addr.toNat raw.length) raw).2 } := by
  unfold write register at hok ⊢
  simp only [hr, ha] at hok ⊢
  cases hraw : rawWordsFor conv name r value with
  | error e =>
    rw [hraw] at hok
    cases hok
  | ok raw =>
    simp only [hraw] at hok ⊢
    have heq := b.memory.writeUncheckedFrom_eq .script (keyOf r) (Range.new addr.toNat raw.length) raw
    refine ⟨raw, rfl, ?_, ?_⟩
    · rw [← heq]
      split at hok
      · assumption
      · cases hok
    · rw [← heq]

theorem write_of_declared (hr : b.registers[name]? = some r) (ha : r.address = .fixed addr) {raw : List Word}
    (hraw : rawWordsFor conv name r value = .ok raw)
    (hdecl : (b.memory.writeUnchecked (keyOf r) (Range.new addr.toNat raw.length) raw).1 = true) :
    (b.write conv executing clock name value).result = .ok () := by
  unfold write register
  simp only [hr, ha, hraw]
  have heq := b.memory.writeUncheckedFrom_eq .script (keyOf r) (Range.new addr.toNat raw.length) raw
  rw [← heq] at hdecl
  rw [if_pos hdecl]

end
end

/-! ## Registers that share words -/

/-- The words stored for one register agree with those there on every bit of `B`. -/
def Agrees (b : RegisterBridge) (A : Register) (addr : BitVec 16) (raw : List Word) (B : Register) : Prop :=
  ∀ other, B.address = .fixed other → keyOf B = keyOf A → ∀ i j, i < raw.length → j < B.format.width →
    addr.toNat + i = other.toNat + j →
      raw[i]?.getD 0 &&& B.writeMask[j]?.getD 0 =
        b.memory.valueAt (keyOf B) (other.toNat + j) &&& B.writeMask[j]?.getD 0

theorem sameOwned_stored {b : RegisterBridge} {A B : Register} {addr other : BitVec 16} {raw : List Word}
    (hB : B.address = .fixed other) (hw : (b.memory.writeUnchecked (keyOf A) (Range.new addr.toNat raw.length) raw).1 = true) :
    Codec.SameOwned B.writeMask ((Range.new other.toNat B.format.width).addrs.map (b.memory.valueAt (keyOf B)))
        ((Range.new other.toNat B.format.width).addrs.map
          ((b.memory.writeUnchecked (keyOf A) (Range.new addr.toNat raw.length) raw).2.valueAt (keyOf B))) ↔
      b.Agrees A addr raw B := by
  have hlen : B.writeMask.length = B.format.width := Codec.length_maskWords B.format
  unfold Codec.SameOwned Agrees
  rw [hlen]
  constructor
  · intro h other' hB' hkey i j hi hj hij
    obtain rfl : other' = other := by
      rw [hB] at hB'
      exact (Address.fixed.inj hB').symm
    have hin : other'.toNat + j ∈ Range.new addr.toNat raw.length := by
      rw [Range.mem_def, Range.new_start, Range.new_stop]
      omega
    have hj' := h j hj
    rw [getD_new_addrs_map _ _ hj, getD_new_addrs_map _ _ hj, Memory.valueAt_writeUnchecked_ok hw, if_pos ⟨hkey, hin⟩,
      ← hij, Range.new_start, Nat.add_sub_cancel_left, List.getD_eq_getElem?_getD, hij] at hj'
    exact hj'.symm
  · intro h j hj
    rw [getD_new_addrs_map _ _ hj, getD_new_addrs_map _ _ hj, Memory.valueAt_writeUnchecked_ok hw]
    split
    · rename_i hin
      obtain ⟨hkey, hin⟩ := hin
      rw [Range.mem_def, Range.new_start, Range.new_stop] at hin
      have hi := h other hB hkey (other.toNat + j - addr.toNat) j (by omega) hj (by omega)
      rw [Range.new_start, List.getD_eq_getElem?_getD, hi]
    · rfl

theorem held_stored_iff {b : RegisterBridge} {other : String} {A B : Register} {addr : BitVec 16} {raw : List Word}
    {v : Value} (hB : b.registers[other]? = some B)
    (hw : (b.memory.writeUnchecked (keyOf A) (Range.new addr.toNat raw.length) raw).1 = true) (hv : b.held other = some v) :
    held { b with memory := (b.memory.writeUnchecked (keyOf A) (Range.new addr.toNat raw.length) raw).2 } other = some v ↔
      b.Agrees A addr raw B := by
  cases hBa : B.address with
  | virtual =>
    have hsame : held { b with memory := (b.memory.writeUnchecked (keyOf A) (Range.new addr.toNat raw.length) raw).2 } other =
        b.held other := by
      simp [held, hB, hBa]
    rw [hsame]
    exact iff_of_true hv (fun _ h => by rw [hBa] at h; cases h)
  | fixed baddr =>
    obtain ⟨ws, hws, hdec⟩ := (held_fixed hB hBa).1 hv
    have hread := Memory.readUnchecked_writeUnchecked_ok hw hws
    obtain rfl := Memory.readUnchecked_some hws
    have hafter := held_fixed (b := { b with memory := (b.memory.writeUnchecked (keyOf A)
      (Range.new addr.toNat raw.length) raw).2 }) (v := v) hB hBa
    simp only [hread, Option.some.injEq, exists_eq_left'] at hafter
    rw [hafter, Register.decode_eq_iff (length_new_addrs_map _ _ _) (length_new_addrs_map _ _ _) hdec]
    exact sameOwned_stored hBa hw

end RegisterBridge

open RegisterBridge

/-- **A script's `Set` keeps another register** exactly when the words stored agree with those that were there on its bits:
words are stored as they were encoded, so bits the written register does not own are cleared with the rest. -/
theorem set_keeps_others_iff (conv : Conversions) (executing : Option ScriptId) (clock : Nat → Nat) (b : RegisterBridge)
    (name other : String) (A B : Register) (addr : BitVec 16) (value : Lua.ValueType) (v : Value)
    (hA : b.registers[name]? = some A) (haddr : A.address = .fixed addr) (hB : b.registers[other]? = some B)
    (hok : (b.write conv executing clock name value).result = .ok ()) (hv : b.held other = some v) :
    ∃ raw, rawWordsFor conv name A value = .ok raw ∧
      ((b.write conv executing clock name value).bridge.held other = some v ↔ b.Agrees A addr raw B) := by
  obtain ⟨raw, hraw, hw, hbridge⟩ := write_ok conv executing clock hA haddr hok
  refine ⟨raw, hraw, ?_⟩
  rw [hbridge]
  exact held_stored_iff hB hw hv

def integersOnly : Conversions where
  readFloat _ _ := none
  showFloat _ _ := []
  i128AsF32 _ := 0
  f64AsF32 _ := 0
  f32AsF64 _ := 0
  showFormat _ := ""
  showError _ := ""

def sharedCell : Memory SlaveKey :=
  (Memory.writeUnchecked ((Memory.empty SlaveKey).addRanges ⟨1, .holdingRegister⟩ (memKind .holdingRegister)
    [Range.new 7 1]).2 ⟨1, .holdingRegister⟩ (Range.new 7 1) [0x1234#16]).2

def bytePair : RegisterBridge where
  memory := sharedCell
  virtualStore := ∅
  registers := Std.HashMap.insert (Std.HashMap.insert ∅ "low" (maskedRegister 0xFF#128)) "high" (maskedRegister 0xFF00#128)

theorem bytePair_low : bytePair.registers["low"]? = some (maskedRegister 0xFF#128) := by
  rw [bytePair, Std.HashMap.getElem?_insert, Std.HashMap.getElem?_insert]
  rfl

theorem bytePair_high : bytePair.registers["high"]? = some (maskedRegister 0xFF00#128) := by
  rw [bytePair, Std.HashMap.getElem?_insert]
  rfl

theorem low_set_accepted : rawWordsFor integersOnly "low" (maskedRegister 0xFF#128) (.int 5) = .ok [5#16] ∧
    (bytePair.write integersOnly none id "low" (.int 5)).result = .ok () := by
  have hraw : rawWordsFor integersOnly "low" (maskedRegister 0xFF#128) (.int 5) = .ok [5#16] := by decide +kernel
  exact ⟨hraw, write_of_declared integersOnly none id bytePair_low rfl hraw (by decide)⟩

theorem high_decodes (w field : Word) (h : Codec.fieldOf ⟨0xFF00#128⟩ 16 (Codec.rawWords .big 1 [w]) = field) :
    (maskedRegister 0xFF00#128).decode [w] = .ok (.numeric (.int .u16 field) Resolution.default) := by
  subst h
  have hformat : (maskedRegister 0xFF00#128).format = .numeric (Codec.maskedU16 0xFF00#128) := rfl
  exact Codec.Register.decode_of_length hformat (by decide) rfl

theorem high_held : bytePair.held "high" = some (.numeric (.int .u16 0x12#16) Resolution.default) :=
  (held_fixed bytePair_high rfl).2 ⟨[0x1234#16], by decide, high_decodes _ 0x12#16 (by decide +kernel)⟩

/-- The low byte is set beside the high one. -/
theorem low_byte_set_beside_high_byte : ∃ raw, rawWordsFor integersOnly "low" (maskedRegister 0xFF#128) (.int 5) = .ok raw ∧
      ((bytePair.write integersOnly none id "low" (.int 5)).bridge.held "high" =
          some (.numeric (.int .u16 0x12#16) Resolution.default) ↔
        bytePair.Agrees (maskedRegister 0xFF#128) 7 raw (maskedRegister 0xFF00#128)) :=
  set_keeps_others_iff integersOnly none id bytePair "low" "high" _ _ 7 (.int 5) _ bytePair_low rfl bytePair_high
    low_set_accepted.2 high_held

/-- **A `Set` that destroys another register's value**: the registers own disjoint bits of the word, and setting the low
byte to 5 turns the high byte from `0x12` to zero. -/
theorem set_low_byte_clears_high_byte :
    (maskedRegister 0xFF#128).writeMask[0]?.getD 0 &&& (maskedRegister 0xFF00#128).writeMask[0]?.getD 0 = 0 ∧
      (bytePair.write integersOnly none id "low" (.int 5)).result = .ok () ∧
      bytePair.held "high" = some (.numeric (.int .u16 0x12#16) Resolution.default) ∧
      (bytePair.write integersOnly none id "low" (.int 5)).bridge.held "high" =
        some (.numeric (.int .u16 0#16) Resolution.default) := by
  obtain ⟨hraw, hok⟩ := low_set_accepted
  refine ⟨by decide, hok, high_held, ?_⟩
  obtain ⟨raw, hraw', -, hbridge⟩ := write_ok integersOnly none id bytePair_low rfl hok
  obtain rfl : [5#16] = raw := by
    rw [hraw] at hraw'
    exact Except.ok.inj hraw'
  rw [hbridge]
  refine (held_fixed (r := maskedRegister 0xFF00#128) (by exact bytePair_high) rfl).2
    ⟨[5#16], by decide, high_decodes _ 0#16 (by decide +kernel)⟩

end Ferrowl.Modbus
