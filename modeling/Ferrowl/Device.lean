import Mathlib.Data.Nat.Digits.Lemmas
import Ferrowl.CodecFormat
/-!
# Device — register definitions of a device config

`config/device.rs` and `config/device/value_types.rs`: the config-file spelling of a register, the `Register` it stands for
(`RegisterDef.register`), and the write-back of an edited register (`syncRegisterDef`, from `registers.rs`).

An `f64` is its bit pattern.
-/
namespace Ferrowl.Modbus

open List

open Store (Range CellType)
open Codec

inductive Scalar where
  | int (v : BitVec 64)
  | float (bits : BitVec 64)
  | text (s : String)
  deriving DecidableEq, Repr

inductive ValueType where
  | u8 | u16 | u32 | u64 | u128 | i8 | i16 | i32 | i64 | i128 | f32 | f64 | ascii
  deriving DecidableEq, Repr

inductive AccessCfg where
  | readOnly | writeOnly | readWrite
  deriving DecidableEq, Repr

inductive EndianCfg where
  | big | little
  deriving DecidableEq, Repr

inductive WordOrderCfg where
  | normal | reversed
  deriving DecidableEq, Repr

inductive AlignmentCfg where
  | left | right
  deriving DecidableEq, Repr

def AccessCfg.into : AccessCfg → Codec.Access
  | .readOnly => .readOnly
  | .writeOnly => .writeOnly
  | .readWrite => .readWrite

def EndianCfg.into : EndianCfg → Endian
  | .big => .big
  | .little => .little

def WordOrderCfg.into : WordOrderCfg → WordOrder
  | .normal => .normal
  | .reversed => .reversed

def AlignmentCfg.into : AlignmentCfg → Codec.Alignment
  | .left => .left
  | .right => .right

/-! ## Bit masks -/

def isWhitespace (c : Char) : Bool :=
  let n := c.toNat
  (9 ≤ n && n ≤ 13) || n == 0x20 || n == 0x85 || n == 0xA0 || n == 0x1680 || (0x2000 ≤ n && n ≤ 0x200A) ||
    n == 0x2028 || n == 0x2029 || n == 0x202F || n == 0x205F || n == 0x3000

def trim (s : List Char) : List Char :=
  ((s.dropWhile isWhitespace).reverse.dropWhile isWhitespace).reverse

def toDigit (radix : Nat) (c : Char) : Option Nat :=
  let n := c.toNat
  (if 48 ≤ n ∧ n ≤ 57 then some (n - 48)
   else if 97 ≤ n ∧ n ≤ 122 then some (n - 87)
   else if 65 ≤ n ∧ n ≤ 90 then some (n - 55)
   else none).filter (· < radix)

/-- The digit loop of `from_str_radix`; a value over `u128::MAX` is an error. -/
def parseDigits (radix : Nat) : Nat → List Char → Option Nat
  | acc, [] => some acc
  | acc, c :: cs =>
    match toDigit radix c with
    | none => none
    | some d => if acc * radix + d < 2 ^ 128 then parseDigits radix (acc * radix + d) cs else none

/-- `u128::from_str_radix`: a leading plus is allowed, a sign alone is not. -/
def fromStrRadix (radix : Nat) (s : List Char) : Option (BitVec 128) :=
  match s with
  | [] => none
  | ['+'] => none
  | ['-'] => none
  | '+' :: cs => (parseDigits radix 0 cs).map (BitVec.ofNat 128)
  | cs => (parseDigits radix 0 cs).map (BitVec.ofNat 128)

/-- A config bit mask: hex with a prefix, or decimal; absent, empty or unparseable is the full mask. -/
def parseBitmask (s : Option String) : BitField :=
  match (s.map (fun s => trim s.toList)).filter (fun s => !s.isEmpty) with
  | none => ⟨BitVec.allOnes 128⟩
  | some ('0' :: 'x' :: hex) => ⟨(fromStrRadix 16 hex).getD (BitVec.allOnes 128)⟩
  | some ('0' :: 'X' :: hex) => ⟨(fromStrRadix 16 hex).getD (BitVec.allOnes 128)⟩
  | some s => ⟨(fromStrRadix 10 s).getD (BitVec.allOnes 128)⟩

def hexChar (d : Nat) : Char := if d < 10 then Char.ofNat (48 + d) else Char.ofNat (55 + d)

def upperHex (n : Nat) : List Char := if n = 0 then ['0'] else (Nat.digits 16 n).reverse.map hexChar

def maskText (mask : BitVec 128) : String := String.ofList ('0' :: 'x' :: upperHex mask.toNat)

theorem hexChar_spec (d : Fin 16) : toDigit 16 (hexChar d) = some d.val ∧ isWhitespace (hexChar d) = false ∧
    hexChar d ≠ '+' ∧ hexChar d ≠ '-' ∧ hexChar d ≠ 'x' := by
  revert d
  decide

variable {b : Nat}

theorem toDigit_hexChar {d : Nat} (hb : b ≤ 16) (hd : d < b) : toDigit b (hexChar d) = some d := by
  have h := (hexChar_spec ⟨d, by omega⟩).1
  unfold toDigit at h ⊢
  obtain ⟨hraw, -⟩ := Option.filter_eq_some_iff.1 h
  exact Option.filter_eq_some_iff.2 ⟨hraw, by simpa using hd⟩

def numeral (b : Nat) (ds : List Nat) : Nat := ds.foldl (fun a d => a * b + d) 0

theorem le_foldl_digits (hb : 0 < b) (ds : List Nat) : ∀ acc, acc ≤ ds.foldl (fun a d => a * b + d) acc := by
  induction ds with
  | nil => exact fun acc => Nat.le_refl acc
  | cons d ds ih =>
    intro acc
    have hmul : acc ≤ acc * b := Nat.le_mul_of_pos_right acc hb
    have := ih (acc * b + d)
    rw [foldl_cons]
    omega

theorem parseDigits_map_hexChar (hb : 0 < b) (hb16 : b ≤ 16) : ∀ (ds : List Nat) (acc : Nat), (∀ d ∈ ds, d < b) →
    ds.foldl (fun a d => a * b + d) acc < 2 ^ 128 →
    parseDigits b acc (ds.map hexChar) = some (ds.foldl (fun a d => a * b + d) acc)
  | [], acc, _, _ => rfl
  | d :: ds, acc, hd, hlt => by
    have hle := le_foldl_digits hb ds (acc * b + d)
    rw [foldl_cons] at hlt ⊢
    rw [map_cons, parseDigits, toDigit_hexChar hb16 (hd d mem_cons_self)]
    simp only
    rw [if_pos (by omega)]
    exact parseDigits_map_hexChar hb hb16 ds _ (fun e he => hd e (mem_cons_of_mem d he)) hlt

theorem fromStrRadix_map_hexChar (hb : 0 < b) (hb16 : b ≤ 16) {ds : List Nat} (hne : ds ≠ [])
    (hd : ∀ d ∈ ds, d < b) (hlt : numeral b ds < 2 ^ 128) :
    fromStrRadix b (ds.map hexChar) = some (BitVec.ofNat 128 (numeral b ds)) := by
  have hdig := parseDigits_map_hexChar hb hb16 ds 0 hd hlt
  cases ds with
  | nil => exact absurd rfl hne
  | cons d ds =>
    have hlt16 : d < 16 := Nat.lt_of_lt_of_le (hd d mem_cons_self) hb16
    obtain ⟨-, -, hplus, hminus, -⟩ := hexChar_spec ⟨d, hlt16⟩
    rw [map_cons] at hdig ⊢
    unfold fromStrRadix
    split <;> simp_all [numeral]

def digitsOf (b n : Nat) : List Nat := if n = 0 then [0] else (Nat.digits b n).reverse

theorem numeral_digitsOf (hb : 1 < b) (n : Nat) :
    numeral b (digitsOf b n) = n ∧ digitsOf b n ≠ [] ∧ ∀ d ∈ digitsOf b n, d < b := by
  unfold digitsOf
  split
  · rename_i h
    exact ⟨by simp [numeral, h], by simp, fun d hd => by simp at hd; omega⟩
  rename_i h
  refine ⟨?_, fun hnil => ?_, fun d hd => Nat.digits_lt_base hb (mem_reverse.1 hd)⟩
  · conv => rhs; rw [← Nat.ofDigits_digits b n, Nat.ofDigits_eq_foldr]
    rw [numeral, foldl_reverse]
    simp only [Nat.mul_comm, Nat.add_comm, Nat.cast_id]
  · exact absurd (reverse_eq_nil_iff.1 hnil) (Nat.digits_ne_nil_iff_ne_zero.2 h)

theorem upperHex_eq (n : Nat) : upperHex n = (digitsOf 16 n).map hexChar := by
  unfold upperHex digitsOf
  split <;> rfl

theorem trim_of_forall {s : List Char} (h : ∀ c ∈ s, isWhitespace c = false) : trim s = s := by
  have hdrop : ∀ t : List Char, (∀ c ∈ t, isWhitespace c = false) → t.dropWhile isWhitespace = t
    | [], _ => rfl
    | c :: t, ht => dropWhile_cons_of_neg (by simp [ht c mem_cons_self])
  unfold trim
  rw [hdrop s h, hdrop s.reverse (fun c hc => h c (mem_reverse.1 hc)), reverse_reverse]

theorem parseBitmask_maskText (mask : BitVec 128) : parseBitmask (some (maskText mask)) = ⟨mask⟩ := by
  obtain ⟨hval, hne, hd⟩ := numeral_digitsOf (show 1 < 16 by decide) mask.toNat
  have hws : ∀ c ∈ '0' :: 'x' :: upperHex mask.toNat, isWhitespace c = false := by
    intro c hc
    rcases mem_cons.1 hc with rfl | hc
    · decide
    rcases mem_cons.1 hc with rfl | hc
    · decide
    · rw [upperHex_eq] at hc
      obtain ⟨e, he, rfl⟩ := mem_map.1 hc
      exact (hexChar_spec ⟨e, hd e he⟩).2.1
  have hparse : fromStrRadix 16 (upperHex mask.toNat) = some mask := by
    rw [upperHex_eq, fromStrRadix_map_hexChar (by decide) (by decide) hne hd (by rw [hval]; exact mask.isLt), hval,
      BitVec.ofNat_toNat, BitVec.setWidth_eq]
  unfold parseBitmask maskText
  simp only [Option.map_some, String.toList_ofList, trim_of_forall hws]
  simp [Option.filter, hparse]

/-! ## Register definitions -/

def formatOf (valueType : ValueType) (endian : EndianCfg) (wordOrder : WordOrderCfg) (resolution : BitVec 64)
    (bf : BitField) (alignment : AlignmentCfg) (length : Nat) : Format :=
  let res : Resolution := ⟨resolution⟩
  let endian := endian.into
  let wo := wordOrder.into
  match valueType with
  | .u8 => .numeric ⟨.u8, endian, wo, res, bf⟩
  | .u16 => .numeric ⟨.u16, endian, wo, res, bf⟩
  | .u32 => .numeric ⟨.u32, endian, wo, res, bf⟩
  | .u64 => .numeric ⟨.u64, endian, wo, res, bf⟩
  | .u128 => .numeric ⟨.u128, endian, wo, res, bf⟩
  | .i8 => .numeric ⟨.i8, endian, wo, res, bf⟩
  | .i16 => .numeric ⟨.i16, endian, wo, res, bf⟩
  | .i32 => .numeric ⟨.i32, endian, wo, res, bf⟩
  | .i64 => .numeric ⟨.i64, endian, wo, res, bf⟩
  | .i128 => .numeric ⟨.i128, endian, wo, res, bf⟩
  | .f32 => .float ⟨.f32, endian, wo, res⟩
  | .f64 => .float ⟨.f64, endian, wo, res⟩
  | .ascii => .ascii alignment.into length

def addressOf (isVirtual : Bool) (address : Option (BitVec 16)) : Address :=
  match isVirtual, address with
  | false, some addr => .fixed addr
  | _, _ => .virtual

structure NamedValue where
  name : String
  value : Scalar
  deriving DecidableEq, Repr

structure RegisterDef where
  slaveId : BitVec 8
  kind : Kind
  address : Option (BitVec 16)
  isVirtual : Bool
  access : AccessCfg
  valueType : ValueType
  endian : EndianCfg
  wordOrder : WordOrderCfg
  resolution : BitVec 64
  bitmask : Option String
  length : Nat
  alignment : AlignmentCfg
  values : List NamedValue
  update : Option String
  description : String
  default : Option Scalar
  deriving DecidableEq, Repr

def RegisterDef.format (d : RegisterDef) : Format :=
  formatOf d.valueType d.endian d.wordOrder d.resolution (parseBitmask d.bitmask) d.alignment d.length

def RegisterDef.register (d : RegisterDef) : Register where
  slaveId := d.slaveId
  access := d.access.into
  kind := d.kind
  address := addressOf d.isVirtual d.address
  format := d.format

def RegisterDef.memRange (d : RegisterDef) : Option Range :=
  match addressOf d.isVirtual d.address with
  | .fixed addr => some (Range.new addr.toNat d.format.width)
  | .virtual => none

def accessCfg : Codec.Access → AccessCfg
  | .readOnly => .readOnly
  | .writeOnly => .writeOnly
  | .readWrite => .readWrite

def endianCfg : Endian → EndianCfg
  | .big => .big
  | .little => .little

def wordOrderCfg : WordOrder → WordOrderCfg
  | .normal => .normal
  | .reversed => .reversed

def alignmentCfg : Codec.Alignment → AlignmentCfg
  | .left => .left
  | .right => .right

def integerType : IntKind → ValueType
  | .u8 => .u8
  | .u16 => .u16
  | .u32 => .u32
  | .u64 => .u64
  | .u128 => .u128
  | .i8 => .i8
  | .i16 => .i16
  | .i32 => .i32
  | .i64 => .i64
  | .i128 => .i128

def floatType : FloatKind → ValueType
  | .f32 => .f32
  | .f64 => .f64

def syncFormat (d : RegisterDef) : Format → RegisterDef
  | .numeric nf =>
    { d with
      valueType := integerType nf.kind, endian := endianCfg nf.endian, wordOrder := wordOrderCfg nf.wordOrder
      resolution := nf.resolution.bits
      bitmask := if nf.bitField.isFull then none else some (maskText nf.bitField.mask) }
  | .float ff =>
    { d with
      valueType := floatType ff.kind, endian := endianCfg ff.endian, wordOrder := wordOrderCfg ff.wordOrder
      resolution := ff.resolution.bits, bitmask := none }
  | .ascii align width =>
    { d with valueType := .ascii, alignment := alignmentCfg align, length := width, bitmask := none }

def syncRegisterDef (d : RegisterDef) (r : Register) : RegisterDef :=
  let d := { d with slaveId := r.slaveId, access := accessCfg r.access, kind := r.kind }
  let d :=
    match r.address with
    | .fixed addr => { d with address := some addr, isVirtual := false }
    | .virtual => { d with address := none, isVirtual := true }
  syncFormat d r.format

theorem parseBitmask_written (bf : BitField) : parseBitmask (if bf.isFull then none else some (maskText bf.mask)) = bf := by
  split
  · rename_i hfull
    have hmask : bf.mask = BitVec.allOnes 128 := by simpa [BitField.isFull] using hfull
    exact congrArg BitField.mk hmask.symm
  · exact parseBitmask_maskText bf.mask

theorem format_syncFormat (d : RegisterDef) (f : Format) : (syncFormat d f).format = f := by
  cases f with
  | numeric nf =>
    obtain ⟨k, e, w, r, bf⟩ := nf
    simp only [syncFormat, RegisterDef.format, parseBitmask_written]
    cases k <;> cases e <;> cases w <;> rfl
  | float ff =>
    obtain ⟨k, e, w, r⟩ := ff
    cases k <;> cases e <;> cases w <;> rfl
  | ascii a w => cases a <;> rfl

theorem syncFormat_frame (d : RegisterDef) (f : Format) :
    (syncFormat d f).slaveId = d.slaveId ∧ (syncFormat d f).kind = d.kind ∧ (syncFormat d f).address = d.address ∧
      (syncFormat d f).isVirtual = d.isVirtual ∧ (syncFormat d f).access = d.access := by
  cases f <;> exact ⟨rfl, rfl, rfl, rfl, rfl⟩

theorem register_syncRegisterDef (d : RegisterDef) (r : Register) : (syncRegisterDef d r).register = r := by
  obtain ⟨slave, access, kind, address, format⟩ := r
  unfold syncRegisterDef RegisterDef.register
  simp only
  rw [format_syncFormat, (syncFormat_frame _ format).1, (syncFormat_frame _ format).2.1,
    (syncFormat_frame _ format).2.2.1, (syncFormat_frame _ format).2.2.2.1, (syncFormat_frame _ format).2.2.2.2]
  cases address <;> cases access <;> rfl

/-- **Saving an edited register loses nothing**, whatever the definition was: the synced one stands for the register, its mask
read back from the text, and keeps what is not the register's. -/
theorem edited_register_saved (d : RegisterDef) (r : Register) : (syncRegisterDef d r).register = r ∧
    (∀ nf, r.format = .numeric nf → parseBitmask (syncRegisterDef d r).bitmask = nf.bitField) ∧
    ((syncRegisterDef d r).values = d.values ∧ (syncRegisterDef d r).update = d.update ∧
      (syncRegisterDef d r).description = d.description ∧ (syncRegisterDef d r).default = d.default) := by
  refine ⟨register_syncRegisterDef d r, fun nf hnf => ?_, ?_⟩
  · unfold syncRegisterDef
    rw [hnf]
    exact parseBitmask_written nf.bitField
  · obtain ⟨slave, access, kind, address, format⟩ := r
    cases address <;> cases format <;> exact ⟨rfl, rfl, rfl, rfl⟩

end Ferrowl.Modbus
