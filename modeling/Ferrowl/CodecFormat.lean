import Ferrowl.StoreCell
/-!
# CodecFormat — register formats and values

The types of `ferrowl-codec`: how the words of a register are interpreted (`format/`), the typed values (`value.rs`), the
register description (`lib.rs`) and the codec's errors.  Integers and floats are held as bit patterns: the codec moves bits, and
a signed integer, an unsigned one and a float of the same width differ only in how they are shown.
-/
namespace Ferrowl.Codec

open Store (Word)

inductive Alignment where
  | left
  | right
  deriving DecidableEq, Repr

inductive Endian where
  | little
  | big
  deriving DecidableEq, Repr

inductive WordOrder where
  | normal
  | reversed
  deriving DecidableEq, Repr

inductive IntKind where
  | u8 | u16 | u32 | u64 | u128
  | i8 | i16 | i32 | i64 | i128
  deriving DecidableEq, Repr

def IntKind.bits : IntKind → Nat
  | .u8 | .i8 => 8
  | .u16 | .i16 => 16
  | .u32 | .i32 => 32
  | .u64 | .i64 => 64
  | .u128 | .i128 => 128

def IntKind.registerWidth (k : IntKind) : Nat := max k.bits 16 / 16

inductive FloatKind where
  | f32 | f64
  deriving DecidableEq, Repr

def FloatKind.bits : FloatKind → Nat
  | .f32 => 32
  | .f64 => 64

def FloatKind.registerWidth (k : FloatKind) : Nat := k.bits / 16

structure Resolution where
  bits : BitVec 64
  deriving DecidableEq, Repr

def Resolution.default : Resolution := ⟨0x3FF0000000000000#64⟩

/-- The bits an integer format selects; the shift is derived from the mask. -/
structure BitField where
  mask : BitVec 128
  deriving DecidableEq, Repr

def BitField.default : BitField := ⟨BitVec.allOnes 128⟩

def BitField.shift (bf : BitField) : Nat := if bf.mask = 0 then 0 else bf.mask.ctz.toNat

def BitField.isFull (bf : BitField) : Bool := bf.mask == BitVec.allOnes 128

def BitField.fits (bf : BitField) (bits : Nat) : Bool :=
  if bf.isFull then true
  else
    let limit := if bits ≥ 128 then BitVec.allOnes 128 else (1#128 <<< bits) - 1
    bf.mask.ule limit

variable {bf : BitField}

theorem BitField.getLsbD_of_lt_shift {i : Nat} (h : i < bf.shift) : bf.mask.getLsbD i = false := by
  unfold BitField.shift at h
  split at h
  · omega
  · exact BitVec.getLsbD_false_of_lt_ctz h

theorem BitField.shift_of_isFull (h : bf.isFull = true) : bf.shift = 0 := by
  have hm : bf.mask = BitVec.allOnes 128 := by simpa [BitField.isFull] using h
  rcases Nat.eq_zero_or_pos bf.shift with h0 | hpos
  · exact h0
  · have hbit := BitField.getLsbD_of_lt_shift hpos
    rw [hm] at hbit
    simp at hbit

theorem BitField.of_fits {bits : Nat} (h : bf.fits bits = true) :
    bf.isFull = true ∨ ∀ i, bits ≤ i → bf.mask.getLsbD i = false := by
  unfold BitField.fits at h
  split at h
  · rename_i hf
    exact Or.inl hf
  refine Or.inr (fun i hi => ?_)
  by_cases hb : bits ≥ 128
  · exact BitVec.getLsbD_of_ge _ _ (Nat.le_trans hb hi)
  have hlt : bf.mask.toNat < 2 ^ bits := by
    simp only [hb, if_false, BitVec.ule, decide_eq_true_eq] at h
    have hone : (1#128 <<< bits).toNat = 2 ^ bits := by
      rw [BitVec.toNat_shiftLeft, Nat.shiftLeft_eq]
      simp only [BitVec.toNat_ofNat]
      have : 2 ^ bits < 2 ^ 128 := Nat.pow_lt_pow_right (by decide) (by omega)
      omega
    have hpos : 0 < 2 ^ bits := Nat.two_pow_pos bits
    have hsub : ((1#128 <<< bits) - 1).toNat = 2 ^ bits - 1 := by
      rw [BitVec.toNat_sub_of_le, hone]
      · rfl
      · rw [BitVec.le_def, hone]
        exact hpos
    omega
  rw [← BitVec.testBit_toNat]
  exact Nat.testBit_lt_two_pow (Nat.lt_of_lt_of_le hlt (Nat.pow_le_pow_right (by decide) hi))

structure NumericFormat where
  kind : IntKind
  endian : Endian
  wordOrder : WordOrder
  resolution : Resolution
  bitField : BitField
  deriving DecidableEq, Repr

structure FloatFormat where
  kind : FloatKind
  endian : Endian
  wordOrder : WordOrder
  resolution : Resolution
  deriving DecidableEq, Repr

inductive Format where
  | numeric (nf : NumericFormat)
  | float (ff : FloatFormat)
  | ascii (alignment : Alignment) (width : Nat)
  deriving DecidableEq, Repr

def Format.width : Format → Nat
  | .numeric nf => nf.kind.registerWidth
  | .float ff => ff.kind.registerWidth
  | .ascii _ w => w

def Format.wordOrder : Format → WordOrder
  | .numeric nf => nf.wordOrder
  | .float ff => ff.wordOrder
  | .ascii _ _ => .normal

inductive NumericPrimitive where
  | int (kind : IntKind) (pattern : BitVec kind.bits)
  | float (kind : FloatKind) (pattern : BitVec kind.bits)

inductive Value where
  | numeric (p : NumericPrimitive) (r : Resolution)
  | ascii (s : String)

inductive CodecError where
  | tooFewBytes (format : Format)
  | packedAscii
  | parseInt
  | parseFloat
  | valueFormatMismatch (format : Format)
  | bitFieldWidth (format : Format)
  deriving DecidableEq

inductive Access where
  | readOnly
  | writeOnly
  | readWrite
  deriving DecidableEq, Repr

inductive Kind where
  | coil
  | discreteInput
  | holdingRegister
  | inputRegister
  deriving DecidableEq, Repr

inductive Address where
  | fixed (address : BitVec 16)
  | virtual
  deriving DecidableEq, Repr

structure Register where
  slaveId : BitVec 8
  access : Access
  kind : Kind
  address : Address
  format : Format
  deriving DecidableEq, Repr

end Ferrowl.Codec
