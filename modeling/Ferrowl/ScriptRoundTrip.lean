import Ferrowl.ScriptBridge
/-!
# ScriptRoundTrip — a register read and set back by a script

Every integer travels to a script as a signed one of 128 bits and back through a range check of the register's kind.  Nine of the
ten kinds survive this; the upper half of the unsigned kind of 128 bits comes out negative and is rejected on the way back
(`get_then_set_iff`).
-/
namespace Ferrowl.Modbus

open Store (Range Memory Word)
open Codec (IntKind Register Value Resolution NumericFormat Address maskedRegister)
open RegisterBridge

theorem asHostInt_unsigned {k : IntKind} (hk : k.signed = false) {val : BitVec k.bits} (h : val.toNat < 2 ^ 127) :
    asHostInt k val = val.toNat := by
  have hsame : (val.setWidth 128).toNat = val.toNat := by
    rw [BitVec.toNat_setWidth]
    exact Nat.mod_eq_of_lt (by omega)
  rw [asHostInt, hk, if_neg Bool.false_ne_true, BitVec.toInt_eq_toNat_of_lt (by omega), hsame]

theorem toNat_lt_of_ne {k : IntKind} (hk : k.signed = false) (hne : k ≠ .u128) (val : BitVec k.bits) : val.toNat < 2 ^ 127 := by
  have hbits : k.bits ≤ 127 := by
    cases k <;> first | decide | exact absurd rfl hne | cases hk
  exact Nat.lt_of_lt_of_le val.isLt (Nat.pow_le_pow_right (by decide) hbits)

theorem ofInt_asHostInt (k : IntKind) (val : BitVec k.bits) : BitVec.ofInt k.bits (asHostInt k val) = val := by
  cases hk : k.signed with
  | true =>
    rw [asHostInt, if_pos hk]
    exact BitVec.ofInt_toInt
  | false =>
    by_cases hu : k = .u128
    · subst hu
      show BitVec.ofInt 128 (BitVec.setWidth 128 val).toInt = val
      rw [BitVec.ofInt_toInt]
      exact BitVec.setWidth_eq val
    · rw [asHostInt_unsigned hk (toNat_lt_of_ne hk hu val), BitVec.ofInt_natCast, BitVec.ofNat_toNat]
      exact BitVec.setWidth_eq val

theorem asHostInt_in_range_iff (k : IntKind) (val : BitVec k.bits) :
    (k = .i128 ∨ (minValue k ≤ asHostInt k val ∧ asHostInt k val ≤ maxValue k)) ↔ ¬ (k = .u128 ∧ 2 ^ 127 ≤ val.toNat) := by
  have hpos := k.bits_pos
  cases hk : k.signed with
  | true =>
    refine iff_of_true (Or.inr ?_) (fun h => by rw [h.1] at hk; cases hk)
    have hlo := BitVec.le_toInt val
    have hhi : val.toInt < 2 ^ (k.bits - 1) := BitVec.toInt_lt
    simp only [minValue, maxValue, asHostInt, hk, if_true]
    omega
  | false =>
    have hlt := val.isLt
    simp only [minValue, maxValue, hk, if_neg Bool.false_ne_true]
    by_cases hsmall : val.toNat < 2 ^ 127
    · rw [asHostInt_unsigned hk hsmall]
      refine iff_of_true (Or.inr ⟨by omega, ?_⟩) (fun h => by omega)
      have : (val.toNat : Int) < 2 ^ k.bits := by exact_mod_cast hlt
      omega
    have hu : k = .u128 := by
      by_contra hne
      exact hsmall (toNat_lt_of_ne hk hne val)
    subst hu
    have hneg : asHostInt .u128 val < 0 := by
      have hsame : (val.setWidth 128).toNat = val.toNat := by
        rw [BitVec.toNat_setWidth]
        exact Nat.mod_eq_of_lt hlt
      show (BitVec.setWidth 128 val).toInt < 0
      rw [BitVec.toInt_eq_toNat_cond, if_neg (by omega), hsame]
      have hlt' : val.toNat < 2 ^ 128 := hlt
      omega
    refine iff_of_false ?_ (fun h => h ⟨rfl, by omega⟩)
    rintro (h | h)
    · cases h
    · omega

section
variable {b : RegisterBridge} {name : String} {r : Register} {addr : BitVec 16} {nf : NumericFormat}

def fieldIn (nf : NumericFormat) (ws : List Word) : BitVec nf.kind.bits :=
  Codec.fieldOf nf.bitField nf.kind.bits
    (Codec.rawWords nf.endian nf.kind.registerWidth (Codec.orderWords nf.wordOrder ws))

theorem sameOwned_encoded (hnf : r.format = .numeric nf) {old : List Word} (ho : old.length = nf.kind.registerWidth) :
    Codec.SameOwned r.writeMask old (Codec.encoded nf (fieldIn nf old)) := by
  have hl := Codec.length_encoded nf (fieldIn nf old)
  rw [Codec.sameOwned_iff]
  intro i j hi hj hm
  rw [Codec.length_writeMask hnf] at hi
  have hmerge : ((r.mergeWrite old (Codec.encoded nf (fieldIn nf old)))[i]?.getD 0).getLsbD j = _ :=
    Codec.getLsbD_mergeWrite hnf hl hi hj
  rw [fieldIn, Codec.mergeWrite_decoded hnf ho, if_pos hm] at hmerge
  exact hmerge

theorem rawWordsFor_int (conv : Conversions) (name : String) (hnf : r.format = .numeric nf)
    (hf : nf.bitField.fits nf.kind.bits = true) (v : Int) :
    rawWordsFor conv name r (.int v) =
      if nf.kind = .i128 ∨ (minValue nf.kind ≤ v ∧ v ≤ maxValue nf.kind) then
        .ok (Codec.encoded nf (BitVec.ofInt nf.kind.bits v))
      else .error ("value " ++ toString v ++ " out of range for format " ++ conv.showFormat r.format) := by
  simp only [rawWordsFor, typedValueFromType, hnf, intValueForFormat]
  by_cases hrange : nf.kind = .i128 ∨ (minValue nf.kind ≤ v ∧ v ≤ maxValue nf.kind)
  · simp only [if_pos hrange, Codec.Register.encodeValue_eq hnf hf]
  · simp only [if_neg hrange]

theorem held_integer (hr : b.registers[name]? = some r) (ha : r.address = .fixed addr) (hnf : r.format = .numeric nf)
    {ws : List Word} (hread : b.memory.readUnchecked (keyOf r) (Range.new addr.toNat r.format.width) = some ws)
    (hlen : ws.length = nf.kind.registerWidth) : b.held name = if nf.bitField.fits nf.kind.bits = true then
      some (.numeric (.int nf.kind (fieldIn nf ws)) nf.resolution) else none := by
  simp only [held, hr, Option.bind_some, ha, hread]
  split
  · rename_i hf
    rw [Codec.Register.decode_of_length hnf hf hlen]
    rfl
  rename_i hf
  rw [Register.decode, hnf, Codec.decode, if_neg (by rw [hlen]; exact Nat.lt_irrefl _)]
  simp only [Bool.eq_false_iff.2 hf, Bool.not_false, if_true]
  rfl

theorem set_back_iff (conv : Conversions) (executing : Option ScriptId) (clock : Nat → Nat)
    (hr : b.registers[name]? = some r) (ha : r.address = .fixed addr) (hnf : r.format = .numeric nf)
    (hf : nf.bitField.fits nf.kind.bits = true) {ws : List Word}
    (hread : b.memory.readUnchecked (keyOf r) (Range.new addr.toNat r.format.width) = some ws)
    (hlen : ws.length = nf.kind.registerWidth) :
    (b.write conv executing clock name (.int (asHostInt nf.kind (fieldIn nf ws)))).result = .ok () ∧
        (b.write conv executing clock name (.int (asHostInt nf.kind (fieldIn nf ws)))).bridge.held name = b.held name ↔
      ¬ (nf.kind = .u128 ∧ 2 ^ 127 ≤ (fieldIn nf ws).toNat) := by
  have hraw := rawWordsFor_int conv name hnf hf (asHostInt nf.kind (fieldIn nf ws))
  rw [ofInt_asHostInt] at hraw
  rw [← asHostInt_in_range_iff]
  constructor
  · rintro ⟨hok, -⟩
    obtain ⟨raw, hsome, -⟩ := write_ok conv executing clock hr ha hok
    by_contra hout
    rw [hraw, if_neg hout] at hsome
    cases hsome
  intro hin
  rw [if_pos hin] at hraw
  have hwidth : r.format.width = (Codec.encoded nf (fieldIn nf ws)).length := by
    rw [Codec.length_encoded, hnf]
    rfl
  have hw : (b.memory.writeUnchecked (keyOf r) (Range.new addr.toNat (Codec.encoded nf (fieldIn nf ws)).length)
      (Codec.encoded nf (fieldIn nf ws))).1 = true := by
    rw [← hwidth]
    exact Memory.writeUnchecked_of_read hread (by rw [Range.new_length, hwidth])
  have hok := write_of_declared conv executing clock hr ha hraw hw
  refine ⟨hok, ?_⟩
  obtain ⟨raw, hsome, hw', hbridge⟩ := write_ok conv executing clock hr ha hok
  obtain rfl : Codec.encoded nf (fieldIn nf ws) = raw := Except.ok.inj (hraw.symm.trans hsome)
  have hheld := held_integer hr ha hnf hread hlen
  rw [if_pos hf] at hheld
  rw [hbridge, hheld, held_stored_iff hr hw hheld]
  intro addr' ha' _ i j hi hj hij
  obtain rfl : addr = addr' := Address.fixed.inj (ha.symm.trans ha')
  obtain rfl : i = j := by omega
  have hword : ws[i]?.getD 0 = b.memory.valueAt (keyOf r) (addr.toNat + i) := by
    rw [Memory.readUnchecked_some hread, getD_new_addrs_map _ _ hj]
  have him : i < r.writeMask.length := by
    rw [Codec.length_writeMask hnf, ← Codec.length_encoded nf (fieldIn nf ws)]
    exact hi
  have hown := sameOwned_encoded hnf hlen i him
  rw [hword] at hown
  exact hown.symm

end

/-- **Reading a register and setting it back** leaves it as it was exactly when the value is not a `U128` in the upper half of
its range: that one arrives as a negative number, which the range check of the same kind rejects. -/
theorem get_then_set_iff (conv : Conversions) (executing : Option ScriptId) (clock : Nat → Nat) (b : RegisterBridge)
    (name : String) (r : Register) (addr : BitVec 16) (nf : NumericFormat) (hr : b.registers[name]? = some r)
    (ha : r.address = .fixed addr) (hnf : r.format = .numeric nf)
    (hcover : ∀ a ∈ Range.new addr.toNat r.format.width, (b.memory.cellAt (keyOf r) a).isSome = true) :
    ((∃ value, b.read conv name = .ok value) ↔ nf.bitField.fits nf.kind.bits = true) ∧
    ∀ value, b.read conv name = .ok value → ∃ field : BitVec nf.kind.bits,
      b.held name = some (.numeric (.int nf.kind field) nf.resolution) ∧
      ((b.write conv executing clock name value).result = .ok () ∧
          (b.write conv executing clock name value).bridge.held name = b.held name ↔
        ¬ (nf.kind = .u128 ∧ 2 ^ 127 ≤ field.toNat)) := by
  have hread := Memory.readUnchecked_of_declared (Register.width_pos hnf) hcover
  have hlen : ((Range.new addr.toNat r.format.width).addrs.map (b.memory.valueAt (keyOf r))).length =
      nf.kind.registerWidth := by
    rw [length_new_addrs_map, hnf]
    rfl
  have hfield := held_integer hr ha hnf hread hlen
  simp only [read_ok]
  by_cases hf : nf.bitField.fits nf.kind.bits = true
  · rw [if_pos hf] at hfield
    refine ⟨iff_of_true ⟨_, _, hfield, rfl⟩ hf, ?_⟩
    rintro value ⟨v, hv, rfl⟩
    obtain rfl := Option.some.inj (hfield.symm.trans hv)
    exact ⟨_, hfield, set_back_iff conv executing clock hr ha hnf hf hread hlen⟩
  rw [if_neg hf] at hfield
  refine ⟨iff_of_false ?_ hf, ?_⟩
  · rintro ⟨value, v, hv, -⟩
    rw [hfield] at hv
    cases hv
  · rintro value ⟨v, hv, -⟩
    rw [hfield] at hv
    cases hv

/-- The low byte read and set back. -/
theorem low_byte_get_then_set :
    ((∃ value, bytePair.read integersOnly "low" = .ok value) ↔ (Codec.BitField.mk 0xFF#128).fits 16 = true) ∧
    ∀ value, bytePair.read integersOnly "low" = .ok value → ∃ field : BitVec 16,
      bytePair.held "low" = some (.numeric (.int .u16 field) Resolution.default) ∧
      ((bytePair.write integersOnly none id "low" value).result = .ok () ∧
          (bytePair.write integersOnly none id "low" value).bridge.held "low" = bytePair.held "low" ↔
        ¬ (IntKind.u16 = .u128 ∧ 2 ^ 127 ≤ field.toNat)) :=
  get_then_set_iff integersOnly none id bytePair "low" (maskedRegister 0xFF#128) 7 (Codec.maskedU16 0xFF#128) bytePair_low
    rfl rfl (fun a ha => by
      have hcells : ∀ i < 8, 7 ≤ i → (sharedCell.cellAt ⟨1, .holdingRegister⟩ i).isSome = true := by decide
      exact hcells a ha.2 ha.1)

def wideFormat : NumericFormat := ⟨.u128, .big, .normal, Resolution.default, Codec.BitField.default⟩

def wideRegister : Register := ⟨1, .readWrite, .holdingRegister, .fixed 0, .numeric wideFormat⟩

def wideBridge : RegisterBridge where
  memory := (Memory.writeUnchecked ((Memory.empty SlaveKey).addRanges ⟨1, .holdingRegister⟩ (memKind .holdingRegister)
    [Range.new 0 8]).2 ⟨1, .holdingRegister⟩ (Range.new 0 8) (List.replicate 8 0xFFFF#16)).2
  virtualStore := ∅
  registers := Std.HashMap.insert ∅ "wide" wideRegister

theorem wideBridge_wide : wideBridge.registers["wide"]? = some wideRegister := by
  rw [wideBridge, Std.HashMap.getElem?_insert]
  rfl

/-- **A `Get` a `Set` does not take back**: the script reads `-1` for the largest `U128`, and cannot write it. -/
theorem largest_u128_not_set_back : wideBridge.read integersOnly "wide" = .ok (.int (-1)) ∧
      (wideBridge.write integersOnly none id "wide" (.int (-1))).result =
        .error ("value -1 out of range for format " ++ integersOnly.showFormat wideRegister.format) := by
  constructor
  · refine (read_ok integersOnly).2 ⟨.numeric (.int .u128 (BitVec.allOnes 128)) Resolution.default, ?_, by decide⟩
    refine (held_fixed wideBridge_wide rfl).2 ⟨List.replicate 8 0xFFFF#16, by decide, ?_⟩
    have hformat : wideRegister.format = .numeric wideFormat := rfl
    have hfield : Codec.fieldOf wideFormat.bitField 128 (Codec.rawWords .big 8 (List.replicate 8 0xFFFF#16)) =
        BitVec.allOnes 128 := by decide +kernel
    rw [← hfield]
    exact Codec.Register.decode_of_length hformat (by decide) rfl
  · unfold RegisterBridge.write register
    rw [wideBridge_wide]
    have hraw : rawWordsFor integersOnly "wide" wideRegister (.int (-1)) =
        .error ("value -1 out of range for format " ++ integersOnly.showFormat wideRegister.format) := by decide
    simp only [hraw]
    rfl

end Ferrowl.Modbus
