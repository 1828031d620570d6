import Ferrowl.Codec
import Ferrowl.Device
/-!
# CodecText — values typed in and shown

The text side of `ferrowl-codec`: `parse_value` and `encode` of `codec.rs`, and the display of an unscaled value and `as_hex_str`
of `value.rs`.

The standard library's conversions between floats and text are parameters; why a number did not parse is not kept.
-/
namespace Ferrowl.Codec

open List Option

open Store (Word)
open Modbus (hexChar upperHex fromStrRadix parseDigits numeral digitsOf hexChar_spec numeral_digitsOf upperHex_eq
  parseDigits_map_hexChar fromStrRadix_map_hexChar)

def IntKind.signed : IntKind → Bool
  | .u8 | .u16 | .u32 | .u64 | .u128 => false
  | .i8 | .i16 | .i32 | .i64 | .i128 => true

/-! ## Typing a value in -/

def uintFromStr (bits radix : Nat) (s : List Char) : Option (BitVec bits) :=
  ((fromStrRadix radix s).filter (fun n => n.toNat < 2 ^ bits)).map (BitVec.setWidth bits)

def intFromStr (bits : Nat) (s : List Char) : Option (BitVec bits) :=
  match s with
  | '-' :: digits =>
    if digits.isEmpty then none
    else ((parseDigits 10 0 digits).filter (· ≤ 2 ^ (bits - 1))).map (fun n => - BitVec.ofNat bits n)
  | s => ((fromStrRadix 10 s).filter (fun n => n.toNat < 2 ^ (bits - 1))).map (BitVec.setWidth bits)

/-- An integer of some kind: decimal, or a `0x` bit pattern, which a signed kind also takes negated. -/
def parseInt (k : IntKind) (s : List Char) : Option (BitVec k.bits) :=
  if k.signed then
    match s.dropPrefix? ['-', '0', 'x'] with
    | some hex => (uintFromStr k.bits 16 hex).map (fun n => - n)
    | none =>
      match s.dropPrefix? ['0', 'x'] with
      | some hex => uintFromStr k.bits 16 hex
      | none => intFromStr k.bits s
  else
    match s.dropPrefix? ['0', 'x'] with
    | some hex => uintFromStr k.bits 16 hex
    | none => uintFromStr k.bits 10 s

section
variable (readFloat : (k : FloatKind) → List Char → Option (BitVec k.bits))

def parseValue (format : Format) (s : String) : Except CodecError Value :=
  match format with
  | .numeric nf =>
    if !nf.bitField.fits nf.kind.bits then .error (.bitFieldWidth format)
    else
      match parseInt nf.kind s.toList with
      | some val => .ok (.numeric (.int nf.kind val) nf.resolution)
      | none => .error .parseInt
  | .float ff =>
    match s.toList.dropPrefix? ['0', 'x'] with
    | some hex =>
      match uintFromStr ff.kind.bits 16 hex with
      | some bits => .ok (.numeric (.float ff.kind bits) ff.resolution)
      | none => .error .parseInt
    | none =>
      match readFloat ff.kind s.toList with
      | some bits => .ok (.numeric (.float ff.kind bits) ff.resolution)
      | none => .error .parseFloat
  | .ascii _ _ => .ok (.ascii s)

def encode (format : Format) (s : String) : Except CodecError (List Word) :=
  (parseValue readFloat format s).bind (encodeValue format)

end

/-! ## Showing a value -/

def decimal (n : Nat) : List Char := (digitsOf 10 n).map hexChar

def decimalOf (k : IntKind) (val : BitVec k.bits) : List Char :=
  if k.signed then
    if val.toInt < 0 then '-' :: decimal val.toInt.natAbs else decimal val.toInt.natAbs
  else decimal val.toNat

inductive UnscaledValue where
  | numeric (p : NumericPrimitive)
  | ascii (s : String)

def Value.unscaled : Value → UnscaledValue
  | .numeric p _ => .numeric p
  | .ascii s => .ascii s

def UnscaledValue.display (showFloat : (k : FloatKind) → BitVec k.bits → List Char) : UnscaledValue → String
  | .numeric (.int k val) => String.ofList (decimalOf k val)
  | .numeric (.float k val) => String.ofList (showFloat k val)
  | .ascii s => s

def paddedHex (width n : Nat) : List Char := List.replicate (width - (upperHex n).length) '0' ++ upperHex n

def NumericPrimitive.asHexStr : NumericPrimitive → List Char
  | .int k val => '0' :: 'x' :: paddedHex (k.bits / 4) val.toNat
  | .float k val => '0' :: 'x' :: paddedHex (k.bits / 4) val.toNat

def Value.asHexStr : Value → String
  | .numeric p _ => String.ofList p.asHexStr
  | .ascii s => String.ofList ('0' :: 'x' :: (bytesOf s).flatMap (fun b => paddedHex 2 b.toNat))

/-! ## Typing back what is shown -/

theorem IntKind.two_pow_bits_le (k : IntKind) : 2 ^ k.bits ≤ 2 ^ 128 := Nat.pow_le_pow_right (by decide) k.bits_le

theorem IntKind.bits_pos (k : IntKind) : 0 < k.bits := by cases k <;> decide

theorem uintFromStr_map_hexChar {k : IntKind} {b : Nat} (hb : 0 < b) (hb16 : b ≤ 16) {ds : List Nat} (hne : ds ≠ [])
    (hd : ∀ d ∈ ds, d < b) {val : BitVec k.bits} (hval : numeral b ds = val.toNat) :
    uintFromStr k.bits b (ds.map hexChar) = some val := by
  have hbits : val.toNat < 2 ^ k.bits := val.isLt
  have hle := k.two_pow_bits_le
  have h128 : val.toNat < 2 ^ 128 := by omega
  rw [uintFromStr, fromStrRadix_map_hexChar hb hb16 hne hd (by omega), hval]
  have hnat : (BitVec.ofNat 128 val.toNat).toNat = val.toNat := by
    rw [BitVec.toNat_ofNat]
    exact Nat.mod_eq_of_lt h128
  rw [filter_some, hnat, if_pos (by simpa using hbits), map_some]
  congr 1
  apply BitVec.eq_of_toNat_eq
  rw [BitVec.toNat_setWidth, hnat]
  exact Nat.mod_eq_of_lt hbits

theorem paddedHex_eq (width n : Nat) : ∃ zeros, paddedHex width n = (List.replicate zeros 0 ++ digitsOf 16 n).map hexChar := by
  refine ⟨width - (upperHex n).length, ?_⟩
  rw [paddedHex, map_append, map_replicate, ← upperHex_eq]
  rfl

theorem numeral_replicate_zero (b zeros : Nat) (ds : List Nat) : numeral b (List.replicate zeros 0 ++ ds) = numeral b ds := by
  induction zeros with
  | zero => rfl
  | succ z ih =>
    rw [replicate_succ, cons_append, numeral, foldl_cons, Nat.zero_mul]
    exact ih

theorem uintFromStr_paddedHex (k : IntKind) (width : Nat) (val : BitVec k.bits) :
    uintFromStr k.bits 16 (paddedHex width val.toNat) = some val := by
  obtain ⟨zeros, heq⟩ := paddedHex_eq width val.toNat
  obtain ⟨hval, hne, hd⟩ := numeral_digitsOf (show 1 < 16 by decide) val.toNat
  rw [heq]
  refine uintFromStr_map_hexChar (by decide) (by decide) (by simp [hne]) (fun d hm => ?_)
    ((numeral_replicate_zero _ _ _).trans hval)
  rcases mem_append.1 hm with hz | hm
  · rw [eq_of_mem_replicate hz]
    decide
  · exact hd d hm

theorem dropPrefix?_decimal (n : Nat) : (decimal n).dropPrefix? ['0', 'x'] = none ∧
    (decimal n).dropPrefix? ['-', '0', 'x'] = none ∧ ('-' :: decimal n).dropPrefix? ['0', 'x'] = none ∧
    ('-' :: decimal n).dropPrefix? ['-', '0', 'x'] = none := by
  obtain ⟨-, hne, hd⟩ := numeral_digitsOf (show 1 < 10 by decide) n
  have hchar : ∀ c ∈ decimal n, c ≠ '-' ∧ c ≠ 'x' := by
    intro c hc
    obtain ⟨d, hm, rfl⟩ := mem_map.1 hc
    obtain ⟨-, -, -, hminus, hx⟩ := hexChar_spec ⟨d, Nat.lt_trans (hd d hm) (by decide)⟩
    exact ⟨hminus, hx⟩
  generalize decimal n = cs at hchar
  have hzero : cs.dropPrefix? ['0', 'x'] = none := by
    cases cs with
    | nil => rfl
    | cons c cs =>
      cases cs with
      | nil => by_cases h : c = '0' <;> simp [List.dropPrefix?, h]
      | cons c' cs => by_cases h : c = '0' <;> simp [List.dropPrefix?, h, (hchar c' (by simp)).2]
  refine ⟨hzero, ?_, ?_, ?_⟩
  · cases cs with
    | nil => rfl
    | cons c cs => simp [List.dropPrefix?, (hchar c (by simp)).1]
  · rfl
  · rw [← hzero]
    rfl

theorem IntKind.two_pow_bits (k : IntKind) : 2 ^ k.bits = 2 * 2 ^ (k.bits - 1) := by
  rw [← Nat.pow_succ', Nat.succ_eq_add_one, Nat.sub_add_cancel k.bits_pos]

theorem intFromStr_decimal {k : IntKind} {val : BitVec k.bits} (hpos : ¬ val.toInt < 0) :
    intFromStr k.bits (decimal val.toInt.natAbs) = some val := by
  obtain ⟨hval, hne, hd⟩ := numeral_digitsOf (show 1 < 10 by decide) val.toInt.natAbs
  have hint := BitVec.toInt_eq_toNat_cond val
  have hbits := val.isLt
  have hhalf := k.two_pow_bits
  have hle := k.two_pow_bits_le
  have hnat : val.toInt.natAbs = val.toNat := by
    split at hint <;> omega
  have hlt : val.toNat < 2 ^ (k.bits - 1) := by
    split at hint <;> omega
  have hfrom := fromStrRadix_map_hexChar (show 0 < 10 by decide) (by decide) hne hd (by omega)
  have hofnat : (BitVec.ofNat 128 val.toNat).toNat = val.toNat := by
    rw [BitVec.toNat_ofNat]
    exact Nat.mod_eq_of_lt (by omega)
  have hhead : ∀ cs, decimal val.toInt.natAbs ≠ '-' :: cs := by
    intro cs heq
    have hmem : '-' ∈ decimal val.toInt.natAbs := heq ▸ mem_cons_self
    obtain ⟨d, hm, hc⟩ := mem_map.1 hmem
    exact (hexChar_spec ⟨d, Nat.lt_trans (hd d hm) (by decide)⟩).2.2.2.1 hc
  unfold intFromStr
  split
  · rename_i digits heq
    exact absurd heq (hhead digits)
  rw [decimal, hfrom, hval, hnat, filter_some, hofnat, if_pos (by simpa using hlt), map_some]
  congr 1
  apply BitVec.eq_of_toNat_eq
  rw [BitVec.toNat_setWidth, hofnat]
  exact Nat.mod_eq_of_lt hbits

theorem intFromStr_negative {k : IntKind} {val : BitVec k.bits} (hneg : val.toInt < 0) :
    intFromStr k.bits ('-' :: decimal val.toInt.natAbs) = some val := by
  obtain ⟨hval, hne, hd⟩ := numeral_digitsOf (show 1 < 10 by decide) val.toInt.natAbs
  have hint := BitVec.toInt_eq_toNat_cond val
  have hbits := val.isLt
  have hhalf := k.two_pow_bits
  have hle := k.two_pow_bits_le
  have hnat : val.toInt.natAbs = 2 ^ k.bits - val.toNat ∧ 2 ^ (k.bits - 1) ≤ val.toNat := by
    split at hint <;> omega
  have hparse := parseDigits_map_hexChar (show 0 < 10 by decide) (by decide) (digitsOf 10 val.toInt.natAbs) 0 hd
    (by change numeral 10 _ < _; omega)
  change parseDigits 10 0 (decimal val.toInt.natAbs) = some (numeral 10 _) at hparse
  have hempty : (decimal val.toInt.natAbs).isEmpty = false := by simp [decimal, hne]
  have hfit : 2 ^ k.bits - val.toNat ≤ 2 ^ (k.bits - 1) := by omega
  rw [intFromStr, hempty, hparse, hval, hnat.1]
  simp only [Bool.false_eq_true, if_false, filter_some, decide_eq_true hfit, if_true, map_some, Option.some.injEq]
  apply BitVec.eq_of_toNat_eq
  rw [BitVec.toNat_neg, BitVec.toNat_ofNat]
  have hpos : 0 < val.toNat := by omega
  rw [Nat.mod_eq_of_lt (show 2 ^ k.bits - val.toNat < 2 ^ k.bits by omega)]
  have hsub : 2 ^ k.bits - (2 ^ k.bits - val.toNat) = val.toNat := by omega
  rw [hsub]
  exact Nat.mod_eq_of_lt hbits

theorem parseInt_decimalOf (k : IntKind) (val : BitVec k.bits) : parseInt k (decimalOf k val) = some val := by
  unfold parseInt decimalOf
  cases k.signed with
  | true =>
    obtain ⟨h1, h2, h3, h4⟩ := dropPrefix?_decimal val.toInt.natAbs
    by_cases hneg : val.toInt < 0
    · simp only [if_true, if_pos hneg, h3, h4]
      exact intFromStr_negative hneg
    · simp only [if_true, if_neg hneg, h1, h2]
      exact intFromStr_decimal hneg
  | false =>
    obtain ⟨hval, hne, hd⟩ := numeral_digitsOf (show 1 < 10 by decide) val.toNat
    simp only [Bool.false_eq_true, if_false, (dropPrefix?_decimal val.toNat).1]
    exact uintFromStr_map_hexChar (by decide) (by decide) hne hd hval

theorem parseInt_asHexStr (k : IntKind) (val : BitVec k.bits) :
    parseInt k (NumericPrimitive.asHexStr (.int k val)) = some val := by
  have hhex := uintFromStr_paddedHex k (k.bits / 4) val
  have hdrop : ∀ cs : List Char, ('0' :: 'x' :: cs).dropPrefix? ['0', 'x'] = some cs := by
    intro cs
    simp [List.dropPrefix?]
  have hminus : ∀ cs : List Char, ('0' :: 'x' :: cs).dropPrefix? ['-', '0', 'x'] = none := by
    intro cs
    simp [List.dropPrefix?]
  unfold parseInt NumericPrimitive.asHexStr
  cases k.signed <;> simp only [hdrop, hminus, if_true, Bool.false_eq_true, if_false] <;> exact hhex

section
variable (readFloat : (k : FloatKind) → List Char → Option (BitVec k.bits))

theorem encode_of_parseInt {nf : NumericFormat} {val : BitVec nf.kind.bits} {cs : List Char}
    (h : parseInt nf.kind cs = some val) (r : Resolution) :
    encode readFloat (.numeric nf) (String.ofList cs) = encodeValue (.numeric nf) (.numeric (.int nf.kind val) r) := by
  unfold encode parseValue
  simp only [String.toList_ofList, h]
  cases hf : nf.bitField.fits nf.kind.bits with
  | false => simp [encodeValue, encodeWords, hf, Except.bind, Except.map]
  | true =>
    simp only [Bool.not_true, Bool.false_eq_true, if_false]
    rfl

end

/-- **Displayed raw values can be typed back**, as the decimal text and as the hex pattern, which for a negative value is its
two's complement. -/
theorem displayed_values_typed_back (readFloat : (k : FloatKind) → List Char → Option (BitVec k.bits))
    (showFloat : (k : FloatKind) → BitVec k.bits → List Char) (nf : NumericFormat) (val : BitVec nf.kind.bits)
    (r : Resolution) :
    let v := Value.numeric (.int nf.kind val) r
    encode readFloat (.numeric nf) (v.unscaled.display showFloat) = encodeValue (.numeric nf) v ∧
      encode readFloat (.numeric nf) v.asHexStr = encodeValue (.numeric nf) v :=
  ⟨encode_of_parseInt readFloat (parseInt_decimalOf nf.kind val) r,
    encode_of_parseInt readFloat (parseInt_asHexStr nf.kind val) r⟩

/-! ## ASCII text -/

theorem length_bytesOf (s : String) : (bytesOf s).length = s.utf8ByteSize := by
  rw [bytesOf, length_map]
  rfl

theorem bytesOf_append (s t : String) : bytesOf (s ++ t) = bytesOf s ++ bytesOf t := by
  simp [bytesOf]

variable {t : String}

theorem utf8Of_eq_some {bytes : List Byte} : utf8Of bytes = some t ↔ bytes = bytesOf t := by
  have hback : ∀ bytes : List Byte, (bytes.map UInt8.ofBitVec).map UInt8.toBitVec = bytes := by
    intro bytes
    rw [List.map_map]
    exact map_id' bytes
  unfold utf8Of String.fromUTF8?
  constructor
  · intro h
    split at h
    · obtain rfl := Option.some.inj h
      exact (hback bytes).symm
    · cases h
  rintro rfl
  have harr : (⟨((bytesOf t).map UInt8.ofBitVec).toArray⟩ : ByteArray) = t.toByteArray := by
    simp only [bytesOf, List.map_map]
    have hid : UInt8.ofBitVec ∘ UInt8.toBitVec = id := rfl
    rw [hid, List.map_id, Array.toArray_toList]
  rw [harr, dif_pos t.isValidUTF8]
  rfl

variable {s : String}

theorem bytesOf_inj (h : bytesOf s = bytesOf t) : s = t :=
  Option.some.inj ((utf8Of_eq_some.2 rfl).symm.trans (utf8Of_eq_some.2 h))

theorem isValidUTF8_iff (arr : ByteArray) : arr.IsValidUTF8 ↔ ∃ t, utf8Of (arr.data.toList.map UInt8.toBitVec) = some t := by
  constructor
  · intro h
    exact ⟨String.ofByteArray arr h, utf8Of_eq_some.2 rfl⟩
  rintro ⟨t, ht⟩
  have hinj : Function.Injective UInt8.toBitVec := fun a b h => UInt8.toBitVec_inj.1 h
  have hdata : arr.data.toList = t.toByteArray.data.toList := map_injective_iff.2 hinj (utf8Of_eq_some.1 ht)
  have harr : arr = t.toByteArray := ByteArray.ext (Array.toList_inj.1 hdata)
  rw [harr]
  exact t.isValidUTF8

theorem bytesOf_extract (s : String) (i j : Nat) :
    (s.toByteArray.extract i j).data.toList.map UInt8.toBitVec = ((bytesOf s).take j).drop i := by
  rw [ByteArray.data_extract, Array.toList_extract, bytesOf, extract_eq_take_drop, drop_take, ← map_drop, ← map_take]

variable {k : Nat}

theorem utf8Of_take_iff_drop (hk : k ≤ s.utf8ByteSize) :
    (∃ t, utf8Of ((bytesOf s).take k) = some t) ↔ ∃ t, utf8Of ((bytesOf s).drop k) = some t := by
  have hle : (⟨k⟩ : String.Pos.Raw) ≤ s.rawEndPos := hk
  have htake := isValidUTF8_iff (s.toByteArray.extract 0 k)
  have hdrop := isValidUTF8_iff (s.toByteArray.extract k s.utf8ByteSize)
  rw [bytesOf_extract, drop_zero] at htake
  rw [bytesOf_extract, ← length_bytesOf, take_length] at hdrop
  have hpos := String.Pos.Raw.isValid_iff_isValidUTF8_extract_zero (s := s) (p := ⟨k⟩)
  rw [String.Pos.Raw.isValid_iff_isValidUTF8_extract_utf8ByteSize] at hpos
  rw [← htake, ← hdrop, length_bytesOf]
  exact ⟨fun h => (hpos.2 ⟨hle, h⟩).2, fun h => (hpos.1 ⟨hle, h⟩).2⟩

theorem eq_append_of_bytes {rest : String} (ht : (bytesOf s).take k = bytesOf t)
    (hrest : (bytesOf s).drop k = bytesOf rest) : s = t ++ rest := by
  apply bytesOf_inj
  rw [bytesOf_append, ← ht, ← hrest, take_append_drop]

theorem utf8Of_take (hk : k ≤ s.utf8ByteSize) :
    utf8Of ((bytesOf s).take k) = some t ↔ (∃ rest, s = t ++ rest) ∧ t.utf8ByteSize = k := by
  constructor
  · intro h
    obtain ⟨rest, hrest⟩ := (utf8Of_take_iff_drop hk).1 ⟨t, h⟩
    rw [utf8Of_eq_some] at h hrest
    refine ⟨⟨rest, eq_append_of_bytes h hrest⟩, ?_⟩
    rw [← length_bytesOf, ← h, length_take, length_bytesOf]
    omega
  · rintro ⟨⟨rest, rfl⟩, rfl⟩
    rw [utf8Of_eq_some, bytesOf_append, ← length_bytesOf, take_left]

theorem utf8Of_drop (hk : k ≤ s.utf8ByteSize) :
    utf8Of ((bytesOf s).drop k) = some t ↔ (∃ rest, s = rest ++ t) ∧ t.utf8ByteSize = s.utf8ByteSize - k := by
  constructor
  · intro h
    obtain ⟨rest, hrest⟩ := (utf8Of_take_iff_drop hk).2 ⟨t, h⟩
    rw [utf8Of_eq_some] at h hrest
    refine ⟨⟨rest, eq_append_of_bytes hrest h⟩, ?_⟩
    rw [← length_bytesOf, ← h, length_drop, length_bytesOf]
  rintro ⟨⟨rest, rfl⟩, hlen⟩
  have hk' : k = (bytesOf rest).length := by
    rw [String.utf8ByteSize_append] at hlen hk
    rw [length_bytesOf]
    omega
  rw [utf8Of_eq_some, bytesOf_append, hk', drop_left]

theorem wordBytes_pairWords : ∀ (w : Nat) (bytes : List Byte), bytes.length = 2 * w → wordBytes (pairWords bytes) = bytes
  | 0, [], _ => rfl
  | w + 1, [hi], h => by simp at h; omega
  | w + 1, hi :: lo :: bytes, h => by
    have ih := wordBytes_pairWords w bytes (by simp at h; omega)
    have hff : ∀ i, i < 8 → (0xFF#16).getLsbD i = true := by decide
    have hhigh : (pairWord hi lo >>> 8).setWidth 8 = hi := by
      apply BitVec.eq_of_getLsbD_eq
      intro j hj
      rw [BitVec.getLsbD_setWidth, BitVec.getLsbD_ushiftRight, getLsbD_pairWord hi lo (by omega), if_neg (by omega),
        decide_eq_true hj, Bool.true_and, Nat.add_sub_cancel_left]
    have hlow : (pairWord hi lo &&& 0xFF#16).setWidth 8 = lo := by
      apply BitVec.eq_of_getLsbD_eq
      intro j hj
      rw [BitVec.getLsbD_setWidth, BitVec.getLsbD_and, getLsbD_pairWord hi lo (by omega), if_pos hj, hff j hj,
        decide_eq_true hj, Bool.true_and, Bool.and_true]
    rw [pairWords, wordBytes, flatMap_cons, hhigh, hlow, ← wordBytes, ih]
    rfl

theorem length_alignBytes (a : Alignment) (w : Nat) (bytes : List Byte) : (alignBytes a w bytes).length = 2 * w := by
  cases a <;> simp only [alignBytes, length_take, length_append, length_replicate, length_drop] <;>
    omega

def nuls (n : Nat) : String := String.ofList (List.replicate n (Char.ofNat 0))

theorem bytesOf_nuls : ∀ n, bytesOf (nuls n) = List.replicate n 0
  | 0 => rfl
  | n + 1 => by
    have hcons : nuls (n + 1) = nuls 1 ++ nuls n := by
      rw [nuls, nuls, nuls, ← String.ofList_append, ← replicate_add, Nat.add_comm]
    rw [hcons, bytesOf_append, bytesOf_nuls n, replicate_succ]
    rfl

def paddedText (a : Alignment) (w : Nat) (s : String) : String :=
  match a with
  | .left => s ++ nuls (2 * w - s.utf8ByteSize)
  | .right => nuls (2 * w - s.utf8ByteSize) ++ s

/-- The part of a text that `2 * w` bytes keep: its start when aligned left, its end when aligned right. -/
def IsKept (a : Alignment) (w : Nat) (s t : String) : Prop :=
  (match a with
  | .left => ∃ rest, s = t ++ rest
  | .right => ∃ rest, s = rest ++ t) ∧ t.utf8ByteSize = 2 * w

theorem alignBytes_of_short (a : Alignment) {w : Nat} (h : s.utf8ByteSize ≤ 2 * w) :
    alignBytes a w (bytesOf s) = bytesOf (paddedText a w s) := by
  have hlen := length_bytesOf s
  cases a with
  | left =>
    rw [paddedText, bytesOf_append, bytesOf_nuls, alignBytes, ← hlen]
    refine take_of_length_le ?_
    rw [length_append, length_replicate]
    omega
  | right =>
    have hskip : (bytesOf s).length - 2 * w = 0 := by omega
    rw [paddedText, bytesOf_append, bytesOf_nuls, alignBytes, ← hlen, hskip, drop_zero]
    refine take_of_length_le ?_
    rw [length_append, length_replicate]
    omega

theorem utf8Of_alignBytes_of_long (a : Alignment) {w : Nat} (h : 2 * w < s.utf8ByteSize) :
    utf8Of (alignBytes a w (bytesOf s)) = some t ↔ IsKept a w s t := by
  have hlen := length_bytesOf s
  have hzero : 2 * w - (bytesOf s).length = 0 := by omega
  cases a with
  | left =>
    rw [alignBytes, hzero, replicate_zero, append_nil]
    exact utf8Of_take (Nat.le_of_lt h)
  | right =>
    have htake : ((bytesOf s).drop ((bytesOf s).length - 2 * w)).take (2 * w) =
        (bytesOf s).drop ((bytesOf s).length - 2 * w) := by
      refine take_of_length_le ?_
      rw [length_drop]
      omega
    have hdrop := utf8Of_drop (s := s) (t := t) (k := s.utf8ByteSize - 2 * w) (by omega)
    rw [alignBytes, hzero, replicate_zero, nil_append, htake, hlen, hdrop, IsKept]
    have hsize : s.utf8ByteSize - (s.utf8ByteSize - 2 * w) = 2 * w := by omega
    rw [hsize]

theorem decode_ascii (a : Alignment) {w : Nat} {words : List Word} (hw : words.length = w) : decode (.ascii a w) words =
    (utf8Of (wordBytes words)).elim (.error .packedAscii) fun s => .ok (.ascii s) := by
  have hwidth : (Format.ascii a w).width = w := rfl
  simp only [decode, hwidth, Format.wordOrder, orderWords, hw, Nat.lt_irrefl, if_false]
  rw [take_of_length_le (Nat.le_of_eq hw)]
  cases utf8Of (wordBytes words) <;> rfl

/-- **Text written to an ASCII register is read back**, padded with NULs on the side opposite to the alignment. Of a text that
is too long the first bytes are kept (left) or the last (right); the words do not decode if the cut is inside a character. -/
theorem ascii_text_read_back (readFloat : (k : FloatKind) → List Char → Option (BitVec k.bits)) (a : Alignment) (w : Nat)
    (s : String) : ∃ words, encode readFloat (.ascii a w) s = .ok words ∧ words.length = w ∧
      (s.utf8ByteSize ≤ 2 * w → decode (.ascii a w) words = .ok (.ascii (paddedText a w s))) ∧ (2 * w < s.utf8ByteSize →
        (∀ t, IsKept a w s t → decode (.ascii a w) words = .ok (.ascii t)) ∧
        ((¬ ∃ t, IsKept a w s t) → decode (.ascii a w) words = .error .packedAscii)) := by
  have hbytes := length_alignBytes a w (bytesOf s)
  have hwords : (intoVec (alignBytes a w (bytesOf s))).length = w := by
    rw [intoVec_eq, length_pairWords w _ hbytes]
  have hpack : wordBytes (intoVec (alignBytes a w (bytesOf s))) = alignBytes a w (bytesOf s) := by
    rw [intoVec_eq, wordBytes_pairWords w _ hbytes]
  have hdecode := decode_ascii a hwords
  rw [hpack] at hdecode
  refine ⟨intoVec (alignBytes a w (bytesOf s)), rfl, hwords, fun hshort => ?_, fun hlong => ⟨fun t ht => ?_, fun hno => ?_⟩⟩
  · rw [hdecode, alignBytes_of_short a hshort, utf8Of_eq_some.2 rfl]
    rfl
  · rw [hdecode, (utf8Of_alignBytes_of_long a hlong).2 ht]
    rfl
  rw [hdecode]
  cases hu : utf8Of (alignBytes a w (bytesOf s)) with
  | none => rfl
  | some t => exact absurd ⟨t, (utf8Of_alignBytes_of_long a hlong).1 hu⟩ hno

/-- Two bytes hold the letter before a two-byte letter and half of that letter: the words do not decode. -/
theorem cut_letter_not_read_back : encode (fun _ _ => none) (.ascii .left 1) "aé" = .ok [0x61C3#16] ∧
      decode (.ascii .left 1) [0x61C3#16] = .error .packedAscii := by
  refine ⟨?_, ?_⟩
  · exact congrArg Except.ok (by decide +kernel : intoVec (alignBytes .left 1 (bytesOf "aé")) = [0x61C3#16])
  · have hnone : utf8Of (wordBytes [0x61C3#16]) = none := by decide +kernel
    simp [decode, Format.width, Format.wordOrder, orderWords, hnone]

end Ferrowl.Codec
