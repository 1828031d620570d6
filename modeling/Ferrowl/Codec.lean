import Ferrowl.CodecBytes
/-!
# Codec — decoding, encoding and merging register words

`ferrowl-codec`'s `codec.rs` and the write path of `lib.rs`: `decode`, `encode_value`, `mask_words` and `Register::merge_write`. 
A byte-wide kind occupies a register of its own, so its number is 16 bits wide here as there.
-/
namespace Ferrowl.Codec

open Store (Word)

/-- The field a bit mask selects from a raw number: masked and shifted down, then narrowed to the kind. -/
def fieldOf {n : Nat} (bf : BitField) (bits : Nat) (raw : BitVec n) : BitVec bits :=
  ((raw.setWidth 128 &&& bf.mask) >>> bf.shift).setWidth bits

def placeOf {bits : Nat} (bf : BitField) (val : BitVec bits) : BitVec bits :=
  ((val.setWidth 128 <<< bf.shift) &&& bf.mask).setWidth bits

def utf8Of (bytes : List Byte) : Option String := String.fromUTF8? ⟨(bytes.map UInt8.ofBitVec).toArray⟩

def bytesOf (s : String) : List Byte := s.toByteArray.data.toList.map UInt8.toBitVec

def decode (format : Format) (bytes : List Word) : Except CodecError Value :=
  if bytes.length < format.width then .error (.tooFewBytes format)
  else
    let words := orderWords format.wordOrder (bytes.take format.width)
    match format with
    | .numeric nf =>
      if !nf.bitField.fits nf.kind.bits then .error (.bitFieldWidth format)
      else
        let raw := rawWords nf.endian nf.kind.registerWidth words
        .ok (.numeric (.int nf.kind (fieldOf nf.bitField nf.kind.bits raw)) nf.resolution)
    | .float ff =>
      let raw := rawWords ff.endian ff.kind.registerWidth words
      .ok (.numeric (.float ff.kind (raw.setWidth ff.kind.bits)) ff.resolution)
    | .ascii _ _ =>
      match utf8Of (wordBytes words) with
      | some s => .ok (.ascii s)
      | none => .error .packedAscii

def layByte (e : Endian) (val : Word) : List Word :=
  match e with
  | .big => [val]
  | .little => [val <<< 8]

def encodeInt (e : Endian) (bf : BitField) : (k : IntKind) → BitVec k.bits → List Word
  | .u8, val => layByte e ((placeOf bf val).setWidth 16)
  | .i8, val => layByte e ((placeOf bf val).signExtend 16)
  | _, val => layWords e (placeOf bf val)

/-- A text cut or padded with zero bytes to twice `w` bytes, on the side opposite to its alignment. -/
def alignBytes (a : Alignment) (w : Nat) (s : List Byte) : List Byte :=
  let length := 2 * w
  let zeroes := List.replicate (length - s.length) (0 : Byte)
  match a with
  | .left => (s ++ zeroes).take length
  | .right => (zeroes ++ s.drop (s.length - length)).take length

def encodeWords (format : Format) (value : Value) : Except CodecError (List Word) :=
  match format with
  | .numeric nf =>
    if !nf.bitField.fits nf.kind.bits then .error (.bitFieldWidth format)
    else
      match value with
      | .numeric (.int k val) _ =>
        if k = nf.kind then .ok (encodeInt nf.endian nf.bitField k val) else .error (.valueFormatMismatch format)
      | _ => .error (.valueFormatMismatch format)
  | .float ff =>
    match value with
    | .numeric (.float k val) _ =>
      if k = ff.kind then .ok (layWords ff.endian val) else .error (.valueFormatMismatch format)
    | _ => .error (.valueFormatMismatch format)
  | .ascii a w =>
    match value with
    | .ascii s => .ok (intoVec (alignBytes a w (bytesOf s)))
    | _ => .error (.valueFormatMismatch format)

def encodeValue (format : Format) (value : Value) : Except CodecError (List Word) :=
  (encodeWords format value).map (orderWords format.wordOrder)

def maskInt (e : Endian) (bf : BitField) : IntKind → List Word
  | .u8 | .i8 => layByte e ((bf.mask.setWidth 8).setWidth 16)
  | k => layWords e (bf.mask.setWidth k.bits)

def maskWords (format : Format) : List Word :=
  orderWords format.wordOrder
    (match format with
    | .numeric nf => maskInt nf.endian nf.bitField nf.kind
    | .float _ | .ascii _ _ => List.replicate format.width 0xFFFF#16)

def Register.decode (r : Register) (bytes : List Word) : Except CodecError Value := Codec.decode r.format bytes

def Register.encodeValue (r : Register) (value : Value) : Except CodecError (List Word) :=
  Codec.encodeValue r.format value

def Register.writeMask (r : Register) : List Word := maskWords r.format

/-- Freshly encoded words merged into the existing ones: the owned bits from `value`, the others from `old`. -/
def Register.mergeWrite (r : Register) (old value : List Word) : List Word :=
  value.mapIdx (fun i v =>
    let m := r.writeMask[i]?.getD 0xFFFF#16
    let o := old[i]?.getD 0
    (o &&& ~~~m) ||| (v &&& m))

/-! ## The bits of a format -/

/-- Where bit `j` of word `i` of a format stands in its number. -/
def bitPos (e : Endian) (order : WordOrder) (W i j : Nat) : Nat :=
  match order with
  | .normal => wordPos e W i j
  | .reversed => wordPos e W (W - 1 - i) j

variable (e : Endian)

theorem exists_bitPos (order : WordOrder) {W p : Nat} (hp : p < 16 * W) : ∃ i j, i < W ∧ j < 16 ∧ bitPos e order W i j = p := by
  obtain ⟨i, j, hi, hj, h⟩ := exists_wordPos e hp
  cases order with
  | normal => exact ⟨i, j, hi, hj, h⟩
  | reversed =>
    refine ⟨W - 1 - i, j, by omega, hj, ?_⟩
    have hrev : W - 1 - (W - 1 - i) = i := by omega
    rw [bitPos, hrev, h]

@[simp] theorem length_orderWords (order : WordOrder) (words : List Word) : (orderWords order words).length = words.length := by
  cases order <;> simp [orderWords]

@[simp] theorem orderWords_orderWords (order : WordOrder) (words : List Word) :
    orderWords order (orderWords order words) = words := by
  cases order <;> simp [orderWords]

variable {words : List Word}

theorem getElem?_orderWords (order : WordOrder) {i : Nat} (hi : i < words.length) : (orderWords order words)[i]? =
      words[match order with | .normal => i | .reversed => words.length - 1 - i]? := by
  cases order with
  | normal => rfl
  | reversed => exact List.getElem?_reverse hi

variable {j : Nat}

theorem getLsbD_orderWords {W : Nat} (hlen : words.length = W) {e : Endian} {f : Nat → Bool} {P : Nat → Prop}
    (h : ∀ i j, i < W → j < 16 → P (wordPos e W i j) → (words[i]?.getD 0).getLsbD j = f (wordPos e W i j))
    (order : WordOrder) {i : Nat} (hi : i < W) (hj : j < 16) (hP : P (bitPos e order W i j)) :
    ((orderWords order words)[i]?.getD 0).getLsbD j = f (bitPos e order W i j) := by
  subst hlen
  rw [getElem?_orderWords order hi]
  cases order with
  | normal => exact h i j hi hj hP
  | reversed => exact h (words.length - 1 - i) j (by omega) hj hP

theorem getLsbD_rawWords_order (order : WordOrder) {W : Nat} (hlen : words.length = W) {i : Nat} (hi : i < W) (hj : j < 16) :
    (rawWords e W (orderWords order words)).getLsbD (bitPos e order W i j) = (words[i]?.getD 0).getLsbD j := by
  subst hlen
  cases order with
  | normal => exact getLsbD_rawWords e rfl hi hj
  | reversed =>
    have hrev : words.length - 1 - (words.length - 1 - i) = i := by omega
    have h := getLsbD_rawWords e (W := words.length) (List.length_reverse : words.reverse.length = words.length)
      (i := words.length - 1 - i) (by omega) hj
    rw [List.getElem?_reverse (by omega), hrev] at h
    exact h

/-! ## The bits of an integer -/

theorem IntKind.bits_le (k : IntKind) : k.bits ≤ 128 := by cases k <;> decide

theorem IntKind.bits_le_words (k : IntKind) : k.bits ≤ 16 * k.registerWidth := by cases k <;> decide

theorem IntKind.registerWidth_le (k : IntKind) : 16 * k.registerWidth ≤ 128 := by cases k <;> decide

theorem getLsbD_placeOf {bits : Nat} (hb : bits ≤ 128) (bf : BitField) (val : BitVec bits) {p : Nat} (hp : p < bits) :
    (placeOf bf val).getLsbD p = (decide (bf.shift ≤ p) && val.getLsbD (p - bf.shift) && bf.mask.getLsbD p) := by
  have h128 : p < 128 := by omega
  simp only [placeOf, BitVec.getLsbD_setWidth, BitVec.getLsbD_and, BitVec.getLsbD_shiftLeft, hp, h128, decide_true,
    Bool.true_and, show p - bf.shift < 128 by omega]
  by_cases hs : bf.shift ≤ p
  · simp [hs, show ¬ p < bf.shift by omega]
  · simp [hs, show p < bf.shift by omega]

theorem getLsbD_fieldOf {n bits : Nat} (hn : n ≤ 128) (bf : BitField) (raw : BitVec n) (p : Nat) :
    (fieldOf bf bits raw).getLsbD p = (decide (p < bits) && (raw.getLsbD (bf.shift + p) && bf.mask.getLsbD (bf.shift + p))) := by
  simp only [fieldOf, BitVec.getLsbD_setWidth, BitVec.getLsbD_and, BitVec.getLsbD_ushiftRight]
  by_cases h128 : bf.shift + p < 128
  · simp [h128]
  · simp [h128, BitVec.getLsbD_of_ge raw (bf.shift + p) (by omega)]

theorem length_layByte (val : Word) : (layByte e val).length = 1 := by cases e <;> rfl

theorem getLsbD_layByte (val : Word) (hj : j < 16) (hp : wordPos e 1 0 j < 8) :
    ((layByte e val)[0]?.getD 0).getLsbD j = val.getLsbD (wordPos e 1 0 j) := by
  cases e with
  | big => simp [layByte, wordPos]
  | little =>
    simp only [wordPos] at hp
    have hj8 : 8 ≤ j := by omega
    have hpos : (j + 8) % 16 = j - 8 := by omega
    have hbit : (val <<< 8).getLsbD j = val.getLsbD (j - 8) := by
      rw [BitVec.getLsbD_shiftLeft, decide_eq_true hj, decide_eq_false (by omega : ¬ j < 8)]
      rfl
    simpa [layByte, wordPos, hpos] using hbit

theorem getLsbD_layByte_high (val : Byte) (hj : j < 16) (hp : 8 ≤ wordPos e 1 0 j) :
    ((layByte e (val.setWidth 16))[0]?.getD 0).getLsbD j = false := by
  cases e with
  | big =>
    have hj8 : 8 ≤ j := by simpa [wordPos] using hp
    simp [layByte, BitVec.getLsbD_setWidth, BitVec.getLsbD_of_ge val j hj8]
  | little =>
    simp only [wordPos] at hp
    simp [layByte, BitVec.getLsbD_shiftLeft, show j < 8 by omega]

theorem length_encodeInt (bf : BitField) (k : IntKind) (val : BitVec k.bits) :
    (encodeInt e bf k val).length = k.registerWidth := by
  cases k with
  | u8 | i8 => exact length_layByte e _
  | _ => exact length_layWords e _ rfl

theorem length_maskInt (bf : BitField) (k : IntKind) : (maskInt e bf k).length = k.registerWidth := by
  cases k with
  | u8 | i8 => exact length_layByte e _
  | _ => exact length_layWords e _ rfl

theorem length_maskWords (format : Format) : (maskWords format).length = format.width := by
  unfold maskWords
  rw [length_orderWords]
  cases format with
  | numeric nf => exact length_maskInt nf.endian nf.bitField nf.kind
  | float ff | ascii a w => exact List.length_replicate

theorem getLsbD_encodeByte {val : BitVec 8} {w : Word}
    (hw : ∀ p, p < 8 → w.getLsbD p = val.getLsbD p) {i : Nat} (hi : i < 1) (hj : j < 16) (hp : wordPos e 1 i j < 8) :
    ((layByte e w)[i]?.getD 0).getLsbD j = val.getLsbD (wordPos e 1 i j) := by
  obtain rfl : i = 0 := by omega
  rw [getLsbD_layByte e w hj hp, hw _ hp]

theorem getLsbD_encodeInt (bf : BitField) (k : IntKind) (val : BitVec k.bits) {i : Nat}
    (hi : i < k.registerWidth) (hj : j < 16) (hp : wordPos e k.registerWidth i j < k.bits) :
    ((encodeInt e bf k val)[i]?.getD 0).getLsbD j = (placeOf bf val).getLsbD (wordPos e k.registerWidth i j) := by
  have hzero : ∀ (x : BitVec 8) p, p < 8 → (x.setWidth 16).getLsbD p = x.getLsbD p := by
    intro x p hp
    rw [BitVec.getLsbD_setWidth, decide_eq_true (by omega : p < 16), Bool.true_and]
  have hsign : ∀ (x : BitVec 8) p, p < 8 → (x.signExtend 16).getLsbD p = x.getLsbD p := by
    intro x p hp
    rw [BitVec.getLsbD_signExtend, decide_eq_true (by omega : p < 16), Bool.true_and, if_pos hp]
  cases k with
  | u8 => exact getLsbD_encodeByte e (hzero _) hi hj hp
  | i8 => exact getLsbD_encodeByte e (hsign _) hi hj hp
  | _ => exact getLsbD_layWords e (placeOf bf val) rfl hi hj

theorem getLsbD_maskInt (bf : BitField) (k : IntKind) {i : Nat} (hi : i < k.registerWidth) (hj : j < 16) :
    ((maskInt e bf k)[i]?.getD 0).getLsbD j =
      (decide (wordPos e k.registerWidth i j < k.bits) && bf.mask.getLsbD (wordPos e k.registerWidth i j)) := by
  have hbyte : ∀ i, i < 1 → ((layByte e ((bf.mask.setWidth 8).setWidth 16))[i]?.getD 0).getLsbD j =
      (decide (wordPos e 1 i j < 8) && bf.mask.getLsbD (wordPos e 1 i j)) := by
    intro i hi
    obtain rfl : i = 0 := by omega
    by_cases hp : wordPos e 1 0 j < 8
    · rw [getLsbD_layByte e _ hj hp, decide_eq_true hp, Bool.true_and, BitVec.getLsbD_setWidth,
        BitVec.getLsbD_setWidth, decide_eq_true hp, decide_eq_true (by omega : wordPos e 1 0 j < 16)]
      rfl
    · rw [getLsbD_layByte_high e _ hj (by omega), decide_eq_false hp, Bool.false_and]
  have hwide : ∀ (w W : Nat), w = 16 * W → i < W → ((layWords e (bf.mask.setWidth w))[i]?.getD 0).getLsbD j =
      (decide (wordPos e W i j < w) && bf.mask.getLsbD (wordPos e W i j)) := by
    intro w W hw hi
    rw [getLsbD_layWords e _ hw hi hj, BitVec.getLsbD_setWidth]
  cases k with
  | u8 | i8 => exact hbyte i hi
  | _ => exact hwide _ _ rfl hi

/-! ## Decoding what was encoded

Whatever the kind, byte order, register order and mask, the words of an encoded integer hold its placed bits where the decoder
looks for them, so the decoded field is the value restricted to the mask (`fieldOf_encodeInt`); a float has no mask and comes back
bit for bit. -/

open BitVec

/-- A value restricted to its field, in the 128-bit domain the codec masks and shifts in. -/
def restrictField {bits : Nat} (bf : BitField) (val : BitVec bits) : BitVec 128 :=
  ((val.setWidth 128 <<< bf.shift) &&& bf.mask) >>> bf.shift

theorem getLsbD_rawWords_encodeInt (e : Endian) (bf : BitField) (k : IntKind) (val : BitVec k.bits) {p : Nat} (hp : p < k.bits) :
    (rawWords e k.registerWidth (encodeInt e bf k val)).getLsbD p = (placeOf bf val).getLsbD p := by
  obtain ⟨i, j, hi, hj, rfl⟩ := exists_wordPos e (Nat.lt_of_lt_of_le hp k.bits_le_words)
  rw [getLsbD_rawWords e (length_encodeInt e bf k val) hi hj, getLsbD_encodeInt e bf k val hi hj hp]

variable {bf : BitField}

theorem BitField.lt_bits_of_fits {bits p : Nat} (hf : bf.fits bits = true) (hp : p < bits)
    (hm : bf.mask.getLsbD (bf.shift + p) = true) : bf.shift + p < bits := by
  rcases BitField.of_fits hf with hfull | hlow
  · rw [BitField.shift_of_isFull hfull]
    omega
  · by_contra hge
    rw [hlow _ (by omega)] at hm
    cases hm

theorem fieldOf_encodeInt {e : Endian} {k : IntKind} (hf : bf.fits k.bits = true) (val : BitVec k.bits) :
    (fieldOf bf k.bits (rawWords e k.registerWidth (encodeInt e bf k val))).setWidth 128 = restrictField bf val := by
  have hb := k.bits_le
  apply eq_of_getLsbD_eq
  intro p h128
  rw [getLsbD_setWidth, decide_eq_true h128, Bool.true_and, getLsbD_fieldOf k.registerWidth_le]
  simp only [restrictField, getLsbD_ushiftRight, getLsbD_and, getLsbD_shiftLeft,
    getLsbD_setWidth, Nat.add_sub_cancel_left, h128, decide_true, Bool.true_and,
    show ¬ bf.shift + p < bf.shift by omega, decide_false, Bool.not_false, Bool.and_true]
  cases hm : bf.mask.getLsbD (bf.shift + p) with
  | false => simp
  | true =>
    have hlt : bf.shift + p < 128 := by
      by_contra hge
      rw [getLsbD_of_ge _ _ (by omega)] at hm
      cases hm
    by_cases hp : p < k.bits
    · have hin := BitField.lt_bits_of_fits hf hp hm
      rw [getLsbD_rawWords_encodeInt e bf k val hin, getLsbD_placeOf hb bf val hin, hm]
      simp [hp, hlt]
    · simp [hp, getLsbD_of_ge val p (by omega)]

theorem restrictField_of_isFull {bits : Nat} (hf : bf.isFull = true) (val : BitVec bits) :
    restrictField bf val = val.setWidth 128 := by
  have hm : bf.mask = BitVec.allOnes 128 := by simpa [BitField.isFull] using hf
  rw [restrictField, BitField.shift_of_isFull hf, hm, shiftLeft_zero, ushiftRight_zero, and_allOnes]

theorem decode_numeric {nf : NumericFormat} {bytes : List Word} (hlen : nf.kind.registerWidth ≤ bytes.length)
    (hf : nf.bitField.fits nf.kind.bits = true) :
    decode (.numeric nf) bytes = .ok (.numeric (.int nf.kind (fieldOf nf.bitField nf.kind.bits
      (rawWords nf.endian nf.kind.registerWidth (orderWords nf.wordOrder (bytes.take nf.kind.registerWidth)))))
      nf.resolution) := by
  have hw : (Format.numeric nf).width = nf.kind.registerWidth := rfl
  simp only [decode, hw, Format.wordOrder, hf, Bool.not_true, Bool.false_eq_true, if_false]
  rw [if_neg (by omega)]

theorem encodeValue_numeric {nf : NumericFormat} (hf : nf.bitField.fits nf.kind.bits = true) (val : BitVec nf.kind.bits)
    (r : Resolution) : encodeValue (.numeric nf) (.numeric (.int nf.kind val) r) =
      .ok (orderWords nf.wordOrder (encodeInt nf.endian nf.bitField nf.kind val)) := by
  simp only [encodeValue, encodeWords, hf, Bool.not_true, Bool.false_eq_true, if_false, if_true]
  rfl

theorem FloatKind.bits_eq (k : FloatKind) : k.bits = 16 * k.registerWidth := by cases k <;> rfl

theorem rawWords_layWords (e : Endian) {w W : Nat} (x : BitVec w) (hw : w = 16 * W) :
    (rawWords e W (layWords e x)).setWidth w = x := by
  apply eq_of_getLsbD_eq
  intro p hp
  rw [getLsbD_setWidth, decide_eq_true hp, Bool.true_and]
  obtain ⟨i, j, hi, hj, rfl⟩ := exists_wordPos (W := W) (p := p) e (by omega)
  rw [getLsbD_rawWords e (length_layWords e x hw) hi hj, getLsbD_layWords e x hw hi hj]

/-- **Codec round trip.** An integer of a fitting mask decodes, whatever follows its words, to the value restricted to its
field, which is the value itself under the full mask; a float decodes to itself. -/
theorem decode_encodeValue_round_trip : (∀ (nf : NumericFormat) (val : BitVec nf.kind.bits) (r : Resolution) (extra : List Word),
      nf.bitField.fits nf.kind.bits = true →
      ∃ words field, encodeValue (.numeric nf) (.numeric (.int nf.kind val) r) = .ok words ∧
        words.length = (Format.numeric nf).width ∧
        decode (.numeric nf) (words ++ extra) = .ok (.numeric (.int nf.kind field) nf.resolution) ∧
        field.setWidth 128 = restrictField nf.bitField val ∧ (nf.bitField.isFull = true → field = val)) ∧
    ∀ (ff : FloatFormat) (val : BitVec ff.kind.bits) (r : Resolution) (extra : List Word),
      ∃ words, encodeValue (.float ff) (.numeric (.float ff.kind val) r) = .ok words ∧ words.length = (Format.float ff).width ∧
        decode (.float ff) (words ++ extra) = .ok (.numeric (.float ff.kind val) ff.resolution) := by
  constructor
  · intro nf val r extra hf
    have hlen : (orderWords nf.wordOrder (encodeInt nf.endian nf.bitField nf.kind val)).length =
        nf.kind.registerWidth := by rw [length_orderWords, length_encodeInt]
    have hfield := fieldOf_encodeInt (e := nf.endian) hf val
    refine ⟨_, _, encodeValue_numeric hf val r, hlen, ?_, hfield, fun hfull => ?_⟩
    · rw [decode_numeric (by rw [List.length_append]; omega) hf, List.take_left' hlen, orderWords_orderWords]
    rw [restrictField_of_isFull hfull] at hfield
    apply eq_of_getLsbD_eq
    intro p hp
    have hbit := congrArg (fun x => BitVec.getLsbD x p) hfield
    have h128 : p < 128 := Nat.lt_of_lt_of_le hp nf.kind.bits_le
    simpa [getLsbD_setWidth, h128] using hbit
  intro ff val r extra
  have hlen : (orderWords ff.wordOrder (layWords ff.endian val)).length = ff.kind.registerWidth := by
    rw [length_orderWords, length_layWords ff.endian val ff.kind.bits_eq]
  refine ⟨orderWords ff.wordOrder (layWords ff.endian val), ?_, hlen, ?_⟩
  · simp only [encodeValue, encodeWords, if_true]
    rfl
  have hw : (Format.float ff).width = ff.kind.registerWidth := rfl
  have hnot : ¬ (orderWords ff.wordOrder (layWords ff.endian val) ++ extra).length < ff.kind.registerWidth := by
    rw [List.length_append]
    omega
  simp only [decode, hw, Format.wordOrder, if_neg hnot, List.take_left' hlen, orderWords_orderWords,
    rawWords_layWords ff.endian val ff.kind.bits_eq]

end Ferrowl.Codec
