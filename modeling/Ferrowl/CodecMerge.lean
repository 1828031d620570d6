import Ferrowl.Codec
/-!
# CodecMerge — registers that share words

A register writes only the bits its mask owns: `merge_write` takes those from the encoded words and every other bit from the
words already there (`getLsbD_mergeWrite`), and the decoder reads no bit its mask does not own (`fieldOf_congr`).
-/
namespace Ferrowl.Codec

open Option

open Store (Word)

def readWords (content : Nat → Word) (address width : Nat) : List Word :=
  (List.range width).map (fun i => content (address + i))

def storeWords (content : Nat → Word) (address : Nat) (words : List Word) (a : Nat) : Word :=
  if address ≤ a then words[a - address]?.getD (content a) else content a

variable (content : Nat → Word)

theorem length_readWords (address width : Nat) : (readWords content address width).length = width := by simp [readWords]

theorem getElem?_readWords (address : Nat) {width i : Nat} (hi : i < width) :
    (readWords content address width)[i]? = some (content (address + i)) := by
  simp [readWords, List.getElem?_range hi]

theorem storeWords_of_lt (address : Nat) {words : List Word} {i : Nat} (hi : i < words.length) :
    storeWords content address words (address + i) = words[i]?.getD 0 := by
  rw [storeWords, if_pos (Nat.le_add_right _ _), Nat.add_sub_cancel_left, List.getElem?_eq_getElem hi]
  rfl

theorem storeWords_of_out {address a : Nat} {words : List Word} (h : ∀ i, i < words.length → a ≠ address + i) :
    storeWords content address words a = content a := by
  unfold storeWords
  split
  · rename_i hle
    have hge : words.length ≤ a - address := by
      by_contra hlt
      exact h (a - address) (by omega) (by omega)
    rw [List.getElem?_eq_none hge, getD_none]
  · rfl

theorem readWords_storeWords (address : Nat) (words : List Word) :
    readWords (storeWords content address words) address words.length = words := by
  apply List.ext_getElem?
  intro i
  by_cases hi : i < words.length
  · rw [getElem?_readWords _ _ hi, storeWords_of_lt content address hi, List.getElem?_eq_getElem hi, getD_some]
  · rw [List.getElem?_eq_none (by rw [length_readWords]; omega), List.getElem?_eq_none (by omega)]

section
variable {A : Register} {nf : NumericFormat}

theorem writeMask_numeric (hA : A.format = .numeric nf) :
    A.writeMask = orderWords nf.wordOrder (maskInt nf.endian nf.bitField nf.kind) := by
  rw [Register.writeMask, hA]
  rfl

theorem length_writeMask (hA : A.format = .numeric nf) : A.writeMask.length = nf.kind.registerWidth := by
  rw [Register.writeMask, hA, length_maskWords]
  rfl

theorem getLsbD_writeMask (hA : A.format = .numeric nf) {i j : Nat} (hi : i < nf.kind.registerWidth) (hj : j < 16) :
    (A.writeMask[i]?.getD 0).getLsbD j = (decide (bitPos nf.endian nf.wordOrder nf.kind.registerWidth i j < nf.kind.bits) &&
        nf.bitField.mask.getLsbD (bitPos nf.endian nf.wordOrder nf.kind.registerWidth i j)) := by
  rw [writeMask_numeric hA]
  exact getLsbD_orderWords (P := fun _ => True) (f := fun p => decide (p < nf.kind.bits) && nf.bitField.mask.getLsbD p)
    (length_maskInt nf.endian nf.bitField nf.kind) (fun i j hi hj _ => getLsbD_maskInt nf.endian nf.bitField nf.kind hi hj)
    nf.wordOrder hi hj trivial

theorem length_mergeWrite (A : Register) (old value : List Word) : (A.mergeWrite old value).length = value.length := by
  simp [Register.mergeWrite]

theorem getLsbD_mergeWrite (hA : A.format = .numeric nf) {old value : List Word}
    (hv : value.length = nf.kind.registerWidth) {i j : Nat} (hi : i < nf.kind.registerWidth) (hj : j < 16) :
    ((A.mergeWrite old value)[i]?.getD 0).getLsbD j =
      if (A.writeMask[i]?.getD 0).getLsbD j = true then (value[i]?.getD 0).getLsbD j else (old[i]?.getD 0).getLsbD j := by
  have hiv : i < value.length := by omega
  have him : i < A.writeMask.length := by rw [length_writeMask hA]; exact hi
  simp only [Register.mergeWrite, List.getElem?_mapIdx, List.getElem?_eq_getElem hiv, List.getElem?_eq_getElem him,
    map_some, getD_some, BitVec.getLsbD_or, BitVec.getLsbD_and, BitVec.getLsbD_not, hj, decide_true, Bool.true_and]
  cases A.writeMask[i].getLsbD j <;> simp

theorem fieldOf_congr {k : IntKind} {bf : BitField} (hf : bf.fits k.bits = true) {raw raw' : BitVec (16 * k.registerWidth)}
    (h : ∀ p, p < k.bits → bf.mask.getLsbD p = true → raw.getLsbD p = raw'.getLsbD p) :
    fieldOf bf k.bits raw = fieldOf bf k.bits raw' := by
  apply BitVec.eq_of_getLsbD_eq
  intro p hp
  rw [getLsbD_fieldOf k.registerWidth_le, getLsbD_fieldOf k.registerWidth_le]
  cases hm : bf.mask.getLsbD (bf.shift + p) with
  | false => simp
  | true => rw [h _ (BitField.lt_bits_of_fits hf hp hm) hm]

theorem fieldOf_rawWords_congr (hA : A.format = .numeric nf) (hf : nf.bitField.fits nf.kind.bits = true)
    {ws ws' : List Word} (hl : ws.length = nf.kind.registerWidth) (hl' : ws'.length = nf.kind.registerWidth)
    (h : ∀ i j, i < nf.kind.registerWidth → j < 16 → (A.writeMask[i]?.getD 0).getLsbD j = true →
      (ws[i]?.getD 0).getLsbD j = (ws'[i]?.getD 0).getLsbD j) :
    fieldOf nf.bitField nf.kind.bits (rawWords nf.endian nf.kind.registerWidth (orderWords nf.wordOrder ws)) =
      fieldOf nf.bitField nf.kind.bits (rawWords nf.endian nf.kind.registerWidth (orderWords nf.wordOrder ws')) := by
  refine fieldOf_congr hf (fun p hp hm => ?_)
  obtain ⟨i, j, hi, hj, rfl⟩ := exists_bitPos nf.endian nf.wordOrder (Nat.lt_of_lt_of_le hp nf.kind.bits_le_words)
  rw [getLsbD_rawWords_order nf.endian nf.wordOrder hl hi hj, getLsbD_rawWords_order nf.endian nf.wordOrder hl' hi hj]
  refine h i j hi hj ?_
  rw [getLsbD_writeMask hA hi hj, decide_eq_true hp, hm]
  rfl

theorem Register.decode_of_length (hA : A.format = .numeric nf) (hf : nf.bitField.fits nf.kind.bits = true)
    {ws : List Word} (hl : ws.length = nf.kind.registerWidth) :
    A.decode ws = .ok (.numeric (.int nf.kind (fieldOf nf.bitField nf.kind.bits
      (rawWords nf.endian nf.kind.registerWidth (orderWords nf.wordOrder ws)))) nf.resolution) := by
  rw [Register.decode, hA, decode_numeric (Nat.le_of_eq hl.symm) hf, List.take_of_length_le (Nat.le_of_eq hl)]

def encoded (nf : NumericFormat) (val : BitVec nf.kind.bits) : List Word :=
  orderWords nf.wordOrder (encodeInt nf.endian nf.bitField nf.kind val)

theorem length_encoded (nf : NumericFormat) (val : BitVec nf.kind.bits) : (encoded nf val).length = nf.kind.registerWidth := by
  rw [encoded, length_orderWords, length_encodeInt]

theorem Register.encodeValue_eq (hA : A.format = .numeric nf) (hf : nf.bitField.fits nf.kind.bits = true)
    (val : BitVec nf.kind.bits) (r : Resolution) : A.encodeValue (.numeric (.int nf.kind val) r) = .ok (encoded nf val) := by
  rw [Register.encodeValue, hA, encodeValue_numeric hf]
  rfl

def signSpills (nf : NumericFormat) (val : BitVec nf.kind.bits) : Bool :=
  decide (nf.kind = .i8) && decide (nf.endian = .big) && (placeOf nf.bitField val).getLsbD 7

/-- **The bits of an encoded integer above its kind's width**: zero, the sign of a big-endian signed byte apart. -/
theorem getLsbD_encodeInt_high (e : Endian) (bf : BitField) (k : IntKind) (val : BitVec k.bits) {i j : Nat}
    (hi : i < k.registerWidth) (hj : j < 16) (hp : k.bits ≤ wordPos e k.registerWidth i j) :
    ((encodeInt e bf k val)[i]?.getD 0).getLsbD j = (decide (k = .i8) && decide (e = .big) && (placeOf bf val).getLsbD 7) := by
  have hwide : ∀ k : IntKind, k.bits = 16 * k.registerWidth → i < k.registerWidth →
      ¬ k.bits ≤ wordPos e k.registerWidth i j := by
    intro k hk hi
    have := wordPos_lt e hi hj
    omega
  cases k with
  | u8 =>
    obtain rfl : i = 0 := Nat.lt_one_iff.1 hi
    exact getLsbD_layByte_high e (placeOf bf val) hj hp
  | i8 =>
    obtain rfl : i = 0 := Nat.lt_one_iff.1 hi
    cases e with
    | big =>
      have hj8 : 8 ≤ j := by
        change 8 ≤ 16 * (1 - 1 - 0) + j at hp
        omega
      change ((placeOf bf val).signExtend 16).getLsbD j = (placeOf bf val).getLsbD 7
      rw [BitVec.getLsbD_signExtend, decide_eq_true hj, Bool.true_and]
      change (if j < 8 then (placeOf bf val).getLsbD j else (placeOf bf val).msb) = _
      rw [if_neg (by omega), BitVec.msb_eq_getLsbD_last]
      rfl
    | little =>
      have hj8 : j < 8 := by
        change 8 ≤ 16 * 0 + (j + 8) % 16 at hp
        omega
      change (((placeOf bf val).signExtend 16) <<< 8).getLsbD j = false
      rw [BitVec.getLsbD_shiftLeft, decide_eq_true hj8, Bool.not_true, Bool.and_false, Bool.false_and]
  | _ => exact absurd hp (hwide _ rfl hi)

theorem getLsbD_encoded_eq (nf : NumericFormat) (val : BitVec nf.kind.bits) {i j : Nat} (hi : i < nf.kind.registerWidth)
    (hj : j < 16) :
    ((encoded nf val)[i]?.getD 0).getLsbD j =
      if bitPos nf.endian nf.wordOrder nf.kind.registerWidth i j < nf.kind.bits then
        (placeOf nf.bitField val).getLsbD (bitPos nf.endian nf.wordOrder nf.kind.registerWidth i j)
      else signSpills nf val := by
  refine getLsbD_orderWords (P := fun _ => True) (e := nf.endian)
    (f := fun p => if p < nf.kind.bits then (placeOf nf.bitField val).getLsbD p else signSpills nf val)
    (length_encodeInt nf.endian nf.bitField nf.kind val) (fun i j hi hj _ => ?_) nf.wordOrder hi hj trivial
  by_cases hp : wordPos nf.endian nf.kind.registerWidth i j < nf.kind.bits
  · rw [if_pos hp, getLsbD_encodeInt nf.endian nf.bitField nf.kind val hi hj hp]
  · rw [if_neg hp, getLsbD_encodeInt_high nf.endian nf.bitField nf.kind val hi hj (by omega)]
    rfl

theorem getLsbD_encoded (nf : NumericFormat) (val : BitVec nf.kind.bits) {i j : Nat} (hi : i < nf.kind.registerWidth)
    (hj : j < 16) (hp : bitPos nf.endian nf.wordOrder nf.kind.registerWidth i j < nf.kind.bits) :
    ((encoded nf val)[i]?.getD 0).getLsbD j =
      (placeOf nf.bitField val).getLsbD (bitPos nf.endian nf.wordOrder nf.kind.registerWidth i j) := by
  rw [getLsbD_encoded_eq nf val hi hj, if_pos hp]

end

section
variable {A B : Register} {nfA nfB : NumericFormat}

theorem decode_merged (hA : A.format = .numeric nfA) (hfA : nfA.bitField.fits nfA.kind.bits = true) (old : List Word)
    (val : BitVec nfA.kind.bits) :
    ∃ field, A.decode (A.mergeWrite old (encoded nfA val)) = .ok (.numeric (.int nfA.kind field) nfA.resolution) ∧
      field.setWidth 128 = restrictField nfA.bitField val := by
  have hl := length_encoded nfA val
  have hlm : (A.mergeWrite old (encoded nfA val)).length = nfA.kind.registerWidth := by rw [length_mergeWrite, hl]
  have hsame : ∀ i j, i < nfA.kind.registerWidth → j < 16 → (A.writeMask[i]?.getD 0).getLsbD j = true →
      ((A.mergeWrite old (encoded nfA val))[i]?.getD 0).getLsbD j = ((encoded nfA val)[i]?.getD 0).getLsbD j := by
    intro i j hi hj hm
    rw [getLsbD_mergeWrite hA hl hi hj, if_pos hm]
  refine ⟨_, Register.decode_of_length hA hfA hlm, ?_⟩
  rw [fieldOf_rawWords_congr hA hfA hlm hl hsame, encoded, orderWords_orderWords]
  exact fieldOf_encodeInt hfA val

theorem decode_other (hA : A.format = .numeric nfA) (hB : B.format = .numeric nfB)
    (hfB : nfB.bitField.fits nfB.kind.bits = true) {a b : Nat}
    (hdisj : ∀ i j, i < A.writeMask.length → j < B.writeMask.length → a + i = b + j →
      A.writeMask[i]?.getD 0 &&& B.writeMask[j]?.getD 0 = 0) (content : Nat → Word) (val : BitVec nfA.kind.bits) :
    B.decode (readWords (storeWords content a
        (A.mergeWrite (readWords content a nfA.kind.registerWidth) (encoded nfA val))) b nfB.kind.registerWidth) =
      B.decode (readWords content b nfB.kind.registerWidth) := by
  have hl := length_encoded nfA val
  have hlm := length_mergeWrite A (readWords content a nfA.kind.registerWidth) (encoded nfA val)
  rw [Register.decode_of_length hB hfB (length_readWords _ _ _), Register.decode_of_length hB hfB (length_readWords _ _ _),
    fieldOf_rawWords_congr hB hfB (length_readWords _ _ _) (length_readWords _ _ _)]
  intro j t hj ht hm
  rw [getElem?_readWords _ _ hj, getElem?_readWords _ _ hj, getD_some, getD_some]
  by_cases hin : ∃ i, i < nfA.kind.registerWidth ∧ b + j = a + i
  · obtain ⟨i, hi, heq⟩ := hin
    -- the shared word: its bit `t` belongs to `B`, so `A` keeps it
    have hand := hdisj i j (by rw [length_writeMask hA]; exact hi) (by rw [length_writeMask hB]; exact hj) heq.symm
    have hbit := congrArg (fun x => BitVec.getLsbD x t) hand
    have hno : (A.writeMask[i]?.getD 0).getLsbD t = false := by
      rw [BitVec.getLsbD_and, hm, Bool.and_true] at hbit
      exact hbit.trans BitVec.getLsbD_zero
    rw [heq, storeWords_of_lt content a (by rw [hlm, hl]; exact hi), getLsbD_mergeWrite hA hl hi ht, hno,
      getElem?_readWords _ _ hi]
    rfl
  · rw [storeWords_of_out]
    intro i hi heq
    rw [hlm, hl] at hi
    exact hin ⟨i, hi, heq⟩

theorem mergeWrite_decoded (hA : A.format = .numeric nfA) {old : List Word} (ho : old.length = nfA.kind.registerWidth) :
    A.mergeWrite old (encoded nfA (fieldOf nfA.bitField nfA.kind.bits
      (rawWords nfA.endian nfA.kind.registerWidth (orderWords nfA.wordOrder old)))) = old := by
  have hl := length_encoded nfA (fieldOf nfA.bitField nfA.kind.bits
    (rawWords nfA.endian nfA.kind.registerWidth (orderWords nfA.wordOrder old)))
  apply List.ext_getElem (by rw [length_mergeWrite, hl, ho])
  intro i hi hi'
  have hiW : i < nfA.kind.registerWidth := by omega
  apply BitVec.eq_of_getLsbD_eq
  intro j hj
  have hbit : ((A.mergeWrite old _)[i]?.getD 0).getLsbD j = _ := getLsbD_mergeWrite hA hl hiW hj
  rw [List.getElem?_eq_getElem hi, List.getElem?_eq_getElem hi', getD_some, getD_some] at hbit
  rw [hbit]
  split
  · rename_i hm
    rw [getLsbD_writeMask hA hiW hj, Bool.and_eq_true, decide_eq_true_eq] at hm
    obtain ⟨hp, hmask⟩ := hm
    have hshift : nfA.bitField.shift ≤ bitPos nfA.endian nfA.wordOrder nfA.kind.registerWidth i j := by
      by_contra hlt
      rw [BitField.getLsbD_of_lt_shift (by omega)] at hmask
      cases hmask
    have hraw := getLsbD_rawWords_order nfA.endian nfA.wordOrder ho hiW hj
    rw [List.getElem?_eq_getElem hi', getD_some] at hraw
    rw [getLsbD_encoded nfA _ hiW hj hp, getLsbD_placeOf nfA.kind.bits_le _ _ hp,
      getLsbD_fieldOf nfA.kind.registerWidth_le, Nat.add_sub_cancel' hshift, hraw, hmask,
      decide_eq_true (show bitPos nfA.endian nfA.wordOrder nfA.kind.registerWidth i j - nfA.bitField.shift <
        nfA.kind.bits by omega), decide_eq_true hshift]
    simp
  · rfl

end

/-- **Sharing words between bit-field registers is interference-free**: writing one register leaves the decoded value of another
that owns disjoint bits, and merging back the value that is there gives back the words. -/
theorem shared_words_interference_free (A B : Register) (nfA nfB : NumericFormat) (a b : Nat)
    (hA : A.format = .numeric nfA) (hB : B.format = .numeric nfB)
    (hfA : nfA.bitField.fits nfA.kind.bits = true) (hfB : nfB.bitField.fits nfB.kind.bits = true)
    (hdisj : ∀ i j, i < A.writeMask.length → j < B.writeMask.length → a + i = b + j →
      A.writeMask[i]?.getD 0 &&& B.writeMask[j]?.getD 0 = 0) :
    (∀ (content : Nat → Word) (val : BitVec nfA.kind.bits) (r : Resolution),
      ∃ words, A.encodeValue (.numeric (.int nfA.kind val) r) = .ok words ∧
        let content' := storeWords content a (A.mergeWrite (readWords content a A.format.width) words)
        (∃ field, A.decode (readWords content' a A.format.width) = .ok (.numeric (.int nfA.kind field) nfA.resolution) ∧
          field.setWidth 128 = restrictField nfA.bitField val) ∧
        B.decode (readWords content' b B.format.width) = B.decode (readWords content b B.format.width)) ∧
    ∀ old : List Word, old.length = A.format.width →
      ∃ v words, A.decode old = .ok v ∧ A.encodeValue v = .ok words ∧ A.mergeWrite old words = old := by
  have hwA : A.format.width = nfA.kind.registerWidth := by rw [hA]; rfl
  have hwB : B.format.width = nfB.kind.registerWidth := by rw [hB]; rfl
  rw [hwA, hwB]
  constructor
  · intro content val r
    refine ⟨encoded nfA val, Register.encodeValue_eq hA hfA val r, ?_, decode_other hA hB hfB hdisj content val⟩
    have hlen := length_mergeWrite A (readWords content a nfA.kind.registerWidth) (encoded nfA val)
    rw [length_encoded] at hlen
    have hread := readWords_storeWords content a
      (A.mergeWrite (readWords content a nfA.kind.registerWidth) (encoded nfA val))
    rw [hlen] at hread
    rw [hread]
    exact decode_merged hA hfA _ val
  · intro old ho
    exact ⟨_, _, Register.decode_of_length hA hfA ho, Register.encodeValue_eq hA hfA _ _, mergeWrite_decoded hA ho⟩

def maskedU16 (mask : BitVec 128) : NumericFormat := ⟨.u16, .big, .normal, Resolution.default, ⟨mask⟩⟩

def maskedRegister (mask : BitVec 128) : Register :=
  ⟨1, .readWrite, .holdingRegister, .fixed 7, .numeric (maskedU16 mask)⟩

/-- The two halves of one word, owned by two registers. -/
theorem low_and_high_byte_interference_free :
    ∃ words, (maskedRegister 0xFF#128).encodeValue (.numeric (.int .u16 0x56#16) Resolution.default) = .ok words ∧
      (maskedRegister 0xFF00#128).decode (readWords (storeWords (fun _ => 0x1234#16) 7
          ((maskedRegister 0xFF#128).mergeWrite (readWords (fun _ => 0x1234#16) 7
            (maskedRegister 0xFF#128).format.width) words)) 7 (maskedRegister 0xFF00#128).format.width) =
        (maskedRegister 0xFF00#128).decode (readWords (fun _ => 0x1234#16) 7 (maskedRegister 0xFF00#128).format.width) := by
  have hdisj : ∀ i j, i < (maskedRegister 0xFF#128).writeMask.length → j < (maskedRegister 0xFF00#128).writeMask.length →
      7 + i = 7 + j →
      (maskedRegister 0xFF#128).writeMask[i]?.getD 0 &&& (maskedRegister 0xFF00#128).writeMask[j]?.getD 0 = 0 := by
    intro i j hi hj heq
    have hone : ∀ m, (maskedRegister m).writeMask.length = 1 := by
      intro m
      have h : (maskedRegister m).format = .numeric (maskedU16 m) := rfl
      rw [length_writeMask h]
      show IntKind.u16.registerWidth = 1
      decide
    rw [hone] at hi hj
    obtain rfl : i = 0 := by omega
    obtain rfl : j = 0 := by omega
    decide
  obtain ⟨words, henc, -, hB⟩ := (shared_words_interference_free (maskedRegister 0xFF#128) (maskedRegister 0xFF00#128)
    (maskedU16 0xFF#128) (maskedU16 0xFF00#128) 7 7 rfl rfl (by decide) (by decide) hdisj).1 (fun _ => 0x1234#16)
    0x56#16 Resolution.default
  exact ⟨words, henc, hB⟩

/-! ## Encoded words and the mask -/

theorem getLsbD_maskWords (nf : NumericFormat) {i j : Nat} (hi : i < nf.kind.registerWidth) (hj : j < 16) :
    ((maskWords (.numeric nf))[i]?.getD 0).getLsbD j =
      (decide (bitPos nf.endian nf.wordOrder nf.kind.registerWidth i j < nf.kind.bits) &&
        nf.bitField.mask.getLsbD (bitPos nf.endian nf.wordOrder nf.kind.registerWidth i j)) :=
  getLsbD_writeMask (A := ⟨0, .readWrite, .holdingRegister, .virtual, .numeric nf⟩) rfl hi hj

/-- **The encoded words stay inside the field** exactly when the format is not a big-endian signed byte whose placed value has
its sign bit set. -/
theorem encoded_words_inside_mask_iff (nf : NumericFormat) (val : BitVec nf.kind.bits) (r : Resolution)
    (hf : nf.bitField.fits nf.kind.bits = true) : ∃ words, encodeValue (.numeric nf) (.numeric (.int nf.kind val) r) = .ok words ∧
      words.length = (maskWords (.numeric nf)).length ∧
      ((∀ i : Nat, (words[i]?.getD 0 : Word) &&& ~~~ ((maskWords (.numeric nf))[i]?.getD 0 : Word) = 0) ↔
        ¬ (nf.kind = .i8 ∧ nf.endian = .big ∧ (placeOf nf.bitField val).getLsbD 7 = true)) := by
  have hlen := length_encoded nf val
  have hspills : signSpills nf val = true ↔
      nf.kind = .i8 ∧ nf.endian = .big ∧ (placeOf nf.bitField val).getLsbD 7 = true := by
    simp only [signSpills, Bool.and_eq_true, decide_eq_true_eq, and_assoc]
  rw [← hspills]
  refine ⟨encoded nf val, encodeValue_numeric hf val r, ?_, ?_, ?_⟩
  · rw [hlen, length_maskWords]
    rfl
  · intro h hsign
    obtain ⟨hk, he, -⟩ := hspills.1 hsign
    -- bit 8 of the only word is the sign, and no byte-wide mask selects it
    have hone : nf.kind.registerWidth = 1 := by rw [hk]; rfl
    have hbits : nf.kind.bits = 8 := by rw [hk]; rfl
    have hi : 0 < nf.kind.registerWidth := by omega
    have hpos : ¬ bitPos nf.endian nf.wordOrder nf.kind.registerWidth 0 8 < nf.kind.bits := by
      rw [hbits, he, hone]
      cases nf.wordOrder <;> decide
    have hbit := congrArg (fun w => BitVec.getLsbD w 8) (h 0)
    simp only [BitVec.getLsbD_and, BitVec.getLsbD_not, getLsbD_encoded_eq nf val hi (show 8 < 16 by decide),
      getLsbD_maskWords nf hi (show 8 < 16 by decide), if_neg hpos, hsign, decide_eq_false hpos] at hbit
    simp at hbit
  intro hsign i
  apply BitVec.eq_of_getLsbD_eq
  intro j hj
  have hzero : (0 : Word).getLsbD j = false := BitVec.getLsbD_zero
  simp only [BitVec.getLsbD_and, BitVec.getLsbD_not, hzero, decide_eq_true hj, Bool.true_and]
  by_cases hi : i < nf.kind.registerWidth
  · rw [getLsbD_encoded_eq nf val hi hj, getLsbD_maskWords nf hi hj]
    split
    · rename_i hp
      rw [decide_eq_true hp, getLsbD_placeOf nf.kind.bits_le _ _ hp]
      cases nf.bitField.mask.getLsbD (bitPos nf.endian nf.wordOrder nf.kind.registerWidth i j) <;> simp
    · rw [Bool.eq_false_iff.2 hsign, Bool.false_and]
  · rw [List.getElem?_eq_none (by omega)]
    simp

/-- A `U16` field of four bits: its words stay inside. -/
theorem nibble_inside_mask : ∃ words,
    encodeValue (.numeric (maskedU16 0xF0#128)) (.numeric (.int .u16 0x5#16) Resolution.default) = .ok words ∧
      ∀ i : Nat, (words[i]?.getD 0 : Word) &&& ~~~ ((maskWords (.numeric (maskedU16 0xF0#128)))[i]?.getD 0 : Word) = 0 := by
  obtain ⟨words, henc, -, hiff⟩ := encoded_words_inside_mask_iff (maskedU16 0xF0#128) 0x5#16 Resolution.default (by decide)
  exact ⟨words, henc, hiff.2 (fun h => absurd h.1 (by decide))⟩

def signedByte : NumericFormat := ⟨.i8, .big, .normal, Resolution.default, BitField.default⟩

/-- The signed byte `-1` fills its register, of which the format owns the low half. -/
theorem negative_byte_spills : signedByte.bitField.fits signedByte.kind.bits = true ∧
      encodeValue (.numeric signedByte) (.numeric (.int .i8 0xFF#8) Resolution.default) = .ok [0xFFFF#16] ∧
      maskWords (.numeric signedByte) = [0x00FF#16] ∧ (0xFFFF#16 &&& ~~~ 0x00FF#16) ≠ 0 := by
  have hfits : signedByte.bitField.fits signedByte.kind.bits = true := by decide
  have henc := encodeValue_numeric hfits 0xFF#8 Resolution.default
  have hwords : orderWords signedByte.wordOrder (encodeInt signedByte.endian signedByte.bitField .i8 0xFF#8) =
      [0xFFFF#16] := by decide +kernel
  exact ⟨hfits, henc.trans (congrArg Except.ok hwords), by decide, by decide⟩

end Ferrowl.Codec
