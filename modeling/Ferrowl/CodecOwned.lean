import Ferrowl.CodecMerge
import Ferrowl.CodecText
/-!
# CodecOwned — the decoder sees exactly the owned bits

Two contents of a register's words decode to the same value exactly when they agree on the bits the register owns
(`Register.decode_eq_iff`).
-/
namespace Ferrowl.Codec

open List

open Store (Word)

theorem toOption_eq_some {ε α : Type} {x : Except ε α} {a : α} : x.toOption = some a ↔ x = .ok a := by
  cases x with
  | error e => exact ⟨nofun, nofun⟩
  | ok b => exact ⟨fun h => congrArg Except.ok (Option.some.inj h), fun h => congrArg some (Except.ok.inj h)⟩

def SameOwned (mask ws ws' : List Word) : Prop :=
  ∀ i, i < mask.length → ws[i]?.getD 0 &&& mask[i]?.getD 0 = ws'[i]?.getD 0 &&& mask[i]?.getD 0

instance (mask ws ws' : List Word) : Decidable (SameOwned mask ws ws') :=
  inferInstanceAs (Decidable (∀ i, i < mask.length → _))

theorem and_eq_and_iff {w w' m : Word} : w &&& m = w' &&& m ↔ ∀ j, j < 16 → m.getLsbD j = true → w.getLsbD j = w'.getLsbD j := by
  constructor
  · intro h j _ hm
    have hj := congrArg (fun x => BitVec.getLsbD x j) h
    simpa only [BitVec.getLsbD_and, hm, Bool.and_true] using hj
  intro h
  apply BitVec.eq_of_getLsbD_eq
  intro j hj
  rw [BitVec.getLsbD_and, BitVec.getLsbD_and]
  cases hm : m.getLsbD j with
  | false => rw [Bool.and_false, Bool.and_false]
  | true => rw [h j hj hm]

variable {ws : List Word}

theorem sameOwned_iff {mask ws' : List Word} : SameOwned mask ws ws' ↔
    ∀ i j, i < mask.length → j < 16 → (mask[i]?.getD 0).getLsbD j = true →
      (ws[i]?.getD 0).getLsbD j = (ws'[i]?.getD 0).getLsbD j := by
  constructor
  · intro h i j hi hj hm
    exact and_eq_and_iff.1 (h i hi) j hj hm
  · intro h i hi
    exact and_eq_and_iff.2 (fun j hj hm => h i j hi hj hm)

theorem sameOwned_full {W : Nat} {ws' : List Word} (hl : ws.length = W) (hl' : ws'.length = W) :
    SameOwned (List.replicate W 0xFFFF#16) ws ws' ↔ ws = ws' := by
  constructor
  · intro h
    apply ext_getElem (by rw [hl, hl'])
    intro i hi hi'
    have hiW : i < W := by omega
    have hw := h i (by rw [length_replicate]; exact hiW)
    rw [List.getElem?_replicate, if_pos hiW, List.getElem?_eq_getElem hi, List.getElem?_eq_getElem hi'] at hw
    simp only [Option.getD_some] at hw
    rwa [show 0xFFFF#16 = BitVec.allOnes 16 from rfl, BitVec.and_allOnes, BitVec.and_allOnes] at hw
  · rintro rfl
    exact fun _ _ => rfl

theorem fieldOf_eq_iff {k : IntKind} {bf : BitField} (hf : bf.fits k.bits = true) {raw raw' : BitVec (16 * k.registerWidth)} :
    fieldOf bf k.bits raw = fieldOf bf k.bits raw' ↔
      ∀ p, p < k.bits → bf.mask.getLsbD p = true → raw.getLsbD p = raw'.getLsbD p := by
  refine ⟨fun h p hp hm => ?_, fieldOf_congr hf⟩
  have hshift : bf.shift ≤ p := by
    by_contra hlt
    rw [BitField.getLsbD_of_lt_shift (by omega)] at hm
    cases hm
  have hbit := congrArg (fun x => BitVec.getLsbD x (p - bf.shift)) h
  simpa only [getLsbD_fieldOf k.registerWidth_le, Nat.add_sub_cancel' hshift, hm, Bool.and_true,
    decide_eq_true (show p - bf.shift < k.bits by omega), Bool.true_and] using hbit

theorem rawWords_order_inj (e : Endian) (order : WordOrder) {W : Nat} {ws' : List Word}
    (hl : ws.length = W) (hl' : ws'.length = W)
    (h : rawWords e W (orderWords order ws) = rawWords e W (orderWords order ws')) : ws = ws' := by
  apply ext_getElem (by rw [hl, hl'])
  intro i hi hi'
  apply BitVec.eq_of_getLsbD_eq
  intro j hj
  have hbit := congrArg (fun x => BitVec.getLsbD x (bitPos e order W i j)) h
  simp only [getLsbD_rawWords_order e order hl (by omega : i < W) hj,
    getLsbD_rawWords_order e order hl' (by omega : i < W) hj] at hbit
  simpa only [List.getElem?_eq_getElem hi, List.getElem?_eq_getElem hi', Option.getD_some] using hbit

theorem wordBytes_inj {ws' : List Word} (hl : ws.length = ws'.length) (h : wordBytes ws = wordBytes ws') : ws = ws' := by
  apply ext_getElem hl
  intro i hi hi'
  apply BitVec.eq_of_getLsbD_eq
  intro j hj
  -- the byte of word `i` that holds bit `j`, and the bit's place in it
  obtain ⟨k, t, hk, ht, hpos⟩ : ∃ k t, k / 2 = i ∧ t < 8 ∧ (if k % 2 = 0 then 8 + t else t) = j := by
    by_cases hj8 : 8 ≤ j
    · exact ⟨2 * i, j - 8, by omega, by omega, by rw [if_pos (by omega)]; omega⟩
    · exact ⟨2 * i + 1, j, by omega, by omega, if_neg (by omega)⟩
  have hbyte := congrArg (fun bytes => (bytes[k]?.getD 0).getLsbD t) h
  simp only [getLsbD_wordBytes (by omega : k / 2 < ws.length) ht, getLsbD_wordBytes (by omega : k / 2 < ws'.length) ht,
    hk, hpos] at hbyte
  simpa only [List.getElem?_eq_getElem hi, List.getElem?_eq_getElem hi', Option.getD_some] using hbyte

section
variable {r : Register} {ws ws' : List Word} {v : Value}

theorem decode_numeric_eq_iff {nf : NumericFormat} (hr : r.format = .numeric nf) (hl : ws.length = nf.kind.registerWidth)
    (hl' : ws'.length = nf.kind.registerWidth) (h : r.decode ws = .ok v) :
    r.decode ws' = .ok v ↔ SameOwned r.writeMask ws ws' := by
  have hf : nf.bitField.fits nf.kind.bits = true := by
    by_contra hn
    rw [Bool.not_eq_true] at hn
    rw [Register.decode, hr, decode, if_neg (by show ¬ ws.length < nf.kind.registerWidth; omega)] at h
    simp [hn] at h
  rw [Register.decode_of_length hr hf hl] at h
  rw [Register.decode_of_length hr hf hl', ← h, sameOwned_iff, length_writeMask hr]
  simp only [Except.ok.injEq, Value.numeric.injEq, NumericPrimitive.int.injEq, heq_eq_eq, true_and, and_true]
  constructor
  · intro hfield i j hi hj hm
    rw [getLsbD_writeMask hr hi hj, Bool.and_eq_true, decide_eq_true_eq] at hm
    have hbit := (fieldOf_eq_iff hf).1 hfield _ hm.1 hm.2
    rw [getLsbD_rawWords_order nf.endian nf.wordOrder hl' hi hj, getLsbD_rawWords_order nf.endian nf.wordOrder hl hi hj] at hbit
    exact hbit.symm
  · intro hsame
    exact fieldOf_rawWords_congr hr hf hl' hl (fun i j hi hj hm => (hsame i j hi hj hm).symm)

theorem decode_float_eq_iff {ff : FloatFormat} (hr : r.format = .float ff) (hl : ws.length = ff.kind.registerWidth)
    (hl' : ws'.length = ff.kind.registerWidth) (h : r.decode ws = .ok v) :
    r.decode ws' = .ok v ↔ SameOwned r.writeMask ws ws' := by
  have hdecode : ∀ words : List Word, words.length = ff.kind.registerWidth → r.decode words =
      .ok (.numeric (.float ff.kind ((rawWords ff.endian ff.kind.registerWidth
        (orderWords ff.wordOrder words)).setWidth ff.kind.bits)) ff.resolution) := by
    intro words hw
    rw [Register.decode, hr, decode, if_neg (by show ¬ words.length < ff.kind.registerWidth; omega)]
    show Except.ok (Value.numeric (.float ff.kind ((rawWords ff.endian ff.kind.registerWidth
        (orderWords ff.wordOrder (words.take ff.kind.registerWidth))).setWidth ff.kind.bits)) ff.resolution) = _
    rw [take_of_length_le (Nat.le_of_eq hw)]
  have hmask : r.writeMask = List.replicate ff.kind.registerWidth 0xFFFF#16 := by
    rw [Register.writeMask, hr, maskWords]
    show orderWords ff.wordOrder (List.replicate ff.kind.registerWidth 0xFFFF#16) = _
    cases ff.wordOrder with
    | normal => rfl
    | reversed => exact reverse_replicate
  rw [hdecode ws hl] at h
  rw [hdecode ws' hl', ← h, hmask, sameOwned_full hl hl']
  simp only [Except.ok.injEq, Value.numeric.injEq, NumericPrimitive.float.injEq, heq_eq_eq, true_and, and_true]
  constructor
  · intro hraw
    refine (rawWords_order_inj ff.endian ff.wordOrder hl' hl (BitVec.eq_of_getLsbD_eq (fun p hp => ?_))).symm
    have hbit := congrArg (fun x => BitVec.getLsbD x p) hraw
    have hbits := ff.kind.bits_eq
    simpa only [BitVec.getLsbD_setWidth, decide_eq_true (show p < ff.kind.bits by omega), Bool.true_and] using hbit
  · rintro rfl
    rfl

theorem decode_ascii_eq_iff {a : Alignment} {w : Nat} (hr : r.format = .ascii a w) (hl : ws.length = w)
    (hl' : ws'.length = w) (h : r.decode ws = .ok v) : r.decode ws' = .ok v ↔ SameOwned r.writeMask ws ws' := by
  rw [Register.decode, hr] at h ⊢
  have hmask : r.writeMask = List.replicate w 0xFFFF#16 := by
    rw [Register.writeMask, hr]
    rfl
  rw [hmask, sameOwned_full hl hl']
  constructor
  · intro h'
    rw [decode_ascii a hl] at h
    rw [decode_ascii a hl'] at h'
    cases hs : utf8Of (wordBytes ws) with
    | none => rw [hs] at h; cases h
    | some s =>
      cases hs' : utf8Of (wordBytes ws') with
      | none => rw [hs'] at h'; cases h'
      | some s' =>
        rw [hs] at h
        rw [hs', ← h] at h'
        obtain rfl : s' = s := by simpa using h'
        exact wordBytes_inj (hl.trans hl'.symm) ((utf8Of_eq_some.1 hs).trans (utf8Of_eq_some.1 hs').symm)
  · rintro rfl
    exact h

/-- **The decoder sees exactly the owned bits**: words decode to the value that others decode to exactly when they agree
with those on the bits the register owns. -/
theorem Register.decode_eq_iff (hl : ws.length = r.format.width) (hl' : ws'.length = r.format.width)
    (h : r.decode ws = .ok v) : r.decode ws' = .ok v ↔ SameOwned r.writeMask ws ws' := by
  cases hr : r.format with
  | numeric nf =>
    rw [hr] at hl hl'
    exact decode_numeric_eq_iff hr hl hl' h
  | float ff =>
    rw [hr] at hl hl'
    exact decode_float_eq_iff hr hl hl' h
  | ascii a w =>
    rw [hr] at hl hl'
    exact decode_ascii_eq_iff hr hl hl' h

end

theorem Register.width_pos {r : Register} {nf : NumericFormat} (h : r.format = .numeric nf) : 0 < r.format.width := by
  rw [h]
  show 0 < nf.kind.registerWidth
  cases nf.kind <;> decide

theorem length_encodeValue {format : Format} {v : Value} (h : encodeValue format v = .ok ws) : ws.length = format.width := by
  unfold encodeValue at h
  cases hw : encodeWords format v with
  | error e =>
    rw [hw] at h
    cases h
  | ok words =>
    rw [hw] at h
    obtain rfl := Except.ok.inj h
    rw [length_orderWords]
    unfold encodeWords at hw
    cases format with
    | numeric nf =>
      simp only at hw
      split at hw
      · cases hw
      split at hw
      · split at hw
        · rename_i hk
          obtain rfl := Except.ok.inj hw
          rw [length_encodeInt, hk]
          rfl
        · cases hw
      · cases hw
    | float ff =>
      simp only at hw
      split at hw
      · split at hw
        · rename_i hk
          obtain rfl := Except.ok.inj hw
          subst hk
          have hbits : ff.kind.bits = 16 * ff.kind.registerWidth := by cases ff.kind <;> rfl
          exact length_layWords ff.endian _ hbits
        · cases hw
      · cases hw
    | ascii a w =>
      simp only at hw
      split at hw
      · obtain rfl := Except.ok.inj hw
        rw [intoVec_eq]
        exact length_pairWords w _ (length_alignBytes a w _)
      · cases hw

theorem length_encode {readFloat : (k : FloatKind) → List Char → Option (BitVec k.bits)}
    {format : Format} {s : String} (h : encode readFloat format s = .ok ws) : ws.length = format.width := by
  unfold encode at h
  cases hv : parseValue readFloat format s with
  | error e =>
    rw [hv] at h
    cases h
  | ok v =>
    rw [hv] at h
    exact length_encodeValue h

end Ferrowl.Codec
