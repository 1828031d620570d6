import Mathlib.Data.List.Induction
import Ferrowl.CodecFormat
/-!
# CodecBytes — words, bytes and numbers

`ferrowl-codec`'s `traits.rs` and the byte orders around it: a number is split into bytes and packed into words (`layWords`),
words are flattened into bytes and folded into a number (`rawWords`).
-/
namespace Ferrowl.Codec

open List

open Store (Word)

abbrev Byte := BitVec 8

/-- `ParseFromU8`: each byte shifts the accumulator left, so the first byte ends up most significant. -/
def parseBytes (w : Nat) (bytes : List Byte) : BitVec w :=
  bytes.foldl (fun output v => (output <<< 8) + v.setWidth w) 0

def packStep (st : List Word × Nat × Word) (v : Byte) : List Word × Nat × Word :=
  let val := st.2.2 ||| v.setWidth 16
  let idx := st.2.1 + 1
  if idx % 2 = 0 then (st.1 ++ [val], idx, 0) else (st.1, idx, val <<< 8)

/-- `IntoVec`: bytes are paired big-endian into words, a trailing byte becomes the high byte of the last one. -/
def intoVec (bytes : List Byte) : List Word :=
  let st := bytes.foldl packStep ([], 0, 0)
  if st.2.1 % 2 ≠ 0 then st.1 ++ [st.2.2] else st.1

def toBeBytes {w : Nat} (x : BitVec w) : List Byte :=
  (List.range (w / 8)).map (fun k => (x >>> (8 * (w / 8 - 1 - k))).setWidth 8)

def toLeBytes {w : Nat} (x : BitVec w) : List Byte := (toBeBytes x).reverse

def wordBytes (words : List Word) : List Byte :=
  words.flatMap (fun v : Word => [(v >>> 8).setWidth 8, (v &&& 0xFF#16).setWidth 8])

def orderWords (order : WordOrder) (words : List Word) : List Word :=
  match order with
  | .normal => words
  | .reversed => words.reverse

def layWords {w : Nat} (e : Endian) (x : BitVec w) : List Word :=
  match e with
  | .big => intoVec (toBeBytes x)
  | .little => intoVec (toLeBytes x)

def rawWords (e : Endian) (W : Nat) (words : List Word) : BitVec (16 * W) :=
  match e with
  | .big => parseBytes (16 * W) (wordBytes words)
  | .little => parseBytes (16 * W) (wordBytes words).reverse

/-! ## Bytes -/

theorem parseBytes_append (w : Nat) (bytes : List Byte) (b : Byte) :
    parseBytes w (bytes ++ [b]) = (parseBytes w bytes <<< 8) + b.setWidth w := by
  simp [parseBytes, foldl_append]

variable {w : Nat}

variable (x : BitVec w)

theorem getLsbD_shift_add (b : Byte) (p : Nat) (hp : p < w) :
    ((x <<< 8) + b.setWidth w).getLsbD p = if p < 8 then b.getLsbD p else x.getLsbD (p - 8) := by
  have hz : (x <<< 8) &&& b.setWidth w = 0#w := by
    apply BitVec.eq_of_getLsbD_eq
    intro i hi
    simp only [BitVec.getLsbD_and, BitVec.getLsbD_shiftLeft, BitVec.getLsbD_setWidth, BitVec.getLsbD_zero]
    by_cases h8 : i < 8
    · simp [h8]
    · simp [BitVec.getLsbD_of_ge b i (by omega)]
  rw [BitVec.add_eq_or_of_and_eq_zero _ _ hz]
  simp only [BitVec.getLsbD_or, BitVec.getLsbD_shiftLeft, BitVec.getLsbD_setWidth]
  by_cases h8 : p < 8
  · simp [h8, hp]
  · simp [h8, hp, BitVec.getLsbD_of_ge b p (by omega)]

theorem getLsbD_parseBytes (w : Nat) (bytes : List Byte) : ∀ p, p < w →
    (parseBytes w bytes).getLsbD p = (bytes.reverse[p / 8]?.getD 0).getLsbD (p % 8) := by
  induction bytes using List.reverseRecOn with
  | nil => intro p _; simp [parseBytes]
  | append_singleton bytes b ih =>
    intro p hp
    rw [parseBytes_append, getLsbD_shift_add _ _ _ hp, reverse_append, reverse_singleton, singleton_append]
    by_cases h8 : p < 8
    · rw [if_pos h8, Nat.div_eq_of_lt h8, Nat.mod_eq_of_lt h8]
      rfl
    · have hdiv : p / 8 = (p - 8) / 8 + 1 := by omega
      have hmod : p % 8 = (p - 8) % 8 := by omega
      rw [if_neg h8, ih (p - 8) (by omega), hdiv, hmod, List.getElem?_cons_succ]

@[simp] theorem length_toBeBytes : (toBeBytes x).length = w / 8 := by simp [toBeBytes]

@[simp] theorem length_toLeBytes : (toLeBytes x).length = w / 8 := by simp [toLeBytes]

variable {j : Nat}

theorem getLsbD_toBeBytes {k : Nat} (hk : k < w / 8) (hj : j < 8) :
    ((toBeBytes x)[k]?.getD 0).getLsbD j = x.getLsbD (8 * (w / 8 - 1 - k) + j) := by
  simp [toBeBytes, List.getElem?_range hk, hj]

theorem getLsbD_toLeBytes {k : Nat} (hk : k < w / 8) (hj : j < 8) :
    ((toLeBytes x)[k]?.getD 0).getLsbD j = x.getLsbD (8 * k + j) := by
  have hrev : (toLeBytes x)[k]? = (toBeBytes x)[w / 8 - 1 - k]? := by
    rw [toLeBytes, List.getElem?_reverse (by simpa using hk), length_toBeBytes]
  rw [hrev, getLsbD_toBeBytes x (by omega) hj]
  congr 2
  omega

/-! ## Words -/

theorem getElem?_wordBytes : ∀ (words : List Word) (k : Nat), (wordBytes words)[k]? =
    words[k / 2]?.map (fun v : Word => if k % 2 = 0 then (v >>> 8).setWidth 8 else (v &&& 0xFF#16).setWidth 8)
  | [], k => by simp [wordBytes]
  | v :: words, 0 => by simp [wordBytes]
  | v :: words, 1 => by simp [wordBytes]
  | v :: words, k + 2 => by
    have ih := getElem?_wordBytes words k
    have hdiv : (k + 2) / 2 = k / 2 + 1 := by omega
    have hmod : (k + 2) % 2 = k % 2 := by omega
    rw [hdiv, hmod, List.getElem?_cons_succ, ← ih]
    simp [wordBytes]

@[simp] theorem length_wordBytes (words : List Word) : (wordBytes words).length = 2 * words.length := by
  simp only [wordBytes, length_flatMap, length_cons, length_nil, Nat.zero_add]
  simp [Nat.mul_comm]

theorem getLsbD_wordBytes {words : List Word} {k : Nat} (hk : k / 2 < words.length) (hj : j < 8) :
    ((wordBytes words)[k]?.getD 0).getLsbD j = (words[k / 2]?.getD 0).getLsbD (if k % 2 = 0 then 8 + j else j) := by
  rw [getElem?_wordBytes, List.getElem?_eq_getElem hk, Option.map_some, Option.getD_some, Option.getD_some]
  have hff : ∀ i, i < 8 → (0xFF#16).getLsbD i = true := by decide
  split
  · simp only [BitVec.getLsbD_setWidth, BitVec.getLsbD_ushiftRight, hj, decide_true, Bool.true_and]
  · simp only [BitVec.getLsbD_setWidth, BitVec.getLsbD_and, hj, decide_true, Bool.true_and, hff j hj, Bool.and_true]

def pairWord (hi lo : Byte) : Word := (hi.setWidth 16 <<< 8) ||| lo.setWidth 16

theorem getLsbD_pairWord (hi lo : Byte) (hj : j < 16) :
    (pairWord hi lo).getLsbD j = if j < 8 then lo.getLsbD j else hi.getLsbD (j - 8) := by
  simp only [pairWord, BitVec.getLsbD_or, BitVec.getLsbD_shiftLeft, BitVec.getLsbD_setWidth, hj, decide_true, Bool.true_and]
  by_cases h8 : j < 8
  · simp [h8]
  · simp [h8, BitVec.getLsbD_of_ge lo j (by omega), show j - 8 < 16 by omega]

def pairWords : List Byte → List Word
  | hi :: lo :: bytes => pairWord hi lo :: pairWords bytes
  | [hi] => [hi.setWidth 16 <<< 8]
  | [] => []

theorem foldl_packStep : ∀ (bytes : List Byte) (values : List Word) (idx : Nat), idx % 2 = 0 →
    (let st := bytes.foldl packStep (values, idx, 0)
     if st.2.1 % 2 ≠ 0 then st.1 ++ [st.2.2] else st.1) = values ++ pairWords bytes
  | [], values, idx, h => by simp [pairWords, h]
  | [hi], values, idx, h => by
    have h1 : (idx + 1) % 2 ≠ 0 := by omega
    simp [packStep, pairWords, h1]
  | hi :: lo :: bytes, values, idx, h => by
    have h1 : (idx + 1) % 2 ≠ 0 := by omega
    have h2 : (idx + 1 + 1) % 2 = 0 := by omega
    have hstep : packStep (packStep (values, idx, 0) hi) lo = (values ++ [pairWord hi lo], idx + 1 + 1, 0) := by
      simp [packStep, h1, h2, pairWord]
    have ih := foldl_packStep bytes (values ++ [pairWord hi lo]) (idx + 1 + 1) h2
    rw [foldl_cons, foldl_cons, hstep, pairWords]
    exact ih.trans (append_cons values (pairWord hi lo) (pairWords bytes)).symm

theorem intoVec_eq (bytes : List Byte) : intoVec bytes = pairWords bytes := by
  have h := foldl_packStep bytes [] 0 rfl
  rwa [nil_append] at h

theorem length_pairWords : ∀ (W : Nat) (bytes : List Byte), bytes.length = 2 * W → (pairWords bytes).length = W
  | 0, [], _ => rfl
  | W + 1, hi :: lo :: bytes, h => by
    rw [pairWords, length_cons, length_pairWords W bytes (by simp at h; omega)]
  | W + 1, [hi], h => by simp at h; omega

theorem getLsbD_pairWords : ∀ (W : Nat) (bytes : List Byte), bytes.length = 2 * W → ∀ i j, i < W → j < 16 →
    ((pairWords bytes)[i]?.getD 0).getLsbD j =
      if j < 8 then (bytes[2 * i + 1]?.getD 0).getLsbD j else (bytes[2 * i]?.getD 0).getLsbD (j - 8)
  | W + 1, hi :: lo :: bytes, h, 0, j, _, hj => by
    rw [pairWords]
    exact getLsbD_pairWord hi lo hj
  | W + 1, hi :: lo :: bytes, h, i + 1, j, hi', hj => by
    have h1 : 2 * (i + 1) + 1 = 2 * i + 1 + 2 := by omega
    have h2 : 2 * (i + 1) = 2 * i + 2 := by omega
    rw [pairWords, List.getElem?_cons_succ, getLsbD_pairWords W bytes (by simp at h; omega) i j (by omega) hj, h1, h2]
    rfl
  | W + 1, [hi], h, _, _, _, _ => by simp at h; omega

/-! ## The layout -/

def wordPos (e : Endian) (W i j : Nat) : Nat :=
  match e with
  | .big => 16 * (W - 1 - i) + j
  | .little => 16 * i + (j + 8) % 16

variable (e : Endian)

theorem wordPos_lt {W i : Nat} (hi : i < W) (hj : j < 16) : wordPos e W i j < 16 * W := by
  cases e <;> simp only [wordPos] <;> omega

theorem exists_wordPos {W p : Nat} (hp : p < 16 * W) : ∃ i j, i < W ∧ j < 16 ∧ wordPos e W i j = p := by
  cases e with
  | big => exact ⟨W - 1 - p / 16, p % 16, by omega, by omega, by simp only [wordPos]; omega⟩
  | little => exact ⟨p / 16, (p + 8) % 16, by omega, by omega, by simp only [wordPos]; omega⟩

theorem length_layWords {W : Nat} (x : BitVec w) (hw : w = 16 * W) : (layWords e x).length = W := by
  have h8 : w / 8 = 2 * W := by omega
  cases e <;> simp only [layWords, intoVec_eq] <;> exact length_pairWords W _ (by simp [h8])

theorem getLsbD_layWords {W : Nat} (x : BitVec w) (hw : w = 16 * W) {i : Nat} (hi : i < W)
    (hj : j < 16) : ((layWords e x)[i]?.getD 0).getLsbD j = x.getLsbD (wordPos e W i j) := by
  have h8 : w / 8 = 2 * W := by omega
  cases e with
  | big =>
    rw [layWords, intoVec_eq, getLsbD_pairWords W _ (by simp [h8]) i j hi hj]
    split <;> rw [getLsbD_toBeBytes x (by omega) (by omega), h8]
    all_goals exact congrArg x.getLsbD (by simp only [wordPos]; omega)
  | little =>
    rw [layWords, intoVec_eq, getLsbD_pairWords W _ (by simp [h8]) i j hi hj]
    split <;> rw [getLsbD_toLeBytes x (by omega) (by omega)]
    all_goals exact congrArg x.getLsbD (by simp only [wordPos]; omega)

theorem getLsbD_rawWords {W : Nat} {words : List Word} (hlen : words.length = W) {i : Nat} (hi : i < W) (hj : j < 16) :
    (rawWords e W words).getLsbD (wordPos e W i j) = (words[i]?.getD 0).getLsbD j := by
  have hp := wordPos_lt e hi hj
  have hb : (wordBytes words).length = 2 * W := by rw [length_wordBytes, hlen]
  cases e with
  | big =>
    have hpos : wordPos .big W i j = 16 * (W - 1 - i) + j := rfl
    rw [hpos] at hp ⊢
    have hrev : (wordBytes words).reverse[(16 * (W - 1 - i) + j) / 8]? =
        (wordBytes words)[2 * W - 1 - (16 * (W - 1 - i) + j) / 8]? := by
      rw [List.getElem?_reverse (by omega), hb]
    rw [rawWords, getLsbD_parseBytes _ _ _ hp, hrev, getLsbD_wordBytes (by omega) (by omega)]
    have hword : (2 * W - 1 - (16 * (W - 1 - i) + j) / 8) / 2 = i := by omega
    rw [hword]
    congr 1
    split <;> omega
  | little =>
    have hpos : wordPos .little W i j = 16 * i + (j + 8) % 16 := rfl
    rw [hpos] at hp ⊢
    rw [rawWords, getLsbD_parseBytes _ _ _ hp, reverse_reverse, getLsbD_wordBytes (by omega) (by omega)]
    have hword : (16 * i + (j + 8) % 16) / 8 / 2 = i := by omega
    rw [hword]
    congr 1
    split <;> omega

end Ferrowl.Codec
