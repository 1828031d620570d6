import Ferrowl.CodecText
import Ferrowl.Planner
/-!
# ReadRangeSpecs — the text of a device's read ranges

`ReadRanges` of `config/device.rs` holds its ranges as text, `"0-100,140-160"`: `parse_ranges` skips what is malformed,
`check_range_spec` is the strict check of interactive input.  Both read an entry with `parse_entry`, which turns inclusive bounds
into a start and a length.

A computation that panics is `none`.  `usize` has 64 bits; `checks` says whether the build checks arithmetic for overflow (a
release build does not, and wraps).  The planner takes the parsed ranges (`Modbus.ReadRanges`).
-/
namespace Ferrowl.Modbus

open List Option

open Store (Range)
open Codec (Kind uintFromStr)

structure RangeSpecs where
  holding : Option String
  input : Option String
  coils : Option String
  discrete : Option String
  deriving DecidableEq, Repr

def usizeMax : Nat := 2 ^ 64 - 1

def splitOnce (sep : Char) : List Char → Option (List Char × List Char)
  | [] => none
  | c :: cs => if c = sep then some ([], cs) else (splitOnce sep cs).map (fun p => (c :: p.1, p.2))

def rangeNew (start size : Nat) : Option Range := if start + size ≤ usizeMax then some (Range.new start size) else none

section
variable (checks : Bool)

def inclusiveLength (start stop : Nat) : Option Nat :=
  if stop - start + 1 ≤ usizeMax then some (stop - start + 1)
  else if checks then none
  else some ((stop - start + 1) % 2 ^ 64)

/-- One trimmed, non-empty entry; the inner `none` when malformed or reversed. -/
def parseEntry (part : List Char) : Option (Option Range) :=
  match splitOnce '-' part with
  | some (a, b) =>
    match uintFromStr 64 10 (trim a), uintFromStr 64 10 (trim b) with
    | some start, some stop =>
      if start.toNat ≤ stop.toNat then
        (inclusiveLength checks start.toNat stop.toNat).bind (fun size => (rangeNew start.toNat size).map some)
      else some none
    | _, _ => some none
  | none =>
    match uintFromStr 64 10 part with
    | some addr => (rangeNew addr.toNat 1).map some
    | none => some none

def specParts (spec : String) : List (List Char) := ((spec.toList.splitOn ',').map trim).filter (fun p => !p.isEmpty)

def parseRanges (spec : String) : Option (List Range) :=
  ((specParts spec).mapM (parseEntry checks)).map (fun entries => entries.filterMap id)

def entryError (part : List Char) : String :=
  "'" ++ String.ofList part ++ "' is not a range (use 5 or 0-100, start ≤ end)"

def checkParts : List (List Char) → Option (Except String Unit)
  | [] => some (.ok ())
  | part :: parts =>
    match parseEntry checks part with
    | none => none
    | some none => some (.error (entryError part))
    | some (some _) => checkParts parts

def checkRangeSpec (spec : String) : Option (Except String Unit) := checkParts checks (specParts spec)

def RangeSpecs.specFor (rr : RangeSpecs) : Kind → Option String
  | .holdingRegister => rr.holding
  | .inputRegister => rr.input
  | .coil => rr.coils
  | .discreteInput => rr.discrete

def RangeSpecs.rangesFor (rr : RangeSpecs) (kind : Kind) : Option (List Range) :=
  match rr.specFor kind with
  | some spec => parseRanges checks spec
  | none => some []

end

/-! ## What an entry says -/

def Numeral (s : List Char) (n : Nat) : Prop :=
  ∃ ds : List Nat, ds ≠ [] ∧ (∀ d ∈ ds, d < 10) ∧ (s = ds.map hexChar ∨ s = '+' :: ds.map hexChar) ∧
    n = numeral 10 ds ∧ n ≤ usizeMax

/-- **An entry and its bounds**: a number, or two with a dash between them, the first not above the second. -/
inductive Entry : List Char → Nat → Nat → Prop where
  | single {part : List Char} {n : Nat} : Numeral part n → Entry part n n
  | pair {a b : List Char} {lo hi : Nat} : '-' ∉ a → Numeral (trim a) lo → Numeral (trim b) hi → lo ≤ hi →
      Entry (a ++ '-' :: b) lo hi

theorem toDigit_ten {c : Char} {d : Nat} (h : toDigit 10 c = some d) : d < 10 ∧ c = hexChar d := by
  unfold toDigit at h
  obtain ⟨hraw, hd⟩ := filter_eq_some_iff.1 h
  have hlt : d < 10 := by simpa using hd
  refine ⟨hlt, ?_⟩
  split at hraw
  · rename_i hrange
    obtain rfl := Option.some.inj hraw
    rw [hexChar, if_pos hlt, Nat.add_sub_cancel' hrange.1, Char.ofNat_toNat]
  -- the letters are digits of ten and above
  · split at hraw
    · rename_i hrange
      have := Option.some.inj hraw
      omega
    split at hraw
    · rename_i hrange
      have := Option.some.inj hraw
      omega
    · cases hraw

theorem parseDigits_some : ∀ {cs : List Char} {acc n : Nat}, acc < 2 ^ 128 → parseDigits 10 acc cs = some n →
    n < 2 ^ 128 ∧ ∃ ds : List Nat, (∀ d ∈ ds, d < 10) ∧ cs = ds.map hexChar ∧ n = ds.foldl (fun a d => a * 10 + d) acc
  | [], acc, n, hacc, h => by
    obtain rfl := Option.some.inj h
    exact ⟨hacc, [], by simp, rfl, rfl⟩
  | c :: cs, acc, n, hacc, h => by
    rw [parseDigits] at h
    cases hd : toDigit 10 c with
    | none =>
      rw [hd] at h
      cases h
    | some d =>
      rw [hd] at h
      simp only at h
      split at h
      · rename_i hlt
        obtain ⟨hn, ds, hds, rfl, hval⟩ := parseDigits_some hlt h
        obtain ⟨hd10, rfl⟩ := toDigit_ten hd
        refine ⟨hn, d :: ds, ?_, rfl, hval⟩
        intro e he
        rcases mem_cons.1 he with rfl | he
        · exact hd10
        · exact hds e he
      · cases h

variable {s : List Char}

theorem numeral_of_fromStrRadix {x : BitVec 128} (h : fromStrRadix 10 s = some x) :
    ∃ ds : List Nat, ds ≠ [] ∧ (∀ d ∈ ds, d < 10) ∧ (s = ds.map hexChar ∨ s = '+' :: ds.map hexChar) ∧
      x.toNat = numeral 10 ds := by
  have hdigits : ∀ {cs : List Char}, cs ≠ [] → (parseDigits 10 0 cs).map (BitVec.ofNat 128) = some x →
      ∃ ds : List Nat, ds ≠ [] ∧ (∀ d ∈ ds, d < 10) ∧ cs = ds.map hexChar ∧ x.toNat = numeral 10 ds := by
    intro cs hne hcs
    obtain ⟨n, hn, rfl⟩ := map_eq_some_iff.1 hcs
    obtain ⟨hlt, ds, hds, rfl, hval⟩ := parseDigits_some (by decide) hn
    refine ⟨ds, fun hnil => hne (by rw [hnil]; rfl), hds, rfl, ?_⟩
    rw [BitVec.toNat_ofNat, Nat.mod_eq_of_lt hlt, hval, numeral]
  unfold fromStrRadix at h
  split at h
  · cases h
  · cases h
  · cases h
  · rename_i hcs
    obtain ⟨ds, hne, hds, rfl, hval⟩ := hdigits hcs h
    exact ⟨ds, hne, hds, Or.inr rfl, hval⟩
  · rename_i hnil _ _ _
    obtain ⟨ds, hne, hds, hs, hval⟩ := hdigits hnil h
    exact ⟨ds, hne, hds, Or.inl hs, hval⟩

theorem fromStrRadix_plus {ds : List Nat} (hne : ds ≠ []) (hds : ∀ d ∈ ds, d < 10) :
    fromStrRadix 10 ('+' :: ds.map hexChar) = fromStrRadix 10 (ds.map hexChar) := by
  cases ds with
  | nil => exact absurd rfl hne
  | cons d ds =>
    obtain ⟨-, -, hplus, hminus, -⟩ := hexChar_spec ⟨d, Nat.lt_trans (hds d mem_cons_self) (by decide)⟩
    have hplain : fromStrRadix 10 (hexChar d :: ds.map hexChar) =
        (parseDigits 10 0 (hexChar d :: ds.map hexChar)).map (BitVec.ofNat 128) := by
      unfold fromStrRadix
      split <;> simp_all
    rw [map_cons, hplain]
    rfl

variable {n : Nat}

theorem uintFromStr_iff : (∃ v, uintFromStr 64 10 s = some v ∧ v.toNat = n) ↔ Numeral s n := by
  constructor
  · rintro ⟨v, hv, rfl⟩
    obtain ⟨x, hx, rfl⟩ := map_eq_some_iff.1 hv
    obtain ⟨hparse, hlt⟩ := filter_eq_some_iff.1 hx
    obtain ⟨ds, hne, hds, hs, hval⟩ := numeral_of_fromStrRadix hparse
    have hlt : x.toNat < 2 ^ 64 := by simpa using hlt
    refine ⟨ds, hne, hds, hs, ?_, ?_⟩
    · rw [BitVec.toNat_setWidth, Nat.mod_eq_of_lt hlt, hval]
    · exact Nat.le_sub_one_of_lt (BitVec.isLt _)
  rintro ⟨ds, hne, hds, hs, rfl, hle⟩
  have hval : numeral 10 ds = (BitVec.ofNat 64 (numeral 10 ds)).toNat := by
    rw [BitVec.toNat_ofNat, Nat.mod_eq_of_lt (Nat.lt_of_le_sub_one (by decide) hle)]
  have hread : uintFromStr 64 10 (ds.map hexChar) = some (BitVec.ofNat 64 (numeral 10 ds)) :=
    Codec.uintFromStr_map_hexChar (k := .u64) (by decide) (by decide) hne hds hval
  refine ⟨_, ?_, hval.symm⟩
  rcases hs with rfl | rfl
  · exact hread
  · rw [uintFromStr, fromStrRadix_plus hne hds]
    exact hread

theorem splitOnce_some {sep : Char} : ∀ {s a b : List Char}, splitOnce sep s = some (a, b) ↔ s = a ++ sep :: b ∧ sep ∉ a
  | [], a, b => by simp [splitOnce]
  | c :: cs, a, b => by
    rw [splitOnce]
    by_cases hc : c = sep
    · subst hc
      rw [if_pos rfl]
      cases a with
      | nil => simp
      | cons e a =>
        simp only [Option.some.injEq, Prod.mk.injEq, nil_eq, reduceCtorEq, false_and, cons_append,
          List.cons.injEq, mem_cons, not_or, false_iff]
        rintro ⟨⟨rfl, -⟩, hne, -⟩
        exact hne rfl
    rw [if_neg hc, map_eq_some_iff]
    constructor
    · rintro ⟨⟨a', b'⟩, hrec, heq⟩
      obtain ⟨rfl, rfl⟩ := Prod.mk.inj heq
      obtain ⟨rfl, hnot⟩ := splitOnce_some.1 hrec
      exact ⟨rfl, by simp [hnot, Ne.symm hc]⟩
    rintro ⟨hs, hnot⟩
    cases a with
    | nil => exact absurd (List.cons.inj hs).1 hc
    | cons e a =>
      obtain ⟨rfl, rfl⟩ := List.cons.inj hs
      exact ⟨(a, b), splitOnce_some.2 ⟨rfl, fun h => hnot (mem_cons_of_mem c h)⟩, rfl⟩

theorem splitOnce_none {sep : Char} : ∀ {s : List Char}, splitOnce sep s = none ↔ sep ∉ s
  | [] => by simp [splitOnce]
  | c :: cs => by
    rw [splitOnce]
    by_cases hc : c = sep
    · subst hc
      simp
    · rw [if_neg hc, map_eq_none_iff, splitOnce_none, mem_cons, not_or]
      exact ⟨fun h => ⟨Ne.symm hc, h⟩, fun h => h.2⟩

theorem Numeral.no_dash (h : Numeral s n) : '-' ∉ s := by
  obtain ⟨ds, -, hds, hs, -⟩ := h
  have hmap : '-' ∉ ds.map hexChar := by
    rintro hmem
    obtain ⟨d, hd, hdash⟩ := mem_map.1 hmem
    exact (hexChar_spec ⟨d, Nat.lt_trans (hds d hd) (by decide)⟩).2.2.2.1 hdash
  rcases hs with rfl | rfl
  · exact hmap
  intro hmem
  rcases mem_cons.1 hmem with h | h
  · cases h
  · exact hmap h

theorem Numeral.le_max (h : Numeral s n) : n ≤ usizeMax := by
  obtain ⟨-, -, -, -, -, hle⟩ := h
  exact hle

def entryBounds (part : List Char) : Option (Nat × Nat) :=
  match splitOnce '-' part with
  | some (a, b) =>
    match uintFromStr 64 10 (trim a), uintFromStr 64 10 (trim b) with
    | some start, some stop => if start.toNat ≤ stop.toNat then some (start.toNat, stop.toNat) else none
    | _, _ => none
  | none => (uintFromStr 64 10 part).map (fun n => (n.toNat, n.toNat))

variable {part : List Char} {lo hi : Nat}

theorem entryBounds_iff : entryBounds part = some (lo, hi) ↔ Entry part lo hi := by
  unfold entryBounds
  constructor
  · intro h
    cases hsplit : splitOnce '-' part with
    | none =>
      simp only [hsplit] at h
      obtain ⟨v, hv, heq⟩ := map_eq_some_iff.1 h
      obtain ⟨rfl, rfl⟩ := Prod.mk.inj heq
      exact .single (uintFromStr_iff.1 ⟨v, hv, rfl⟩)
    | some ab =>
      obtain ⟨a, b⟩ := ab
      obtain ⟨rfl, hnot⟩ := splitOnce_some.1 hsplit
      simp only [hsplit] at h
      split at h
      · rename_i start stop hstart hstop
        split at h
        · rename_i hle
          obtain ⟨rfl, rfl⟩ := Prod.mk.inj (Option.some.inj h)
          exact .pair hnot (uintFromStr_iff.1 ⟨start, hstart, rfl⟩) (uintFromStr_iff.1 ⟨stop, hstop, rfl⟩) hle
        · cases h
      · cases h
  · intro h
    cases h with
    | single hn =>
      obtain ⟨v, hv, rfl⟩ := uintFromStr_iff.2 hn
      rw [splitOnce_none.2 hn.no_dash]
      simp [hv]
    | pair hnot hlo hhi hle =>
      obtain ⟨start, hstart, rfl⟩ := uintFromStr_iff.2 hlo
      obtain ⟨stop, hstop, rfl⟩ := uintFromStr_iff.2 hhi
      rw [splitOnce_some.2 ⟨rfl, hnot⟩]
      simp only [hstart, hstop, if_pos hle]

theorem Entry.bounds (h : Entry part lo hi) : lo ≤ hi ∧ hi ≤ usizeMax := by
  cases h with
  | single hn => exact ⟨Nat.le_refl _, hn.le_max⟩
  | pair _ _ hhi hle => exact ⟨hle, hhi.le_max⟩

/-! ## What is made of an entry -/

def entryRange (lo hi : Nat) : Range := Range.new lo ((hi - lo + 1) % 2 ^ 64)

theorem range_of_bounds (checks : Bool) (hle : lo ≤ hi) (hmax : hi ≤ usizeMax) :
    (inclusiveLength checks lo hi).bind (fun size => (rangeNew lo size).map some) =
      if hi = usizeMax ∧ (checks = true ∨ 0 < lo) then none else some (some (entryRange lo hi)) := by
  have hval : usizeMax = 2 ^ 64 - 1 := rfl
  unfold inclusiveLength rangeNew entryRange
  by_cases hall : lo = 0 ∧ hi = usizeMax
  -- the one length that is no `usize`
  · obtain ⟨rfl, rfl⟩ := hall
    cases checks with
    | true => rfl
    | false => rfl
  have hlen : hi - lo + 1 ≤ usizeMax := by omega
  rw [if_pos hlen, bind_some]
  by_cases htop : hi = usizeMax
  · have hlo : 0 < lo := by omega
    rw [if_neg (by omega), if_pos ⟨htop, Or.inr hlo⟩, map_none]
  · rw [if_pos (by omega), if_neg (fun h => htop h.1), map_some, Nat.mod_eq_of_lt (by omega)]

theorem range_of_single (checks : Bool) (hmax : n ≤ usizeMax) :
    (rangeNew n 1).map some =
      if n = usizeMax ∧ (checks = true ∨ 0 < n) then none else some (some (entryRange n n)) := by
  have hval : usizeMax = 2 ^ 64 - 1 := rfl
  unfold rangeNew entryRange
  by_cases htop : n = usizeMax
  · rw [if_neg (by omega), if_pos ⟨htop, Or.inr (by omega)⟩, map_none]
  · rw [if_pos (by omega), if_neg (fun h => htop h.1), map_some, Nat.sub_self]
    rfl

/-- **What an entry is turned into**: its range, unless one past its upper bound is no `usize`.  Then the range of all
addresses wraps to an empty one where arithmetic is not checked, and everything else panics. -/
theorem parseEntry_eq (checks : Bool) (part : List Char) :
    parseEntry checks part =
      match entryBounds part with
      | none => some none
      | some (lo, hi) =>
        if hi = usizeMax ∧ (checks = true ∨ 0 < lo) then none else some (some (entryRange lo hi)) := by
  unfold parseEntry entryBounds
  cases splitOnce '-' part with
  | none =>
    simp only
    cases uintFromStr 64 10 part with
    | none => rfl
    | some addr =>
      simp only [map_some]
      exact range_of_single checks (Nat.le_sub_one_of_lt addr.isLt)
  | some ab =>
    obtain ⟨a, b⟩ := ab
    simp only
    cases uintFromStr 64 10 (trim a) with
    | none => rfl
    | some start =>
      cases uintFromStr 64 10 (trim b) with
      | none => rfl
      | some stop =>
        simp only
        by_cases hle : start.toNat ≤ stop.toNat
        · simp only [if_pos hle]
          exact range_of_bounds checks hle (Nat.le_sub_one_of_lt stop.isLt)
        · simp only [if_neg hle]

def entryOf (part : List Char) : Option Range := (entryBounds part).map (fun b => entryRange b.1 b.2)

theorem entryOf_isSome : (entryOf part).isSome = true ↔ ∃ lo hi, Entry part lo hi := by
  rw [entryOf, isSome_map, isSome_iff_exists]
  constructor
  · rintro ⟨⟨lo, hi⟩, h⟩
    exact ⟨lo, hi, entryBounds_iff.1 h⟩
  · rintro ⟨lo, hi, h⟩
    exact ⟨(lo, hi), entryBounds_iff.2 h⟩

variable {checks : Bool}

theorem parseEntry_returns : (∃ r, parseEntry checks part = some r) ↔ ∀ lo, Entry part lo usizeMax → checks = false ∧ lo = 0 := by
  rw [parseEntry_eq]
  cases hb : entryBounds part with
  | none =>
    refine iff_of_true ⟨_, rfl⟩ (fun lo h => ?_)
    rw [entryBounds_iff.2 h] at hb
    cases hb
  | some b =>
    obtain ⟨lo, hi⟩ := b
    have hentry := entryBounds_iff.1 hb
    simp only
    by_cases hpanic : hi = usizeMax ∧ (checks = true ∨ 0 < lo)
    · obtain ⟨rfl, hwhy⟩ := hpanic
      rw [if_pos ⟨rfl, hwhy⟩]
      refine iff_of_false (fun ⟨r, h⟩ => by cases h) (fun h => ?_)
      obtain ⟨rfl, rfl⟩ := h lo hentry
      exact absurd hwhy (by decide)
    rw [if_neg hpanic]
    refine iff_of_true ⟨_, rfl⟩ (fun lo' h => ?_)
    have hsame := hb.symm.trans (entryBounds_iff.2 h)
    obtain ⟨rfl, rfl⟩ := Prod.mk.inj (Option.some.inj hsame)
    simp only [true_and, not_or, Bool.not_eq_true, Nat.not_lt, Nat.le_zero] at hpanic
    exact hpanic

theorem parseEntry_some {r : Option Range} (h : parseEntry checks part = some r) : r = entryOf part := by
  rw [parseEntry_eq] at h
  unfold entryOf
  cases hb : entryBounds part with
  | none =>
    rw [hb] at h
    exact (Option.some.inj h).symm
  | some b =>
    rw [hb] at h
    simp only at h
    split at h
    · cases h
    · exact (Option.some.inj h).symm

theorem parseEntry_of_returns (h : ∃ r, parseEntry checks part = some r) : parseEntry checks part = some (entryOf part) := by
  obtain ⟨r, hr⟩ := h
  rw [hr, parseEntry_some hr]

/-! ## Whole texts -/

theorem checkParts_eq : ∀ {parts : List (List Char)}, (∀ p ∈ parts, parseEntry checks p = some (entryOf p)) →
    checkParts checks parts = some (match parts.find? (fun p => (entryOf p).isNone) with
        | none => .ok ()
        | some p => .error (entryError p))
  | [], _ => rfl
  | p :: parts, h => by
    rw [checkParts, h p mem_cons_self]
    cases hp : entryOf p with
    | none => simp [hp]
    | some r =>
      simp only
      rw [checkParts_eq (fun q hq => h q (mem_cons_of_mem p hq)), List.find?_cons_of_neg (by simp [hp])]

theorem checkParts_ok {parts : List (List Char)} (h : ∀ p ∈ parts, parseEntry checks p = some (entryOf p)) :
    checkParts checks parts = some (.ok ()) ↔ ∀ p ∈ parts, ∃ lo hi, Entry p lo hi := by
  have hfind : parts.find? (fun p => (entryOf p).isNone) = none ↔ ∀ p ∈ parts, ∃ lo hi, Entry p lo hi := by
    rw [List.find?_eq_none]
    refine forall₂_congr (fun p _ => ?_)
    rw [← entryOf_isSome, isNone_eq_false_iff.symm, Bool.not_eq_true]
  rw [checkParts_eq h, ← hfind]
  cases parts.find? (fun p => (entryOf p).isNone) with
  | none => simp
  | some p => simp

/-- What reading a text comes to: reading its ranges and checking it end, the check accepts the texts of entries
only, and the ranges of an accepted text are those of its entries, one by one. -/
structure SpecSound (checks : Bool) (spec : String) : Prop where
  rangesReturn : ∀ (rr : RangeSpecs) (kind : Kind), rr.specFor kind = some spec →
    ∃ ranges, rr.rangesFor checks kind = some ranges
  checkReturns : ∃ answer, checkRangeSpec checks spec = some answer
  accepts : checkRangeSpec checks spec = some (.ok ()) ↔ ∀ p ∈ specParts spec, ∃ lo hi, Entry p lo hi
  covers : checkRangeSpec checks spec = some (.ok ()) → ∀ (rr : RangeSpecs) (kind : Kind), rr.specFor kind = some spec →
    ∃ ranges, rr.rangesFor checks kind = some ranges ∧
      List.Forall₂ (fun p range => ∃ lo hi, Entry p lo hi ∧ ∀ a, a ∈ range ↔ lo ≤ a ∧ a ≤ hi) (specParts spec) ranges

theorem parseRanges_eq {spec : String} (h : ∀ p ∈ specParts spec, parseEntry checks p = some (entryOf p)) :
    parseRanges checks spec = some ((specParts spec).filterMap entryOf) := by
  rw [parseRanges, mapM_eq_some h, map_some, filterMap_map]
  rfl

theorem forall₂_filterMap {α β : Type} {f : α → Option β} {R : α → β → Prop} : ∀ {l : List α},
    (∀ a ∈ l, ∃ b, f a = some b ∧ R a b) → List.Forall₂ R l (l.filterMap f)
  | [], _ => .nil
  | a :: l, h => by
    obtain ⟨b, hb, hR⟩ := h a mem_cons_self
    rw [filterMap_cons_some hb]
    exact .cons hR (forall₂_filterMap (fun c hc => h c (mem_cons_of_mem a hc)))

theorem exists_of_forall₂ {α β : Type} {R S : α → β → Prop} {l : List α} {l' : List β} (hR : List.Forall₂ R l l')
    (hS : List.Forall₂ S l l') : ∀ a ∈ l, ∃ b, R a b ∧ S a b := by
  induction hR with
  | nil => simp
  | cons h _ ih =>
    cases hS with
    | cons hs hS' =>
      intro a ha
      rcases mem_cons.1 ha with rfl | ha
      · exact ⟨_, h, hs⟩
      · exact ih hS' a ha

theorem mem_entryRange (hle : lo ≤ hi) (hlt : hi < usizeMax) (a : Nat) : a ∈ entryRange lo hi ↔ lo ≤ a ∧ a ≤ hi := by
  have hval : usizeMax = 2 ^ 64 - 1 := rfl
  rw [entryRange, Range.mem_def, Range.new_start, Range.new_stop, Nat.mod_eq_of_lt (by omega)]
  omega

variable {p : List Char}

theorem entryOf_of_entry (h : Entry p lo hi) : entryOf p = some (entryRange lo hi) := by
  rw [entryOf, entryBounds_iff.2 h, map_some]

theorem Entry.unique {lo' hi' : Nat} (h : Entry p lo hi) (h' : Entry p lo' hi') : lo = lo' ∧ hi = hi' :=
  Prod.mk.inj (Option.some.inj ((entryBounds_iff.2 h).symm.trans (entryBounds_iff.2 h')))

theorem mem_entryRange_of_covers {parts : List (List Char)} (hall : ∀ q ∈ parts, ∃ lo hi, Entry q lo hi)
    (hcover : List.Forall₂ (fun p range => ∃ lo hi, Entry p lo hi ∧ ∀ a, a ∈ range ↔ lo ≤ a ∧ a ≤ hi) parts
      (parts.filterMap entryOf)) (hp : p ∈ parts) (h : Entry p lo hi) (a : Nat) : a ∈ entryRange lo hi ↔ lo ≤ a ∧ a ≤ hi := by
  have hmade : List.Forall₂ (fun q r => entryOf q = some r) parts (parts.filterMap entryOf) :=
    forall₂_filterMap (fun q hq => by
      obtain ⟨r, hr⟩ := isSome_iff_exists.1 (entryOf_isSome.2 (hall q hq))
      exact ⟨r, hr, hr⟩)
  obtain ⟨r, ⟨lo', hi', hp', hcov⟩, hr⟩ := exists_of_forall₂ hcover hmade p hp
  obtain ⟨rfl, rfl⟩ := h.unique hp'
  rw [entryOf_of_entry h] at hr
  obtain rfl := Option.some.inj hr
  exact hcov a

theorem rangesFor_eq {rr : RangeSpecs} {kind : Kind} {spec : String} (checks : Bool) (h : rr.specFor kind = some spec) :
    rr.rangesFor checks kind = parseRanges checks spec := by
  rw [RangeSpecs.rangesFor, h]

/-- **Reading the text of read ranges** ends, accepts the texts of entries only and covers what the entries say, exactly when no
entry has the upper bound `usize::MAX` (in a build that does not check arithmetic, the range of all addresses may stand in a
text that is rejected for another entry). -/
theorem range_spec_sound_iff (checks : Bool) (spec : String) :
    SpecSound checks spec ↔ ∀ p ∈ specParts spec, ∀ lo, Entry p lo usizeMax →
      checks = false ∧ lo = 0 ∧ ∃ q ∈ specParts spec, ¬ ∃ lo hi, Entry q lo hi := by
  constructor
  · intro hs p hp lo hentry
    obtain ⟨ranges, hranges⟩ := hs.rangesReturn ⟨some spec, none, none, none⟩ .holdingRegister rfl
    rw [rangesFor_eq checks rfl] at hranges
    obtain ⟨entries, hentries, -⟩ := map_eq_some_iff.1 hranges
    have hread := exists_of_mapM hentries
    obtain ⟨rfl, rfl⟩ := parseEntry_returns.1 (hread p hp) lo hentry
    refine ⟨rfl, rfl, ?_⟩
    by_contra hnone
    -- every part is an entry, so the text is accepted, and yet the range of `p` is empty
    have hall : ∀ q ∈ specParts spec, ∃ lo hi, Entry q lo hi := fun q hq => by
      by_contra hq'
      exact hnone ⟨q, hq, hq'⟩
    obtain ⟨ranges', hranges', hcover⟩ := hs.covers (hs.accepts.2 hall) ⟨some spec, none, none, none⟩ .holdingRegister rfl
    rw [rangesFor_eq false rfl, parseRanges_eq (fun q hq => parseEntry_of_returns (hread q hq))] at hranges'
    obtain rfl := Option.some.inj hranges'
    have hzero : 0 ∉ entryRange 0 usizeMax := by decide
    exact hzero ((mem_entryRange_of_covers hall hcover hp hentry 0).2 ⟨Nat.le_refl 0, Nat.zero_le _⟩)
  intro h
  have hread : ∀ p ∈ specParts spec, parseEntry checks p = some (entryOf p) := by
    intro p hp
    exact parseEntry_of_returns (parseEntry_returns.2 (fun lo hlo => ⟨(h p hp lo hlo).1, (h p hp lo hlo).2.1⟩))
  have haccepts : checkRangeSpec checks spec = some (.ok ()) ↔ ∀ p ∈ specParts spec, ∃ lo hi, Entry p lo hi :=
    checkParts_ok hread
  refine ⟨?_, ⟨_, checkParts_eq hread⟩, haccepts, ?_⟩
  · intro rr kind hspec
    exact ⟨_, (rangesFor_eq checks hspec).trans (parseRanges_eq hread)⟩
  intro hok rr kind hspec
  refine ⟨_, (rangesFor_eq checks hspec).trans (parseRanges_eq hread), forall₂_filterMap (fun p hp => ?_)⟩
  obtain ⟨lo, hi, hentry⟩ := haccepts.1 hok p hp
  have hlt : hi < usizeMax := by
    refine Nat.lt_of_le_of_ne hentry.bounds.2 (fun htop => ?_)
    subst htop
    obtain ⟨-, -, q, hq, hbad⟩ := h p hp lo hentry
    exact hbad (haccepts.1 hok q hq)
  exact ⟨_, entryOf_of_entry hentry, lo, hi, hentry, mem_entryRange hentry.bounds.1 hlt⟩

/-- **A text that crashes the program**: the largest address, alone.  It is a number, and both the check of interactive
input and the reading of a config with it panic. -/
theorem largest_address_panics : specParts "18446744073709551615" = ["18446744073709551615".toList] ∧
      Entry "18446744073709551615".toList usizeMax usizeMax ∧ ∀ checks, checkRangeSpec checks "18446744073709551615" = none ∧
        RangeSpecs.rangesFor checks ⟨some "18446744073709551615", none, none, none⟩ .holdingRegister = none := by
  refine ⟨by decide +kernel, .single (uintFromStr_iff.1 ⟨BitVec.allOnes 64, by decide +kernel, rfl⟩), ?_⟩
  decide +kernel

/-! ## The planner's ranges -/

def RangeSpecs.parsed (checks : Bool) (rr : RangeSpecs) : Option ReadRanges := do
  let holding ← rr.rangesFor checks .holdingRegister
  let input ← rr.rangesFor checks .inputRegister
  let coils ← rr.rangesFor checks .coil
  let discrete ← rr.rangesFor checks .discreteInput
  return ⟨holding, input, coils, discrete⟩

theorem RangeSpecs.rangesFor_parsed {rr : RangeSpecs} {readRanges : ReadRanges}
    (h : rr.parsed checks = some readRanges) (kind : Kind) : rr.rangesFor checks kind = some (readRanges.rangesFor kind) := by
  unfold RangeSpecs.parsed at h
  obtain ⟨holding, hholding, h⟩ := bind_eq_some_iff.1 h
  obtain ⟨input, hinput, h⟩ := bind_eq_some_iff.1 h
  obtain ⟨coils, hcoils, h⟩ := bind_eq_some_iff.1 h
  obtain ⟨discrete, hdiscrete, h⟩ := bind_eq_some_iff.1 h
  obtain rfl := Option.some.inj h
  cases kind with
  | holdingRegister => exact hholding
  | inputRegister => exact hinput
  | coil => exact hcoils
  | discreteInput => exact hdiscrete

end Ferrowl.Modbus
