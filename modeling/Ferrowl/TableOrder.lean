import Ferrowl.FloatBits
/-!
# TableOrder — how the rows of a table are ordered

`cmp_table_entry` of `modbus/table.rs`, the comparison `:order` sorts the rows of a tab and of a monitor's table with: two cells
compare as numbers when both are numbers, and as text otherwise.

Lowercasing beyond ASCII is a parameter.
-/
namespace Ferrowl.Modbus

section
variable (unicodeLower : String → String)

def toLowercase (s : String) : String :=
  if s.toList.all (fun c => c.toNat < 128) then String.ofList (s.toList.map Char.toLower) else unicodeLower s

/-- Two cells: as numbers if both are, where what is no number is equal to every number, else as lowercase text. -/
def compareCells (sa sb : String) : Ordering :=
  match f64FromStr sa.toList, f64FromStr sb.toList with
  | some na, some nb => (f64PartialCmp na nb).getD .eq
  | _, _ => compare (toLowercase unicodeLower sa) (toLowercase unicodeLower sb)

variable {V : Type} (values : V → List String)

def cellText (row : V) (column : Nat) : String := (values row)[column]?.getD ""

def cmpTableEntry (a b : V) (column : Nat) (descending : Bool) : Ordering :=
  let ord := compareCells unicodeLower (cellText values a column) (cellText values b column)
  if descending then ord.swap else ord

end

/-! ## Cells -/

def IsNumber (s : String) : Prop := ∃ x rank, f64FromStr s.toList = some x ∧ f64Rank x = some rank

def IsText (s : String) : Prop := f64FromStr s.toList = none

theorem f64PartialCmp_swap (x y : BitVec 64) : (f64PartialCmp y x).getD .eq = ((f64PartialCmp x y).getD .eq).swap := by
  unfold f64PartialCmp
  cases f64Rank x with
  | none => cases f64Rank y <;> rfl
  | some a =>
    cases f64Rank y with
    | none => rfl
    | some b =>
      have hswap : compare b a = (compare a b).swap := Std.OrientedCmp.eq_swap
      exact hswap

section
variable (unicodeLower : String → String)

theorem compareCells_swap (s t : String) : compareCells unicodeLower t s = (compareCells unicodeLower s t).swap := by
  have htext : compare (toLowercase unicodeLower t) (toLowercase unicodeLower s) =
      (compare (toLowercase unicodeLower s) (toLowercase unicodeLower t)).swap := Std.OrientedCmp.eq_swap
  unfold compareCells
  cases f64FromStr s.toList with
  | none => cases f64FromStr t.toList <;> exact htext
  | some x =>
    cases f64FromStr t.toList with
    | none => exact htext
    | some y => exact f64PartialCmp_swap x y

theorem compareCells_number {s t : String} {x y : BitVec 64} {a b : Int} (hs : f64FromStr s.toList = some x)
    (ht : f64FromStr t.toList = some y) (ha : f64Rank x = some a) (hb : f64Rank y = some b) :
    compareCells unicodeLower s t = compare a b := by
  simp [compareCells, hs, ht, f64PartialCmp, ha, hb]

theorem compareCells_text {s : String} (hs : IsText s) (t : String) :
    compareCells unicodeLower s t = compare (toLowercase unicodeLower s) (toLowercase unicodeLower t) := by
  simp only [compareCells, show f64FromStr s.toList = none from hs]

def OneSort (cells : String → Prop) : Prop := (∀ s, cells s → IsNumber s) ∨ ∀ s, cells s → IsText s

theorem compareCells_trans {cells : String → Prop} (h : OneSort cells) {s t u : String} (hs : cells s) (ht : cells t)
    (hu : cells u) (hst : (compareCells unicodeLower s t).isLE = true) (htu : (compareCells unicodeLower t u).isLE = true) :
    (compareCells unicodeLower s u).isLE = true := by
  rcases h with hnum | htext
  · obtain ⟨x, a, hx, ha⟩ := hnum s hs
    obtain ⟨y, b, hy, hb⟩ := hnum t ht
    obtain ⟨z, c, hz, hc⟩ := hnum u hu
    rw [compareCells_number unicodeLower hx hy ha hb] at hst
    rw [compareCells_number unicodeLower hy hz hb hc] at htu
    rw [compareCells_number unicodeLower hx hz ha hc]
    exact Std.TransCmp.isLE_trans hst htu
  · rw [compareCells_text unicodeLower (htext s hs)] at hst ⊢
    rw [compareCells_text unicodeLower (htext t ht)] at htu
    exact Std.TransCmp.isLE_trans hst htu

end

/-! ## Rows -/

end Ferrowl.Modbus
