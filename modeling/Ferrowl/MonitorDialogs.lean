import Ferrowl.MonitorStore
import Ferrowl.RunTrace
/-!
# MonitorDialogs — the interpretations of a monitor tab and the dialogs that change them

A monitor tab lists the unit ids it has observed, shows the interpretations of the selected one as rows and lets the user add,
edit and delete them.  The selected unit is kept as an index into the sorted list of unit ids, which every refresh takes anew, and
an interpretation under edit as the name of its row.

One turn of the main loop refreshes and draws the tab and then handles at most one key; a tab in the background is only refreshed.
`D` has the fields of a definition other than its name and its slave id; a confirmed dialog comes with the definition its fields
read, or with none if they are invalid.  Commands that rebuild the module are left out.
-/
namespace Ferrowl

open Function List

theorem getElem?_filter_of_le {α : Type} {lt : α → α → Prop} {l : List α} (hl : l.Pairwise lt) {p q : α → Bool} {u : α}
    (hpq : ∀ x, p x = true → q x = true) (hnew : ∀ x, lt x u → q x = true → p x = true) {k : Nat}
    (h : (l.filter p)[k]? = some u) : (l.filter q)[k]? = some u := by
  induction l generalizing k with
  | nil => exact h
  | cons x l ih =>
    obtain ⟨hx, hl⟩ := pairwise_cons.1 hl
    by_cases hp : p x = true
    · rw [filter_cons_of_pos hp] at h
      rw [filter_cons_of_pos (hpq x hp)]
      cases k with
      | zero => exact h
      | succ k => exact ih hl h
    · rw [filter_cons_of_neg hp] at h
      have hu : u ∈ l := (mem_filter.1 (mem_of_getElem? h)).1
      rw [filter_cons_of_neg (fun hq => hp (hnew x (hx u hu) hq))]
      exact ih hl h

section
variable {α β : Type} {f : α → β}

def Sole (f : α → β) (l : List α) (k : Nat) (b : β) : Prop :=
  (∃ x, l[k]? = some x ∧ f x = b) ∧ ∀ j x, l[j]? = some x → f x = b → j = k

variable {l : List α} {k : Nat}

theorem Sole.tail {x : α} {b : β} (h : Sole f (x :: l) (k + 1) b) : f x ≠ b ∧ Sole f l k b := by
  refine ⟨(fun hx => nomatch h.2 0 x rfl hx), h.1, fun j y hj hy => ?_⟩
  exact Nat.succ_injective (h.2 (j + 1) y hj hy)

theorem Sole.of_nodup (h : (l.map f).Nodup) {x : α} (hx : l[k]? = some x) : Sole f l k (f x) := by
  refine ⟨⟨x, hx, rfl⟩, fun j y hj hy => ?_⟩
  have hj' : (l.map f)[j]? = some (f x) := by rw [List.getElem?_map, hj, Option.map_some, hy]
  have hk' : (l.map f)[k]? = some (f x) := by rw [List.getElem?_map, hx, Option.map_some]
  obtain ⟨hjl, hj'⟩ := List.getElem?_eq_some_iff.1 hj'
  obtain ⟨hkl, hk'⟩ := List.getElem?_eq_some_iff.1 hk'
  exact (h.getElem_inj_iff).1 (hj'.trans hk'.symm)

variable [DecidableEq β]

theorem Sole.findIdx? {b : β} (h : Sole f l k b) : l.findIdx? (fun x => decide (f x = b)) = some k := by
  induction l generalizing k with
  | nil =>
    obtain ⟨x, hx, -⟩ := h.1
    cases hx
  | cons x l ih =>
    rw [List.findIdx?_cons]
    cases k with
    | zero =>
      obtain ⟨y, hy, hb⟩ := h.1
      cases hy
      rw [if_pos (decide_eq_true hb)]
    | succ k =>
      obtain ⟨hx, ht⟩ := h.tail
      rw [if_neg (by simpa using hx), ih ht]
      rfl

theorem Sole.filter {b : β} (h : Sole f l k b) : l.filter (fun x => decide (f x ≠ b)) = l.eraseIdx k := by
  induction l generalizing k with
  | nil => rfl
  | cons x l ih =>
    cases k with
    | zero =>
      obtain ⟨y, hy, hb⟩ := h.1
      cases hy
      rw [filter_cons_of_neg (by simpa using hb), eraseIdx_cons_zero, filter_eq_self]
      intro y hy
      obtain ⟨j, hj⟩ := mem_iff_getElem?.1 hy
      exact decide_eq_true fun hyb => nomatch h.2 (j + 1) y hj hyb
    | succ k =>
      obtain ⟨hx, ht⟩ := h.tail
      rw [filter_cons_of_pos (by simpa using hx), eraseIdx_cons_succ, ih ht]

end

namespace Modbus.Monitor

open Store (Word)
open Codec (Kind)

/-- The table has a region of the unit, or the unit was marked seen. -/
def ObservedTable.observed (table : ObservedTable) (unit : UnitId) : Bool :=
  [Kind.coil, .discreteInput, .holdingRegister, .inputRegister].any (fun kind => (table.values ⟨unit, kind⟩).isSome) ||
    table.seen unit

def allUnits : List UnitId := (List.finRange 256).map BitVec.ofFin

theorem allUnits_sorted : allUnits.Pairwise (fun a b => a.toNat < b.toNat) := by
  refine pairwise_map.2 ((pairwise_lt_finRange 256).imp ?_)
  intro a b h
  exact h

def ObservedTable.unitIds (table : ObservedTable) : List UnitId := allUnits.filter table.observed

inductive Traffic where
  | words (key : SlaveKey) (address : BitVec 16) (words : List Word)
  | seen (slave : UnitId)

def Traffic.unit : Traffic → UnitId
  | words key _ _ => key.slaveId
  | seen slave => slave

def Traffic.apply (table : ObservedTable) : Traffic → ObservedTable
  | words key address ws => table.writeWords key address ws
  | seen slave => table.markSeen slave

theorem observed_apply_of_ne {table : ObservedTable} {t : Traffic} {unit : UnitId} (h : unit ≠ t.unit) :
    (t.apply table).observed unit = table.observed unit := by
  cases t with
  | words key address ws =>
    have hk : ∀ kind, (⟨unit, kind⟩ : SlaveKey) ≠ key := fun kind he => h (congrArg SlaveKey.slaveId he)
    simp only [ObservedTable.observed, Traffic.apply, ObservedTable.writeWords, update_of_ne (hk _)]
  | seen slave =>
    have hs : unit ≠ slave := h
    simp only [ObservedTable.observed, Traffic.apply, ObservedTable.markSeen, update_of_ne hs]

theorem observed_apply {table : ObservedTable} (t : Traffic) {unit : UnitId} (h : table.observed unit = true) :
    (t.apply table).observed unit = true := by
  cases t with
  | words key address ws =>
    simp only [ObservedTable.observed, Bool.or_eq_true, any_eq_true] at h ⊢
    refine h.imp (fun ⟨kind, hk, hs⟩ => ⟨kind, hk, ?_⟩) id
    simp only [Traffic.apply, ObservedTable.writeWords]
    by_cases he : (⟨unit, kind⟩ : SlaveKey) = key
    · rw [he, update_self]
      rfl
    · rw [update_of_ne he]
      exact hs
  | seen slave =>
    by_cases he : unit = slave
    · simp [ObservedTable.observed, Traffic.apply, ObservedTable.markSeen, he]
    · rw [observed_apply_of_ne he]
      exact h

section
variable {D : Type}

structure MonitorRegisterDef (D : Type) where
  name : String
  slaveId : UnitId
  body : D
  deriving DecidableEq

/-- The interpretations of every unit, in definition order, under their names. -/
abbrev Interpretations (D : Type) := UnitId → List (String × MonitorRegisterDef D)

namespace Interpretations

def ofDefinitions (defs : List (MonitorRegisterDef D)) : Interpretations D :=
  fun unit => (defs.filter (fun d => decide (d.slaveId = unit))).map (fun d => (d.name, d))

def definitions (i : Interpretations D) : List (MonitorRegisterDef D) :=
  allUnits.flatMap (fun unit => (i unit).map (fun e => { e.2 with name := e.1 }))

def addInterpretation (i : Interpretations D) (unit : UnitId) (name : String) (d : MonitorRegisterDef D) : Interpretations D :=
  update i unit (i unit ++ [(name, { d with slaveId := unit })])

def editInterpretation (i : Interpretations D) (unit : UnitId) (oldName newName : String) (d : MonitorRegisterDef D) :
    Interpretations D :=
  match (i unit).findIdx? (fun e => decide (e.1 = oldName)) with
  | none => i
  | some k => update i unit ((i unit).set k (newName, { d with slaveId := unit }))

def removeInterpretation (i : Interpretations D) (unit : UnitId) (name : String) : Interpretations D :=
  update i unit ((i unit).filter (fun e => decide (e.1 ≠ name)))

end Interpretations

/-- A row of the table of resolved registers.  The place of its interpretation is not in the source's row. -/
structure ResolvedRow where
  name : String
  index : Nat

/-- The open dialog.  What the user chose, the unit and the place of the interpretation in it, is not in the source's. -/
inductive MonitorOverlay where
  | none
  | add (unit : Option UnitId)
  | editInterpretation (originalName : String) (unit : UnitId) (index : Nat)
  deriving DecidableEq

structure Panels (D : Type) where
  interpretations : Interpretations D
  definitions : List (MonitorRegisterDef D)
  table : ObservedTable
  unitIds : List UnitId
  selected : Nat
  rows : List ResolvedRow
  selectedRow : Option Nat
  sort : Option (Nat × Bool)
  overlay : MonitorOverlay

inductive PanelKey (D : Type) where
  | unit (i : Nat)
  | row (i : Nat)
  | order (sort : Option (Nat × Bool))
  | add
  | enter
  | confirm (read : Option (String × MonitorRegisterDef D))
  | delete
  | close

inductive PanelEvent (D : Type) where
  | traffic (t : Traffic)
  | background
  | turn (key : Option (PanelKey D))

/-- How a column of the resolved rows of a unit compares two interpretations. -/
abbrev RowOrder (D : Type) := ObservedTable → UnitId → Nat × Bool → String × MonitorRegisterDef D → String × MonitorRegisterDef D → Bool

namespace Panels

def new (defs : List (MonitorRegisterDef D)) : Panels D where
  interpretations := .ofDefinitions defs
  definitions := defs
  table := .empty
  unitIds := []
  selected := 0
  rows := []
  selectedRow := none
  sort := none
  overlay := .none

def selectedUnit (s : Panels D) : Option UnitId := s.unitIds[s.selected]?

def refresh (s : Panels D) : Panels D :=
  { s with
    unitIds := s.table.unitIds
    selected := if s.table.unitIds.length ≤ s.selected then s.table.unitIds.length - 1 else s.selected }

def resolvedRows (le : RowOrder D) (s : Panels D) (unit : UnitId) : List ResolvedRow :=
  let entries := (s.interpretations unit).zipIdx
  let sorted :=
    match s.sort with
    | none => entries
    | some order => entries.mergeSort (fun a b => le s.table unit order a.1 b.1)
  sorted.map (fun e => ⟨e.1.1, e.2⟩)

/-- The rows are those of the selected unit; without any the table is not drawn and keeps what it had. -/
def draw (le : RowOrder D) (s : Panels D) : Panels D :=
  match s.selectedUnit with
  | none => s
  | some unit =>
    if (s.interpretations unit).isEmpty then s
    else
      let rows := s.resolvedRows le unit
      { s with rows := rows, selectedRow := some (min (s.selectedRow.getD 0) (rows.length - 1)) }

def commit (s : Panels D) (i : Interpretations D) : Panels D :=
  { s with interpretations := i, definitions := i.definitions, overlay := .none }

def confirmAdd (s : Panels D) (read : Option (String × MonitorRegisterDef D)) : Panels D :=
  match read, s.selectedUnit with
  | some (name, d), some unit => s.commit (s.interpretations.addInterpretation unit name d)
  | _, _ => s

def confirmEdit (s : Panels D) (originalName : String) (read : Option (String × MonitorRegisterDef D)) : Panels D :=
  match read, s.selectedUnit with
  | some (name, d), some unit => s.commit (s.interpretations.editInterpretation unit originalName name d)
  | _, _ => s

def deleteInterpretation (s : Panels D) (originalName : String) : Panels D :=
  match s.selectedUnit with
  | some unit => s.commit (s.interpretations.removeInterpretation unit originalName)
  | none => s

def openEditInterpretation (s : Panels D) : Panels D :=
  match s.selectedUnit, s.selectedRow.bind (fun i => s.rows[i]?) with
  | some unit, some row =>
    if (s.interpretations unit).any (fun e => decide (e.1 = row.name)) then
      { s with overlay := .editInterpretation row.name unit row.index }
    else s
  | _, _ => s

/-- While a dialog is open, the keys go to it; the tables see none of them. -/
def handle (s : Panels D) : PanelKey D → Panels D
  | .order sort => { s with sort := sort }
  | .add => if s.unitIds.isEmpty then s else { s with overlay := .add s.selectedUnit }
  | .unit i =>
    match s.overlay with
    | .none => if i < s.unitIds.length then { s with selected := i } else s
    | _ => s
  | .row i =>
    match s.overlay with
    | .none => if i < s.rows.length then { s with selectedRow := some i } else s
    | _ => s
  | .enter =>
    match s.overlay with
    | .none => s.openEditInterpretation
    | _ => s
  | .confirm read =>
    match s.overlay with
    | .none => s
    | .add _ => s.confirmAdd read
    | .editInterpretation originalName _ _ => s.confirmEdit originalName read
  | .delete =>
    match s.overlay with
    | .editInterpretation originalName _ _ => s.deleteInterpretation originalName
    | _ => s
  | .close => { s with overlay := .none }

def step (le : RowOrder D) (s : Panels D) : PanelEvent D → Panels D
  | .traffic t => { s with table := t.apply s.table }
  | .background => s.refresh
  | .turn none => s.refresh.draw le
  | .turn (some key) => (s.refresh.draw le).handle key

/-- What the user means by a key: the dialog acts on what was chosen when it was opened. -/
def intended (s : Panels D) : PanelKey D → Interpretations D
  | .confirm (some (name, d)) =>
    match s.overlay with
    | .none | .add none => s.interpretations
    | .add (some unit) => update s.interpretations unit (s.interpretations unit ++ [(name, { d with slaveId := unit })])
    | .editInterpretation _ unit index =>
      update s.interpretations unit ((s.interpretations unit).set index (name, { d with slaveId := unit }))
  | .delete =>
    match s.overlay with
    | .editInterpretation _ unit index =>
      update s.interpretations unit ((s.interpretations unit).eraseIdx index)
    | _ => s.interpretations
  | _ => s.interpretations

def Commits (s : Panels D) : PanelKey D → Prop
  | .confirm (some _) => s.overlay ≠ .none
  | .delete => ∃ name unit index, s.overlay = .editInterpretation name unit index
  | _ => False

end Panels

def MonitorOverlay.unit : MonitorOverlay → Option UnitId
  | .none => Option.none
  | .add unit => unit
  | .editInterpretation _ unit _ => some unit

namespace Panels

variable {le : RowOrder D}

/-- While a dialog is open, no unit before the one it is for shows up for the first time; and when an edit dialog is opened, no
unit has two interpretations of one name. -/
def Clear (s : Panels D) : PanelEvent D → Prop
  | .traffic t => ∀ unit, s.overlay.unit = some unit → t.unit.toNat < unit.toNat → s.table.observed t.unit = true
  | .turn (some .enter) => ∀ unit, ((s.interpretations unit).map Prod.fst).Nodup
  | _ => True

/-- The selection still leads to what the open dialog is for. -/
def Aimed (s : Panels D) : Prop :=
  match s.overlay with
  | .none => True
  | .add unit => ∃ u, unit = some u ∧ s.table.unitIds[s.selected]? = some u
  | .editInterpretation name unit index =>
    s.table.unitIds[s.selected]? = some unit ∧ Sole Prod.fst (s.interpretations unit) index name

theorem draw_eq (le : RowOrder D) (s : Panels D) :
    ∃ rows selectedRow, s.draw le = { s with rows := rows, selectedRow := selectedRow } := by
  rw [draw]
  split
  · exact ⟨s.rows, s.selectedRow, rfl⟩
  · split_ifs
    · exact ⟨s.rows, s.selectedRow, rfl⟩
    · exact ⟨_, _, rfl⟩

variable {s : Panels D} {unit : UnitId}

theorem refresh_selected (h : s.table.unitIds[s.selected]? = some unit) : s.refresh.selected = s.selected := by
  obtain ⟨hlt, -⟩ := List.getElem?_eq_some_iff.1 h
  exact if_neg (Nat.not_le.2 hlt)

theorem aimed_refresh (h : s.Aimed) : s.refresh.Aimed := by
  rw [Aimed] at h ⊢
  cases ho : s.overlay with
  | none =>
    rw [show s.refresh.overlay = .none from ho]
    trivial
  | add unit =>
    rw [ho] at h
    obtain ⟨u, hu, hsel⟩ := h
    rw [show s.refresh.overlay = .add unit from ho]
    exact ⟨u, hu, by rw [refresh_selected hsel]; exact hsel⟩
  | editInterpretation name unit index =>
    rw [ho] at h
    rw [show s.refresh.overlay = .editInterpretation name unit index from ho]
    exact ⟨by rw [refresh_selected h.1]; exact h.1, h.2⟩

theorem aimed_draw (h : s.Aimed) : (s.draw le).Aimed := by
  obtain ⟨rows, selectedRow, hd⟩ := s.draw_eq le
  rw [hd]
  exact h

theorem selectedUnit_draw_refresh (h : s.table.unitIds[s.selected]? = some unit) :
    (s.refresh.draw le).selectedUnit = some unit := by
  obtain ⟨rows, selectedRow, hd⟩ := s.refresh.draw_eq le
  rw [hd, selectedUnit]
  dsimp only
  rw [refresh_selected h]
  exact h

theorem aimed_traffic (h : s.Aimed) {t : Traffic} (hc : s.Clear (.traffic t)) : (s.step le (.traffic t)).Aimed := by
  have hkeep : ∀ unit, s.overlay.unit = some unit → s.table.unitIds[s.selected]? = some unit →
      (t.apply s.table).unitIds[s.selected]? = some unit := by
    intro unit hu hsel
    refine getElem?_filter_of_le allUnits_sorted (fun x => observed_apply t) (fun x hx hq => ?_) hsel
    by_cases he : x = t.unit
    · exact he ▸ hc unit hu (he ▸ hx)
    · rw [observed_apply_of_ne he] at hq
      exact hq
  rw [Aimed] at h ⊢
  rw [step]
  dsimp only
  cases ho : s.overlay with
  | none => trivial
  | add unit =>
    rw [ho] at h hkeep
    obtain ⟨u, rfl, hsel⟩ := h
    exact ⟨u, rfl, hkeep u rfl hsel⟩
  | editInterpretation name unit index =>
    rw [ho] at h hkeep
    exact ⟨hkeep unit rfl h.1, h.2⟩

theorem getElem?_of_mem_resolvedRows {row : ResolvedRow} (h : row ∈ s.resolvedRows le unit) :
    ∃ d, (s.interpretations unit)[row.index]? = some (row.name, d) := by
  simp only [resolvedRows] at h
  obtain ⟨⟨⟨name, d⟩, k⟩, he, rfl⟩ := mem_map.1 h
  have hm : ((name, d), k) ∈ (s.interpretations unit).zipIdx := by
    split at he
    · exact he
    · exact mem_mergeSort.1 he
  exact ⟨d, mem_zipIdx_iff_getElem?.1 hm⟩

theorem draw_rows (hu : s.selectedUnit = some unit) (hne : (s.interpretations unit).isEmpty = false) :
    (s.draw le).rows = s.resolvedRows le unit := by
  rw [draw, hu]
  dsimp only
  rw [hne]
  rfl

theorem openEditInterpretation_cases (s : Panels D) : s.openEditInterpretation = s ∨ ∃ unit row i,
    s.openEditInterpretation = { s with overlay := .editInterpretation row.name unit row.index } ∧
      s.selectedUnit = some unit ∧ s.selectedRow = some i ∧ s.rows[i]? = some row ∧
      (s.interpretations unit).isEmpty = false := by
  rw [openEditInterpretation]
  split
  · rename_i unit row hu hr
    split_ifs with ha
    · obtain ⟨i, hi, hrow⟩ := Option.bind_eq_some_iff.1 hr
      refine Or.inr ⟨unit, row, i, rfl, hu, hi, hrow, ?_⟩
      cases he : s.interpretations unit with
      | nil => rw [he] at ha; cases ha
      | cons e l => rfl
    · exact Or.inl rfl
  · exact Or.inl rfl

theorem aimed_of_none (h : s.overlay = .none) : s.Aimed := by
  rw [Aimed, h]
  trivial

theorem aimed_open (h : s.overlay = .none) (hu : ∀ unit, ((s.interpretations unit).map Prod.fst).Nodup) :
    (s.refresh.draw le).openEditInterpretation.Aimed := by
  obtain ⟨rows, selectedRow, hd⟩ := s.refresh.draw_eq le
  rcases (s.refresh.draw le).openEditInterpretation_cases with he | ⟨unit, row, i, he, hsel, -, hrow, hne⟩
  · rw [he]
    exact aimed_of_none (by rw [hd]; exact h)
  have hsel' : s.refresh.selectedUnit = some unit := by
    rw [hd] at hsel
    exact hsel
  have hint : (s.refresh.draw le).interpretations = s.interpretations := by rw [hd]; rfl
  rw [he]
  have hmem : row ∈ s.refresh.resolvedRows le unit := by
    rw [← draw_rows hsel' (hint ▸ hne)]
    exact mem_of_getElem? hrow
  obtain ⟨d, hget⟩ := getElem?_of_mem_resolvedRows hmem
  refine ⟨?_, ?_⟩
  · rw [hd]
    exact hsel'
  · dsimp only
    rw [hint]
    exact Sole.of_nodup (hu unit) hget

structure Refreshed (s : Panels D) : Prop where
  unitIds : s.unitIds = s.table.unitIds
  selected : s.unitIds ≠ [] → s.selected < s.unitIds.length

theorem refreshed_draw_refresh (le : RowOrder D) (s : Panels D) : (s.refresh.draw le).Refreshed := by
  obtain ⟨rows, selectedRow, hd⟩ := s.refresh.draw_eq le
  rw [hd]
  refine ⟨rfl, fun hne => ?_⟩
  have hpos : 0 < s.table.unitIds.length := length_pos_iff.2 hne
  simp only [refresh]
  split_ifs <;> omega

variable {key : PanelKey D}

theorem aimed_handle (h : s.Aimed) (hs : s.Refreshed) (hk : key ≠ .enter) : (s.handle key).Aimed := by
  cases key with
  | order sort => exact h
  | add =>
    rw [handle]
    split_ifs with he
    · exact h
    · have hne : s.unitIds ≠ [] := fun hn => he (by rw [hn]; rfl)
      obtain ⟨u, hu⟩ : ∃ u, s.unitIds[s.selected]? = some u := ⟨_, List.getElem?_eq_getElem (hs.selected hne)⟩
      exact ⟨u, hu, hs.unitIds ▸ hu⟩
  | unit i | row i =>
    rw [handle]
    split
    · rename_i ho
      split_ifs <;> exact aimed_of_none ho
    · exact h
  | enter => exact absurd rfl hk
  | confirm read =>
    rw [handle]
    split
    · exact h
    · unfold confirmAdd
      split
      · exact aimed_of_none rfl
      · exact h
    unfold confirmEdit
    split
    · exact aimed_of_none rfl
    · exact h
  | delete =>
    rw [handle]
    split
    · rw [deleteInterpretation]
      split
      · exact aimed_of_none rfl
      · exact h
    · exact h
  | close => exact aimed_of_none rfl

theorem aimed_step (h : s.Aimed) {e : PanelEvent D} (hc : s.Clear e) : (s.step le e).Aimed := by
  cases e with
  | traffic t => exact aimed_traffic h hc
  | background => exact aimed_refresh h
  | turn key =>
    have hdraw : (s.refresh.draw le).Aimed := aimed_draw (aimed_refresh h)
    cases key with
    | none => exact hdraw
    | some key =>
      by_cases hk : key = .enter
      · subst hk
        rw [step, handle]
        split
        · rename_i ho
          obtain ⟨rows, selectedRow, hd⟩ := s.refresh.draw_eq le
          rw [hd] at ho
          exact aimed_open ho hc
        · exact hdraw
      · exact aimed_handle hdraw (s.refreshed_draw_refresh le) hk

theorem draw_refresh_frame (le : RowOrder D) (s : Panels D) :
    (s.refresh.draw le).interpretations = s.interpretations ∧ (s.refresh.draw le).overlay = s.overlay := by
  obtain ⟨rows, selectedRow, hd⟩ := s.refresh.draw_eq le
  rw [hd]
  exact ⟨rfl, rfl⟩

theorem confirm_intended (h : s.Aimed) (name : String) (d : MonitorRegisterDef D) :
    (s.step le (.turn (some (.confirm (some (name, d)))))).interpretations = s.intended (.confirm (some (name, d))) := by
  obtain ⟨hint, hov⟩ := s.draw_refresh_frame le
  rw [Aimed] at h
  rw [step, handle, hov, intended]
  cases ho : s.overlay with
  | none => exact hint
  | add unit =>
    rw [ho] at h
    obtain ⟨u, rfl, hsel⟩ := h
    simp only [confirmAdd, selectedUnit_draw_refresh hsel, commit, Interpretations.addInterpretation, hint]
  | editInterpretation original unit index =>
    rw [ho] at h
    simp [confirmEdit, selectedUnit_draw_refresh h.1, commit, Interpretations.editInterpretation, hint, h.2.findIdx?]

theorem delete_intended (h : s.Aimed) : (s.step le (.turn (some .delete))).interpretations = s.intended .delete := by
  obtain ⟨hint, hov⟩ := s.draw_refresh_frame le
  rw [Aimed] at h
  rw [step, handle, hov, intended]
  cases ho : s.overlay with
  | none => exact hint
  | add unit => exact hint
  | editInterpretation original unit index =>
    rw [ho] at h
    simp only [deleteInterpretation, selectedUnit_draw_refresh h.1, commit, Interpretations.removeInterpretation, hint,
      h.2.filter]

theorem handle_interpretations (hc : ∀ read, key ≠ .confirm (some read)) (hd : key ≠ .delete) :
    (s.handle key).interpretations = s.interpretations := by
  cases key with
  | order sort => rfl
  | add =>
    rw [handle]
    split_ifs <;> rfl
  | unit i | row i =>
    rw [handle]
    split
    · split_ifs <;> rfl
    · rfl
  | enter =>
    rw [handle]
    split
    · rcases s.openEditInterpretation_cases with he | ⟨_, _, _, he, -⟩ <;> rw [he]
    · rfl
  | confirm read =>
    cases read with
    | some read => exact absurd rfl (hc read)
    | none =>
      rw [handle]
      split <;> rfl
  | delete => exact absurd rfl hd
  | close => rfl

theorem step_intended (h : s.Aimed) (key : PanelKey D) : (s.step le (.turn (some key))).interpretations = s.intended key := by
  by_cases hd : key = .delete
  · rw [hd]
    exact delete_intended h
  by_cases hc : ∃ read, key = .confirm (some read)
  · obtain ⟨⟨name, d⟩, rfl⟩ := hc
    exact confirm_intended h name d
  have hint : s.intended key = s.interpretations := by
    cases key with
    | confirm read =>
      cases read with
      | none => rfl
      | some read => exact absurd ⟨read, rfl⟩ hc
    | delete => exact absurd rfl hd
    | _ => rfl
  rw [hint, step, handle_interpretations (fun read he => hc ⟨read, he⟩) hd]
  exact (s.draw_refresh_frame le).1

theorem definitions_of_commits (h : s.Aimed) (hk : s.Commits key) :
    (s.step le (.turn (some key))).definitions = (s.step le (.turn (some key))).interpretations.definitions := by
  obtain ⟨-, hov⟩ := s.draw_refresh_frame le
  rw [Aimed] at h
  cases key with
  | confirm read =>
    cases read with
    | none => exact hk.elim
    | some read =>
      rw [step, handle, hov]
      cases ho : s.overlay with
      | none => exact absurd ho hk
      | add unit =>
        rw [ho] at h
        obtain ⟨u, rfl, hsel⟩ := h
        simp only [confirmAdd, selectedUnit_draw_refresh hsel, commit]
      | editInterpretation original unit index =>
        rw [ho] at h
        simp only [confirmEdit, selectedUnit_draw_refresh h.1, commit]
  | delete =>
    obtain ⟨original, unit, index, ho⟩ := hk
    rw [step, handle, hov]
    rw [ho] at h ⊢
    simp only [deleteInterpretation, selectedUnit_draw_refresh h.1, commit]
  | _ => exact hk.elim

end Panels

open Panels

/-- **A dialog of a monitor tab touches exactly what was chosen when it was opened**: as long as no unit before the chosen one
shows up while it is open, and names were unique when it was opened. -/
theorem dialogs_touch_the_chosen (le : RowOrder D) (defs : List (MonitorRegisterDef D)) {es : List (PanelEvent D)}
    {s : Panels D} (h : Run (fun s e t => t = Panels.step le s e) (Panels.new defs) es s)
    (hclear : ∀ pre e u, pre ++ [e] <+: es → Run (fun s e t => t = Panels.step le s e) (Panels.new defs) pre u → u.Clear e) :
    (∀ unit, s.overlay = .none → (s.step le (.turn (some .add))).overlay = .add unit → (s.refresh.draw le).selectedUnit = unit) ∧
    (∀ name unit index, s.overlay = .none → (s.step le (.turn (some .enter))).overlay = .editInterpretation name unit index →
      (s.refresh.draw le).selectedUnit = some unit ∧
        ∃ i, (s.refresh.draw le).selectedRow = some i ∧ (s.refresh.draw le).rows[i]? = some ⟨name, index⟩) ∧
    (∀ name unit index, s.overlay = .editInterpretation name unit index →
      ∃ d, (s.interpretations unit)[index]? = some (name, d)) ∧
    ∀ key, (s.step le (.turn (some key))).interpretations = s.intended key ∧ (s.Commits key →
        (s.step le (.turn (some key))).definitions = (s.step le (.turn (some key))).interpretations.definitions) := by
  have haim : s.Aimed := by
    refine h.invariant_of_steps (I := Aimed) (C := Clear) ?_ hclear (aimed_of_none rfl)
    rintro t e u ht hc rfl
    exact aimed_step ht hc
  obtain ⟨-, hov⟩ := s.draw_refresh_frame le
  refine ⟨fun unit hn ho => ?_, fun name unit index hn ho => ?_, fun name unit index ho => ?_,
    fun key => ⟨step_intended haim key, definitions_of_commits haim⟩⟩
  · rw [Panels.step, handle] at ho
    split_ifs at ho
    · rw [hov, hn] at ho
      cases ho
    · exact MonitorOverlay.add.inj ho
  · rw [Panels.step, handle, hov, hn] at ho
    rcases (s.refresh.draw le).openEditInterpretation_cases with he | ⟨u, ⟨n, k⟩, i, he, hu, hi, hrow, -⟩
    · rw [he, hov, hn] at ho
      cases ho
    · rw [he] at ho
      cases ho
      exact ⟨hu, i, hi, hrow⟩
  · rw [Aimed, ho] at haim
    obtain ⟨⟨n, d⟩, hget, rfl⟩ := haim.2.1
    exact ⟨d, hget⟩

end

def anyOrder : RowOrder Unit := fun _ _ _ _ _ => true

def power (unit : UnitId) : MonitorRegisterDef Unit := ⟨"power", unit, ()⟩

def opened (later : UnitId) : List (PanelEvent Unit) := [.traffic (.seen 5), .turn (some .enter), .traffic (.seen later)]

/-- A deletion with a unit that showed up after the chosen one. -/
theorem later_unit_deletes_chosen : ∃ s, Run (fun s e t => t = Panels.step anyOrder s e) (Panels.new [power 5]) (opened 7) s ∧
      (s.step anyOrder (.turn (some .delete))).interpretations = s.intended .delete := by
  have hclear : Meets (Panels.step anyOrder) Panels.Clear (Panels.new [power 5]) (opened 7) := by
    refine ⟨nofun, fun unit => ?_, fun unit hu hlt => ?_, trivial⟩
    · simp only [Panels.step, Panels.new, Interpretations.ofDefinitions, filter_cons, filter_nil]
      split_ifs <;> simp
    have hunit : (((Panels.new [power 5]).step anyOrder (.traffic (.seen 5))).step anyOrder
        (.turn (some .enter))).overlay.unit = some 5 := by decide +kernel
    cases hunit.symm.trans hu
    exact absurd hlt (by decide)
  exact ⟨_, Run.of_foldl _ _ _,
    ((dialogs_touch_the_chosen anyOrder [power 5] (Run.of_foldl _ _ _) hclear.forall_prefix).2.2.2 .delete).1⟩

/-- With a unit that shows up before the chosen one, the confirmed edit changes that one's interpretation; and with two
interpretations of one name, a deletion removes both. -/
theorem earlier_unit_is_edited :
    (∃ s, Run (fun s e t => t = Panels.step anyOrder s e) (Panels.new [power 3, power 5]) (opened 3) s ∧
      s.overlay = .editInterpretation "power" 5 0 ∧ ∃ t, t = s.step anyOrder (.turn (some (.confirm (some ("volts", power 0))))) ∧
        t.interpretations 5 = s.interpretations 5 ∧ t.interpretations 3 = [("volts", power 3)] ∧
        s.interpretations 3 = [("power", power 3)]) ∧
    (∃ s, Run (fun s e t => t = Panels.step anyOrder s e) (Panels.new [power 5, power 5]) (opened 7) s ∧
      s.overlay = .editInterpretation "power" 5 0 ∧ (s.interpretations 5).length = 2 ∧
      ((s.step anyOrder (.turn (some .delete))).interpretations 5).length = 0) :=
  ⟨⟨_, Run.of_foldl _ _ _, by decide +kernel, _, rfl, by decide +kernel, by decide +kernel, by decide +kernel⟩,
    ⟨_, Run.of_foldl _ _ _, by decide +kernel, by decide +kernel, by decide +kernel⟩⟩

end Modbus.Monitor
end Ferrowl
