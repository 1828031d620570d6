import Ferrowl.LuaValue
import Ferrowl.OcppStation
/-!
# OcppFields — the connectors of a 1.6 station and the ids they carry

A connector is added under an id the station does not have (`add_connector`), but its id is also a field like the others: the
operator edits it in the dialog (`apply_edit`) and a script writes it by name (`set_field`).  A number is a float there, and an
id is the number cut to an integer.
-/
namespace Ferrowl

open List Option

namespace Ocpp.V16

open Lua (ValueType)

/-! ## Fields by name -/

namespace ConnectorState

def numField : String → Option (BitVec 64 → ConnectorState → ConnectorState)
  | "Connector ID" => some fun n c => { c with connectorId := f64AsI64 n }
  | "Voltage" => some fun n c => { c with voltage := n }
  | "Current L1" => some fun n c => { c with current := c.current.setIfInBounds 0 n }
  | "Current L2" => some fun n c => { c with current := c.current.setIfInBounds 1 n }
  | "Current L3" => some fun n c => { c with current := c.current.setIfInBounds 2 n }
  | "Power" => some fun n c => { c with power := n }
  | "Frequency" => some fun n c => { c with frequency := n }
  | "State of Charge" => some fun n c => { c with soc := n }
  | "Temperature" => some fun n c => { c with temperature := n }
  | "Total Energy" => some fun n c => { c with totalEnergy := n }
  | "Session Energy" => some fun n c => { c with sessionEnergy := n }
  | "Charge Limit" => some fun n c => { c with limit := some n }
  | "Default Charge Limit" => some fun n c => { c with defaultLimit := some n }
  | "Max Charge Limit" => some fun n c => { c with maxLimit := some n }
  | _ => none

def textField : String → Option (String → ConnectorState → ConnectorState)
  | "Used Phases" => some fun s c => { c with phases := s }
  | "Status" => some fun s c => { c with status := s }
  | "RFID" => some fun s c => { c with rfid := s }
  | _ => none

def setField (c : ConnectorState) (name : String) (value : ValueType) : Bool × ConnectorState :=
  match numField name with
  | some write =>
    match value.num with
    | some n => (true, write n c)
    | none => (false, c)
  | none =>
    match textField name, value with
    | some write, .string s => (true, write s c)
    | _, _ => (false, c)

end ConnectorState

/-! ## Fields of the dialog -/

inductive EditField where
  | evseId | connectorId | phases | voltage
  | current (phase : Fin 3)
  | power | frequency | totalEnergy | sessionEnergy | soc | temperature | status | rfid
  | model | vendor | firmwareVersion | serialNumber | iccid | imsi | meterSerialNumber | meterType
  deriving DecidableEq, Repr

inductive ResolvedEdit where
  | choice (value : String)
  | number (value : BitVec 64)
  | text (value : String)
  deriving DecidableEq, Repr

namespace EditField

def choose (value : String) (c : ConnectorState) : EditField → ConnectorState
  | phases => { c with phases := value }
  | status => { c with status := value }
  | _ => c

def count (value : BitVec 64) (c : ConnectorState) : EditField → ConnectorState
  | connectorId => { c with connectorId := f64AsI64 value }
  | voltage => { c with voltage := value }
  | current phase => { c with current := c.current.set phase value }
  | power => { c with power := value }
  | frequency => { c with frequency := value }
  | totalEnergy => { c with totalEnergy := value }
  | sessionEnergy => { c with sessionEnergy := value }
  | soc => { c with soc := value }
  | temperature => { c with temperature := value }
  | _ => c

end EditField

namespace CsState

def applyEdit (s : CsState) (field : EditField) (scope : Scope) : ResolvedEdit → CsState
  | .choice value => s.onConnector scope (fun c => field.choose value c)
  | .number value => s.onConnector scope (fun c => field.count value c)
  | .text value =>
    match field with
    | .rfid => s.onConnector scope (fun c => { c with rfid := value })
    | .model => { s with model := value }
    | .vendor => { s with vendor := value }
    | .firmwareVersion => { s with firmwareVersion := value }
    | .serialNumber => { s with serialNumber := value }
    | .iccid => { s with iccid := value }
    | .imsi => { s with imsi := value }
    | .meterSerialNumber => { s with meterSerialNumber := value }
    | .meterType => { s with meterType := value }
    | _ => s

def addConnector (s : CsState) (id : Int) : Bool × CsState :=
  if s.connectors.any (hasId id) then (false, s)
  else
    (true, { s with
      connectors := (s.connectors ++ [ConnectorState.new id]).insertionSort (fun a b => a.connectorId ≤ b.connectorId) })

def connSet (s : CsState) (id : Int) (name : String) (value : ValueType) : Bool × CsState :=
  match s.connectors.find? (hasId id) with
  | some c =>
    ((c.setField name value).1, { s with connectors := updateFirst (hasId id) (fun c => (c.setField name value).2) s.connectors })
  | none => (false, s)

end CsState

/-! ## Ids -/

inductive Write where
  | addConnector (id : Int)
  | applyEdit (field : EditField) (scope : Scope) (value : ResolvedEdit)
  | connSet (id : Int) (name : String) (value : ValueType)

def Write.apply (s : CsState) : Write → CsState
  | addConnector id => (s.addConnector id).2
  | applyEdit field scope value => s.applyEdit field scope value
  | connSet id name value => (s.connSet id name value).2

def CsState.ids (s : CsState) : List Int := s.connectors.map (·.connectorId)

def CsState.Distinct (s : CsState) : Prop := s.ids.Nodup

instance (s : CsState) : Decidable s.Distinct := inferInstanceAs (Decidable s.ids.Nodup)

def Write.renames (s : CsState) : Write → Option (Nat × Int)
  | addConnector _ => none
  | applyEdit field scope value =>
    match field, value with
    | .connectorId, .number n => (s.connectorIndex scope).map (·, f64AsI64 n)
    | _, _ => none
  | connSet id name value =>
    if name = "Connector ID" then
      value.num.bind fun n => (s.connectors.findIdx? (hasId id)).map (·, f64AsI64 n)
    else none

/-- An id is written only where no other connector carries it. -/
def Write.Unclaimed (s : CsState) (w : Write) : Prop :=
  ∀ k id, w.renames s = some (k, id) → ∀ j, j ≠ k → s.ids[j]? ≠ some id

/-! ## What a write does to the ids -/

section
variable {α : Type} {l : List α}

theorem nodup_set_iff (h : l.Nodup) {k : Nat} (hk : k < l.length) (x : α) : (l.set k x).Nodup ↔ ∀ j, j ≠ k → l[j]? ≠ some x := by
  constructor
  · intro hset j hjk hj
    have hlen : k < (l.set k x).length := by rwa [length_set]
    refine hjk ((List.getElem?_inj hlen hset).1 ?_).symm
    rw [List.getElem?_set_self hk, List.getElem?_set_ne (Ne.symm hjk), hj]
  intro hfree
  rw [nodup_iff_getElem?_ne_getElem?]
  intro i j hij hj heq
  rw [length_set] at hj
  have hi := Nat.lt_trans hij hj
  by_cases hik : k = i
  · subst hik
    rw [List.getElem?_set_self hk, List.getElem?_set_ne (Nat.ne_of_lt hij)] at heq
    exact hfree j (Nat.ne_of_gt hij) heq.symm
  rw [List.getElem?_set_ne hik] at heq
  by_cases hjk : k = j
  · subst hjk
    rw [List.getElem?_set_self hk] at heq
    exact hfree i (Ne.symm hik) heq
  · rw [List.getElem?_set_ne hjk] at heq
    exact Nat.ne_of_lt hij ((List.getElem?_inj hi h).1 heq)

theorem modify_const (l : List α) (k : Nat) (x : α) : l.modify k (fun _ => x) = l.set k x := by
  induction l generalizing k with
  | nil => simp
  | cons y l ih =>
    cases k with
    | zero => rfl
    | succ k => rw [modify_succ_cons, ih, set_cons_succ]

end

namespace CsState

variable {s : CsState} {f : ConnectorState → ConnectorState}

theorem ids_modify (hf : ∀ c, (f c).connectorId = c.connectorId) (k : Nat) (cs : List ConnectorState) :
    (cs.modify k f).map (·.connectorId) = cs.map (·.connectorId) :=
  (map_modify_comm (h := id) hf k cs).trans (modify_id k _)

theorem ids_modify_const {id : Int} (hf : ∀ c, (f c).connectorId = id) (k : Nat) (cs : List ConnectorState) :
    (cs.modify k f).map (·.connectorId) = (cs.map (·.connectorId)).set k id :=
  (map_modify_comm (h := fun _ => id) hf k cs).trans (modify_const _ k id)

theorem ids_onConnector (hf : ∀ c, (f c).connectorId = c.connectorId) (scope : Scope) : (s.onConnector scope f).ids = s.ids := by
  unfold onConnector
  split
  · exact ids_modify hf _ s.connectors
  · rfl

theorem connectorIndex_lt {scope : Scope} {k : Nat} (h : s.connectorIndex scope = some k) : k < s.ids.length := by
  rw [ids, length_map]
  rcases or_eq_some_iff.1 h with h | ⟨-, h⟩
  · obtain ⟨id, -, h⟩ := bind_eq_some_iff.1 h
    exact (List.findIdx?_eq_some_iff_getElem.1 h).1
  split at h
  · cases h
  · rename_i hne
    cases h
    exact length_pos_iff.2 (by simpa using hne)

end CsState

namespace ConnectorState

variable {name : String}

theorem connectorId_numField {write : BitVec 64 → ConnectorState → ConnectorState}
    (h : numField name = some write) (hname : name ≠ "Connector ID") (n : BitVec 64)
    (c : ConnectorState) : (write n c).connectorId = c.connectorId := by
  unfold numField at h
  split at h <;> cases h
  · exact absurd rfl hname
  all_goals rfl

theorem connectorId_textField {write : String → ConnectorState → ConnectorState}
    (h : textField name = some write) (s : String) (c : ConnectorState) : (write s c).connectorId = c.connectorId := by
  unfold textField at h
  split at h <;> cases h <;> rfl

theorem connectorId_setField (hname : name ≠ "Connector ID") (value : ValueType)
    (c : ConnectorState) : (c.setField name value).2.connectorId = c.connectorId := by
  unfold setField
  split
  · rename_i write hnum
    split
    · exact connectorId_numField hnum hname _ c
    · rfl
  split
  · rename_i write s htext
    exact connectorId_textField htext s c
  · rfl

theorem connectorId_setField_id (value : ValueType) (c : ConnectorState) :
    (c.setField "Connector ID" value).2.connectorId = (value.num.map f64AsI64).getD c.connectorId := by
  have hnum : numField "Connector ID" = some (fun n c => { c with connectorId := f64AsI64 n }) := rfl
  unfold setField
  rw [hnum]
  cases value.num with
  | none => rfl
  | some n => rfl

end ConnectorState

def rewriteId (ids : List Int) : Option (Nat × Int) → List Int
  | some (k, id) => ids.set k id
  | none => ids

theorem ids_applyEdit (s : CsState) (field : EditField) (scope : Scope) (value : ResolvedEdit) :
    (s.applyEdit field scope value).ids = rewriteId s.ids ((Write.applyEdit field scope value).renames s) := by
  cases value with
  | choice value =>
    have hfixed : ∀ c, (field.choose value c).connectorId = c.connectorId := fun c => by cases field <;> rfl
    have hnone : (Write.applyEdit field scope (.choice value)).renames s = none := by cases field <;> rfl
    rw [hnone]
    exact CsState.ids_onConnector hfixed scope
  | text value =>
    have hnone : (Write.applyEdit field scope (.text value)).renames s = none := by cases field <;> rfl
    rw [hnone]
    cases field with
    | rfid => exact CsState.ids_onConnector (f := fun c => { c with rfid := value }) (fun _ => rfl) scope
    | _ => rfl
  | number value =>
    by_cases hid : field = .connectorId
    · subst hid
      simp only [CsState.applyEdit, CsState.onConnector, Write.renames]
      cases s.connectorIndex scope with
      | none => rfl
      | some k =>
        exact CsState.ids_modify_const (f := fun c => EditField.connectorId.count value c) (fun _ => rfl) k s.connectors
    have hfixed : ∀ c, (field.count value c).connectorId = c.connectorId := fun c => by
      cases field <;> first | rfl | exact absurd rfl hid
    have hnone : (Write.applyEdit field scope (.number value)).renames s = none := by
      cases field <;> first | rfl | exact absurd rfl hid
    rw [hnone]
    exact CsState.ids_onConnector hfixed scope

theorem ids_connSet (s : CsState) (id : Int) (name : String) (value : ValueType) :
    (s.connSet id name value).2.ids = rewriteId s.ids ((Write.connSet id name value).renames s) := by
  simp only [CsState.connSet, Write.renames]
  cases h : s.connectors.findIdx? (hasId id) with
  | none =>
    have hnone : s.connectors.find? (hasId id) = none :=
      List.find?_eq_none.2 fun c hc hid => Bool.false_ne_true ((List.findIdx?_eq_none_iff.1 h c hc).symm.trans hid)
    rw [hnone]
    cases value.num <;> simp [rewriteId]
  | some k =>
    obtain ⟨hk, hid, -⟩ := List.findIdx?_eq_some_iff_getElem.1 h
    obtain ⟨c, hc⟩ := isSome_iff_exists.1 (List.find?_isSome.2 ⟨_, getElem_mem hk, hid⟩)
    simp only [hc, updateFirst_of_some h, CsState.ids]
    by_cases hname : name = "Connector ID"
    · subst hname
      rw [if_pos rfl]
      cases hn : value.num with
      | none =>
        have hsame : ∀ c : ConnectorState, (c.setField "Connector ID" value).2.connectorId = c.connectorId := fun c => by
          rw [ConnectorState.connectorId_setField_id, hn]
          rfl
        exact CsState.ids_modify hsame k s.connectors
      | some n =>
        have hwritten : ∀ c : ConnectorState, (c.setField "Connector ID" value).2.connectorId = f64AsI64 n := fun c => by
          rw [ConnectorState.connectorId_setField_id, hn]
          rfl
        exact CsState.ids_modify_const hwritten k s.connectors
    · rw [if_neg hname]
      exact CsState.ids_modify (ConnectorState.connectorId_setField hname value) k s.connectors

theorem renames_lt {s : CsState} {w : Write} {k : Nat} {id : Int} (h : w.renames s = some (k, id)) : k < s.ids.length := by
  cases w with
  | addConnector id => cases h
  | applyEdit field scope value =>
    simp only [Write.renames] at h
    split at h
    · obtain ⟨i, hi, he⟩ := map_eq_some_iff.1 h
      cases he
      exact CsState.connectorIndex_lt hi
    · cases h
  | connSet id' name value =>
    simp only [Write.renames] at h
    split at h
    · obtain ⟨n, -, h⟩ := bind_eq_some_iff.1 h
      obtain ⟨i, hi, he⟩ := map_eq_some_iff.1 h
      cases he
      rw [CsState.ids, length_map]
      exact (List.findIdx?_eq_some_iff_getElem.1 hi).1
    · cases h

theorem distinct_addConnector {s : CsState} (h : s.Distinct) (id : Int) : (s.addConnector id).2.Distinct := by
  unfold CsState.addConnector
  split
  · exact h
  rename_i hfree
  have hnew : id ∉ s.ids := by
    intro hmem
    obtain ⟨c, hc, hid⟩ := mem_map.1 hmem
    exact hfree (any_eq_true.2 ⟨c, hc, decide_eq_true hid⟩)
  have hperm : (((s.connectors ++ [ConnectorState.new id]).insertionSort
      (fun a b => a.connectorId ≤ b.connectorId)).map (·.connectorId)).Perm (id :: s.ids) := by
    refine ((perm_insertionSort _ _).map _).trans ?_
    rw [map_append]
    exact perm_append_singleton id s.ids
  exact hperm.nodup_iff.2 (nodup_cons.2 ⟨hnew, h⟩)

theorem distinct_apply_iff {s : CsState} (h : s.Distinct) (w : Write) : (w.apply s).Distinct ↔ w.Unclaimed s := by
  have hedit : ∀ {ids : List Int}, ids = rewriteId s.ids (w.renames s) → (ids.Nodup ↔ w.Unclaimed s) := by
    rintro _ rfl
    cases hr : w.renames s with
    | none => exact iff_of_true h fun k id hk => nomatch hr.symm.trans hk
    | some p =>
      obtain ⟨k, id⟩ := p
      refine (nodup_set_iff h (renames_lt hr) id).trans ⟨fun hfree k' id' hr' => ?_, fun hfree => hfree k id hr⟩
      cases hr.symm.trans hr'
      exact hfree
  cases w with
  | addConnector id => exact iff_of_true (distinct_addConnector h id) (fun _ _ hk => nomatch hk)
  | applyEdit field scope value => exact hedit (ids_applyEdit s field scope value)
  | connSet id name value => exact hedit (ids_connSet s id name value)

/-- **Along a history of writes to a station with distinct ids the ids stay distinct exactly when every write of an id writes
one that no other connector carries.** -/
theorem ids_stay_distinct_iff {s : CsState} (h : s.Distinct) (ws : List Write) :
    (∀ pre, pre <+: ws → (pre.foldl Write.apply s).Distinct) ↔
      ∀ pre w, pre ++ [w] <+: ws → w.Unclaimed (pre.foldl Write.apply s) :=
  forall_prefix_foldl_iff (P := CsState.Distinct) (fun _ w ht => distinct_apply_iff ht w) h ws

def twoConnectors : CsState := (CsState.default.addConnector 2).2

theorem third_connector_distinct :
    twoConnectors.Distinct ∧ ([Write.addConnector 3].foldl Write.apply twoConnectors).Distinct := by
  have h : twoConnectors.Distinct := by decide
  refine ⟨h, (ids_stay_distinct_iff h [.addConnector 3]).2 (fun pre w hp => ?_) _ (prefix_refl _)⟩
  obtain ⟨rfl, rfl⟩ : pre = [] ∧ w = .addConnector 3 := by
    have hsame : pre ++ [w] = [] ++ [Write.addConnector 3] := hp.eq_of_length_le (by simp)
    exact ⟨(append_inj' hsame rfl).1, by simpa using (append_inj' hsame rfl).2⟩
  exact fun _ _ hk => nomatch hk

/-- A script that writes `1` to the id of connector `2`, or an operator who edits it so, leaves two connectors `1`. -/
theorem written_id_duplicates :
    twoConnectors.Distinct ∧ (Write.apply twoConnectors (.connSet 2 "Connector ID" (.int 1))).ids = [1, 1] ∧
      (Write.apply twoConnectors (.applyEdit .connectorId (.ofConnector 2) (.number 0x3FF0000000000000#64))).ids = [1, 1] ∧
      ¬(Write.apply twoConnectors (.connSet 2 "Connector ID" (.int 1))).Distinct := by
  decide +kernel

end Ocpp.V16
end Ferrowl
