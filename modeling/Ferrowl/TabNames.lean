import Ferrowl.ListMap
import Ferrowl.TabStore
/-!
# TabNames — the four copies of a tab's register set

The table rows, the module's register list, the Lua map and the definitions of the device config agree when each of them spells
the same partial map from names to registers.  Additions, deletions and orderings keep the agreement.
-/
namespace Ferrowl.Modbus

open Option Function

open Store (Range Memory Word)
open Codec (Register)

/-! ## Maps as functions -/

theorem getElem?_insert_register (m : Std.TreeMap String RegisterDef) (n : String) (d : RegisterDef) :
    (fun k => ((m.insert n d)[k]?).map (·.register)) =
      update (fun k => (m[k]?).map (·.register)) n (some d.register) := by
  funext k
  rw [Std.TreeMap.getElem?_insert, update_apply, apply_ite (Option.map _)]
  simp only [Std.LawfulEqCmp.compare_eq_iff_eq, eq_comm (a := k), map_some]

theorem getElem?_erase_register (m : Std.TreeMap String RegisterDef) (n : String) :
    (fun k => ((m.erase n)[k]?).map (·.register)) = update (fun k => (m[k]?).map (·.register)) n none := by
  funext k
  rw [Std.TreeMap.getElem?_erase, update_apply, apply_ite (Option.map _)]
  simp only [Std.LawfulEqCmp.compare_eq_iff_eq, eq_comm (a := k), map_none]

theorem getElem?_insert_lua (m : Std.HashMap String Register) (n : String) (r : Register) :
    (fun k => (m.insert n r)[k]?) = update (fun k => m[k]?) n (some r) := by
  funext k
  rw [Std.HashMap.getElem?_insert, update_apply]
  simp only [beq_iff_eq, eq_comm (a := k)]

theorem getElem?_erase_lua (m : Std.HashMap String Register) (n : String) :
    (fun k => (m.erase n)[k]?) = update (fun k => m[k]?) n none := by
  funext k
  rw [Std.HashMap.getElem?_erase, update_apply]
  simp only [beq_iff_eq, eq_comm (a := k)]

namespace Tab

/-! ## Agreement -/

def configured (t : Tab) : String → Option Register := fun n => (t.device.definitions[n]?).map (·.register)

def tablePairs (t : Tab) : List (String × Register) := t.table.map (fun d => (d.name, d.register))

def modulePairs (t : Tab) : List (String × Register) := t.modbusModule.registers.map (fun e => (e.name, e.register))

/-- All four copies spell the same partial map from names to registers, the lists naming each register once. -/
structure Agree (t : Tab) : Prop where
  table : Lists t.tablePairs t.configured
  registers : Lists t.modulePairs t.configured
  lua : (fun n => t.modbusModule.luaRegisters[n]?) = t.configured

variable {t t' : Tab}

theorem Agree.of_same (h : t.Agree) (htable : t'.tablePairs.Perm t.tablePairs)
    (hmod : t'.modbusModule.registers = t.modbusModule.registers)
    (hlua : t'.modbusModule.luaRegisters = t.modbusModule.luaRegisters)
    (hdefs : t'.device.definitions = t.device.definitions) : t'.Agree := by
  have hconf : t'.configured = t.configured := by unfold configured; rw [hdefs]
  refine ⟨?_, ?_, ?_⟩
  · rw [hconf]
    exact h.table.perm htable
  · rw [hconf, modulePairs, hmod]
    exact h.registers
  · rw [hconf, hlua]
    exact h.lua

theorem Revalued.agree_iff (h : t.Revalued t') : t'.Agree ↔ t.Agree := by
  obtain ⟨memory, rfl, -⟩ := h
  exact ⟨fun h => h.of_same (List.Perm.refl _) rfl rfl rfl, fun h => h.of_same (List.Perm.refl _) rfl rfl rfl⟩

/-! ## Steps -/

/-- The actions the session allows: names of added and renamed registers are fresh, an edit is of a row of the table. -/
def Allowed (t : Tab) : Action → Prop
  | .add edited _ => t.configured edited.name = none
  | .edit edited idx originalName _ => (∃ row, t.table[idx]? = some row ∧ row.name = originalName) ∧
      (edited.name = originalName ∨ t.configured edited.name = none)
  | _ => True

/-- The module's register list holds the edited row's name at the row's position. -/
def Aligned (t : Tab) : Action → Prop
  | .edit _ idx originalName _ => ∃ slot, t.modbusModule.registers[idx]? = some slot ∧ slot.name = originalName
  | _ => True

theorem declareRegister_frame (m : ModbusModule) (name : String) (r : Register) :
    (declareRegister m name r).registers = m.registers ∧ (declareRegister m name r).luaRegisters = m.luaRegisters :=
  ⟨(declareRegister_spec m name r).1.registers, (declareRegister_spec m name r).1.lua⟩

variable {edited : EditedRegister}

theorem addRow_some (h : t.addRow edited = some t') : t'.tablePairs = t.tablePairs ++ [(edited.name, edited.register)] ∧
    t'.modulePairs = t.modulePairs ++ [(edited.name, edited.register)] ∧ (fun n => t'.modbusModule.luaRegisters[n]?) =
      update (fun n => t.modbusModule.luaRegisters[n]?) edited.name (some edited.register) ∧
    t'.configured = update t.configured edited.name (some edited.register) := by
  obtain ⟨m', hm', rfl⟩ := map_eq_some_iff.1 h
  obtain ⟨-, hext⟩ := ModbusModule.rebuildOperations_some hm'
  obtain ⟨hregs, hlua⟩ := declareRegister_frame (t.modbusModule.addRegister
    ⟨edited.name, edited.description, edited.register, edited.namedValues.getD []⟩) edited.name edited.register
  refine ⟨List.map_append, ?_, ?_, ?_⟩
  · rw [modulePairs, hext.registers, hregs]
    exact List.map_append
  · rw [hext.lua, hlua]
    exact getElem?_insert_lua _ _ _
  · refine (getElem?_insert_register t.device.definitions edited.name _).trans ?_
    rw [register_syncRegisterDef]
    rfl

theorem agree_addRow (hag : t.Agree) (hfresh : t.configured edited.name = none) (h : t.addRow edited = some t') : t'.Agree := by
  obtain ⟨htable, hmod, hlua, hconf⟩ := addRow_some h
  refine ⟨?_, ?_, ?_⟩
  · rw [htable, hconf]
    exact hag.table.append hfresh edited.register
  · rw [hmod, hconf]
    exact hag.registers.append hfresh edited.register
  · rw [hlua, hconf, hag.lua]

theorem configured_editDefinitions {definitions : Std.TreeMap String RegisterDef}
    {originalName : String} (h : ((definitions[originalName]?).map (·.register)).isSome = true) :
    (fun n => ((editDefinitions definitions edited originalName)[n]?).map (·.register)) =
      rename (fun n => (definitions[n]?).map (·.register)) originalName edited.name edited.register := by
  rw [isSome_map] at h
  obtain ⟨d, hd⟩ := isSome_iff_exists.1 h
  have hreg : ∀ (desc : String) (values : List NamedValue) (default : Option Scalar),
      ({ syncRegisterDef d edited.register with description := desc, values := values, default := default } :
        RegisterDef).register = edited.register :=
    fun _ _ _ => register_syncRegisterDef d edited.register
  unfold editDefinitions rename
  rw [hd]
  simp only
  split
  · rename_i hname
    rw [getElem?_insert_register, hreg, hname, update_idem]
  · rw [getElem?_insert_register, hreg, getElem?_erase_register]

theorem editRow_some {idx : Nat} {row : Definition} {slot : RegisterEntry}
    (hrow : t.table[idx]? = some row) (hslot : t.modbusModule.registers[idx]? = some slot)
    (hdom : (t.configured row.name).isSome = true) (h : t.editRow edited idx row.name = some t') :
    t'.tablePairs = t.tablePairs.set idx (edited.name, edited.register) ∧
    t'.modulePairs = t.modulePairs.set idx (edited.name, edited.register) ∧ (fun n => t'.modbusModule.luaRegisters[n]?) =
      rename (fun n => t.modbusModule.luaRegisters[n]?) slot.name edited.name edited.register ∧
    t'.configured = rename t.configured row.name edited.name edited.register := by
  unfold editRow at h
  rw [hrow] at h
  obtain ⟨m', hm', rfl⟩ := map_eq_some_iff.1 h
  obtain ⟨-, hext⟩ := ModbusModule.rebuildOperations_some hm'
  obtain ⟨hregs, hlua⟩ := declareRegister_frame (t.modbusModule.updateRegister idx
    ⟨edited.name, edited.description, edited.register, edited.namedValues.getD row.namedValues⟩)
    edited.name edited.register
  unfold ModbusModule.updateRegister at hregs hlua hext
  rw [hslot] at hregs hlua hext
  refine ⟨List.map_set, ?_, ?_, configured_editDefinitions hdom⟩
  · rw [modulePairs, hext.registers, hregs]
    exact List.map_set
  · rw [hext.lua, hlua]
    exact (getElem?_insert_lua _ _ _).trans (by rw [getElem?_erase_lua]; rfl)

theorem agree_editRow_iff {idx : Nat} {row : Definition} (hag : t.Agree) (hrow : t.table[idx]? = some row)
    (hfresh : edited.name = row.name ∨ t.configured edited.name = none) (h : t.editRow edited idx row.name = some t') :
    t'.Agree ↔ ∃ slot, t.modbusModule.registers[idx]? = some slot ∧ slot.name = row.name := by
  have hrowPair : t.tablePairs[idx]? = some (row.name, row.register) := by
    rw [tablePairs, List.getElem?_map, hrow]
    rfl
  have hdom : (t.configured row.name).isSome = true :=
    (hag.table.mem_keys row.name).1 (List.mem_map.2 ⟨_, List.mem_of_getElem? hrowPair, rfl⟩)
  -- the module's list is as long as the table, so it has an entry at the position
  obtain ⟨slot, hslot⟩ : ∃ slot, t.modbusModule.registers[idx]? = some slot := by
    have hlen : t.modulePairs.length = t.tablePairs.length := (hag.registers.perm_of hag.table).length_eq
    rw [modulePairs, tablePairs, List.length_map, List.length_map] at hlen
    exact ⟨_, List.getElem?_eq_getElem (hlen ▸ (List.getElem?_eq_some_iff.1 hrow).1)⟩
  have hslotPair : t.modulePairs[idx]? = some (slot.name, slot.register) := by
    rw [modulePairs, List.getElem?_map, hslot]
    rfl
  obtain ⟨htable, hmod, hlua, hconf⟩ := editRow_some hrow hslot hdom h
  have hmodIff := hag.registers.set_iff (v := edited.register) hslotPair hfresh
  constructor
  · intro hag'
    refine ⟨slot, hslot, hmodIff.1 ?_⟩
    rw [← hmod, ← hconf]
    exact hag'.registers
  rintro ⟨slot', hslot', hname⟩
  cases hslot.symm.trans hslot'
  refine ⟨?_, ?_, ?_⟩
  · rw [htable, hconf]
    exact (hag.table.set_iff hrowPair hfresh).2 rfl
  · rw [hmod, hconf]
    exact hmodIff.2 hname
  · rw [hlua, hconf, hag.lua, hname]

theorem deleteRegisterByName_some {name : String} (h : t.deleteRegisterByName name = some t') :
    t'.tablePairs = t.tablePairs.filter (fun p => decide (p.1 ≠ name)) ∧
    t'.modulePairs = t.modulePairs.filter (fun p => decide (p.1 ≠ name)) ∧ (fun n => t'.modbusModule.luaRegisters[n]?) =
      update (fun n => t.modbusModule.luaRegisters[n]?) name none ∧
    t'.configured = update t.configured name none := by
  obtain ⟨m', hm', rfl⟩ := map_eq_some_iff.1 h
  obtain ⟨-, hext⟩ := ModbusModule.rebuildOperations_some hm'
  have hne : ∀ a : String, (a != name) = decide (a ≠ name) := fun a => by rw [bne, beq_eq_decide, decide_not]
  refine ⟨?_, ?_, ?_, getElem?_erase_register t.device.definitions name⟩
  · simp only [tablePairs, List.filter_map, comp_def, hne]
  · rw [modulePairs, hext.registers]
    simp only [modulePairs, ModbusModule.removeRegisterByName, List.filter_map, comp_def, hne]
  · rw [hext.lua]
    exact getElem?_erase_lua _ name

theorem agree_delete {name : String} (hag : t.Agree) (h : t.deleteRegisterByName name = some t') : t'.Agree := by
  obtain ⟨htable, hmod, hlua, hconf⟩ := deleteRegisterByName_some h
  refine ⟨?_, ?_, ?_⟩
  · rw [htable, hconf]
    exact hag.table.erase name
  · rw [hmod, hconf]
    exact hag.registers.erase name
  · rw [hlua, hconf, hag.lua]

theorem agree_readRanges {readRanges : ReadRanges} (hag : t.Agree) (h : t.applyReadRanges readRanges = some t') : t'.Agree := by
  obtain ⟨m', hm', rfl⟩ := map_eq_some_iff.1 h
  obtain ⟨-, hext⟩ := ModbusModule.rebuildOperations_some hm'
  have hgaps := (ModbusModule.declareGaps_extends { t.modbusModule with readRanges := readRanges }).trans hext
  exact hag.of_same (List.Perm.refl _) hgaps.registers hgaps.lua rfl

theorem tablePairs_rowsOf (t : Tab) : (rowsOf t.modbusModule).map (fun d => (d.name, d.register)) = t.modulePairs := by
  rw [rowsOf, List.map_map]
  rfl

theorem agree_refresh (hag : t.Agree) (shown : Definition → String) (s : RowSort) : (t.refresh shown s).Agree := by
  refine hag.of_same ?_ rfl rfl rfl
  have hrows : (t.table.map (fun d => { d with value := shown d })).map (fun d => (d.name, d.register)) =
      t.tablePairs := by
    rw [List.map_map]
    rfl
  rw [← hrows]
  unfold refresh tablePairs
  simp only
  split
  · exact (s.perm _).map _
  · exact List.Perm.refl _

section
variable {encode : Register → String → Option (List Word)} {display : Scalar → String}

theorem agree_step_iff {t t' : Tab} {a : Action} (hag : t.Agree) (hall : t.Allowed a)
    (h : t.step encode display a = some t') : t'.Agree ↔ t.Aligned a := by
  cases a with
  | add edited sent =>
    obtain ⟨t₁, h₁, hrev⟩ := applyAdd_some h
    exact iff_of_true (hrev.agree_iff.2 (agree_addRow hag hall h₁)) trivial
  | edit edited idx originalName sent =>
    obtain ⟨t₁, h₁, hrev⟩ := applyEdit_some h
    obtain ⟨⟨row, hrow, rfl⟩, hfresh⟩ := hall
    exact hrev.agree_iff.trans (agree_editRow_iff hag hrow hfresh h₁)
  | delete name => exact iff_of_true (agree_delete hag h) trivial
  | readRanges readRanges => exact iff_of_true (agree_readRanges hag h) trivial
  | order column =>
    cases h
    refine iff_of_true ?_ trivial
    cases column with
    | none => exact hag
    | some s => exact hag.of_same ((s.perm t.table).map _) rfl rfl rfl
  | clearOrder =>
    cases h
    refine iff_of_true ⟨?_, hag.registers, hag.lua⟩ trivial
    rw [tablePairs, clearOrder, tablePairs_rowsOf]
    exact hag.registers
  | refresh shown s =>
    cases h
    exact iff_of_true (agree_refresh hag shown s) trivial
  | write key range values =>
    cases h
    exact iff_of_true (hag.of_same (List.Perm.refl _) rfl rfl rfl) trivial

/-! ## A fresh tab -/

theorem lists_definitions (definitions : Std.TreeMap String RegisterDef) :
    Lists (definitions.toList.map (fun d => (d.1, d.2.register))) (fun n => (definitions[n]?).map (·.register)) := by
  refine ⟨?_, fun n r => ?_⟩
  · rw [List.map_map]
    have hnd : (definitions.toList.map Prod.fst).Nodup := by
      rw [Std.TreeMap.map_fst_toList_eq_keys]
      exact Std.TreeMap.nodup_keys
    exact hnd
  rw [List.mem_map, map_eq_some_iff]
  constructor
  · rintro ⟨⟨n', d⟩, hd, heq⟩
    cases heq
    exact ⟨d, Std.TreeMap.mem_toList_iff_getElem?_eq_some.1 hd, rfl⟩
  · rintro ⟨d, hd, rfl⟩
    exact ⟨(n, d), Std.TreeMap.mem_toList_iff_getElem?_eq_some.2 hd, rfl⟩

theorem ofList_of_lists {l : List (String × Register)} {f : String → Option Register} (h : Lists l f) :
    (fun n => (Std.HashMap.ofList l)[n]?) = f := by
  funext n
  cases hf : f n with
  | none =>
    refine Std.HashMap.getElem?_ofList_of_contains_eq_false ?_
    rw [Bool.eq_false_iff, ne_eq, List.contains_iff_mem, h.mem_keys, hf]
    exact Bool.false_ne_true
  | some r =>
    refine Std.HashMap.getElem?_ofList_of_mem BEq.rfl ?_ ((h.mem n r).2 hf)
    have hnd := List.pairwise_map.1 h.nodup
    exact hnd.imp (fun hne => beq_false_of_ne hne)

theorem agree_new {role : Role} {device : DeviceConfig} {t : Tab} (h : Tab.new encode display role device = some t) :
    t.Agree := by
  obtain ⟨m, hm, rfl⟩ := map_eq_some_iff.1 h
  unfold ModbusModule.new at hm
  obtain ⟨m₁, hm₁, rfl⟩ := map_eq_some_iff.1 hm
  obtain ⟨-, hext⟩ := ModbusModule.rebuildOperations_some hm₁
  have hregs : m₁.registers.map (fun e => (e.name, e.register)) =
      device.definitions.toList.map (fun d => (d.1, d.2.register)) := by
    rw [hext.registers, (ModbusModule.declareGaps_extends _).registers, ModbusModule.registers_foldl_addDefinition, List.nil_append,
      List.map_map]
    rfl
  have hlists : Lists (m₁.registers.map (fun e => (e.name, e.register)))
      (fun n => (device.definitions[n]?).map (·.register)) := hregs ▸ lists_definitions device.definitions
  refine ⟨?_, hlists, ofList_of_lists hlists⟩
  rw [tablePairs]
  simp only [rowsOf, List.map_map]
  exact hlists

end

/-! ## Sessions -/

def SessionStep (encode : Register → String → Option (List Word)) (display : Scalar → String) (t : Tab) (a : Action)
    (t' : Tab) : Prop :=
  t.Allowed a ∧ t.step encode display a = some t'

/-- **Over a session the four copies agree in every state exactly when every edit is made where the module's list holds the
edited row's name at the row's position.** -/
theorem registers_agree_iff_edits_aligned (encode : Register → String → Option (List Word)) (display : Scalar → String)
    (role : Role) (device : DeviceConfig) (t₀ t : Tab) (as : List Action)
    (h₀ : Tab.new encode display role device = some t₀) (hrun : Run (SessionStep encode display) t₀ as t) :
    (∀ pre u, pre <+: as → Run (SessionStep encode display) t₀ pre u → u.Agree) ↔
      ∀ pre a u, pre ++ [a] <+: as → Run (SessionStep encode display) t₀ pre u → u.Aligned a := by
  have hdet : ∀ t a u v, SessionStep encode display t a u → SessionStep encode display t a v → u = v :=
    fun t a u v hu hv => some.inj (hu.2.symm.trans hv.2)
  constructor
  · intro hag pre a u hp hu
    obtain ⟨v, hv⟩ := hrun.exists_prefix hp
    obtain ⟨u', hu', hstep⟩ := hv.of_snoc
    cases Run.det hdet hu hu'
    exact (agree_step_iff (hag pre u ((List.prefix_append pre [a]).trans hp) hu) hstep.1 hstep.2).1 (hag _ v hp hv)
  -- the run lemma: by the run's last step, whose prefix is a run of the session too
  intro hal pre u hp hu
  induction hu with
  | nil => exact agree_new h₀
  | snoc h hstep ih =>
    have hp' := (List.prefix_append _ _).trans hp
    exact (agree_step_iff (ih hp') hstep.1 hstep.2).2 (hal _ _ _ hp h)

def twoWords : DeviceConfig where
  definitions := .ofList [("a", plainDef .u16 1), ("b", plainDef .u16 2)]
  readRanges := ⟨[], [], [], []⟩

def renamedToC (d : RegisterDef) : EditedRegister := ⟨"c", "", d.register, none, none, none⟩

/-- Renaming the first row of an unordered table. -/
theorem edit_before_order_agrees : ∃ t₀ t, Tab.new (fun _ _ => none) (fun _ => "") .client twoWords = some t₀ ∧
      Run (SessionStep (fun _ _ => none) (fun _ => "")) t₀ [.edit (renamedToC (plainDef .u16 1)) 0 "a" false] t ∧ t.Agree := by
  obtain ⟨t, ht⟩ := isSome_iff_exists.1
    (show (after twoWords (.edit (renamedToC (plainDef .u16 1)) 0 "a" false)).isSome = true by decide)
  obtain ⟨t₀, h₀, hstep⟩ := bind_eq_some_iff.1 ht
  have hstart : (Tab.new (fun _ _ => none) (fun _ => "") .client twoWords).map (fun t =>
      (t.table.map (·.name), t.modbusModule.registers.map (·.name), t.configured "c")) =
        some (["a", "b"], ["a", "b"], none) := by decide
  rw [h₀, map_some] at hstart
  obtain ⟨htable, hrest⟩ := Prod.ext_iff.1 (some.inj hstart)
  obtain ⟨hmod, hfresh⟩ := Prod.ext_iff.1 hrest
  dsimp only at htable hmod hfresh
  have hrow : ∃ row, t₀.table[0]? = some row ∧ row.name = "a" :=
    map_eq_some_iff.1 (by rw [← List.getElem?_map, htable]; rfl)
  have hslot : ∃ slot, t₀.modbusModule.registers[0]? = some slot ∧ slot.name = "a" :=
    map_eq_some_iff.1 (by rw [← List.getElem?_map, hmod]; rfl)
  have hrun : Run (SessionStep (fun _ _ => none) (fun _ => "")) t₀
      ([] ++ [.edit (renamedToC (plainDef .u16 1)) 0 "a" false]) t := Run.nil.snoc ⟨⟨hrow, Or.inr hfresh⟩, hstep⟩
  refine ⟨t₀, t, h₀, hrun, ?_⟩
  refine (registers_agree_iff_edits_aligned _ _ .client twoWords t₀ t _ h₀ hrun).2 ?_ _ t (List.prefix_refl _) hrun
  rintro pre a u ⟨rest, hp⟩ hu
  cases pre with
  | nil =>
    cases hu.of_nil
    cases hp
    exact hslot
  | cons b pre => exact absurd (congrArg List.length hp) (by simp)

/-- **An edit after an ordering**: in the table ordered by descending name the row `b` stands first, so renaming it to `c`
replaces the module's entry `a`, and the module is left with `c` and `b` while the table shows `c` and `a`. -/
theorem edit_after_order_disagrees : ∃ t₀ t, Tab.new (fun _ _ => none) (fun _ => "") .client twoWords = some t₀ ∧
      Run (SessionStep (fun _ _ => none) (fun _ => "")) t₀ [.order (some (RowSort.sortBy (fun a b => decide (b.name ≤ a.name)))),
          .edit (renamedToC (plainDef .u16 2)) 0 "b" false] t ∧ ¬ t.Agree := by
  obtain ⟨t, ht⟩ := isSome_iff_exists.1
    (show ((after twoWords (.order (some (RowSort.sortBy (fun a b => decide (b.name ≤ a.name)))))).bind
      (·.step (fun _ _ => none) (fun _ => "") (.edit (renamedToC (plainDef .u16 2)) 0 "b" false))).isSome = true by
        decide)
  have hend : ((after twoWords (.order (some (RowSort.sortBy (fun a b => decide (b.name ≤ a.name)))))).bind
      (·.step (fun _ _ => none) (fun _ => "") (.edit (renamedToC (plainDef .u16 2)) 0 "b" false))).map
        (fun t => (t.tablePairs.map Prod.fst, t.modulePairs.map Prod.fst)) = some (["c", "a"], ["c", "b"]) := by decide
  rw [ht, map_some] at hend
  obtain ⟨htable, hmod⟩ := Prod.ext_iff.1 (some.inj hend)
  dsimp only at htable hmod
  obtain ⟨t₁, h₁, hedit⟩ := bind_eq_some_iff.1 ht
  have hmid : (after twoWords (.order (some (RowSort.sortBy (fun a b => decide (b.name ≤ a.name)))))).map
      (fun t => (t.table.map (·.name), t.configured "c")) = some (["b", "a"], none) := by decide
  rw [h₁, map_some] at hmid
  obtain ⟨hrows, hfresh⟩ := Prod.ext_iff.1 (some.inj hmid)
  dsimp only at hrows hfresh
  have hrow : ∃ row, t₁.table[0]? = some row ∧ row.name = "b" :=
    map_eq_some_iff.1 (by rw [← List.getElem?_map, hrows]; rfl)
  obtain ⟨t₀, h₀, horder⟩ := bind_eq_some_iff.1 h₁
  refine ⟨t₀, t, h₀, (Run.nil.snoc ⟨trivial, horder⟩).snoc ⟨⟨hrow, Or.inr hfresh⟩, hedit⟩, fun hag => ?_⟩
  have ha : "a" ∈ t.modulePairs.map Prod.fst :=
    (hag.registers.mem_keys "a").2 ((hag.table.mem_keys "a").1 (by rw [htable]; decide))
  rw [hmod] at ha
  exact absurd ha (by decide)

end Tab
end Ferrowl.Modbus
