import Ferrowl.ListMap
import Ferrowl.OcppStation
/-!
# OcppRfids — which tags a CSMS accepts

A CSMS keeps one accept-list for the charge points and one for each connector or EVSE (`RfidStore`), with which it answers an
`Authorize` and the start of a transaction.  The lists are written into the device config and read from it (`fill_device_rfids`,
`rfid_store_from_device`); lists without a tag are not written.  The entries of all stations edit the same lists.
-/
namespace Ferrowl.Ocpp

open List

open Wire (Value)

/-! ## The store -/

structure RfidStore where
  cs : List String
  byScope : Table Scope (List String)

namespace RfidStore

def scopeList (s : RfidStore) (scope : Scope) : List String := (s.byScope.get? scope).getD []

def add (s : RfidStore) (scope : Scope) (tag : String) : Bool × RfidStore :=
  if scope = .cs then if tag ∈ s.cs then (false, s) else (true, { s with cs := s.cs ++ [tag] })
  else if tag ∈ s.scopeList scope then (false, s)
  else (true, { s with byScope := s.byScope.insert scope (s.scopeList scope ++ [tag]) })

def remove (s : RfidStore) (scope : Scope) (tag : String) : Bool × RfidStore :=
  if scope = .cs then (decide (tag ∈ s.cs), { s with cs := s.cs.filter (· ≠ tag) })
  else
    match s.byScope.get? scope with
    | some list => (decide (tag ∈ list), { s with byScope := s.byScope.insert scope (list.filter (· ≠ tag)) })
    | none => (false, s)

def scan (tag : String) : Bool → List (List String) → Bool
  | empty, [] => empty
  | empty, list :: lists => if list.isEmpty then scan tag empty lists else if tag ∈ list then true else scan tag false lists

def csAuthorized (s : RfidStore) (tag : String) : Bool :=
  if tag ∈ s.cs then true else scan tag s.cs.isEmpty (s.byScope.pairs.map Prod.snd)

def scopeAuthorized (s : RfidStore) (scope : Scope) (tag : String) : Bool :=
  (s.cs.isEmpty && (s.scopeList scope).isEmpty) || decide (tag ∈ s.cs ++ s.scopeList scope)

end RfidStore

/-! ## The device config -/

structure ConnectorRfids where
  evse : Option Int
  connector : Option Int
  rfids : List String
  deriving DecidableEq, Repr

/-- The fields of a device config that hold accept-lists. -/
structure DeviceRfids where
  rfids : List String
  connectorRfids : List ConnectorRfids
  deriving DecidableEq, Repr

namespace ConnectorRfids

def scope (c : ConnectorRfids) : Scope := ⟨c.evse, c.connector⟩

def idLe : Option Int → Option Int → Bool
  | none, _ => true
  | some _, none => false
  | some a, some b => decide (a ≤ b)

def le (a b : ConnectorRfids) : Bool := if a.evse = b.evse then idLe a.connector b.connector else idLe a.evse b.evse

end ConnectorRfids

def rfidStoreFromDevice (d : DeviceRfids) : RfidStore where
  cs := d.rfids
  byScope := .ofList (d.connectorRfids.map fun c => (c.scope, c.rfids))

def fillDeviceRfids (s : RfidStore) : DeviceRfids where
  rfids := s.cs
  connectorRfids :=
    ((s.byScope.pairs.filter fun p => !p.2.isEmpty).map fun p => ⟨p.1.evse, p.1.connector, p.2⟩).insertionSort
      (fun a b => a.le b = true)

/-! ## The answers -/

def status (ok : Bool) : Value := .string (if ok then "Accepted" else "Invalid")

def strField (v : Option Value) : String := (v.bind Value.asStr).getD ""

def idField (v : Option Value) : Int := (v.bind Value.asI64).getD 0

namespace V16

def tag (request : Value) : String := strField (request.get "idTag")

def connector (request : Value) : Int := idField (request.get "connectorId")

def craft (now : String) (rfids : RfidStore) (nextTxid : Int) (name : String) (request : Value) : Option Value × Int :=
  if name = "BootNotification" then
    (some (.object [("status", .string "Accepted"), ("currentTime", .string now), ("interval", .int 300)]), nextTxid)
  else if name = "Heartbeat" then (some (.object [("currentTime", .string now)]), nextTxid)
  else if name = "Authorize" then
    (some (.object [("idTagInfo", .object [("status", status (rfids.csAuthorized (tag request)))])]), nextTxid)
  else if name = "StartTransaction" then
    (some (.object [("transactionId", .int nextTxid),
      ("idTagInfo", .object [("status", status (rfids.scopeAuthorized (.ofConnector (connector request)) (tag request)))])]),
      nextTxid + 1)
  else (none, nextTxid)

def Accepted (payload : Option Value) : Prop :=
  ((payload.bind (·.get "idTagInfo")).bind (·.get "status")).bind Value.asStr = some "Accepted"

instance (payload : Option Value) : Decidable (Accepted payload) := inferInstanceAs (Decidable (_ = some "Accepted"))

end V16

namespace V2

def idToken (request : Value) : Option Value := request.get "idToken"

def tag (request : Value) : String := strField ((idToken request).bind (·.get "idToken"))

def evse (request : Value) : Int := idField ((request.get "evse").bind (·.get "id"))

def isObject : Option Value → Bool
  | some (.object _) => true
  | _ => false

def craftResponse (now : String) (rfids : RfidStore) (name : String) (request : Value) : Option Value :=
  if name = "BootNotification" then
    some (.object [("currentTime", .string now), ("interval", .int 300), ("status", .string "Accepted")])
  else if name = "Heartbeat" then some (.object [("currentTime", .string now)])
  else if name = "Authorize" then
    some (.object [("idTokenInfo", .object [("status", status (rfids.csAuthorized (tag request)))])])
  else if name = "TransactionEvent" ∧ isObject (idToken request) = true then
    some (.object [("idTokenInfo",
      .object [("status", status (rfids.scopeAuthorized (.ofEvse (evse request) none) (tag request)))])])
  else none

def Accepted (payload : Option Value) : Prop :=
  ((payload.bind (·.get "idTokenInfo")).bind (·.get "status")).bind Value.asStr = some "Accepted"

instance (payload : Option Value) : Decidable (Accepted payload) := inferInstanceAs (Decidable (_ = some "Accepted"))

end V2

/-! ## Edits -/

/-- What the operator does to the lists: with an entry of a station open, or by `:rfid`, which edits the charge points'. -/
inductive RfidEdit where
  | add (scope : Scope) (tag : String)
  | remove (scope : Scope) (tag : String)
  | clear
  deriving DecidableEq, Repr

def RfidEdit.apply (s : RfidStore) : RfidEdit → RfidStore
  | add scope tag => (s.add scope tag).2
  | remove scope tag => (s.remove scope tag).2
  | clear => { s with cs := [] }

/-! ## What the lists are for -/

structure Accept where
  station : Set String
  connector : Scope → Set String

namespace Accept

def anywhere (a : Accept) : Set String := a.station ∪ ⋃ scope, a.connector scope

def effective (a : Accept) (scope : Scope) : Set String := a.station ∪ a.connector scope

def Passes (tags : Set String) (tag : String) : Prop := tags = ∅ ∨ tag ∈ tags

def change (a : Accept) (scope : Scope) (f : Set String → Set String) : Accept :=
  if scope = .cs then { a with station := f a.station }
  else { a with connector := Function.update a.connector scope (f (a.connector scope)) }

def edit (a : Accept) : RfidEdit → Accept
  | .add scope tag => a.change scope (insert tag)
  | .remove scope tag => a.change scope (· \ {tag})
  | .clear => { a with station := ∅ }

end Accept

def RfidStore.accept (s : RfidStore) : Accept where
  station := {tag | tag ∈ s.cs}
  connector := fun scope => {tag | tag ∈ s.scopeList scope}

/-! ## The decisions -/

section
variable {s : RfidStore} {scope : Scope} {tag : String}

namespace RfidStore

theorem scan_iff {empty : Bool} {lists : List (List String)} :
    scan tag empty lists = true ↔ (∃ list ∈ lists, tag ∈ list) ∨ empty = true ∧ ∀ list ∈ lists, list = [] := by
  induction lists generalizing empty with
  | nil => simp [scan]
  | cons list lists ih =>
    rw [scan]
    cases list with
    | nil => simp [ih]
    | cons t list =>
      rw [if_neg (by simp)]
      by_cases htag : tag ∈ t :: list
      · rw [if_pos htag]
        exact iff_of_true rfl (Or.inl ⟨_, mem_cons_self, htag⟩)
      · rw [if_neg htag, ih]
        simp [htag]

theorem mem_scopeList : tag ∈ s.scopeList scope ↔ ∃ list, s.byScope.get? scope = some list ∧ tag ∈ list := by
  unfold scopeList
  cases s.byScope.get? scope <;> simp

theorem mem_anywhere : tag ∈ s.accept.anywhere ↔ tag ∈ s.cs ∨ ∃ scope, tag ∈ s.scopeList scope := by
  simp [accept, Accept.anywhere]

theorem mem_effective : tag ∈ s.accept.effective scope ↔ tag ∈ s.cs ∨ tag ∈ s.scopeList scope := by
  simp [accept, Accept.effective]

theorem anywhere_eq_empty : s.accept.anywhere = ∅ ↔ s.cs = [] ∧ ∀ scope, s.scopeList scope = [] := by
  simp only [Set.eq_empty_iff_forall_notMem, mem_anywhere, not_or, not_exists, eq_nil_iff_forall_not_mem]
  exact ⟨fun h => ⟨fun t => (h t).1, fun scope t => (h t).2 scope⟩, fun h t => ⟨h.1 t, fun scope => h.2 scope t⟩⟩

theorem effective_eq_empty : s.accept.effective scope = ∅ ↔ s.cs = [] ∧ s.scopeList scope = [] := by
  simp only [Set.eq_empty_iff_forall_notMem, mem_effective, not_or, eq_nil_iff_forall_not_mem]
  exact forall_and

theorem exists_listed_iff : (∃ list ∈ s.byScope.pairs.map Prod.snd, tag ∈ list) ↔ ∃ scope, tag ∈ s.scopeList scope := by
  simp only [mem_scopeList, mem_map, Prod.exists, s.byScope.mem_pairs_iff]
  constructor
  · rintro ⟨_, ⟨scope, list, hget, rfl⟩, htag⟩
    exact ⟨scope, list, hget, htag⟩
  · rintro ⟨scope, list, hget, htag⟩
    exact ⟨list, ⟨scope, list, hget, rfl⟩, htag⟩

theorem all_empty_iff : (∀ list ∈ s.byScope.pairs.map Prod.snd, list = []) ↔ ∀ scope, s.scopeList scope = [] := by
  simp only [eq_nil_iff_forall_not_mem]
  constructor
  · intro h scope tag htag
    obtain ⟨list, hlist, hmem⟩ := exists_listed_iff.2 ⟨scope, htag⟩
    exact h list hlist tag hmem
  · intro h list hlist tag htag
    obtain ⟨scope, hmem⟩ := exists_listed_iff.1 ⟨list, hlist, htag⟩
    exact h scope tag hmem

theorem csAuthorized_iff : s.csAuthorized tag = true ↔ Accept.Passes s.accept.anywhere tag := by
  rw [csAuthorized, Accept.Passes, anywhere_eq_empty, mem_anywhere]
  by_cases hcs : tag ∈ s.cs
  · rw [if_pos hcs]
    exact iff_of_true rfl (Or.inr (Or.inl hcs))
  rw [if_neg hcs, scan_iff, exists_listed_iff, all_empty_iff, List.isEmpty_iff]
  constructor
  · rintro (hmem | hempty)
    · exact Or.inr (Or.inr hmem)
    · exact Or.inl hempty
  rintro (hempty | hmem | hmem)
  · exact Or.inr hempty
  · exact absurd hmem hcs
  · exact Or.inl hmem

theorem scopeAuthorized_iff : s.scopeAuthorized scope tag = true ↔ Accept.Passes (s.accept.effective scope) tag := by
  rw [Accept.Passes, effective_eq_empty, mem_effective]
  simp [scopeAuthorized]

end RfidStore

end

/-! ## Histories of edits -/

namespace RfidStore

variable {s : RfidStore}

theorem scopeList_insert (scope scope' : Scope) (list : List String) :
    ({ s with byScope := s.byScope.insert scope list } : RfidStore).scopeList scope' =
      if scope' = scope then list else s.scopeList scope' := by
  rw [scopeList, Table.get?_insert]
  split <;> rfl

variable {scope : Scope}

theorem accept_insert (hscope : scope ≠ .cs) {list : List String} {f : Set String → Set String}
    (hf : {tag | tag ∈ list} = f {tag | tag ∈ s.scopeList scope}) :
    ({ s with byScope := s.byScope.insert scope list } : RfidStore).accept = s.accept.change scope f := by
  rw [Accept.change, if_neg hscope, accept, accept]
  simp only [scopeList_insert, Accept.mk.injEq, true_and]
  funext scope'
  by_cases hs : scope' = scope
  · subst hs
    simp [hf]
  · simp [hs]

theorem setOf_append (list : List String) (tag : String) : {t | t ∈ list ++ [tag]} = insert tag {t | t ∈ list} := by
  ext t
  simp [or_comm]

theorem setOf_filter (list : List String) (tag : String) : {t | t ∈ list.filter (· ≠ tag)} = {t | t ∈ list} \ {tag} := by
  ext t
  simp

theorem change_cs (a : Accept) (f : Set String → Set String) : a.change .cs f = { a with station := f a.station } :=
  if_pos rfl

theorem change_of_fixed {a : Accept} (hscope : scope ≠ .cs) {f : Set String → Set String}
    (hf : f (a.connector scope) = a.connector scope) : a.change scope f = a := by
  rw [Accept.change, if_neg hscope, hf, Function.update_eq_self]

theorem accept_add (scope : Scope) (tag : String) : (s.add scope tag).2.accept = s.accept.edit (.add scope tag) := by
  rw [add, Accept.edit]
  by_cases hscope : scope = .cs
  · subst hscope
    rw [if_pos rfl, change_cs]
    by_cases htag : tag ∈ s.cs
    · have hsame : insert tag s.accept.station = s.accept.station := Set.insert_eq_of_mem htag
      rw [if_pos htag, hsame]
    · rw [if_neg htag]
      simp only [accept, setOf_append]
      rfl
  · rw [if_neg hscope]
    by_cases htag : tag ∈ s.scopeList scope
    · rw [if_pos htag]
      exact (change_of_fixed hscope (Set.insert_eq_of_mem htag)).symm
    · rw [if_neg htag]
      exact accept_insert hscope (setOf_append _ tag)

theorem accept_remove (scope : Scope) (tag : String) : (s.remove scope tag).2.accept = s.accept.edit (.remove scope tag) := by
  rw [remove, Accept.edit]
  by_cases hscope : scope = .cs
  · subst hscope
    rw [if_pos rfl, change_cs]
    simp only [accept, setOf_filter]
    rfl
  rw [if_neg hscope]
  cases hget : s.byScope.get? scope with
  | none =>
    have hempty : s.accept.connector scope = ∅ := by
      simp [accept, scopeList, hget]
    refine (change_of_fixed hscope ?_).symm
    rw [hempty, Set.empty_sdiff]
  | some list =>
    have hlist : s.scopeList scope = list := by rw [scopeList, hget, Option.getD_some]
    exact accept_insert hscope (by rw [hlist, setOf_filter])

theorem accept_apply (e : RfidEdit) : (e.apply s).accept = s.accept.edit e := by
  cases e with
  | add scope tag => exact accept_add scope tag
  | remove scope tag => exact accept_remove scope tag
  | clear =>
    have hempty : {tag | tag ∈ ([] : List String)} = ∅ := Set.eq_empty_iff_forall_notMem.2 fun _ => not_mem_nil
    simp only [RfidEdit.apply, Accept.edit, accept, hempty]
    rfl

theorem accept_foldl (es : List RfidEdit) : (es.foldl RfidEdit.apply s).accept = es.foldl Accept.edit s.accept := by
  induction es generalizing s with
  | nil => rfl
  | cons e es ih => rw [foldl_cons, foldl_cons, ih, accept_apply]

/-! ## The device config and back -/

theorem perm_filled : ((fillDeviceRfids s).connectorRfids.map fun c => (c.scope, c.rfids)).Perm
    (s.byScope.pairs.filter fun p => !p.2.isEmpty) := by
  refine ((perm_insertionSort _ _).map _).trans ?_
  rw [map_map]
  exact List.Perm.of_eq (map_id _)

theorem get?_reload {list : List String} : (rfidStoreFromDevice (fillDeviceRfids s)).byScope.get? scope = some list ↔
      s.byScope.get? scope = some list ∧ list ≠ [] := by
  have hnodup : (((fillDeviceRfids s).connectorRfids.map fun c => (c.scope, c.rfids)).map Prod.fst).Nodup :=
    (perm_filled.map Prod.fst).nodup_iff.2 (s.byScope.nodup.sublist (filter_sublist.map Prod.fst))
  rw [rfidStoreFromDevice, Table.get?_ofList hnodup, ← mem_iff_lookup hnodup, perm_filled.mem_iff, mem_filter,
    s.byScope.mem_pairs_iff]
  simp

theorem accept_reload : (rfidStoreFromDevice (fillDeviceRfids s)).accept = s.accept := by
  have hlist : ∀ scope tag, tag ∈ (rfidStoreFromDevice (fillDeviceRfids s)).scopeList scope ↔ tag ∈ s.scopeList scope := by
    intro scope tag
    simp only [mem_scopeList, get?_reload]
    constructor
    · rintro ⟨list, ⟨hget, -⟩, htag⟩
      exact ⟨list, hget, htag⟩
    · rintro ⟨list, hget, htag⟩
      exact ⟨list, ⟨hget, ne_nil_of_mem htag⟩, htag⟩
  simp only [accept, hlist]
  rfl

end RfidStore

/-! ## The tags that pass -/

/-- **The answers of a CSMS are decided by the sets**: an `Authorize` by all of them together, the start of a transaction by
those of its connector and of the charge points. -/
structure Gates (s : RfidStore) (a : Accept) : Prop where
  authorize16 : ∀ now nextTxid request, V16.Accepted (V16.craft now s nextTxid "Authorize" request).1 ↔
    Accept.Passes a.anywhere (V16.tag request)
  start16 : ∀ now nextTxid request, V16.Accepted (V16.craft now s nextTxid "StartTransaction" request).1 ↔
    Accept.Passes (a.effective (.ofConnector (V16.connector request))) (V16.tag request)
  authorize2 : ∀ now request, V2.Accepted (V2.craftResponse now s "Authorize" request) ↔
    Accept.Passes a.anywhere (V2.tag request)
  start2 : ∀ now request, V2.isObject (V2.idToken request) = true →
    (V2.Accepted (V2.craftResponse now s "TransactionEvent" request) ↔
      Accept.Passes (a.effective (.ofEvse (V2.evse request) none)) (V2.tag request))

theorem asStr_status (ok : Bool) : (status ok).asStr = some "Accepted" ↔ ok = true := by
  cases ok <;> decide

theorem gates_accept (s : RfidStore) : Gates s s.accept where
  authorize16 _ _ _ := (asStr_status _).trans RfidStore.csAuthorized_iff
  start16 _ _ _ := (asStr_status _).trans RfidStore.scopeAuthorized_iff
  authorize2 _ _ := (asStr_status _).trans RfidStore.csAuthorized_iff
  start2 now request h := by
    have hcraft : V2.craftResponse now s "TransactionEvent" request = some (.object [("idTokenInfo", .object [("status",
        status (s.scopeAuthorized (.ofEvse (V2.evse request) none) (V2.tag request)))])]) := by
      simp [V2.craftResponse, h]
    rw [hcraft]
    exact (asStr_status _).trans RfidStore.scopeAuthorized_iff

structure StationEdit where
  station : String
  edit : RfidEdit

def edited (d : DeviceRfids) (es : List StationEdit) : RfidStore :=
  (es.map (·.edit)).foldl RfidEdit.apply (rfidStoreFromDevice d)

def Accept.after (a : Accept) (es : List StationEdit) : Accept := (es.map (·.edit)).foldl Accept.edit a

def Accept.afterOf (a : Accept) (station : String) (es : List StationEdit) : Accept :=
  a.after (es.filter fun e => e.station = station)

/-- **After any edits, made for any stations, every answer to any station is decided by the sets of the CSMS**, and so it is
after the lists were written into the device config and read again. -/
theorem edited_gates (d : DeviceRfids) (es : List StationEdit) : Gates (edited d es) ((rfidStoreFromDevice d).accept.after es) ∧
      Gates (rfidStoreFromDevice (fillDeviceRfids (edited d es))) ((rfidStoreFromDevice d).accept.after es) := by
  have hafter : (edited d es).accept = (rfidStoreFromDevice d).accept.after es := RfidStore.accept_foldl _
  rw [← hafter]
  refine ⟨gates_accept _, ?_⟩
  rw [← RfidStore.accept_reload]
  exact gates_accept _

/-- A tag for a connector of station `A` shuts out every other tag at station `B`, for which nothing is listed. -/
theorem listed_for_another_station : ¬∀ (es : List StationEdit) (station : String) (request : Value),
      V16.Accepted (V16.craft "now" (edited ⟨[], []⟩ es) 1 "Authorize" request).1 ↔
        Accept.Passes ((rfidStoreFromDevice ⟨[], []⟩).accept.afterOf station es).anywhere (V16.tag request) := by
  intro h
  have hB := h [⟨"A", .add (.ofConnector 1) "T"⟩] "B" (.object [("idTag", .string "U")])
  have hpasses : Accept.Passes ((rfidStoreFromDevice ⟨[], []⟩).accept.afterOf "B"
      [⟨"A", .add (.ofConnector 1) "T"⟩]).anywhere "U" :=
    Or.inl (RfidStore.anywhere_eq_empty.2 ⟨rfl, fun _ => rfl⟩)
  exact absurd (hB.2 hpasses) (by decide +kernel)

end Ferrowl.Ocpp
