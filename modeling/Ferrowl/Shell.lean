import Mathlib
import Ferrowl.Keys
import Ferrowl.ListMap
/-!
# Shell — the tab list, its refresh and the session's module directory

A refresh polls every view, adopts replaced views, copies the views' own names over the tabs' names and, when anything it watches
has changed, resolves equal tab names and rebuilds the directory.  The views stay abstract: a `Views` is a table of what the
application calls on them.
-/
namespace Ferrowl.Tui

open List

open Ui (KeyModifiers KeyCode)

/-! ## Names not taken yet -/

theorem exists_free {f : ℕ → String} (hf : Function.Injective f) (taken : List String) : ∃ k, f k ∉ taken := by
  obtain ⟨s, ⟨k, hk⟩, hs⟩ := (Set.infinite_range_of_injective hf).exists_notMem_finset taken.toFinset
  refine ⟨k, ?_⟩
  rw [hk]
  exact fun h => hs (mem_toFinset.2 h)

/-- The first name of the family that is not taken: what a loop that counts up from its first candidate returns. -/
def firstFree (f : ℕ → String) (hf : Function.Injective f) (taken : List String) : String :=
  f (Nat.find (exists_free hf taken))

theorem firstFree_notMem {f : ℕ → String} (hf : Function.Injective f) (taken : List String) : firstFree f hf taken ∉ taken :=
  Nat.find_spec (exists_free hf taken)

theorem append_repr_injective (before : String) : Function.Injective (fun n : ℕ => before ++ Nat.repr (n + 2)) := by
  intro m n h
  have hrepr := Nat.repr_injective ((String.append_right_inj before).1 h)
  omega

def dedupeCandidate (taken : List String) (name : String) : String :=
  firstFree (fun n => name ++ " (" ++ Nat.repr (n + 2) ++ ")")
    (fun _ _ h => append_repr_injective (name ++ " (") ((String.append_left_inj ")").1 h)) taken

def cloneName (base : String) (existing : List String) : String :=
  firstFree (fun n => base ++ "-" ++ Nat.repr (n + 2)) (append_repr_injective (base ++ "-")) existing

def dedupeFrom (seen : List String) : List String → List String
  | [] => []
  | name :: names =>
    if name ∈ seen then
      dedupeCandidate seen name :: dedupeFrom (dedupeCandidate seen name :: seen) names
    else
      name :: dedupeFrom (name :: seen) names

/-- `dedupe_names`: the first of several equal names keeps it, the later ones get a suffix. -/
def dedupeNames (names : List String) : List String :=
  dedupeFrom [] names

theorem length_dedupeFrom (seen names : List String) : (dedupeFrom seen names).length = names.length := by
  induction names generalizing seen with
  | nil => rfl
  | cons name names ih =>
    rw [dedupeFrom]
    split <;> simp [ih]

theorem dedupeFrom_spec (seen names : List String) :
    (dedupeFrom seen names).Nodup ∧ ∀ name ∈ dedupeFrom seen names, name ∉ seen := by
  induction names generalizing seen with
  | nil => exact ⟨nodup_nil, fun _ h => absurd h not_mem_nil⟩
  | cons name names ih =>
    -- whichever name is put out is new, and the rest avoids it
    have hput : ∀ put, put ∉ seen → (put :: dedupeFrom (put :: seen) names).Nodup ∧
        ∀ n ∈ put :: dedupeFrom (put :: seen) names, n ∉ seen := by
      intro put hnew
      obtain ⟨hnodup, havoid⟩ := ih (put :: seen)
      refine ⟨nodup_cons.2 ⟨fun h => havoid put h mem_cons_self, hnodup⟩, ?_⟩
      intro n hn
      rcases mem_cons.1 hn with rfl | hn
      · exact hnew
      · exact fun h => havoid n hn (mem_cons_of_mem _ h)
    rw [dedupeFrom]
    split
    · exact hput _ (firstFree_notMem _ seen)
    · next h => exact hput name h

theorem dedupeFrom_of_nodup {seen names : List String} (hnodup : names.Nodup) (havoid : ∀ name ∈ names, name ∉ seen) :
    dedupeFrom seen names = names := by
  induction names generalizing seen with
  | nil => rfl
  | cons name names ih =>
    obtain ⟨hname, hrest⟩ := nodup_cons.1 hnodup
    rw [dedupeFrom, if_neg (havoid name mem_cons_self), ih hrest]
    intro n hn h
    rcases mem_cons.1 h with rfl | h
    · exact hname hn
    · exact havoid n (mem_cons_of_mem _ hn) h

variable (names : List String)

theorem nodup_dedupeNames : (dedupeNames names).Nodup :=
  (dedupeFrom_spec [] names).1

@[simp] theorem length_dedupeNames : (dedupeNames names).length = names.length :=
  length_dedupeFrom [] names

theorem dedupeNames_eq_self_iff : dedupeNames names = names ↔ names.Nodup := by
  constructor
  · intro h
    rw [← h]
    exact nodup_dedupeNames names
  · intro h
    exact dedupeFrom_of_nodup h (fun _ _ => not_mem_nil)

/-! ## Views and tabs -/

/-- What the application asks of a content view (`ModuleView`).  `World` is what a call finds outside the view: the
tasks it joins, the files it reads, the clock. -/
structure Views where
  View : Type
  /-- What `module_host` exposes to scripts. -/
  Host : Type
  World : Type
  name : View → String
  setFocused : Bool → View → View
  isOverlayActive : View → Bool
  handleEvents : World → KeyModifiers → KeyCode → View → View
  handleCommand : World → String → View → View
  refresh : World → View → View
  /-- The view a refresh has put in this one's place, built in that refresh. -/
  takeReplacement : World → View → Option View × View
  takeHostChanged : View → Bool × View
  moduleHost : View → Option Host
  setSerialPaths : View → View
  /-- `script_list` of the second view, written to the first by `set_script_list`. -/
  copyScripts : View → View → View

inductive TabFocus where
  | view
  | logView
  deriving DecidableEq, Repr

variable {X : Views}

structure Tab (X : Views) where
  name : String
  view : X.View
  /-- Whether the log pane's widget draws itself focused. -/
  logFocused : Bool
  focus : TabFocus
  viewFocused : Bool

namespace Tab

def newFromView (name : String) (view : X.View) : Tab X :=
  { name, view, logFocused := false, focus := .view, viewFocused := false }

def setFocused (on : Bool) (t : Tab X) : Tab X :=
  let cleared := { t with viewFocused := on, view := X.setFocused false t.view, logFocused := false }
  if on then
    match t.focus with
    | .view => { cleared with view := X.setFocused true cleared.view }
    | .logView => { cleared with logFocused := true }
  else
    cleared

def focusNext (t : Tab X) : Tab X :=
  match t.focus with
  | .view => { t with view := X.setFocused false t.view, logFocused := true, focus := .logView }
  | .logView => { t with logFocused := false, view := X.setFocused true t.view, focus := .view }

def replaceView (t : Tab X) (newView : X.View) : Tab X :=
  if t.viewFocused && t.focus = .view then
    { t with view := X.setFocused true newView }
  else
    { t with view := newView }

/-- What a refresh does to one tab after polling its view, with whether the directory has to be rebuilt. -/
def sync (w : X.World) (t : Tab X) : Bool × Tab X :=
  let (replacement, view) := X.takeReplacement w t.view
  let replaced := match replacement with
    | some newView => t.replaceView newView
    | none => { t with view }
  let (hostChanged, view) := X.takeHostChanged replaced.view
  (replacement.isSome || hostChanged || X.name view ≠ t.name, { replaced with view, name := X.name view })

end Tab

/-! ## The shell -/

structure Shell (X : Views) where
  titles : List (Tab X)
  active : ℕ
  registry : String → Option X.Host

/-- Collecting pairs into a map: of two entries under one name the later stays. -/
def directory {H : Type} (entries : List (String × H)) : String → Option H :=
  entries.foldl (fun d e => Function.update d e.1 (some e.2)) (fun _ => none)

theorem lists_directory {H : Type} {entries : List (String × H)} (h : (entries.map Prod.fst).Nodup) :
    Lists entries (directory entries) := by
  induction entries using List.reverseRecOn with
  | nil => exact ⟨nodup_nil, fun k v => ⟨fun hm => absurd hm not_mem_nil, fun hm => nomatch hm⟩⟩
  | append_singleton entries e ih =>
    rw [map_append, nodup_append] at h
    obtain ⟨hfront, -, hdisj⟩ := h
    have hlist := ih hfront
    have hnone : directory entries e.1 = none := by
      by_contra hne
      obtain ⟨v, hv⟩ := Option.ne_none_iff_exists'.1 hne
      have hmem : e.1 ∈ entries.map Prod.fst := mem_map.2 ⟨_, (hlist.mem e.1 v).2 hv, rfl⟩
      exact hdisj _ hmem _ (mem_singleton.2 rfl) rfl
    rw [directory, foldl_append]
    exact hlist.append hnone e.2

namespace Shell

def entries (titles : List (Tab X)) : List (String × X.Host) :=
  titles.filterMap (fun t => (X.moduleHost t.view).map (fun host => (t.name, host)))

def rebuildRegistry (s : Shell X) : Shell X :=
  let titles := s.titles.map (fun t => { t with view := X.setSerialPaths t.view })
  { s with titles, registry := directory (entries titles) }

def selectedIndex (s : Shell X) : ℕ :=
  if s.active < s.titles.length then s.active else 0

def selectIndex (i : ℕ) (s : Shell X) : Shell X :=
  { s with active := min i (s.titles.length - 1) }

def next (s : Shell X) : Shell X :=
  { s with active := if s.selectedIndex + 1 ≥ s.titles.length then 0 else s.selectedIndex + 1 }

def previous (s : Shell X) : Shell X :=
  { s with active := if s.selectedIndex = 0 then s.titles.length - 1 else s.selectedIndex - 1 }

def activeTab (s : Shell X) : Option (Tab X) :=
  s.titles[s.selectedIndex]?

def modifyActive (f : Tab X → Tab X) (s : Shell X) : Shell X :=
  { s with titles := s.titles.modify s.selectedIndex f }

def setContentFocus (on : Bool) (s : Shell X) : Shell X :=
  s.modifyActive (Tab.setFocused on)

def command (w : X.World) (text : String) (s : Shell X) : Shell X :=
  s.modifyActive (fun t => { t with view := X.handleCommand w text t.view })

/-- `create_tab` up to the closing of the dialog: push, select, list and start the tab. -/
def createTab (w : X.World) (name : String) (view : X.View) (s : Shell X) : Shell X :=
  let pushed := { s with titles := s.titles ++ [Tab.newFromView name view] }
  (pushed.selectIndex (pushed.titles.length - 1)).rebuildRegistry.command w "start"

/-- `:quit` of one of several tabs.  The tab's module is stopped first, and the tab is dropped with it. -/
def closeTab (s : Shell X) : Shell X :=
  let i := s.selectedIndex
  ({ s with titles := s.titles.eraseIdx i }.selectIndex i).rebuildRegistry

def swap (i j : ℕ) (s : Shell X) : Shell X :=
  match s.titles[i]?, s.titles[j]? with
  | some a, some b => if i ≠ j then { s with titles := (s.titles.set i b).set j a } else s
  | _, _ => s

/-! ## Refresh -/

def collisionWarning (original resolved : String) : String :=
  "Warning: tab name '" ++ original ++ "' collided with another tab — renamed to '" ++ resolved ++ "'"

/-- One tab of `resolve_duplicate_tab_names`, with the line it writes into the tab's log. -/
def resolveTab (t : Tab X) (resolved : String) : Tab X × Option String :=
  if resolved ≠ t.name then
    ({ t with name := resolved }, some (collisionWarning t.name resolved))
  else
    (t, none)

def resolveDuplicateTabNames (titles : List (Tab X)) : List (Tab X × Option String) :=
  List.zipWith resolveTab titles (dedupeNames (titles.map (·.name)))

/-- The tabs once their views are polled and looked at, with each tab's change signal. -/
def synced (s : Shell X) (w : ℕ → X.World) : List (Bool × Tab X) :=
  s.titles.mapIdx (fun i t => Tab.sync (w i) { t with view := X.refresh (w i) t.view })

def stale (s : Shell X) (w : ℕ → X.World) : Bool :=
  (s.synced w).any (·.1)

def refreshSnapshot (s : Shell X) (w : ℕ → X.World) : Shell X × List (Option String) :=
  let titles := (s.synced w).map (·.2)
  if s.stale w then
    let resolved := resolveDuplicateTabNames titles
    (rebuildRegistry { s with titles := resolved.map (·.1) }, resolved.map (·.2))
  else
    ({ s with titles }, [])

end Shell

def namedViews : Views where
  View := String
  Host := Unit
  World := Unit
  name := id
  setFocused _ v := v
  isOverlayActive _ := false
  handleEvents _ _ _ v := v
  handleCommand _ _ v := v
  refresh _ v := v
  takeReplacement _ v := (none, v)
  takeHostChanged v := (false, v)
  moduleHost _ := some ()
  setSerialPaths v := v
  copyScripts v _ := v

end Ferrowl.Tui
