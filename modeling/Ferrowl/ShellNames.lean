import Ferrowl.Shell
/-!
# ShellNames — when tab names settle

A refresh copies the views' own names over the tab names and resolves what collides.  The names it leaves differ pairwise, unless
it found nothing to do.  But the resolved name is the tab's only: the view keeps the name that collided, so the next refresh
copies it back, renames the tab again and writes the warning again.
-/
namespace Ferrowl.Tui

open List

variable {X : Views}

namespace Shell

def names (s : Shell X) : List String :=
  s.titles.map (·.name)

def ownNames (s : Shell X) (w : ℕ → X.World) : List String :=
  (s.synced w).map (fun p => X.name p.2.view)

variable (s : Shell X)

theorem map_name_synced (w : ℕ → X.World) : ((s.synced w).map (·.2)).map (·.name) = s.ownNames w := by
  rw [ownNames, map_map]
  apply map_congr_left
  intro p hp
  obtain ⟨i, hi, rfl⟩ := mem_mapIdx.1 hp
  rfl

@[simp] theorem names_rebuildRegistry : s.rebuildRegistry.names = s.names := by
  simp [names, rebuildRegistry]

theorem ownNames_of_not_stale {s : Shell X} {w : ℕ → X.World} (h : s.stale w = false) : s.ownNames w = s.names := by
  rw [stale, any_eq_false] at h
  rw [names, ownNames, synced]
  apply ext_getElem
  · simp
  intro i hi hi'
  simp only [getElem_map, getElem_mapIdx]
  have hi : i < s.titles.length := by simpa using hi'
  have hsignal := h _ (mem_mapIdx.2 ⟨i, hi, rfl⟩)
  by_contra hne
  apply hsignal
  simp only [Tab.sync, Bool.or_eq_true, decide_eq_true_eq]
  exact Or.inr hne

/-! ## Resolving collisions -/

theorem resolveTab_name (t : Tab X) (resolved : String) : (resolveTab t resolved).1.name = resolved := by
  unfold resolveTab
  split
  · rfl
  · next h => exact (not_not.1 h).symm

theorem resolveTab_line (t : Tab X) (resolved : String) : (resolveTab t resolved).2 = none ↔ resolved = t.name := by
  unfold resolveTab
  split
  · next h => exact ⟨fun hnone => (nomatch hnone), fun heq => absurd heq h⟩
  · next h => exact ⟨fun _ => not_not.1 h, fun _ => rfl⟩

theorem map_name_zipWith {titles : List (Tab X)} {resolved : List String} (h : resolved.length = titles.length) :
    ((List.zipWith resolveTab titles resolved).map (·.1)).map (·.name) = resolved := by
  induction titles generalizing resolved with
  | nil => rw [length_eq_zero_iff.1 h]; rfl
  | cons t titles ih =>
    cases resolved with
    | nil => exact absurd h.symm (Nat.succ_ne_zero _)
    | cons r resolved =>
      simp only [zipWith_cons_cons, map_cons, resolveTab_name, ih (Nat.succ.inj h)]

theorem lines_zipWith {titles : List (Tab X)} {resolved : List String} (h : resolved.length = titles.length) :
    (∀ line ∈ (List.zipWith resolveTab titles resolved).map (·.2), line = none) ↔ resolved = titles.map (·.name) := by
  induction titles generalizing resolved with
  | nil => rw [length_eq_zero_iff.1 h]; simp
  | cons t titles ih =>
    cases resolved with
    | nil => exact absurd h.symm (Nat.succ_ne_zero _)
    | cons r resolved =>
      rw [zipWith_cons_cons, map_cons, forall_mem_cons, map_cons, List.cons.injEq, resolveTab_line, ih (Nat.succ.inj h)]

/-! ## One refresh -/

theorem names_refreshSnapshot (w : ℕ → X.World) :
    (s.refreshSnapshot w).1.names = if s.stale w then dedupeNames (s.ownNames w) else s.ownNames w := by
  rw [refreshSnapshot]
  split
  · rw [names_rebuildRegistry, names, resolveDuplicateTabNames, map_name_synced, map_name_zipWith]
    rw [length_dedupeNames, ← map_name_synced, length_map]
  · exact map_name_synced s w

theorem lines_refreshSnapshot (w : ℕ → X.World) :
    (∀ line ∈ (s.refreshSnapshot w).2, line = none) ↔ (s.stale w = true → (s.ownNames w).Nodup) := by
  rw [refreshSnapshot]
  cases hstale : s.stale w with
  | false => simp
  | true =>
    rw [if_pos rfl, resolveDuplicateTabNames, lines_zipWith, map_name_synced, dedupeNames_eq_self_iff]
    · exact ⟨fun h _ => h, fun h => h rfl⟩
    · rw [length_dedupeNames, length_map]

end Shell

/-! ## Runs of refreshes and view changes -/

inductive Change (X : Views) where
  /-- The views change, each in its own way; their own names with them. -/
  | views (f : ℕ → X.View → X.View)
  | refresh (w : ℕ → X.World)

structure Watched (X : Views) where
  shell : Shell X
  told : Option (List String)

namespace Watched

def start (s : Shell X) : Watched X :=
  { shell := s, told := none }

def step (u : Watched X) : Change X → Watched X
  | .views f =>
    { u with shell.titles := u.shell.titles.mapIdx (fun i t => { t with view := f i t.view }) }
  | .refresh w => { shell := (u.shell.refreshSnapshot w).1, told := some (u.shell.ownNames w) }

/-- No view has changed its own name since the previous refresh. -/
def Unchanged (u : Watched X) (w : ℕ → X.World) : Prop :=
  u.told = some (u.shell.ownNames w)

/-- The refresh leaves the tab names pairwise distinct, and if the own names have not changed it changes no tab name and
writes no warning. -/
def Settles (u : Watched X) (w : ℕ → X.World) : Prop :=
  (u.shell.refreshSnapshot w).1.names.Nodup ∧
    (u.Unchanged w → (u.shell.refreshSnapshot w).1.names = u.shell.names ∧ ∀ line ∈ (u.shell.refreshSnapshot w).2, line = none)

/-- Where the refresh has nothing new to resolve, nothing was left to resolve: the own names differ. -/
def Clear (u : Watched X) (w : ℕ → X.World) : Prop :=
  u.Unchanged w ∨ u.shell.stale w = false → (u.shell.ownNames w).Nodup

/-- Between refreshes the tabs carry the names of the last refresh, resolved or not. -/
def Kept (u : Watched X) : Prop :=
  ∀ own, u.told = some own → u.shell.names = own ∨ u.shell.names = dedupeNames own

theorem kept_step {u : Watched X} (c : Change X) (h : u.Kept) : (u.step c).Kept := by
  cases c with
  | views f =>
    intro own hown
    have hnames : (u.step (.views f)).shell.names = u.shell.names := by
      simp only [step, Shell.names]
      apply ext_getElem
      · simp
      · intro i hi hi'
        simp
    rw [hnames]
    exact h own hown
  | refresh w =>
    rintro own ⟨⟩
    simp only [step, Shell.names_refreshSnapshot]
    split
    · exact Or.inr rfl
    · exact Or.inl rfl

theorem kept_foldl (s : Shell X) (cs : List (Change X)) : (cs.foldl step (start s)).Kept := by
  have hstart : (start s).Kept := fun _ h => nomatch h
  generalize start s = u at hstart
  induction cs generalizing u with
  | nil => exact hstart
  | cons c cs ih => exact ih (u.step c) (kept_step c hstart)

theorem settles_iff_clear {u : Watched X} (hkept : u.Kept) (w : ℕ → X.World) : u.Settles w ↔ u.Clear w := by
  rw [Settles, Clear, Shell.names_refreshSnapshot, Shell.lines_refreshSnapshot]
  cases hstale : u.shell.stale w with
  | false =>
    -- nothing is resolved: the copied names are the tab names there were
    rw [if_neg Bool.false_ne_true, Shell.ownNames_of_not_stale hstale]
    exact ⟨fun h _ => h.1, fun h => ⟨h (Or.inr rfl), fun _ => ⟨rfl, fun hf => nomatch hf⟩⟩⟩
  | true =>
    rw [if_pos rfl]
    constructor
    · rintro ⟨-, hquiet⟩ (hsame | hf)
      · exact (hquiet hsame).2 rfl
      · exact nomatch hf
    intro hclear
    refine ⟨nodup_dedupeNames _, fun hsame => ?_⟩
    have hnodup := hclear (Or.inl hsame)
    have hself := (dedupeNames_eq_self_iff _).2 hnodup
    rcases hkept _ hsame with hnames | hnames
    · exact ⟨hself.trans hnames.symm, fun _ => hnodup⟩
    · exact ⟨hnames.symm, fun _ => hnodup⟩

/-- **A tab list settles exactly when its views' own names differ** wherever they are unchanged or nothing was found to resolve.
-/
theorem settles_iff (s : Shell X) (cs : List (Change X)) (w : ℕ → X.World) :
    (cs.foldl step (start s)).Settles w ↔ (cs.foldl step (start s)).Clear w :=
  settles_iff_clear (kept_foldl s cs) w

def twins : Shell namedViews where
  titles := [Tab.newFromView "meter" "meter", Tab.newFromView "pump" "meter"]
  active := 0
  registry := fun _ => none

def idle : ℕ → namedViews.World :=
  fun _ => ()

/-- **The warning comes back**: the first refresh resolves the collision, and the second, with nothing renamed in between,
warns again. -/
theorem collision_reported_again : ¬ ([Change.refresh idle].foldl step (start twins)).Settles idle := by
  intro hsettles
  have hclear := (settles_iff_clear (kept_foldl twins [.refresh idle]) idle).1 hsettles
  have hown : ((start twins).step (.refresh idle)).shell.ownNames idle = ["meter", "meter"] := by
    rw [step, Shell.refreshSnapshot]
    split <;> rfl
  rw [foldl_cons, foldl_nil, Clear, Unchanged, hown] at hclear
  exact absurd (hclear (Or.inl rfl)) (by decide)

end Watched
end Ferrowl.Tui
