import Ferrowl.ShellNames
/-!
# ShellDirectory — when the module directory matches the tabs

The directory is a snapshot, rebuilt when tabs come and go and when a refresh finds one of its signals raised: a view replaced, a
view's own name changed, a view's host flagged as changed.  `HostSignals` says what views have to promise for that: whatever else
than a poll changes a host raises the flag.
-/
namespace Ferrowl.Tui

open List Option

variable {X : Views}

/-- How views signal that their host is no longer the one the directory holds: `changed` is the flag
`take_host_changed` takes. -/
structure HostSignals (X : Views) where
  changed : X.View → Bool
  take_changed : ∀ v, (X.takeHostChanged v).1 = changed v
  changed_take : ∀ v, changed (X.takeHostChanged v).2 = false
  host_take : ∀ v, X.moduleHost (X.takeHostChanged v).2 = X.moduleHost v
  host_serial : ∀ v, X.moduleHost (X.setSerialPaths v) = X.moduleHost v
  quiet_command : ∀ w text v, changed (X.handleCommand w text v) = false →
    changed v = false ∧ X.moduleHost (X.handleCommand w text v) = X.moduleHost v
  quiet_refresh : ∀ w v, changed (X.refresh w v) = false → changed v = false
  quiet_replacement : ∀ w v, (X.takeReplacement w v).1 = none →
    changed (X.takeReplacement w v).2 = changed v ∧ X.moduleHost (X.takeReplacement w v).2 = X.moduleHost v

namespace Shell

/-! ## The directory against the tabs -/

/-- One entry for each tab with a host, under the tab's name, and no other. -/
def Listed (s : Shell X) : Prop :=
  Lists (entries s.titles) s.registry

structure Exact (s : Shell X) : Prop where
  host : ∀ t ∈ s.titles, s.registry t.name = X.moduleHost t.view
  named : ∀ k, s.registry k ≠ none → k ∈ s.names

theorem mem_entries {titles : List (Tab X)} {k : String} {host : X.Host} :
    (k, host) ∈ entries titles ↔ ∃ t ∈ titles, t.name = k ∧ X.moduleHost t.view = some host := by
  simp only [entries, mem_filterMap, map_eq_some_iff, Prod.mk.injEq]
  constructor
  · rintro ⟨t, ht, h, hh, rfl, rfl⟩
    exact ⟨t, ht, rfl, hh⟩
  · rintro ⟨t, ht, rfl, hh⟩
    exact ⟨t, ht, host, hh, rfl, rfl⟩

theorem entries_names_sublist (titles : List (Tab X)) : ((entries titles).map Prod.fst).Sublist (titles.map (·.name)) := by
  induction titles with
  | nil => exact List.Sublist.slnil
  | cons t titles ih =>
    rw [entries, filterMap_cons]
    cases X.moduleHost t.view with
    | none => exact ih.cons _
    | some host => exact ih.cons_cons _

variable {s : Shell X}

theorem listed_iff_exact (hnames : s.names.Nodup) : s.Listed ↔ s.Exact := by
  constructor
  · intro h
    refine ⟨fun t ht => ?_, fun k hk => ?_⟩
    · cases hhost : X.moduleHost t.view with
      | some host => exact (h.mem t.name host).1 (mem_entries.2 ⟨t, ht, rfl, hhost⟩)
      | none =>
        by_contra hne
        obtain ⟨host, hentry⟩ := ne_none_iff_exists'.1 hne
        obtain ⟨u, hu, hname, huhost⟩ := mem_entries.1 ((h.mem t.name host).2 hentry)
        rw [inj_on_of_nodup_map hnames hu ht hname, hhost] at huhost
        exact nomatch huhost
    · obtain ⟨host, hentry⟩ := ne_none_iff_exists'.1 hk
      obtain ⟨t, ht, rfl, -⟩ := mem_entries.1 ((h.mem k host).2 hentry)
      exact mem_map.2 ⟨t, ht, rfl⟩
  · intro h
    refine ⟨(entries_names_sublist s.titles).nodup hnames, fun k host => ?_⟩
    rw [mem_entries]
    constructor
    · rintro ⟨t, ht, rfl, hhost⟩
      rw [h.host t ht, hhost]
    · intro hentry
      obtain ⟨t, ht, rfl⟩ := mem_map.1 (h.named k (by rw [hentry]; exact some_ne_none host))
      exact ⟨t, ht, rfl, (h.host t ht).symm.trans hentry⟩

theorem exact_rebuildRegistry (hnames : s.names.Nodup) : s.rebuildRegistry.Exact := by
  have hnames' : s.rebuildRegistry.names.Nodup := by rwa [names_rebuildRegistry]
  rw [← listed_iff_exact hnames']
  exact lists_directory ((entries_names_sublist _).nodup hnames')

/-! ## Between refreshes -/

/-- The directory matches every tab whose view has not flagged a change. -/
structure Matches (S : HostSignals X) (s : Shell X) : Prop where
  host : ∀ t ∈ s.titles, S.changed t.view = false → s.registry t.name = X.moduleHost t.view
  named : ∀ k, s.registry k ≠ none → k ∈ s.names

theorem Exact.toMatches (S : HostSignals X) (h : s.Exact) : s.Matches S :=
  ⟨fun t ht _ => h.host t ht, h.named⟩

theorem names_command (w : X.World) (text : String) (s : Shell X) : (s.command w text).names = s.names := by
  simp only [names, Shell.command, modifyActive]
  apply ext_getElem?
  intro i
  simp only [List.getElem?_map, List.getElem?_modify]
  cases s.titles[i]? with
  | none => rfl
  | some t =>
    simp only [Option.map_some, Option.map_eq_map]
    split <;> rfl

theorem mem_modify {α : Type} {l : List α} {i : ℕ} {f : α → α} {a : α} (h : a ∈ l.modify i f) : ∃ b ∈ l, a = b ∨ a = f b := by
  obtain ⟨j, hj⟩ := mem_iff_getElem?.1 h
  rw [List.getElem?_modify] at hj
  obtain ⟨b, hb, rfl⟩ := map_eq_some_iff.1 hj
  refine ⟨b, mem_of_getElem? hb, ?_⟩
  split
  · exact Or.inr rfl
  · exact Or.inl rfl

variable {S : HostSignals X}

theorem Matches.command (h : s.Matches S) (w : X.World) (text : String) : (s.command w text).Matches S := by
  constructor
  · intro t ht hquiet
    obtain ⟨u, hu, hsame | rfl⟩ := mem_modify ht
    · rw [hsame] at hquiet ⊢
      exact h.host u hu hquiet
    · obtain ⟨hbefore, hhost⟩ := S.quiet_command w text u.view hquiet
      exact (h.host u hu hbefore).trans hhost.symm
  · intro k hk
    rw [names_command]
    exact h.named k hk

theorem swap_perm (s : Shell X) (i j : ℕ) : (s.swap i j).titles.Perm s.titles := by
  simp only [swap]
  split
  · next a b ha hb =>
    split
    · obtain ⟨hi, rfl⟩ := List.getElem?_eq_some_iff.1 ha
      obtain ⟨hj, rfl⟩ := List.getElem?_eq_some_iff.1 hb
      exact set_set_perm hi hj
    · exact List.Perm.refl _
  · exact List.Perm.refl _

theorem swap_registry (s : Shell X) (i j : ℕ) : (s.swap i j).registry = s.registry := by
  simp only [swap]
  split
  · split <;> rfl
  · rfl

theorem Matches.swap (h : s.Matches S) (i j : ℕ) : (s.swap i j).Matches S := by
  have hperm := swap_perm s i j
  constructor
  · intro t ht hquiet
    rw [swap_registry]
    exact h.host t (hperm.mem_iff.1 ht) hquiet
  · intro k hk
    rw [swap_registry] at hk
    exact ((hperm.map _).mem_iff).2 (h.named k hk)

/-! ## What can happen to the tabs -/

inductive Event (X : Views) where
  | refresh (w : ℕ → X.World)
  /-- A creation dialog is confirmed. -/
  | create (w : X.World) (name : String) (view : X.View)
  /-- `:quit`. -/
  | close
  | swap (i j : ℕ)
  | select (i : ℕ)
  /-- A command for the active tab's view, such as `:reload`. -/
  | command (w : X.World) (text : String)

def step (s : Shell X) : Event X → Shell X
  | .refresh w => (s.refreshSnapshot w).1
  -- a name that is in use is refused
  | .create w name view => if s.titles.any (fun t => t.name = name) then s else s.createTab w name view
  -- closing the last tab ends the application
  | .close => if s.titles.length ≤ 1 then s else s.closeTab
  | .swap i j => s.swap i j
  | .select i => if i < s.titles.length then s.selectIndex i else s
  | .command w text => s.command w text

theorem names_createTab (s : Shell X) (w : X.World) (name : String) (view : X.View) :
    (s.createTab w name view).names = s.names ++ [name] := by
  rw [createTab, names_command, names_rebuildRegistry]
  simp [names, selectIndex, Tab.newFromView]

theorem names_closeTab (s : Shell X) : s.closeTab.names = s.names.eraseIdx s.selectedIndex := by
  rw [closeTab, names_rebuildRegistry]
  simp only [names, selectIndex, eraseIdx_map]

theorem nodup_refreshSnapshot (h : s.names.Nodup) (w : ℕ → X.World) : (s.refreshSnapshot w).1.names.Nodup := by
  rw [names_refreshSnapshot]
  split
  · exact nodup_dedupeNames _
  · next hstale =>
    rw [ownNames_of_not_stale (Bool.not_eq_true _ ▸ hstale)]
    exact h

theorem not_mem_names {name : String} (h : ¬ s.titles.any (fun t => t.name = name) = true) : name ∉ s.names := by
  intro hmem
  obtain ⟨t, ht, rfl⟩ := mem_map.1 hmem
  exact h (any_eq_true.2 ⟨t, ht, decide_eq_true rfl⟩)

theorem nodup_step (h : s.names.Nodup) (e : Event X) : (s.step e).names.Nodup := by
  cases e with
  | refresh w => exact nodup_refreshSnapshot h w
  | create w name view =>
    rw [step]
    split
    · exact h
    next hfree =>
    rw [names_createTab]
    exact nodup_append'.2 ⟨h, nodup_singleton name, fun k hk hk' => not_mem_names hfree (mem_singleton.1 hk' ▸ hk)⟩
  | close =>
    rw [step]
    split
    · exact h
    · rw [names_closeTab]
      exact (eraseIdx_sublist _ _).nodup h
  | swap i j => exact ((swap_perm s i j).map _).nodup_iff.2 h
  | select i =>
    rw [step]
    split
    · exact h
    · exact h
  | command w text =>
    rw [step, names_command]
    exact h

theorem Matches.step (h : s.Matches S) (hnames : s.names.Nodup) {e : Event X}
    (he : ∀ w, e ≠ .refresh w) : (s.step e).Matches S := by
  cases e with
  | refresh w => exact absurd rfl (he w)
  | create w name view =>
    have hafter := nodup_step hnames (.create w name view)
    rw [Shell.step] at hafter ⊢
    split at hafter
    · next hused =>
      rw [if_pos hused]
      exact h
    next hfree =>
    rw [if_neg hfree]
    rw [names_createTab] at hafter
    refine Matches.command ((exact_rebuildRegistry ?_).toMatches S) w "start"
    simpa only [names, selectIndex, map_append, map_cons, map_nil, Tab.newFromView] using hafter
  | close =>
    have hafter := nodup_step hnames (.close : Event X)
    rw [Shell.step] at hafter ⊢
    split
    · exact h
    · next hlen =>
      rw [if_neg hlen, closeTab, names_rebuildRegistry] at hafter
      exact (exact_rebuildRegistry hafter).toMatches S
  | swap i j => exact h.swap i j
  | select i =>
    rw [Shell.step]
    split
    · exact ⟨h.host, h.named⟩
    · exact h
  | command w text => exact h.command w text

/-! ## Refreshes -/

/-- A refresh that finds no signal polled no host into another one. -/
def Quiet (s : Shell X) (w : ℕ → X.World) : Prop :=
  s.stale w = false →
    ∀ i t, s.titles[i]? = some t → X.moduleHost (X.refresh (w i) t.view) = X.moduleHost t.view

theorem sync_quiet (S : HostSignals X) {w : X.World} {t : Tab X} (h : (t.sync w).1 = false) :
    (t.sync w).2.name = t.name ∧ X.moduleHost (t.sync w).2.view = X.moduleHost t.view ∧ S.changed t.view = false := by
  simp only [Tab.sync, Bool.or_eq_false_iff, decide_eq_false_iff_not, not_not, isSome_eq_false_iff, isNone_iff_eq_none] at h ⊢
  obtain ⟨⟨hnone, hchanged⟩, hname⟩ := h
  obtain ⟨hsame, hhost⟩ := S.quiet_replacement w t.view hnone
  rw [hnone] at hchanged hname ⊢
  rw [S.take_changed, hsame] at hchanged
  exact ⟨hname, (S.host_take _).trans hhost, hchanged⟩

theorem polled_quiet (S : HostSignals X) {w : ℕ → X.World} (hstale : s.stale w = false) {i : ℕ}
    {t : Tab X} (ht : s.titles[i]? = some t) : ∃ u, (s.refreshSnapshot w).1.titles[i]? = some u ∧ u.name = t.name ∧
      X.moduleHost u.view = X.moduleHost (X.refresh (w i) t.view) ∧ S.changed (X.refresh (w i) t.view) = false := by
  have hpolled : (s.synced w)[i]? = some (Tab.sync (w i) { t with view := X.refresh (w i) t.view }) := by
    rw [synced, List.getElem?_mapIdx, ht, map_some]
  have hsignal := any_eq_false.1 hstale _ (mem_of_getElem? hpolled)
  refine ⟨_, ?_, sync_quiet S (Bool.not_eq_true _ ▸ hsignal)⟩
  rw [refreshSnapshot, if_neg (by rw [hstale]; exact Bool.false_ne_true), List.getElem?_map, hpolled, map_some]

theorem exact_refreshSnapshot_iff (h : s.Matches S) (w : ℕ → X.World) : (s.refreshSnapshot w).1.Exact ↔ s.Quiet w := by
  cases hstale : s.stale w with
  | true =>
    refine iff_of_true ?_ (fun hf => nomatch hstale.symm.trans hf)
    have hnodup : (s.refreshSnapshot w).1.names.Nodup := by
      rw [names_refreshSnapshot, if_pos hstale]
      exact nodup_dedupeNames _
    rw [refreshSnapshot, if_pos hstale] at hnodup ⊢
    rw [names_rebuildRegistry] at hnodup
    exact exact_rebuildRegistry hnodup
  | false =>
    have hnames : (s.refreshSnapshot w).1.names = s.names := by
      rw [names_refreshSnapshot, if_neg (by rw [hstale]; exact Bool.false_ne_true), ownNames_of_not_stale hstale]
    have hregistry : (s.refreshSnapshot w).1.registry = s.registry := by
      rw [refreshSnapshot, if_neg (by rw [hstale]; exact Bool.false_ne_true)]
    constructor
    · intro hexact _ i t ht
      obtain ⟨u, hafter, hname, hhost, hchanged⟩ := polled_quiet S hstale ht
      have hbefore := h.host t (mem_of_getElem? ht) (S.quiet_refresh _ _ hchanged)
      have hentry := hexact.host u (mem_of_getElem? hafter)
      rw [hregistry, hname, hbefore, hhost] at hentry
      exact hentry.symm
    intro hq
    refine ⟨fun u hu => ?_, fun k hk => ?_⟩
    · obtain ⟨i, hi⟩ := mem_iff_getElem?.1 hu
      obtain ⟨t, ht⟩ : ∃ t, s.titles[i]? = some t := by
        have hlen : i < (s.refreshSnapshot w).1.names.length := by
          rw [names, length_map]
          exact (List.getElem?_eq_some_iff.1 hi).1
        rw [hnames, names, length_map] at hlen
        exact ⟨_, List.getElem?_eq_getElem hlen⟩
      obtain ⟨u', hafter, hname, hhost, hchanged⟩ := polled_quiet S hstale ht
      cases hi.symm.trans hafter
      rw [hregistry, hname, h.host t (mem_of_getElem? ht) (S.quiet_refresh _ _ hchanged), hhost, hq hstale i t ht]
    · rw [hregistry] at hk
      rw [hnames]
      exact h.named k hk

/-! ## Runs -/

theorem nodup_foldl (h : s.names.Nodup) (es : List (Event X)) : (es.foldl step s).names.Nodup := by
  induction es generalizing s with
  | nil => exact h
  | cons e es ih => exact ih (nodup_step h e)

theorem matches_foldl (hnames : s.names.Nodup) (hstart : s.Matches S) {es : List (Event X)}
    (h : ∀ pre w, pre ++ [.refresh w] <+: es → (pre.foldl step s).Matches S → ((pre.foldl step s).refreshSnapshot w).1.Exact)
    (pre : List (Event X)) (hpre : pre <+: es) : (pre.foldl step s).Matches S := by
  induction pre using List.reverseRecOn with
  | nil => exact hstart
  | append_singleton pre e ih =>
    have hbefore := ih ((prefix_append pre [e]).trans hpre)
    rw [foldl_append, foldl_cons, foldl_nil]
    by_cases he : ∃ w, e = .refresh w
    · obtain ⟨w, rfl⟩ := he
      exact (h pre w hpre hbefore).toMatches S
    · push Not at he
      exact hbefore.step (nodup_foldl hnames pre) he

/-- **The directory matches the tabs after every refresh exactly when no refresh without a signal polls a host into another
one.** -/
theorem listed_iff (S : HostSignals X) (hnames : s.names.Nodup) (hstart : s.Exact) (es : List (Event X)) :
    (∀ pre w, pre ++ [.refresh w] <+: es → ((pre.foldl step s).refreshSnapshot w).1.Listed) ↔
      ∀ pre w, pre ++ [.refresh w] <+: es → (pre.foldl step s).Quiet w := by
  have hexact : ∀ (pre : List (Event X)) w, ((pre.foldl step s).refreshSnapshot w).1.Listed ↔ ((pre.foldl step s).refreshSnapshot w).1.Exact :=
    fun pre w => listed_iff_exact (nodup_refreshSnapshot (nodup_foldl hnames pre) w)
  constructor
  · intro h pre w hpre
    have hmatch := matches_foldl hnames (hstart.toMatches S) (fun pre w hp _ => (hexact pre w).1 (h pre w hp)) pre
      ((prefix_append pre _).trans hpre)
    exact (exact_refreshSnapshot_iff hmatch w).1 ((hexact pre w).1 (h pre w hpre))
  intro h pre w hpre
  have hmatch := matches_foldl hnames (hstart.toMatches S)
    (fun pre w hp hm => (exact_refreshSnapshot_iff hm w).2 (h pre w hp)) pre ((prefix_append pre _).trans hpre)
  exact (hexact pre w).2 ((exact_refreshSnapshot_iff hmatch w).2 (h pre w hpre))

end Shell
end Ferrowl.Tui
