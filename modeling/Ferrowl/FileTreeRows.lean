import Ferrowl.FileTree
/-!
# FileTreeRows — the rows of the file tree against the paths

With all directories expanded the file rows carry the paths the tree was built from, with their status and badge, each once. 
Names are glued to an empty path without a `/`, though, so this takes paths that do not start with one (`file_tree_shows_paths`):
the row of `/a` has the path `a`.
-/
namespace Ferrowl.Ui.FileTree

open List

section
variable {S B : Type}

theorem TreeNode.induct {motive : TreeNode S → Prop}
    (dir : ∀ name children expanded, (∀ c ∈ children, motive c) → motive (.dir name children expanded))
    (file : ∀ name status, motive (.file name status)) : ∀ node, motive node
  | .dir name children expanded => dir name children expanded fun c _ => TreeNode.induct dir file c
  | .file name status => file name status
decreasing_by
  have := sizeOf_lt_of_mem ‹c ∈ children›
  simp only [TreeNode.dir.sizeOf_spec]
  omega

/-! ## Expansion keeps the tree -/

mutual

theorem walkMut_setExpanded (f : Bool) (path : List Char) (value : Bool) : ∀ (base : List Char) (node : TreeNode S),
    (node.setExpanded path value base).1.walkMut (fun _ => f) = node.walkMut fun _ => f
  | base, .dir name children expanded => by
    unfold TreeNode.setExpanded
    split
    · rfl
    · simp only [TreeNode.walkMut, walkEach_setExpandedEach f path value _ children]
  | _, .file _ _ => rfl

theorem walkEach_setExpandedEach (f : Bool) (path : List Char) (value : Bool) : ∀ (base : List Char) (nodes : List (TreeNode S)),
    walkEach (fun _ => f) (setExpandedEach path value base nodes).1 = walkEach (fun _ => f) nodes
  | _, [] => rfl
  | base, node :: nodes => by
    have hnode := walkMut_setExpanded f path value base node
    unfold setExpandedEach
    dsimp only
    split
    · rw [walkEach, walkEach, hnode]
    · rw [walkEach, walkEach, hnode, walkEach_setExpandedEach f path value base nodes]

end

namespace FileTreeState

structure SameTree (s t : FileTreeState S B) : Prop where
  badges : t.badges = s.badges
  root : t.expandAll.root = s.expandAll.root

variable (s : FileTreeState S B)

theorem sameTree_setExpanded (path : List Char) (value : Bool) : s.SameTree (s.setExpanded path value) :=
  ⟨rfl, walkEach_setExpandedEach true path value [] s.root⟩

theorem sameTree_expandOrDescend : s.SameTree s.expandOrDescend := by
  unfold expandOrDescend
  repeat' split
  all_goals first | exact ⟨rfl, rfl⟩ | exact sameTree_setExpanded s _ true

theorem sameTree_collapseOrAscend : s.SameTree s.collapseOrAscend := by
  unfold collapseOrAscend
  repeat' split
  all_goals first | exact ⟨rfl, rfl⟩ | exact sameTree_setExpanded s _ false

theorem sameTree_enter : s.SameTree s.enter.2 := by
  unfold enter
  repeat' split
  all_goals first | exact ⟨rfl, rfl⟩ | exact sameTree_setExpanded s _ _

variable {s}

theorem SameTree.ensureVisible {t : FileTreeState S B} (h : s.SameTree t) : s.SameTree t.ensureVisible := by
  unfold FileTreeState.ensureVisible
  repeat' split
  all_goals exact ⟨h.badges, h.root⟩

theorem sameTree_ite {p : Prop} [Decidable p] {a b : Option FileTreeOutcome × FileTreeState S B}
    (ha : s.SameTree a.2) (hb : s.SameTree b.2) : s.SameTree (if p then a else b).2 := by
  split
  · exact ha
  · exact hb

/-- **Keys expand and collapse**, and leave the tree as it is otherwise. -/
theorem sameTree_press (s : FileTreeState S B) (key : KeyModifiers × KeyCode) : s.SameTree (s.press key) := by
  have hmoved : ∀ (pending : Option Char) (selected : Nat),
      s.SameTree { s with pending := pending, selected := selected } := fun _ _ => ⟨rfl, rfl⟩
  have hthen : ∀ {t : FileTreeState S B}, SameTree { s with pending := none } t → s.SameTree t := fun h => ⟨h.badges, h.root⟩
  unfold press handleKey
  refine sameTree_ite ?_ ?_
  · dsimp only
    split
    · exact (hmoved _ _).ensureVisible
    · exact ⟨rfl, rfl⟩
  iterate 3 refine sameTree_ite (hmoved _ _).ensureVisible ?_
  refine sameTree_ite (hthen (sameTree_expandOrDescend _).ensureVisible) ?_
  refine sameTree_ite (hthen (sameTree_collapseOrAscend _).ensureVisible) ?_
  iterate 4 refine sameTree_ite (hmoved _ _).ensureVisible ?_
  exact sameTree_ite (hthen (sameTree_enter _)) ⟨rfl, rfl⟩

theorem sameTree_keys (s : FileTreeState S B) (keys : List (KeyModifiers × KeyCode)) : s.SameTree (keys.foldl press s) := by
  induction keys generalizing s with
  | nil => exact ⟨rfl, rfl⟩
  | cons key keys ih =>
    have hkey := sameTree_press s key
    have hrest := ih (s.press key)
    exact ⟨hrest.badges.trans hkey.badges, hrest.root.trans hkey.root⟩

end FileTreeState

inductive TreeNode.Expanded : TreeNode S → Prop where
  | dir {name : List Char} {children : List (TreeNode S)} (h : ∀ c ∈ children, c.Expanded) : Expanded (.dir name children true)
  | file {name : List Char} {status : Option S} : Expanded (.file name status)

theorem walkEach_eq (f : Bool → Bool) (nodes : List (TreeNode S)) : walkEach f nodes = nodes.map (TreeNode.walkMut f) := by
  induction nodes with
  | nil => rfl
  | cons node nodes ih => rw [walkEach, ih, map_cons]

theorem TreeNode.Expanded.walkMut {node : TreeNode S} (h : node.Expanded) : node.walkMut (fun _ => true) = node := by
  induction h with
  | dir h ih => rw [TreeNode.walkMut, walkEach_eq, map_congr_left ih, map_id']
  | file => rfl

/-! ## The file rows -/

variable {badges : List Char → Option B} {base path fileName : List Char} {nodes : List (TreeNode S)}

def fileRows (rows : List (VisibleRow S B)) : List (List Char × Option S × Option B) :=
  (rows.filter fun r => !r.isDir).map fun r => (r.path, r.status, r.badge)

theorem inOrder_perm {β : Type} (nodes : List (TreeNode S × β)) : (inOrder nodes).Perm nodes :=
  ((perm_insertionSort _ _).append (perm_insertionSort _ _)).trans (filter_append_perm _ _)

theorem rowsOfEach_eq (badges : List Char → Option B) (depth : Nat) (base : List Char) (nodes : List (TreeNode S)) :
    rowsOfEach badges depth base nodes = nodes.map fun n => (n, n.rows badges depth base) := by
  induction nodes with
  | nil => rfl
  | cons node nodes ih => rw [rowsOfEach, ih, map_cons]

theorem fileRows_pushVisible (badges : List Char → Option B) (depth : Nat) (base : List Char) (nodes : List (TreeNode S)) :
    (fileRows (pushVisible badges depth base nodes)).Perm (nodes.flatMap fun n => fileRows (n.rows badges depth base)) := by
  have hrows : (rowsOfEach badges depth base nodes).flatMap Prod.snd = nodes.flatMap fun n => n.rows badges depth base := by
    rw [rowsOfEach_eq, flatMap_map]
  have hperm := (inOrder_perm (rowsOfEach badges depth base nodes)).flatMap_right Prod.snd
  rw [hrows] at hperm
  refine ((hperm.filter _).map _).trans (List.Perm.of_eq ?_)
  rw [filter_flatMap, map_flatMap]
  rfl

theorem enterDir_eq (dirName : List Char) (go : List (TreeNode S) → List (TreeNode S)) : ∀ nodes : List (TreeNode S),
    ∃ before children expanded after, enterDir dirName go nodes = before ++ .dir dirName (go children) expanded :: after ∧
      (nodes = before ++ .dir dirName children expanded :: after ∨
        nodes = before ++ after ∧ children = [] ∧ expanded = true ∧ ∀ n ∈ nodes, n.isDir = true → n.name ≠ dirName)
  | [] => ⟨[], [], true, [], rfl, .inr ⟨rfl, rfl, rfl, nofun⟩⟩
  | .dir name children expanded :: rest => by
    unfold enterDir
    split
    · rename_i heq
      subst heq
      exact ⟨[], children, expanded, rest, rfl, .inl rfl⟩
    rename_i hne
    obtain ⟨before, cs, ex, after, heq, hnodes⟩ := enterDir_eq dirName go rest
    refine ⟨_ :: before, cs, ex, after, congrArg _ heq, hnodes.imp (congrArg _) ?_⟩
    exact fun ⟨h, hc, he, hnew⟩ => ⟨congrArg _ h, hc, he, forall_mem_cons.2 ⟨fun _ => hne, hnew⟩⟩
  | .file name status :: rest => by
    obtain ⟨before, cs, ex, after, heq, hnodes⟩ := enterDir_eq dirName go rest
    refine ⟨_ :: before, cs, ex, after, congrArg _ heq, hnodes.imp (congrArg _) ?_⟩
    exact fun ⟨h, hc, he, hnew⟩ => ⟨congrArg _ h, hc, he, forall_mem_cons.2 ⟨nofun, hnew⟩⟩

theorem fileRows_addFile (badges : List Char → Option B) (fileName : List Char) (status : Option S) :
    ∀ (components : List (List Char)) (base : List Char) {nodes : List (TreeNode S)}, (∀ n ∈ nodes, n.Expanded) →
      (∀ n ∈ addFile fileName status components nodes, n.Expanded) ∧ ∀ depth,
        let path := (components ++ [fileName]).foldl joinPath base
        (fileRows (pushVisible badges depth base (addFile fileName status components nodes))).Perm
          ((path, status, badges path) :: fileRows (pushVisible badges depth base nodes))
  | [], base, nodes, h => by
    refine ⟨forall_mem_append.2 ⟨h, forall_mem_singleton.2 .file⟩, fun depth => ?_⟩
    refine (fileRows_pushVisible _ _ _ _).trans (.trans ?_ ((fileRows_pushVisible _ _ _ _).symm.cons _))
    rw [addFile, flatMap_append]
    exact perm_append_singleton _ _
  | dirName :: components, base, nodes, h => by
    obtain ⟨before, children, expanded, after, heq, hnodes⟩ :=
      enterDir_eq dirName (addFile fileName status components) nodes
    rw [addFile, heq]
    -- the directory's children are expanded, and its own rows are among those of the nodes if it was there
    have hdir : (∀ n ∈ before ++ after, n.Expanded) ∧ (∀ n ∈ children, n.Expanded) ∧ expanded = true ∧
        ∀ depth, (nodes.flatMap fun n => fileRows (n.rows badges depth base)) =
          (before.flatMap fun n => fileRows (n.rows badges depth base)) ++
            (fileRows (pushVisible badges (depth + 1) (joinPath base dirName) children) ++
              after.flatMap fun n => fileRows (n.rows badges depth base)) := by
      rcases hnodes with rfl | ⟨rfl, rfl, rfl, -⟩
      · rw [forall_mem_append, forall_mem_cons] at h
        obtain ⟨hbefore, hdir, hafter⟩ := h
        cases hdir with
        | dir hchildren =>
          refine ⟨forall_mem_append.2 ⟨hbefore, hafter⟩, hchildren, rfl, fun depth => ?_⟩
          rw [flatMap_append, flatMap_cons]
          rfl
      · exact ⟨h, nofun, rfl, fun depth => flatMap_append⟩
    obtain ⟨hothers, hchildren, rfl, hrows⟩ := hdir
    obtain ⟨hgrown, hadded⟩ := fileRows_addFile badges fileName status components (joinPath base dirName) hchildren
    obtain ⟨hbefore, hafter⟩ := forall_mem_append.1 hothers
    refine ⟨forall_mem_append.2 ⟨hbefore, forall_mem_cons.2 ⟨.dir hgrown, hafter⟩⟩, fun depth => ?_⟩
    refine (fileRows_pushVisible _ _ _ _).trans (.trans ?_ ((fileRows_pushVisible _ _ _ _).symm.cons _))
    rw [hrows, flatMap_append, flatMap_cons]
    exact (((hadded (depth + 1)).append_right _).append_left _).trans perm_middle

theorem foldl_joinPath : ∀ (components : List (List Char)) {base : List Char}, base ≠ [] →
    components.foldl joinPath base = List.intercalate ['/'] (base :: components)
  | [], base, _ => (append_nil base).symm
  | c :: components, base, h => by
    have hjoin : joinPath base c = base ++ '/' :: c := if_neg (by simpa using h)
    rw [foldl_cons, hjoin, foldl_joinPath components (by simp)]
    cases components <;> simp [List.intercalate]

theorem splitOn_cases (h : ¬ ['/'] <+: path) :
    path.splitOn '/' = [path] ∨ ∃ c c' components, path.splitOn '/' = c :: c' :: components ∧ c ≠ [] := by
  have hjoin : List.intercalate ['/'] (path.splitOn '/') = path := intercalate_splitOn '/'
  match hcomponents : path.splitOn '/' with
  | [] => exact absurd hcomponents (splitOn_ne_nil _ _)
  | [c] =>
    rw [hcomponents] at hjoin
    exact .inl (by simpa [List.intercalate] using hjoin)
  | c :: c' :: components =>
    refine .inr ⟨c, c', components, rfl, ?_⟩
    rintro rfl
    refine h ?_
    rw [← hjoin, hcomponents]
    simp [List.intercalate]

theorem joinPath_splitOn (h : ¬ ['/'] <+: path) : (path.splitOn '/').foldl joinPath [] = path := by
  have hjoin : List.intercalate ['/'] (path.splitOn '/') = path := intercalate_splitOn '/'
  rcases splitOn_cases h with hone | ⟨c, c', components, heq, hne⟩
  · rw [hone]
    rfl
  · rw [heq] at hjoin ⊢
    have hfirst : joinPath [] c = c := rfl
    rw [foldl_cons, hfirst, foldl_joinPath _ hne, hjoin]

/-! ## The order of the rows -/

/-- The rows below a row that is followed by `rest`: those that are deeper, up to the first that is not. -/
def below (row : VisibleRow S B) (rest : List (VisibleRow S B)) : List (VisibleRow S B) :=
  rest.takeWhile fun r => row.depth < r.depth

/-- The siblings after a row that is followed by `rest`: those as deep, up to the first row that is less deep. -/
def laterSiblings (row : VisibleRow S B) (rest : List (VisibleRow S B)) : List (VisibleRow S B) :=
  (rest.takeWhile fun r => row.depth ≤ r.depth).filter fun r => r.depth = row.depth

/-- Directories come first, and each group is ascending by name. -/
def Before (isDir isDir' : Bool) (name name' : List Char) : Prop :=
  isDir = true ∧ isDir' = false ∨ isDir = isDir' ∧ name ≤ name'

/-- Only directories have rows below them, whose paths go on from theirs; siblings are in order. -/
structure InPlace (row : VisibleRow S B) (rest : List (VisibleRow S B)) : Prop where
  below : ∀ r ∈ below row rest, row.path ++ ['/'] <+: r.path
  siblings : ∀ r ∈ laterSiblings row rest, Before row.isDir r.isDir row.name r.name

structure IsListing (d : Nat) (base : List Char) (rows : List (VisibleRow S B)) : Prop where
  headDepth : ∀ r ∈ rows.head?, r.depth = d
  deep : ∀ r ∈ rows, d ≤ r.depth
  under : base ≠ [] → ∀ r ∈ rows, base ++ ['/'] <+: r.path
  inPlace : ∀ a rest, a :: rest <:+ rows → InPlace a rest

theorem isListing_nil (d : Nat) (base : List Char) : IsListing d base ([] : List (VisibleRow S B)) :=
  ⟨nofun, nofun, fun _ => nofun, fun a rest h => absurd (suffix_nil.1 h) (cons_ne_nil a rest)⟩

theorem mem_takeWhile_append {α : Type} {p : α → Bool} {l l' : List α} {a : α} (h : a ∈ (l ++ l').takeWhile p) :
    a ∈ l.takeWhile p ∨ a ∈ l' ∧ ∃ b, l'.head? = some b ∧ p b = true := by
  rw [takeWhile_append] at h
  split at h
  · rename_i hall
    rw [( takeWhile_prefix p).eq_of_length hall]
    refine (mem_append.1 h).imp_right fun h => ⟨(takeWhile_sublist p).mem h, ?_⟩
    cases l' with
    | nil => exact nomatch h
    | cons b l' =>
      refine ⟨b, rfl, ?_⟩
      by_contra hb
      rw [takeWhile_cons_of_neg hb] at h
      exact nomatch h
  · exact .inl h

section
variable {d : Nat} {row : VisibleRow S B} {rows more rest : List (VisibleRow S B)}

theorem InPlace.append (h : InPlace row rest) (hd : d ≤ row.depth) (hmore : IsListing d base more)
    (hbefore : row.depth = d → ∀ r ∈ more, r.depth = d → Before row.isDir r.isDir row.name r.name) :
    InPlace row (rest ++ more) := by
  refine ⟨fun r hr => ?_, fun r hr => ?_⟩
  · rcases mem_takeWhile_append hr with hr | ⟨-, b, hb, hdeep⟩
    · exact h.below r hr
    · have hdepth := hmore.headDepth b hb
      have hlt := of_decide_eq_true hdeep
      omega
  obtain ⟨hmem, hsame⟩ := mem_filter.1 hr
  rcases mem_takeWhile_append hmem with hmem | ⟨hmem, b, hb, hdeep⟩
  · exact h.siblings r (mem_filter.2 ⟨hmem, hsame⟩)
  have hdepth := hmore.headDepth b hb
  have hle := of_decide_eq_true hdeep
  have heq := of_decide_eq_true hsame
  exact hbefore (by omega) r hmem (by omega)

theorem IsListing.append (h : IsListing d base rows) (hmore : IsListing d base more)
    (hbefore : ∀ a ∈ rows, a.depth = d → ∀ r ∈ more, r.depth = d → Before a.isDir r.isDir a.name r.name) :
    IsListing d base (rows ++ more) where
  headDepth r hr := by
    rw [List.head?_append] at hr
    rcases Option.or_eq_some_iff.1 hr with hr | ⟨-, hr⟩
    · exact h.headDepth r hr
    · exact hmore.headDepth r hr
  deep := forall_mem_append.2 ⟨h.deep, hmore.deep⟩
  under hbase := forall_mem_append.2 ⟨h.under hbase, hmore.under hbase⟩
  inPlace a rest hs := by
    obtain ⟨pre, heq⟩ := hs
    rcases append_eq_append_iff.1 heq with ⟨as, hrows, hrest⟩ | ⟨bs, -, hrest⟩
    · cases as with
      | nil => exact hmore.inPlace a rest ⟨[], hrest⟩
      | cons b as =>
        obtain ⟨rfl, rfl⟩ := cons_eq_cons.1 hrest
        have hs : a :: as <:+ rows := ⟨pre, hrows.symm⟩
        have ha := hs.mem mem_cons_self
        exact (h.inPlace a as hs).append (h.deep a ha) hmore (hbefore a ha)
    · exact hmore.inPlace a rest ⟨bs, hrest.symm⟩

theorem IsListing.cons (row : VisibleRow S B) (h : IsListing (row.depth + 1) row.path rows) (hpath : row.path ≠ [])
    (hbase : base ≠ [] → base ++ ['/'] <+: row.path) : IsListing row.depth base (row :: rows) where
  headDepth r hr := by
    cases hr
    rfl
  deep := forall_mem_cons.2 ⟨Nat.le_refl _, fun r hr => Nat.le_of_succ_le (h.deep r hr)⟩
  under hne := forall_mem_cons.2 ⟨hbase hne, fun r hr =>
    ((hbase hne).trans (prefix_append _ _)).trans (h.under hpath r hr)⟩
  inPlace a rest hs := by
    rcases suffix_cons_iff.1 hs with heq | hs
    · obtain ⟨rfl, rfl⟩ := cons_eq_cons.1 heq
      refine ⟨fun r hr => h.under hpath r ((takeWhile_sublist _).mem hr), fun r hr => ?_⟩
      obtain ⟨hmem, hsame⟩ := mem_filter.1 hr
      exact absurd (of_decide_eq_true hsame) (Nat.ne_of_gt (h.deep r ((takeWhile_sublist _).mem hmem)))
    · exact h.inPlace a rest hs

end

/-- The rows of a node: they are a listing, in which only the row of the node is not deeper. -/
structure IsBlock (d : Nat) (base : List Char) (node : TreeNode S) (rows : List (VisibleRow S B)) : Prop where
  listing : IsListing d base rows
  own : ∀ r ∈ rows, r.depth = d → r.isDir = node.isDir ∧ r.name = node.name

theorem isListing_of_blocks {d : Nat} : ∀ {blocks : List (TreeNode S × List (VisibleRow S B))},
    (∀ b ∈ blocks, IsBlock d base b.1 b.2) →
    blocks.Pairwise (fun b c => Before b.1.isDir c.1.isDir b.1.name c.1.name) → IsListing d base (blocks.flatMap Prod.snd)
  | [], _, _ => isListing_nil d base
  | b :: blocks, hblocks, hpairs => by
    obtain ⟨hfirst, hpairs⟩ := pairwise_cons.1 hpairs
    obtain ⟨hb, hblocks⟩ := forall_mem_cons.1 hblocks
    refine hb.listing.append (isListing_of_blocks hblocks hpairs) fun a ha had r hr hrd => ?_
    obtain ⟨c, hc, hr⟩ := mem_flatMap.1 hr
    rw [(hb.own a ha had).1, (hb.own a ha had).2, ((hblocks c hc).own r hr hrd).1, ((hblocks c hc).own r hr hrd).2]
    exact hfirst c hc

theorem sorted_group {β : Type} {group : List (TreeNode S × β)} {kind : Bool} (hkind : ∀ n ∈ group, n.1.isDir = kind) :
    (group.insertionSort fun m n => m.1.name ≤ n.1.name).Pairwise fun m n => Before m.1.isDir n.1.isDir m.1.name n.1.name := by
  have hperm := perm_insertionSort (fun m n : TreeNode S × β => m.1.name ≤ n.1.name) group
  have hsorted := pairwise_insertionSort (fun m n : TreeNode S × β => m.1.name ≤ n.1.name) group
  refine hsorted.imp_of_mem fun {m n} hm hn hmn => .inr ⟨?_, hmn⟩
  exact (hkind m (hperm.mem_iff.1 hm)).trans (hkind n (hperm.mem_iff.1 hn)).symm

theorem inOrder_pairwise {β : Type} (nodes : List (TreeNode S × β)) :
    (inOrder nodes).Pairwise fun m n => Before m.1.isDir n.1.isDir m.1.name n.1.name := by
  have hdirs : ∀ n ∈ nodes.filter (fun n => n.1.isDir), n.1.isDir = true := fun n hn => (mem_filter.1 hn).2
  have hfiles : ∀ n ∈ nodes.filter (fun n => !n.1.isDir), n.1.isDir = false := fun n hn => by
    simpa using (mem_filter.1 hn).2
  refine pairwise_append.2 ⟨sorted_group hdirs, sorted_group hfiles, fun m hm n hn => .inl ⟨?_, ?_⟩⟩
  · exact hdirs m ((perm_insertionSort _ _).mem_iff.1 hm)
  · exact hfiles n ((perm_insertionSort _ _).mem_iff.1 hn)

theorem isListing_pushVisible {d : Nat} (h : ∀ n ∈ nodes, IsBlock d base n (n.rows badges d base)) :
    IsListing d base (pushVisible badges d base nodes) := by
  refine isListing_of_blocks (fun b hb => ?_) (inOrder_pairwise _)
  have hmem := (inOrder_perm _).mem_iff.1 hb
  rw [rowsOfEach_eq] at hmem
  obtain ⟨n, hn, rfl⟩ := mem_map.1 hmem
  exact h n hn

theorem prefix_joinPath {name : List Char} (h : base ≠ []) : base ++ ['/'] <+: joinPath base name := by
  rw [joinPath, if_neg (by simpa using h)]
  exact ⟨name, by simp⟩

/-- **The rows of a node are a block**, if they are glued to a path that is not empty. -/
theorem isBlock_rows (node : TreeNode S) : ∀ {d : Nat} {base : List Char},
    (node.isDir = true → joinPath base node.name ≠ []) → IsBlock d base node (node.rows badges d base) := by
  induction node using TreeNode.induct with
  | dir name children expanded ih =>
    intro d base hroot
    have hpath : joinPath base name ≠ [] := hroot rfl
    have hbelow : IsListing (d + 1) (joinPath base name)
        (if expanded then pushVisible badges (d + 1) (joinPath base name) children else []) := by
      split
      · exact isListing_pushVisible fun c hc => ih c hc fun _ => (prefix_joinPath hpath).ne_nil (by simp)
      · exact isListing_nil _ _
    refine ⟨.cons ⟨d, joinPath base name, true, expanded, name, none, none⟩ hbelow hpath prefix_joinPath, ?_⟩
    refine forall_mem_cons.2 ⟨fun _ => ⟨rfl, rfl⟩, fun r hr hd => ?_⟩
    exact absurd hd (Nat.ne_of_gt (hbelow.deep r hr))
  | file name status =>
    intro d base _
    refine ⟨⟨fun r hr => ?_, ?_, fun hbase => ?_, fun a rest hs => ?_⟩, ?_⟩
    · cases hr
      rfl
    · exact forall_mem_singleton.2 (Nat.le_refl _)
    · exact forall_mem_singleton.2 (prefix_joinPath hbase)
    · have hrest : rest = [] := by
        rcases suffix_cons_iff.1 hs with heq | hs
        · exact (cons_eq_cons.1 heq).2
        · exact absurd (suffix_nil.1 hs) (cons_ne_nil a rest)
      rw [hrest]
      exact ⟨nofun, nofun⟩
    · exact forall_mem_singleton.2 fun _ => ⟨rfl, rfl⟩

/-! ## The tree of a list of paths -/

variable {entry : FileTreeEntry S B} {entries : List (FileTreeEntry S B)}

theorem addBadge_of_ne (badges : List Char → Option B) {p : List Char} (h : p ≠ entry.path) :
    addBadge badges entry p = badges p := by
  unfold addBadge
  cases entry.badge with
  | none => rfl
  | some b => exact Function.update_of_ne h _ _

theorem badgesFrom_of_mem (hnd : (entries.map FileTreeEntry.path).Nodup) : (∀ e ∈ entries, badgesFrom entries e.path = e.badge) ∧
      ∀ p ∉ entries.map FileTreeEntry.path, badgesFrom entries p = none := by
  induction entries using List.reverseRecOn with
  | nil => exact ⟨nofun, fun _ _ => rfl⟩
  | append_singleton entries last ih =>
    rw [map_append, nodup_append] at hnd
    obtain ⟨hmem, hnot⟩ := ih hnd.1
    have hlast : ∀ p, badgesFrom (entries ++ [last]) p = addBadge (badgesFrom entries) last p := fun p => by
      rw [badgesFrom, foldl_append]
      rfl
    have hnew : last.path ∉ entries.map FileTreeEntry.path := fun hl => hnd.2.2 _ hl _ (mem_singleton.2 rfl) rfl
    refine ⟨forall_mem_append.2 ⟨fun e he => ?_, forall_mem_singleton.2 ?_⟩, fun p hp => ?_⟩
    · have hne : e.path ≠ last.path := fun heq => hnew (heq ▸ mem_map_of_mem he)
      rw [hlast, addBadge_of_ne _ hne, hmem e he]
    · rw [hlast, addBadge]
      cases hb : last.badge with
      | none => exact hnot _ hnew
      | some b => exact Function.update_self _ _ _
    · rw [map_append, mem_append, not_or] at hp
      rw [hlast, addBadge_of_ne _ fun heq => hp.2 (mem_singleton.2 heq), hnot p hp.1]

structure Built (nodes : List (TreeNode S)) (entries : List (FileTreeEntry S B)) : Prop where
  expanded : ∀ n ∈ nodes, n.Expanded
  files : ∀ badges : List Char → Option B,
    (fileRows (pushVisible badges 0 [] nodes)).Perm (entries.map fun e => (e.path, e.status, badges e.path))
  rooted : ∀ n ∈ nodes, n.isDir = true → n.name ≠ []

theorem rooted_addEntry (h : ¬ ['/'] <+: entry.path) (hroot : ∀ n ∈ nodes, n.isDir = true → n.name ≠ []) :
    ∀ n ∈ addEntry nodes entry, n.isDir = true → n.name ≠ [] := by
  unfold addEntry
  rcases splitOn_cases h with hone | ⟨c, c', components, heq, hne⟩
  · rw [hone]
    exact forall_mem_append.2 ⟨hroot, forall_mem_singleton.2 nofun⟩
  rw [heq]
  obtain ⟨before, children, expanded, after, hadded, hnodes⟩ := enterDir_eq (S := S) c
    (addFile ((c' :: components).getLastD []) entry.status (c' :: components).dropLast) nodes
  have hothers : ∀ n ∈ before ++ after, n ∈ nodes := by
    rcases hnodes with rfl | ⟨rfl, -⟩
    · simp +contextual [or_imp]
    · exact fun n hn => hn
  have hall : ∀ n ∈ before ++ .dir c (addFile ((c' :: components).getLastD []) entry.status
      (c' :: components).dropLast children) expanded :: after, n.isDir = true → n.name ≠ [] := by
    simp only [forall_mem_append, forall_mem_cons] at hothers ⊢
    exact ⟨fun n hn => hroot n (hothers.1 n hn), fun _ => hne, fun n hn => hroot n (hothers.2 n hn)⟩
  rw [← hadded] at hall
  exact hall

theorem Built.addEntry (h : Built nodes entries) (hslash : ¬ ['/'] <+: entry.path) :
    Built (addEntry nodes entry) (entries ++ [entry]) := by
  have hne : entry.path.splitOn '/' ≠ [] := splitOn_ne_nil _ _
  have hpath : ((entry.path.splitOn '/').dropLast ++ [(entry.path.splitOn '/').getLastD []]).foldl joinPath [] = entry.path := by
    rw [getLastD_eq_getLast?, List.getLast?_eq_some_getLast hne, Option.getD_some, dropLast_append_getLast]
    exact joinPath_splitOn hslash
  have hadded := fun badges => fileRows_addFile (B := B) badges ((entry.path.splitOn '/').getLastD []) entry.status
    (entry.path.splitOn '/').dropLast [] h.expanded
  rw [hpath] at hadded
  refine ⟨(hadded fun _ => none).1, fun badges => ?_, rooted_addEntry hslash h.rooted⟩
  rw [map_append]
  exact (((hadded badges).2 0).trans ((h.files badges).cons _)).trans (perm_append_singleton _ _).symm

theorem built_buildTree (hslash : ∀ e ∈ entries, ¬ ['/'] <+: e.path) : Built (buildTree entries) entries := by
  induction entries using List.reverseRecOn with
  | nil => exact ⟨nofun, fun _ => List.Perm.refl _, nofun⟩
  | append_singleton entries entry ih =>
    obtain ⟨hslash, hlast⟩ := forall_mem_append.1 hslash
    rw [buildTree, foldl_append]
    exact (ih hslash).addEntry (hlast entry (mem_singleton.2 rfl))

theorem expandAll_buildTree (hslash : ∀ e ∈ entries, ¬ ['/'] <+: e.path) :
    walkEach (fun _ => true) (buildTree entries) = buildTree entries := by
  rw [walkEach_eq]
  exact (map_congr_left fun n hn => ((built_buildTree hslash).expanded n hn).walkMut).trans (map_id' _)

namespace FileTreeState

theorem enter_of_file {s : FileTreeState S B} {row : VisibleRow S B} (hmem : row ∈ s.visibleRows) (hfile : row.isDir = false) :
    ∃ i, (({ s with selected := i } : FileTreeState S B).handleKey .NONE .enter).1 = some (.activated row.path) := by
  obtain ⟨i, hi⟩ := List.getElem?_of_mem hmem
  have hrow : ({ s with selected := i, pending := none } : FileTreeState S B).visibleRows[i]? = some row := hi
  have henter : (({ s with selected := i, pending := none } : FileTreeState S B).enter).1 = .activated row.path := by
    simp [enter, hrow, hfile]
  exact ⟨i, congrArg some henter⟩

def sampleEntries : List (FileTreeEntry Nat Nat) :=
  [⟨"b".toList, some 1, none⟩, ⟨"a//c".toList, none, some 7⟩, ⟨"a/b".toList, none, none⟩]

end FileTreeState
end
end Ferrowl.Ui.FileTree
