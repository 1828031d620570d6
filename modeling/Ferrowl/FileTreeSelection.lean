import Ferrowl.FileTreeRows
/-!
# FileTreeSelection — the selected row is there and in view

Expanding or collapsing the directory of the selected row leaves that row where it is: the paths of directories tell them apart,
and rows only come and go below it.  `collapse_all` does not look at the selection, which may be left past the last row.
-/
namespace Ferrowl.Ui.FileTree

open List

section
variable {S B : Type} {base p a b : List Char} {value : Bool} {node : TreeNode S} {nodes : List (TreeNode S)}
  {badges : List Char → Option B} {row : VisibleRow S B}

/-! ## The directory that is found -/

/-- A path of a directory, or one that goes on from it. -/
def Under (p dir : List Char) : Prop := dir ++ ['/'] <+: p ++ ['/']

theorem eq_of_under (ha : '/' ∉ a) (hb : '/' ∉ b) (hpa : Under p (joinPath base a)) (hpb : Under p (joinPath base b)) :
    a = b := by
  have hcut : ∀ {name : List Char} (t : List Char), '/' ∉ name → (name ++ ['/'] ++ t).takeWhile (· ≠ '/') = name := by
    intro name t hname
    rw [append_assoc, takeWhile_append_of_pos fun c hc => by simpa using ne_of_mem_of_not_mem hc hname]
    simp
  obtain ⟨t, ht⟩ := hpa
  obtain ⟨u, hu⟩ := hpb
  have hjoin : a ++ ['/'] ++ t = b ++ ['/'] ++ u := by
    unfold joinPath at ht hu
    have heq := ht.trans hu.symm
    split at heq <;> simpa using heq
  rw [← hcut t ha, hjoin, hcut u hb]

theorem setExpandedEach_of_not_found : ∀ {nodes : List (TreeNode S)},
    (∀ n ∈ nodes, n.setExpanded p value base = (n, false)) → setExpandedEach p value base nodes = (nodes, false)
  | [], _ => rfl
  | node :: nodes, h => by
    obtain ⟨hnode, hnodes⟩ := forall_mem_cons.1 h
    simp [setExpandedEach, hnode, setExpandedEach_of_not_found hnodes]

theorem setExpanded_of_not_under (node : TreeNode S) : ∀ {base : List Char}, (node.isDir = true → joinPath base node.name ≠ []) →
    ¬ (node.isDir = true ∧ Under p (joinPath base node.name)) → node.setExpanded p value base = (node, false) := by
  induction node using TreeNode.induct with
  | dir name children expanded ih =>
    intro base hne hp
    have hpath : joinPath base name ≠ p := fun heq => hp ⟨rfl, heq ▸ prefix_rfl⟩
    have hchildren : setExpandedEach p value (joinPath base name) children = (children, false) := by
      refine setExpandedEach_of_not_found fun c hc => ih c hc (fun _ => (prefix_joinPath (hne rfl)).ne_nil (by simp)) fun h => ?_
      exact hp ⟨rfl, (prefix_joinPath (hne rfl)).trans ((prefix_append _ _).trans h.2)⟩
    rw [TreeNode.setExpanded, if_neg hpath, hchildren]
  | file => exact fun _ _ => rfl

def Apart (m n : TreeNode S) : Prop := m.isDir = true → n.isDir = true → m.name ≠ n.name

/-- A directory has a name without `/`, which is not empty at the root. -/
def Named (base : List Char) (n : TreeNode S) : Prop := n.isDir = true → '/' ∉ n.name ∧ joinPath base n.name ≠ []

theorem Apart.symm {m n : TreeNode S} (h : Apart m n) : Apart n m := fun hn hm heq => h hm hn heq.symm

theorem Apart.not_found {m n : TreeNode S} (h : Apart m n) (hm : Named base m) (hn : Named base n) (hdir : n.isDir = true)
    (hp : Under p (joinPath base n.name)) : m.setExpanded p value base = (m, false) :=
  setExpanded_of_not_under m (fun hd => (hm hd).2) fun ⟨hd, hu⟩ => h hd hdir (eq_of_under (hm hd).1 (hn hdir).1 hu hp)

/-- The walk stops at the directory it finds, and there is no other it could find. -/
theorem setExpandedEach_eq : ∀ {nodes : List (TreeNode S)}, nodes.Pairwise Apart → (∀ n ∈ nodes, Named base n) →
    (setExpandedEach p value base nodes).1 = nodes.map fun n => (n.setExpanded p value base).1
  | [], _, _ => rfl
  | node :: nodes, hapart, hnames => by
    obtain ⟨hfirst, hapart⟩ := pairwise_cons.1 hapart
    obtain ⟨hnode, hnames⟩ := forall_mem_cons.1 hnames
    have ih := setExpandedEach_eq hapart hnames
    by_cases hp : node.isDir = true ∧ Under p (joinPath base node.name)
    · have hrest : ∀ n ∈ nodes, n.setExpanded p value base = (n, false) := fun n hn =>
        (hfirst n hn).symm.not_found (hnames n hn) hnode hp.1 hp.2
      have hid : nodes.map (fun n => (n.setExpanded p value base).1) = nodes :=
        (map_congr_left fun n hn => congrArg Prod.fst (hrest n hn)).trans (map_id' _)
      rw [setExpandedEach, setExpandedEach_of_not_found hrest, map_cons, hid]
      dsimp only
      split <;> rfl
    · simp [setExpandedEach, setExpanded_of_not_under node (fun h => (hnode h).2) hp, ih]

/-! ## Rows come and go below the selected one -/

theorem pushVisible_eq (badges : List Char → Option B) (d : Nat) (base : List Char) (nodes : List (TreeNode S)) :
    pushVisible badges d base nodes = (inOrder (nodes.map fun n => (n, n.rows badges d base))).flatMap Prod.snd := by
  rw [pushVisible, rowsOfEach_eq]

theorem inOrder_map {β γ : Type} {g : TreeNode S × β → TreeNode S × γ}
    (hg : ∀ n, (g n).1.name = n.1.name ∧ (g n).1.isDir = n.1.isDir) (nodes : List (TreeNode S × β)) :
    inOrder (nodes.map g) = (inOrder nodes).map g := by
  have hsort : ∀ l : List (TreeNode S × β), (l.map g).insertionSort (fun m n => m.1.name ≤ n.1.name) =
      (l.insertionSort fun m n => m.1.name ≤ n.1.name).map g := fun l =>
    (map_insertionSort _ _ g l fun m _ n _ => by rw [(hg m).1, (hg n).1]).symm
  unfold inOrder
  rw [map_append, ← hsort, ← hsort, filter_map, filter_map]
  simp only [Function.comp_def, (hg _).2]

theorem setExpanded_same (n : TreeNode S) :
    (n.setExpanded p value base).1.name = n.name ∧ (n.setExpanded p value base).1.isDir = n.isDir := by
  cases n with
  | dir name children expanded =>
    unfold TreeNode.setExpanded
    split <;> exact ⟨rfl, rfl⟩
  | file => exact ⟨rfl, rfl⟩

/-- If no block before the one of the element shrinks and its own keeps the element's place, its place stays in range. -/
theorem lt_length_flatMap {α β : Type} {f g : α → List β} {x : β} : ∀ {l : List α} {j : Nat}, (l.flatMap f)[j]? = some x →
    (∀ a ∈ l, ∀ i, (f a)[i]? = some x → i < (g a).length) →
    l.Pairwise (fun a b => x ∈ f b → (f a).length ≤ (g a).length) → j < (l.flatMap g).length
  | a :: l, j, hx, hown, hpair => by
    obtain ⟨hfirst, hpair⟩ := pairwise_cons.1 hpair
    obtain ⟨ha, hown⟩ := forall_mem_cons.1 hown
    rw [flatMap_cons, length_append]
    rw [flatMap_cons, List.getElem?_append] at hx
    split at hx
    · have := ha j hx
      omega
    have hrest := lt_length_flatMap hx hown hpair
    obtain ⟨b, hb, hxb⟩ := mem_flatMap.1 (mem_of_getElem? hx)
    have := hfirst b hb hxb
    omega

/-- Directories are named apart in each directory. -/
inductive Tidy : List Char → List (TreeNode S) → Prop where
  | intro {base : List Char} {nodes : List (TreeNode S)} (apart : nodes.Pairwise Apart) (names : ∀ n ∈ nodes, Named base n)
    (below : ∀ name children expanded, .dir name children expanded ∈ nodes → Tidy (joinPath base name) children) :
    Tidy base nodes

theorem lt_length_rows {d i : Nat} (hdir : row.isDir = true) (hnode : Named base node)
    (hbelow : ∀ name children expanded, node = .dir name children expanded → ∀ {d j : Nat},
      (pushVisible badges d (joinPath base name) children)[j]? = some row →
        j < (pushVisible badges d (joinPath base name) (setExpandedEach row.path value (joinPath base name) children).1).length)
    (hi : (node.rows badges d base)[i]? = some row) : (node.isDir = true ∧ Under row.path (joinPath base node.name)) ∧
      i < ((node.setExpanded row.path value base).1.rows badges d base).length := by
  cases node with
  | file name status =>
    obtain rfl := mem_singleton.1 (mem_of_getElem? hi)
    cases hdir
  | dir name children expanded =>
    have hpath : joinPath base name ≠ [] := (hnode rfl).2
    rw [TreeNode.setExpanded]
    cases i with
    | zero =>
      obtain rfl := Option.some.inj hi
      exact ⟨⟨rfl, prefix_rfl⟩, by split <;> exact Nat.succ_pos _⟩
    | succ i =>
      rw [TreeNode.rows, List.getElem?_cons_succ] at hi
      cases expanded with
      | false => cases hi
      | true =>
        -- a row below the directory has a longer path, so the directory itself is not the one that is found
        have hlisting : IsListing (d + 1) _ (pushVisible badges (d + 1) (joinPath base name) children) :=
          isListing_pushVisible fun c _ => isBlock_rows c fun _ => (prefix_joinPath hpath).ne_nil (by simp)
        obtain ⟨t, ht⟩ := hlisting.under hpath row (mem_of_getElem? hi)
        have hlonger : joinPath base name ≠ row.path := fun heq => by
          simpa using congrArg List.length (heq.trans ht.symm)
        rw [if_neg hlonger]
        exact ⟨⟨rfl, ⟨t ++ ['/'], by rw [← ht]; simp [TreeNode.name]⟩⟩, Nat.succ_lt_succ (hbelow name children true rfl hi)⟩

theorem lt_length_setExpanded (hdir : row.isDir = true) (h : Tidy base nodes) : ∀ {d j : Nat},
    (pushVisible badges d base nodes)[j]? = some row →
      j < (pushVisible badges d base (setExpandedEach row.path value base nodes).1).length := by
  induction h with
  | @intro base nodes apart names below ih =>
    intro d j hrow
    let g (n : TreeNode S) : TreeNode S := (n.setExpanded row.path value base).1
    let blocks := inOrder (nodes.map fun n => (n, n.rows badges d base))
    have hmap : pushVisible badges d base (nodes.map g) = blocks.flatMap fun q => (g q.1).rows badges d base := by
      have horder := @inOrder_map S (List (VisibleRow S B)) _ (fun q => (g q.1, (g q.1).rows badges d base))
        (fun q => setExpanded_same q.1) (nodes.map fun n => (n, n.rows badges d base))
      rw [map_map] at horder
      rw [pushVisible_eq, map_map, Function.comp_def]
      exact (congrArg _ horder).trans (flatMap_map _ _ _)
    have hblock : ∀ q ∈ blocks, q.1 ∈ nodes ∧ ∀ i, q.2[i]? = some row →
        (q.1.isDir = true ∧ Under row.path (joinPath base q.1.name)) ∧ i < ((g q.1).rows badges d base).length := by
      intro q hq
      obtain ⟨n, hn, rfl⟩ := mem_map.1 ((inOrder_perm _).mem_iff.1 hq)
      exact ⟨hn, fun i => lt_length_rows hdir (names n hn) fun name children expanded heq =>
        ih name children expanded (heq ▸ hn)⟩
    have hpairs : blocks.Pairwise fun q r => Apart q.1 r.1 :=
      ((inOrder_perm _).pairwise_iff Apart.symm).2 (pairwise_map.2 apart)
    rw [setExpandedEach_eq apart names, hmap]
    rw [pushVisible_eq] at hrow
    refine lt_length_flatMap hrow (fun q hq i hi => ((hblock q hq).2 i hi).2) (hpairs.imp_of_mem fun {q r} hq hr hne hmem => ?_)
    -- a block before the one of the row keeps its rows
    obtain ⟨i, hi⟩ := List.getElem?_of_mem hmem
    obtain ⟨hrn, hr⟩ := hblock r hr
    obtain ⟨n, hn, rfl⟩ := mem_map.1 ((inOrder_perm _).mem_iff.1 hq)
    have hsame : n.setExpanded row.path value base = _ := hne.not_found (names n hn) (names _ hrn) (hr i hi).1.1 (hr i hi).1.2
    exact Nat.le_of_eq (congrArg (fun m => (TreeNode.rows badges d base (Prod.fst m)).length) hsame.symm)

/-! ## Trees of paths are tidy -/

theorem tidy_of_walkEach {f : Bool → Bool} {walked : List (TreeNode S)} (h : Tidy base walked) :
    ∀ {nodes : List (TreeNode S)}, walkEach f nodes = walked → Tidy base nodes := by
  induction h with
  | @intro base walked apart names below ih =>
    rintro nodes rfl
    have hsame : ∀ n : TreeNode S, (n.walkMut f).isDir = n.isDir ∧ (n.walkMut f).name = n.name := fun n => by
      cases n <;> exact ⟨rfl, rfl⟩
    simp only [walkEach_eq, pairwise_map, forall_mem_map, Apart, Named, hsame] at apart names
    refine ⟨apart, names, fun name children expanded hmem => ih name _ (f expanded) ?_ rfl⟩
    rw [walkEach_eq]
    exact mem_map.2 ⟨_, hmem, rfl⟩

theorem Tidy.perm {nodes' : List (TreeNode S)} (hperm : nodes.Perm nodes') : Tidy base nodes → Tidy base nodes'
  | ⟨apart, names, below⟩ => ⟨(hperm.pairwise_iff Apart.symm).1 apart, fun n hn => names n (hperm.mem_iff.2 hn),
      fun name children expanded hn => below name children expanded (hperm.mem_iff.2 hn)⟩

theorem tidy_dir {name : List Char} {children : List (TreeNode S)} {expanded : Bool} :
    Tidy base (.dir name children expanded :: nodes) ↔ ('/' ∉ name ∧ joinPath base name ≠ []) ∧
      (∀ n ∈ nodes, n.isDir = true → name ≠ n.name) ∧ Tidy (joinPath base name) children ∧ Tidy base nodes := by
  constructor
  · rintro ⟨apart, names, below⟩
    obtain ⟨hfirst, apart⟩ := pairwise_cons.1 apart
    obtain ⟨hname, names⟩ := forall_mem_cons.1 names
    exact ⟨hname rfl, fun n hn => hfirst n hn rfl, below _ _ _ mem_cons_self,
      apart, names, fun _ _ _ hn => below _ _ _ (mem_cons_of_mem _ hn)⟩
  rintro ⟨hname, hfirst, hchildren, apart, names, below⟩
  refine ⟨pairwise_cons.2 ⟨fun n hn _ => hfirst n hn, apart⟩,
    forall_mem_cons.2 ⟨fun _ => hname, names⟩, fun name' cs ex hn => ?_⟩
  rcases mem_cons.1 hn with heq | hn
  · cases heq
    exact hchildren
  · exact below name' cs ex hn

theorem tidy_nil (base : List Char) : Tidy base ([] : List (TreeNode S)) :=
  ⟨.nil, fun _ h => absurd h not_mem_nil, fun _ _ _ h => absurd h not_mem_nil⟩

theorem tidy_addFile (fileName : List Char) (status : Option S) : ∀ {components : List (List Char)} {base : List Char}
    {nodes : List (TreeNode S)}, (∀ c ∈ components, '/' ∉ c) → (∀ c ∈ components.head?, joinPath base c ≠ []) →
    Tidy base nodes → Tidy base (addFile fileName status components nodes)
  | [], base, nodes, _, _, ⟨apart, names, below⟩ => by
    refine Tidy.perm (perm_append_singleton _ _).symm ⟨pairwise_cons.2 ⟨fun _ _ h => absurd h Bool.false_ne_true, apart⟩,
      forall_mem_cons.2 ⟨fun h => absurd h Bool.false_ne_true, names⟩, fun name children expanded hmem => below name children expanded ?_⟩
    simpa using hmem
  | dirName :: components, base, nodes, hslash, hhead, h => by
    obtain ⟨hdir, hslash⟩ := forall_mem_cons.1 hslash
    have hpath : joinPath base dirName ≠ [] := hhead dirName rfl
    have hgo {children : List (TreeNode S)} (hc : Tidy (joinPath base dirName) children) :=
      tidy_addFile fileName status hslash (fun _ _ => (prefix_joinPath hpath).ne_nil (by simp)) hc
    obtain ⟨before, children, expanded, after, heq, hnodes⟩ := enterDir_eq dirName (addFile fileName status components) nodes
    rw [addFile, heq]
    refine Tidy.perm perm_middle.symm (tidy_dir.2 ⟨⟨hdir, hpath⟩, ?_⟩)
    rcases hnodes with rfl | ⟨rfl, rfl, rfl, hnew⟩
    · obtain ⟨-, hnew, hchildren, hothers⟩ := tidy_dir.1 (h.perm perm_middle)
      exact ⟨hnew, hgo hchildren, hothers⟩
    · exact ⟨fun n hn hd heq => hnew n hn hd heq.symm, hgo (tidy_nil _), h⟩

theorem slash_not_mem (path acc : List Char) (hacc : '/' ∉ acc) : ∀ c ∈ path.splitOnPPrepend (· == '/') acc, '/' ∉ c := by
  induction path generalizing acc with
  | nil => simpa using hacc
  | cons x path ih =>
    rw [splitOnPPrepend_cons_eq_if]
    split
    · exact forall_mem_cons.2 ⟨by simpa using hacc, ih [] not_mem_nil⟩
    · rename_i hx
      exact ih _ (not_mem_cons_of_ne_of_not_mem (fun heq => hx (by simp [← heq])) hacc)

theorem tidy_buildTree {entries : List (FileTreeEntry S B)} (hslash : ∀ e ∈ entries, ¬ ['/'] <+: e.path) :
    Tidy [] (buildTree entries) := by
  induction entries using List.reverseRecOn with
  | nil => exact tidy_nil []
  | append_singleton entries entry ih =>
    obtain ⟨hslash, hlast⟩ := forall_mem_append.1 hslash
    rw [buildTree, foldl_append]
    refine tidy_addFile _ _ (fun c hc => slash_not_mem entry.path [] not_mem_nil c (dropLast_subset _ hc)) ?_ (ih hslash)
    rcases splitOn_cases (hlast entry (mem_singleton.2 rfl)) with hone | ⟨c, c', components, heq, hne⟩
    · rw [hone]
      rintro _ ⟨⟩
    · rw [heq]
      rintro _ ⟨⟩
      exact hne

/-! ## How many rows there are -/

section
variable (badges : List Char → Option B) (d : Nat) (base : List Char) (nodes : List (TreeNode S))

theorem length_pushVisible :
    (pushVisible badges d base nodes).length = (nodes.map fun n => (n.rows badges d base).length).sum := by
  rw [pushVisible_eq, ((inOrder_perm _).flatMap_right _).length_eq, length_flatMap, map_map]
  rfl

theorem length_le_pushVisible : nodes.length ≤ (pushVisible badges d base nodes).length := by
  rw [length_pushVisible]
  refine Nat.le_trans (Nat.le_of_eq (length_map _).symm) (length_le_sum_of_one_le _ ?_)
  refine forall_mem_map.2 fun n _ => ?_
  cases n <;> exact Nat.succ_pos _

theorem length_expandAll :
    (pushVisible badges d base nodes).length ≤ (pushVisible badges d base (walkEach (fun _ => true) nodes)).length := by
  have hlist : ∀ {nodes : List (TreeNode S)} {d base}, (∀ n ∈ nodes, (n.rows badges d base).length ≤
      ((n.walkMut fun _ => true).rows badges d base).length) → (pushVisible badges d base nodes).length ≤
        (pushVisible badges d base (walkEach (fun _ => true) nodes)).length := fun h => by
    rw [length_pushVisible, length_pushVisible, walkEach_eq, map_map]
    exact sum_le_sum h
  have hnode (node : TreeNode S) : ∀ d base,
      (node.rows badges d base).length ≤ ((node.walkMut fun _ => true).rows badges d base).length := by
    induction node using TreeNode.induct with
    | dir name children expanded ih =>
      intro d base
      cases expanded with
      | true => exact Nat.succ_le_succ (hlist fun c hc => ih c hc _ _)
      | false => exact Nat.succ_le_succ (Nat.zero_le _)
    | file => exact fun _ _ => Nat.le_refl _
  exact hlist fun n _ => hnode n d base

end

theorem walkEach_walkEach (f g : Bool) (nodes : List (TreeNode S)) :
    walkEach (fun _ => g) (walkEach (fun _ => f) nodes) = walkEach (fun _ => g) nodes := by
  have hnode (node : TreeNode S) : (node.walkMut fun _ => f).walkMut (fun _ => g) = node.walkMut fun _ => g := by
    induction node using TreeNode.induct with
    | dir name children expanded ih =>
      simp only [TreeNode.walkMut, walkEach_eq, map_map]
      rw [show children.map (_ ∘ _) = _ from map_congr_left ih]
    | file => rfl
  simp only [walkEach_eq, map_map]
  exact map_congr_left fun n _ => hnode n

/-! ## Runs -/

namespace FileTreeState

def selectedPath (s : FileTreeState S B) : Option (List Char) := s.visibleRows[s.selected]?.map VisibleRow.path

/-- What is done to a tree: a key is pressed or one of its functions is called. -/
inductive TreeOp (S B : Type) where
  | key (modifiers : KeyModifiers) (code : KeyCode)
  | setPaths (entries : List (FileTreeEntry S B))
  | expandAll
  | collapseAll

def apply (s : FileTreeState S B) : TreeOp S B → FileTreeState S B
  | .key modifiers code => (s.handleKey modifiers code).2
  | .setPaths entries => s.setPaths entries
  | .expandAll => s.expandAll
  | .collapseAll => s.collapseAll

def OnRow (s : FileTreeState S B) : Prop := s.root = [] ∨ s.selected < s.visibleRows.length

def InWindow (s : FileTreeState S B) : Prop := s.scrollOffset ≤ s.selected ∧ s.selected < s.scrollOffset + s.visibleHeight

/-- What a step keeps of the selection and the window. -/
structure Steady (s t : FileTreeState S B) : Prop where
  height : t.visibleHeight = s.visibleHeight
  window : 1 ≤ s.visibleHeight → s.InWindow → t.InWindow
  row : Tidy [] s.root → s.OnRow → t.OnRow

variable {s t : FileTreeState S B}

theorem ensureVisible_eq (t : FileTreeState S B) : ∃ offset, t.ensureVisible = { t with scrollOffset := offset } ∧
    (1 ≤ t.visibleHeight → offset ≤ t.selected ∧ t.selected < offset + t.visibleHeight) := by
  unfold ensureVisible
  split
  · exact ⟨_, rfl, fun _ => by omega⟩
  · split
    · exact ⟨_, rfl, fun _ => by omega⟩
    · exact ⟨t.scrollOffset, rfl, fun _ => by omega⟩

theorem Steady.ensureVisible (hheight : t.visibleHeight = s.visibleHeight) (hrow : Tidy [] s.root → s.OnRow → t.OnRow) :
    s.Steady t.ensureVisible := by
  obtain ⟨offset, heq, hwindow⟩ := t.ensureVisible_eq
  rw [heq]
  exact ⟨hheight, fun h _ => hwindow (hheight ▸ h), hrow⟩

theorem Steady.refl (s : FileTreeState S B) : s.Steady s := ⟨rfl, fun _ h => h, fun _ h => h⟩

theorem steady_ite {q : Prop} [Decidable q] {a b : Option FileTreeOutcome × FileTreeState S B}
    (ha : s.Steady a.2) (hb : s.Steady b.2) : s.Steady (if q then a else b).2 := by
  split
  · exact ha
  · exact hb

theorem steady_expandOrDescend : s.Steady s.expandOrDescend.ensureVisible := by
  refine .ensureVisible (by unfold expandOrDescend; (repeat' split) <;> rfl) fun htidy h => ?_
  unfold expandOrDescend
  split
  · exact h
  rename_i row hrow
  split
  · exact h
  rename_i hdir
  split
  · exact .inr (lt_length_setExpanded (by simpa using hdir) htidy hrow)
  split
  · rename_i next hnext
    split
    · exact .inr (List.getElem?_eq_some_iff.1 hnext).1
    · exact h
  · exact h

theorem steady_collapseOrAscend : s.Steady s.collapseOrAscend.ensureVisible := by
  refine .ensureVisible (by unfold collapseOrAscend; (repeat' split) <;> rfl) fun htidy h => ?_
  unfold collapseOrAscend
  split
  · exact h
  rename_i row hrow
  split
  · rename_i hdir
    exact .inr (lt_length_setExpanded (Bool.and_eq_true_iff.1 hdir).1 htidy hrow)
  split
  · exact h
  split
  · rename_i r hr
    have hlt := (mem_zipIdx (mem_reverse.1 (mem_of_find?_eq_some hr))).2.1
    rw [length_take] at hlt
    exact .inr (by dsimp only [visibleRows] at hlt ⊢; omega)
  · exact h

theorem steady_enter : s.Steady s.enter.2 := by
  unfold enter
  split
  · exact .refl s
  rename_i row hrow
  split
  · rename_i hdir
    exact ⟨rfl, fun _ h => h, fun htidy _ => .inr (lt_length_setExpanded hdir htidy hrow)⟩
  · exact .refl s

theorem length_pos (s : FileTreeState S B) : s.root = [] ∨ 0 < s.visibleRows.length := by
  have hle : s.root.length ≤ s.visibleRows.length := length_le_pushVisible _ _ _ _
  rw [← length_eq_zero_iff]
  omega

theorem steady_key (s : FileTreeState S B) (m : KeyModifiers) (code : KeyCode) : s.Steady (s.handleKey m code).2 := by
  have hmove : ∀ {pending : Option Char} {i : Nat}, (s.OnRow → s.root = [] ∨ i < s.visibleRows.length) →
      s.Steady ({ s with pending := pending, selected := i } : FileTreeState S B).ensureVisible := fun h =>
    .ensureVisible rfl fun _ => h
  have hlast : ∀ i, s.root = [] ∨ min i (s.visibleRows.length - 1) < s.visibleRows.length := fun i =>
    s.length_pos.imp_right fun h => by omega
  have hback : ∀ i, s.OnRow → s.root = [] ∨ s.selected - i < s.visibleRows.length := fun i h =>
    h.imp_right fun h => by omega
  have hthen : ∀ {t : FileTreeState S B}, Steady { s with pending := none } t → s.Steady t := fun h => ⟨h.1, h.2, h.3⟩
  unfold handleKey
  refine steady_ite ?_ ?_
  · dsimp only
    split
    · exact hmove fun _ => s.length_pos
    · exact ⟨rfl, fun _ h => h, fun _ h => h⟩
  refine steady_ite (hmove fun _ => hlast _) (steady_ite (hmove (hback 1)) (steady_ite (hmove fun _ => ?_) ?_))
  · exact s.length_pos.imp_right fun h => Nat.sub_one_lt_of_lt h
  refine steady_ite (hthen steady_expandOrDescend) (steady_ite (hthen steady_collapseOrAscend) ?_)
  iterate 2
    refine steady_ite (hmove fun _ => hlast _) ?_
    refine steady_ite (hmove (hback _)) ?_
  exact steady_ite (hthen steady_enter) (hthen (.refl _))

structure Sound (height : Nat) (s : FileTreeState S B) : Prop where
  height : s.visibleHeight = height
  window : s.InWindow
  row : s.OnRow
  tree : ∃ entries : List (FileTreeEntry S B), (∀ e ∈ entries, ¬ ['/'] <+: e.path) ∧ s.expandAll.root = buildTree entries

theorem Sound.steady {height : Nat} (hheight : 1 ≤ height) (h : s.Sound height) (hst : s.Steady t)
    {entries : List (FileTreeEntry S B)} (hentries : ∀ e ∈ entries, ¬ ['/'] <+: e.path)
    (hroot : t.expandAll.root = buildTree entries) : t.Sound height := by
  obtain ⟨old, hold, htree⟩ := h.tree
  exact ⟨hst.height.trans h.height, hst.window (h.height ▸ hheight) h.window,
    hst.row (tidy_of_walkEach (tidy_buildTree hold) htree) h.row, entries, hentries, hroot⟩

theorem sound_step {height : Nat} (hheight : 1 ≤ height) (h : s.Sound height) (op : TreeOp S B)
    (hslash : ∀ entries, op = .setPaths entries → ∀ e ∈ entries, ¬ ['/'] <+: e.path)
    (hcollapse : op = .collapseAll → s.root = [] ∨ s.selected < s.root.length) : (s.apply op).Sound height := by
  obtain ⟨entries, hentries, hroot⟩ := h.tree
  cases op with
  | key m code => exact h.steady hheight (s.steady_key m code) hentries ((sameTree_press s (m, code)).root.trans hroot)
  | setPaths new =>
    have hnew := hslash new rfl
    have hst : s.Steady (s.setPaths new) := .ensureVisible rfl fun _ _ => (length_pos _).imp_right fun hpos => by
      dsimp only [visibleRows] at hpos ⊢
      omega
    refine h.steady hheight hst hnew ?_
    obtain ⟨offset, heq, -⟩ := ensureVisible_eq { s with badges := _, root := buildTree new, selected := _, scrollOffset := 0 }
    exact (congrArg (fun t : FileTreeState S B => t.expandAll.root) heq).trans (expandAll_buildTree hnew)
  | expandAll =>
    refine h.steady hheight ⟨rfl, fun _ hw => hw, fun _ => Or.imp (fun hnil => ?_) fun hlt => ?_⟩ hentries
      ((walkEach_walkEach true true s.root).trans hroot)
    · exact (congrArg (walkEach _) hnil).trans rfl
    · exact Nat.lt_of_lt_of_le hlt (length_expandAll _ _ _ _)
  | collapseAll =>
    refine h.steady hheight ⟨rfl, fun _ hw => hw, fun _ _ => (hcollapse rfl).imp (fun hnil => ?_) fun hlt => ?_⟩ hentries
      ((walkEach_walkEach false true s.root).trans hroot)
    · exact (congrArg (walkEach _) hnil).trans rfl
    · have hle := length_le_pushVisible s.badges 0 [] s.collapseAll.root
      have hlength : s.collapseAll.root.length = s.root.length := by rw [collapseAll, walkEach_eq, length_map]
      exact Nat.lt_of_lt_of_le hlt (hlength ▸ hle)

theorem sound_run {height : Nat} (hheight : 1 ≤ height) {ops : List (TreeOp S B)} (h : s.Sound height)
    (hslash : ∀ entries, .setPaths entries ∈ ops → ∀ e ∈ entries, ¬ ['/'] <+: e.path)
    (hcollapse : ∀ i, ops[i]? = some .collapseAll → let t := (ops.take i).foldl apply s
      t.root = [] ∨ t.selected < t.root.length) : (ops.foldl apply s).Sound height := by
  induction ops generalizing s with
  | nil => exact h
  | cons op ops ih =>
    have hstep := sound_step hheight h op (fun entries heq => hslash entries (heq ▸ mem_cons_self))
      fun heq => hcollapse 0 (congrArg some heq)
    exact ih hstep (fun entries hmem => hslash entries (mem_cons_of_mem _ hmem)) fun i hi => hcollapse (i + 1) hi

/-- **The selected row is there and in view** after every run, if no path starts with `/` and `collapse_all` is called with the
selection no further down than the top level has entries. -/
theorem selection_in_window (entries : List (FileTreeEntry S B)) {height : Nat} (hheight : 1 ≤ height) (ops : List (TreeOp S B))
    (hentries : ∀ e ∈ entries, ¬ ['/'] <+: e.path)
    (hslash : ∀ paths, .setPaths paths ∈ ops → ∀ e ∈ paths, ¬ ['/'] <+: e.path)
    (hcollapse : ∀ i, ops[i]? = some .collapseAll → let s := (ops.take i).foldl apply (ofPaths entries height)
      s.root = [] ∨ s.selected < s.root.length) :
    let s := ops.foldl apply (ofPaths entries height)
    s.visibleRows ≠ [] → s.selected < s.visibleRows.length ∧ s.selectedPath.isSome = true ∧
      s.scrollOffset ≤ s.selected ∧ s.selected < s.scrollOffset + height := by
  intro s hrows
  have hinit : (ofPaths entries height).Sound height :=
    ⟨rfl, ⟨Nat.le_refl _, by simpa [ofPaths] using Nat.lt_of_succ_le hheight⟩, length_pos _, entries, hentries,
      expandAll_buildTree hentries⟩
  have hs := sound_run hheight hinit hslash hcollapse
  have hlt := hs.row.resolve_left fun hnil => hrows (by rw [visibleRows, hnil]; rfl)
  refine ⟨hlt, ?_, hs.window.1, hs.height ▸ hs.window.2⟩
  rw [selectedPath, List.getElem?_eq_getElem hlt]
  rfl

theorem selection_in_window_sample :
    let ops : List (TreeOp Nat Nat) := [.key .NONE .down, .key .NONE .enter, .collapseAll, .expandAll]
    let s := ops.foldl apply (ofPaths sampleEntries 1)
    s.selected < s.visibleRows.length ∧ s.selectedPath.isSome = true ∧ s.scrollOffset ≤ s.selected ∧
      s.selected < s.scrollOffset + 1 := by
  refine selection_in_window sampleEntries (by decide) _ (by decide) (by simp) (fun i hi => ?_) (by decide)
  obtain rfl : i = 2 := by
    rcases i with _ | _ | _ | _ | i <;> simp_all
  decide

/-- **The selection can be left behind**: by `collapse_all`, and by collapsing a directory whose path an absolute one shares. -/
theorem selection_left_behind :
    let s := [.key .NONE .down, .collapseAll].foldl apply (ofPaths (S := Nat) (B := Nat) [⟨"a/b".toList, none, none⟩] 5)
    let t := [.key .SHIFT (.char 'G'), .key .NONE .up, .key .NONE .enter].foldl apply (ofPaths (S := Nat) (B := Nat)
      [⟨"/x/a".toList, none, none⟩, ⟨"/x/b".toList, none, none⟩, ⟨"x/c".toList, none, none⟩] 5)
    (s.visibleRows.length = 1 ∧ s.selected = 1 ∧ s.selectedPath = none) ∧
      t.visibleRows.length = 4 ∧ t.selected = 4 ∧ t.selectedPath = none := by
  decide

end FileTreeState
end
end Ferrowl.Ui.FileTree
