import Mathlib
import Ferrowl.Keys
/-!
# FileTree — the tree of a list of paths

`state/file_tree.rs`: paths are cut at `/` and merged into a tree of directories and files; the visible rows list it depth first,
directories before files and each by name, and glue the names together again with `/`.

The rows of a node are computed before the nodes of a directory are put in order; the source sorts first.  Strings are compared
by their characters, which is the order of their UTF-8 bytes.
-/
namespace Ferrowl.Ui.FileTree

structure FileTreeEntry (S B : Type) where
  path : List Char
  status : Option S
  badge : Option B

inductive TreeNode (S : Type) where
  | dir (name : List Char) (children : List (TreeNode S)) (expanded : Bool)
  | file (name : List Char) (status : Option S)

structure VisibleRow (S B : Type) where
  depth : Nat
  path : List Char
  isDir : Bool
  expanded : Bool
  name : List Char
  status : Option S
  badge : Option B
  deriving DecidableEq

inductive FileTreeOutcome where
  | activated (path : List Char)
  | toggled
  | consumed
  deriving DecidableEq

namespace TreeNode
variable {S : Type}

def name : TreeNode S → List Char
  | .dir name _ _ => name
  | .file name _ => name

def isDir : TreeNode S → Bool
  | .dir _ _ _ => true
  | .file _ _ => false

end TreeNode

section
variable {S B : Type}

/-! ## Building the tree -/

/-- Goes into the directory of a name, the first there is or else a new one at the end. -/
def enterDir (dirName : List Char) (go : List (TreeNode S) → List (TreeNode S)) : List (TreeNode S) → List (TreeNode S)
  | [] => [.dir dirName (go []) true]
  | .dir name children expanded :: rest =>
    if name = dirName then .dir name (go children) expanded :: rest
    else .dir name children expanded :: enterDir dirName go rest
  | .file name status :: rest => .file name status :: enterDir dirName go rest

def addFile (fileName : List Char) (status : Option S) : List (List Char) → List (TreeNode S) → List (TreeNode S)
  | [], siblings => siblings ++ [.file fileName status]
  | dirName :: components, siblings => enterDir dirName (addFile fileName status components) siblings

def addEntry (root : List (TreeNode S)) (entry : FileTreeEntry S B) : List (TreeNode S) :=
  let components := entry.path.splitOn '/'
  addFile (components.getLastD []) entry.status components.dropLast root

def buildTree (entries : List (FileTreeEntry S B)) : List (TreeNode S) := entries.foldl addEntry []

def addBadge (badges : List Char → Option B) (entry : FileTreeEntry S B) : List Char → Option B :=
  match entry.badge with
  | some b => Function.update badges entry.path (some b)
  | none => badges

def badgesFrom (entries : List (FileTreeEntry S B)) : List Char → Option B := entries.foldl addBadge fun _ => none

/-! ## The visible rows -/

def joinPath (base name : List Char) : List Char := if base.isEmpty then name else base ++ '/' :: name

/-- Directories before files, each in the order of their names. -/
def inOrder {β : Type} (nodes : List (TreeNode S × β)) : List (TreeNode S × β) :=
  (nodes.filter fun n => n.1.isDir).insertionSort (fun m n => m.1.name ≤ n.1.name) ++
    (nodes.filter fun n => !n.1.isDir).insertionSort fun m n => m.1.name ≤ n.1.name

mutual

def TreeNode.rows (badges : List Char → Option B) (depth : Nat) (base : List Char) : TreeNode S → List (VisibleRow S B)
  | .dir name children expanded =>
    let path := joinPath base name
    ⟨depth, path, true, expanded, name, none, none⟩ ::
      if expanded then (inOrder (rowsOfEach badges (depth + 1) path children)).flatMap Prod.snd else []
  | .file name status =>
    let path := joinPath base name
    [⟨depth, path, false, false, name, status, badges path⟩]

def rowsOfEach (badges : List Char → Option B) (depth : Nat) (base : List Char) :
    List (TreeNode S) → List (TreeNode S × List (VisibleRow S B))
  | [] => []
  | node :: nodes => (node, node.rows badges depth base) :: rowsOfEach badges depth base nodes

end

def pushVisible (badges : List Char → Option B) (depth : Nat) (base : List Char) (nodes : List (TreeNode S)) :
    List (VisibleRow S B) :=
  (inOrder (rowsOfEach badges depth base nodes)).flatMap Prod.snd

/-! ## Expansion -/

mutual

def TreeNode.walkMut (f : Bool → Bool) : TreeNode S → TreeNode S
  | .dir name children expanded => .dir name (walkEach f children) (f expanded)
  | .file name status => .file name status

def walkEach (f : Bool → Bool) : List (TreeNode S) → List (TreeNode S)
  | [] => []
  | node :: nodes => node.walkMut f :: walkEach f nodes

end

mutual

def TreeNode.setExpanded (path : List Char) (value : Bool) (base : List Char) : TreeNode S → TreeNode S × Bool
  | .dir name children expanded =>
    if joinPath base name = path then (.dir name children value, true)
    else
      let r := setExpandedEach path value (joinPath base name) children
      (.dir name r.1 expanded, r.2)
  | .file name status => (.file name status, false)

def setExpandedEach (path : List Char) (value : Bool) (base : List Char) : List (TreeNode S) → List (TreeNode S) × Bool
  | [] => ([], false)
  | node :: nodes =>
    let r := node.setExpanded path value base
    if r.2 then (r.1 :: nodes, true)
    else
      let rest := setExpandedEach path value base nodes
      (r.1 :: rest.1, rest.2)

end

/-! ## The state -/

structure FileTreeState (S B : Type) where
  root : List (TreeNode S)
  badges : List Char → Option B
  selected : Nat
  scrollOffset : Nat
  visibleHeight : Nat
  pending : Option Char

namespace FileTreeState

def ofPaths (entries : List (FileTreeEntry S B)) (visibleHeight : Nat) : FileTreeState S B where
  root := buildTree entries
  badges := badgesFrom entries
  selected := 0
  scrollOffset := 0
  visibleHeight := visibleHeight
  pending := none

def expandAll (s : FileTreeState S B) : FileTreeState S B := { s with root := walkEach (fun _ => true) s.root }

def collapseAll (s : FileTreeState S B) : FileTreeState S B := { s with root := walkEach (fun _ => false) s.root }

def visibleRows (s : FileTreeState S B) : List (VisibleRow S B) := pushVisible s.badges 0 [] s.root

def ensureVisible (s : FileTreeState S B) : FileTreeState S B :=
  if s.selected < s.scrollOffset then { s with scrollOffset := s.selected }
  else if s.scrollOffset + s.visibleHeight ≤ s.selected then { s with scrollOffset := s.selected + 1 - s.visibleHeight }
  else s

def setPaths (s : FileTreeState S B) (entries : List (FileTreeEntry S B)) : FileTreeState S B :=
  let s := { s with badges := badgesFrom entries, root := buildTree entries }
  ({ s with selected := min s.selected (s.visibleRows.length - 1), scrollOffset := 0 }).ensureVisible

def setBadge (s : FileTreeState S B) (path : List Char) (badge : Option B) : FileTreeState S B :=
  { s with badges := Function.update s.badges path badge }

def pageMove (s : FileTreeState S B) (down : Bool) (rows : Nat) : FileTreeState S B :=
  let rows := max rows 1
  let last := s.visibleRows.length - 1
  ({ s with selected := if down then min (s.selected + rows) last else s.selected - rows }).ensureVisible

def setExpanded (s : FileTreeState S B) (path : List Char) (expanded : Bool) : FileTreeState S B :=
  { s with root := (setExpandedEach path expanded [] s.root).1 }

def expandOrDescend (s : FileTreeState S B) : FileTreeState S B :=
  match s.visibleRows[s.selected]? with
  | none => s
  | some row =>
    if !row.isDir then s
    else if !row.expanded then s.setExpanded row.path true
    else
      match s.visibleRows[s.selected + 1]? with
      | some next => if row.depth < next.depth then { s with selected := s.selected + 1 } else s
      | none => s

def collapseOrAscend (s : FileTreeState S B) : FileTreeState S B :=
  match s.visibleRows[s.selected]? with
  | none => s
  | some row =>
    if row.isDir && row.expanded then s.setExpanded row.path false
    else if row.depth = 0 then s
    else
      -- the nearest row above that is less deep
      match (s.visibleRows.take s.selected).zipIdx.reverse.find? fun r => r.1.depth < row.depth with
      | some r => { s with selected := r.2 }
      | none => s

def enter (s : FileTreeState S B) : FileTreeOutcome × FileTreeState S B :=
  match s.visibleRows[s.selected]? with
  | none => (.consumed, s)
  | some row => if row.isDir then (.toggled, s.setExpanded row.path (!row.expanded)) else (.activated row.path, s)

def handleKey (s : FileTreeState S B) (m : KeyModifiers) (code : KeyCode) : Option FileTreeOutcome × FileTreeState S B :=
  if m = .NONE ∧ code = .char 'g' then
    (some .consumed,
      if s.pending = some 'g' then ({ s with pending := none, selected := 0 }).ensureVisible else { s with pending := some 'g' })
  else
    let s := { s with pending := none }
    if m = .NONE ∧ (code = .char 'j' ∨ code = .down) then
      (some .consumed, ({ s with selected := min (s.selected + 1) (s.visibleRows.length - 1) }).ensureVisible)
    else if m = .NONE ∧ (code = .char 'k' ∨ code = .up) then
      (some .consumed, ({ s with selected := s.selected - 1 }).ensureVisible)
    else if (m = .NONE ∨ m = .SHIFT) ∧ code = .char 'G' then
      (some .consumed, ({ s with selected := s.visibleRows.length - 1 }).ensureVisible)
    else if m = .NONE ∧ (code = .char 'l' ∨ code = .right) then (some .consumed, s.expandOrDescend.ensureVisible)
    else if m = .NONE ∧ (code = .char 'h' ∨ code = .left) then (some .consumed, s.collapseOrAscend.ensureVisible)
    else if m = .NONE ∧ code = .pageDown then (some .consumed, s.pageMove true s.visibleHeight)
    else if m = .NONE ∧ code = .pageUp then (some .consumed, s.pageMove false s.visibleHeight)
    else if m = .CONTROL ∧ code = .char 'd' then (some .consumed, s.pageMove true (max (s.visibleHeight / 2) 1))
    else if m = .CONTROL ∧ code = .char 'u' then (some .consumed, s.pageMove false (max (s.visibleHeight / 2) 1))
    else if m = .NONE ∧ code = .enter then
      let r := s.enter
      (some r.1, r.2)
    else (none, s)

def press (s : FileTreeState S B) (key : KeyModifiers × KeyCode) : FileTreeState S B := (s.handleKey key.1 key.2).2

end FileTreeState
end
end Ferrowl.Ui.FileTree
