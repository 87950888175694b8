import TestLint.Files.Tree

/-!
# Looking up files

Where the paths of a system lead, whatever they are relative to: a view answers for
every path, and what it answers with is one of finitely many places, told apart by their
names (`FileView`).  The files below a working directory are such a view
(`FileTree.view`).
-/

namespace TestLint

/-- Where paths lead, and the names of all that they can lead to. -/
structure FileView where
  resolve : Path → Except FileError FileTree.Place
  files : List (List String)
  mem_files : ∀ path place, resolve path = .ok place → place.names ∈ files

namespace FileView

variable (view : FileView)

/-- The path leads somewhere. -/
def pathExists (path : Path) : Bool :=
  (view.resolve path).isOk

theorem pathExists_of_resolve {path : Path} {place : FileTree.Place}
    (h : view.resolve path = .ok place) : view.pathExists path = true := by
  rw [pathExists, h]
  rfl

end FileView

namespace FileNode

mutual

/-- The names on the way from a node to itself and to all that it holds. -/
def namesBelow : FileNode → List (List String)
  | .directory _ entries => [] :: namesAmong entries
  | _ => [[]]

def namesAmong : List FileNode → List (List String)
  | [] => []
  | entry :: rest => (namesBelow entry).map (entry.name :: ·) ++ namesAmong rest

end

theorem nil_mem_namesBelow (node : FileNode) : [] ∈ node.namesBelow := by
  cases node <;> simp [namesBelow]

theorem mem_namesAmong {entry : FileNode} {entries : List FileNode} {names : List String}
    (hentry : entry ∈ entries) (h : names ∈ entry.namesBelow) :
    entry.name :: names ∈ namesAmong entries := by
  induction entries with
  | nil => cases hentry
  | cons first rest ih =>
    rw [namesAmong, List.mem_append]
    rcases List.mem_cons.1 hentry with rfl | hrest
    · exact .inl (List.mem_map_of_mem h)
    · exact .inr (ih hrest)

theorem cons_mem_namesBelow {node entry : FileNode} {names : List String}
    (hentry : entry ∈ node.entries) (h : names ∈ entry.namesBelow) :
    entry.name :: names ∈ node.namesBelow := by
  cases node with
  | directory name entries =>
    rw [namesBelow]
    exact List.mem_cons_of_mem _ (mem_namesAmong hentry h)
  | text => cases hentry
  | binary => cases hentry

end FileNode

namespace FileTree

namespace Place

/-- The place is on a way down from the root. -/
inductive Below (root : FileNode) : Place → Prop
  | root : Below root ⟨root, []⟩
  | entry {p : Place} {entry : FileNode} (h : Below root p) (hentry : entry ∈ p.node.entries) :
      Below root ⟨entry, p.node :: p.above⟩

variable {root : FileNode} {p : Place}

theorem names_entry (entry : FileNode) (p : Place) :
    names ⟨entry, p.node :: p.above⟩ = p.names ++ [entry.name] := by
  simp [names]

/-- The names of a place lead to it from the root. -/
theorem Below.append_mem_namesBelow (h : Below root p) {names : List String}
    (hnames : names ∈ p.node.namesBelow) : p.names ++ names ∈ root.namesBelow := by
  induction h generalizing names with
  | root => exact hnames
  | entry _ hentry ih =>
    rw [names_entry, List.append_assoc]
    exact ih (FileNode.cons_mem_namesBelow hentry hnames)

theorem Below.step {p' : Place} {segment : String} (h : Below root p)
    (hstep : p.step segment = .ok p') : Below root p' := by
  unfold Place.step at hstep
  split at hstep
  case h_2 => cases hstep
  case h_1 name entries hnode =>
    split at hstep
    · cases hstep
      exact h
    split at hstep
    · cases h with
      | root => cases hstep
      | entry h hentry =>
        cases hstep
        exact h
    split at hstep
    · cases hstep
    split at hstep
    case h_2 => cases hstep
    case h_1 entry hfound =>
      cases hstep
      refine .entry h ?_
      rw [hnode]
      exact List.mem_of_find?_eq_some hfound

theorem Below.foldlM {segments : List String} {p' : Place} (h : Below root p)
    (hfold : segments.foldlM Place.step p = .ok p') : Below root p' := by
  induction segments generalizing p with
  | nil =>
    cases hfold
    exact h
  | cons segment rest ih =>
    rw [List.foldlM_cons] at hfold
    cases hstep : p.step segment with
    | error reason =>
      rw [hstep] at hfold
      cases hfold
    | ok next =>
      rw [hstep] at hfold
      exact ih (h.step hstep) hfold

end Place

variable (tree : FileTree)

theorem names_mem_of_resolve {path : Path} {place : Place} (h : tree.resolve path = .ok place) :
    place.names ∈ tree.root.namesBelow := by
  unfold resolve at h
  cases hsegments : segments? path with
  | error reason =>
    rw [hsegments] at h
    cases h
  | ok segments =>
    rw [hsegments] at h
    have hbelow : Place.Below tree.root place := Place.Below.root.foldlM h
    rw [← List.append_nil place.names]
    exact hbelow.append_mem_namesBelow place.node.nil_mem_namesBelow

/-- The files of the tree, looked up from its root. -/
def view : FileView where
  resolve := tree.resolve
  files := tree.root.namesBelow
  mem_files _ _ h := tree.names_mem_of_resolve h

end FileTree

end TestLint
