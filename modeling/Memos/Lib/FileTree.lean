/-
A tree of directories and files.

What stands in the tree is found by the names on the way to it from the root, which is a
directory itself.  What stands anywhere stands in a directory; an operation that would
leave it otherwise is refused, with the error of the operating system.

There are no links: two ways never lead to the same file.
-/
import Mathlib.Data.List.AList
import Mathlib.Data.List.Infix

namespace FileTree

inductive Node (β : Type*) where
  | directory
  | file (content : β)
deriving DecidableEq

def Node.isFile {β : Type*} : Node β → Bool
  | .directory => false
  | .file _ => true

/-- Why the operating system refuses. -/
inductive Fault where
  | NotExist
  | NotDirectory
  | IsDirectory
  | NotEmpty
deriving DecidableEq

/-- What stands at the end of the way, in a table of all but the root. -/
def nodeAt {ν β : Type*} [DecidableEq ν] (nodes : AList fun _ : List ν => Node β) (path : List ν) :
    Option (Node β) :=
  if path = [] then some .directory else nodes.lookup path

structure Tree (ν β : Type*) [DecidableEq ν] where
  nodes : AList fun _ : List ν => Node β
  root : [] ∉ nodes
  parents : ∀ path name, nodeAt nodes (path ++ [name]) ≠ none → nodeAt nodes path = some .directory

namespace Tree

variable {ν β : Type*} [DecidableEq ν]

def find? (tree : Tree ν β) (path : List ν) : Option (Node β) := nodeAt tree.nodes path

def isDirectory (tree : Tree ν β) (path : List ν) : Bool :=
  (tree.find? path).any fun node => !node.isFile

/-- Why nothing is there: a file is in the way, or it is not there. -/
def missing (tree : Tree ν β) (path : List ν) : Fault :=
  if path.inits.any fun way => (tree.find? way).any Node.isFile then .NotDirectory else .NotExist

def stat (tree : Tree ν β) (path : List ν) : Except Fault (Node β) :=
  match tree.find? path with
  | some node => .ok node
  | none => .error (tree.missing path)

def occupied (tree : Tree ν β) (path : List ν) : Bool :=
  tree.nodes.keys.any fun key => !key.isEmpty && decide (key.dropLast = path)

/-- The files in a directory and below, by the way to them from it. -/
def files (tree : Tree ν β) (location : List ν) : List (List ν × β) :=
  tree.nodes.entries.filterMap fun entry => match entry.2 with
    | .directory => none
    | .file content =>
        if location <+: entry.1 then some (entry.1.drop location.length, content) else none

section Find

variable {tree : Tree ν β} {path : List ν}

theorem find?_nil : tree.find? [] = some .directory := rfl

theorem find?_of_ne (full : path ≠ []) : tree.find? path = tree.nodes.lookup path := if_neg full

theorem occupied_of_child {name : ν} (there : tree.find? (path ++ [name]) ≠ none) :
    tree.occupied path = true := by
  rw [find?_of_ne (by simp), ne_eq, AList.lookup_eq_none, not_not] at there
  refine List.any_eq_true.mpr ⟨path ++ [name], AList.mem_keys.mpr there, ?_⟩
  simp

/-- Things stand in directories only. -/
theorem directory_of_occupied (occupied : tree.occupied path = true) :
    tree.find? path = some .directory := by
  obtain ⟨key, mem, holds⟩ := List.any_eq_true.mp occupied
  rw [Bool.and_eq_true, decide_eq_true_eq] at holds
  have full : key ≠ [] := by simpa using holds.1
  have same : path ++ [key.getLast full] = key := by
    rw [← holds.2]
    exact List.dropLast_append_getLast full
  refine tree.parents path (key.getLast full) ?_
  rw [same, nodeAt, if_neg full, ne_eq, AList.lookup_eq_none, not_not]
  exact AList.mem_keys.mp mem

theorem not_occupied (other : tree.find? path ≠ some .directory) : tree.occupied path = false :=
  Bool.eq_false_iff.mpr (mt directory_of_occupied other)

theorem isDirectory_iff : tree.isDirectory path = true ↔ tree.find? path = some .directory := by
  unfold isDirectory
  cases tree.find? path with
  | none => simp
  | some node =>
      cases node with
      | directory => simp [Node.isFile]
      | file content => simp [Node.isFile]

instance : Decidable (tree.find? path = some .directory) := decidable_of_iff _ isDirectory_iff

/-- Everything on the way to a node is there. -/
theorem find?_of_below {rest : List ν} (there : tree.find? (path ++ rest) ≠ none) :
    tree.find? path ≠ none := by
  induction rest using List.reverseRecOn with
  | nil => rwa [List.append_nil] at there
  | append_singleton rest name ih =>
      rw [← List.append_assoc] at there
      refine ih ?_
      rw [find?, tree.parents (path ++ rest) name there]
      exact Option.some_ne_none _

theorem stat_eq_ok {node : Node β} : tree.stat path = .ok node ↔ tree.find? path = some node := by
  unfold stat
  cases tree.find? path with
  | none => simp
  | some node' => simp

theorem mem_files {location rest : List ν} {content : β} :
    (rest, content) ∈ tree.files location ↔ tree.find? (location ++ rest) = some (.file content) := by
  unfold files
  rw [List.mem_filterMap]
  constructor
  · rintro ⟨⟨key, node⟩, mem, found⟩
    cases node with
    | directory => cases found
    | file content' =>
        dsimp only at found
        split at found
        next below =>
          obtain ⟨rest', rfl⟩ := below
          rw [List.drop_left, Option.some_inj, Prod.mk.injEq] at found
          obtain ⟨rfl, rfl⟩ := found
          rw [find?_of_ne]
          · exact AList.mem_lookup_iff.mpr mem
          · intro empty
            rw [empty] at mem
            exact tree.root (AList.mem_keys.mpr (List.mem_map_of_mem mem))
        · cases found
  · intro file
    have full : location ++ rest ≠ [] := by
      intro empty
      rw [empty, find?_nil] at file
      cases file
    rw [find?_of_ne full] at file
    refine ⟨⟨location ++ rest, .file content⟩, AList.mem_lookup_iff.mp file, ?_⟩
    dsimp only
    rw [if_pos (List.prefix_append location rest), List.drop_left]

end Find

/-! ### Operations -/

/-- A node in place of what is there, which may not be a directory with something in it. -/
def put (tree : Tree ν β) (path : List ν) (node : Node β) (full : path ≠ [])
    (parent : tree.find? path.dropLast = some .directory)
    (free : node = .directory ∨ tree.occupied path = false) : Tree ν β where
  nodes := tree.nodes.insert path node
  root := by
    rw [AList.mem_insert, not_or]
    exact ⟨Ne.symm full, tree.root⟩
  parents := by
    intro way name there
    have before : way ++ [name] ≠ path → tree.find? (way ++ [name]) ≠ none := by
      intro other
      rw [nodeAt, if_neg (by simp), AList.lookup_insert_ne other] at there
      rwa [find?_of_ne (by simp)]
    unfold nodeAt
    split
    · rfl
    next more =>
      by_cases same : way = path
      · rw [same, AList.lookup_insert]
        have occupied := occupied_of_child (before (by simp [same]))
        rw [same] at occupied
        rcases free with rfl | free
        · rfl
        · rw [occupied] at free
          cases free
      · rw [AList.lookup_insert_ne same, ← find?_of_ne more]
        by_cases child : way ++ [name] = path
        · rw [← child, List.dropLast_concat] at parent
          exact parent
        · exact tree.parents way name (before child)

/-- The tree without a node that nothing stands in. -/
def erase (tree : Tree ν β) (path : List ν) (free : tree.occupied path = false) : Tree ν β where
  nodes := tree.nodes.erase path
  root := fun mem => tree.root (AList.mem_erase.mp mem).2
  parents := by
    intro way name there
    have other : way ++ [name] ≠ path := by
      rintro rfl
      rw [nodeAt, if_neg (by simp), AList.lookup_erase] at there
      exact there rfl
    have before : tree.find? (way ++ [name]) ≠ none := by
      rw [nodeAt, if_neg (by simp), AList.lookup_erase_ne other] at there
      rwa [find?_of_ne (by simp)]
    have directory := tree.parents way name before
    unfold nodeAt at directory ⊢
    split
    · rfl
    next more =>
      rw [if_neg more] at directory
      rw [AList.lookup_erase_ne, directory]
      rintro rfl
      rw [occupied_of_child before] at free
      cases free

def mkdir (tree : Tree ν β) (path : List ν) : Except Fault (Tree ν β) :=
  if full : path ≠ [] then
    if parent : tree.find? path.dropLast = some .directory then
      .ok (tree.put path .directory full parent (.inl rfl))
    else .error (tree.missing path)
  else .ok tree

/-- The directories on the way, those that are not there yet. -/
def mkdirAll (tree : Tree ν β) : List ν → List ν → Except Fault (Tree ν β)
  | _, [] => .ok tree
  | made, name :: rest =>
      match tree.find? (made ++ [name]) with
      | some .directory => mkdirAll tree (made ++ [name]) rest
      | some (.file _) => .error .NotDirectory
      | none => do
          let tree ← tree.mkdir (made ++ [name])
          mkdirAll tree (made ++ [name]) rest

/-- A file is made, or written anew. -/
def write (tree : Tree ν β) (path : List ν) (content : β) : Except Fault (Tree ν β) :=
  if full : path ≠ [] then
    if parent : tree.find? path.dropLast = some .directory then
      if directory : tree.find? path = some .directory then .error .IsDirectory
      else .ok (tree.put path (.file content) full parent (.inr (not_occupied directory)))
    else .error (tree.missing path)
  else .error .IsDirectory

/-- A file goes, or a directory with nothing in it. -/
def remove (tree : Tree ν β) (path : List ν) : Except Fault (Tree ν β) :=
  if (tree.find? path).isNone then .error (tree.missing path)
  else if path = [] then .error .NotEmpty
  else if free : tree.occupied path = false then .ok (tree.erase path free)
  else .error .NotEmpty

section Operations

variable {tree tree' : Tree ν β} {path other : List ν} {content : β}

theorem find?_put {node : Node β} (full : path ≠ []) (parent : tree.find? path.dropLast = some .directory)
    (free : node = .directory ∨ tree.occupied path = false) :
    (tree.put path node full parent free).find? other =
      if other = path then some node else tree.find? other := by
  by_cases same : other = path
  · rw [if_pos same, same, find?_of_ne full]
    exact AList.lookup_insert _
  · rw [if_neg same]
    by_cases root : other = []
    · rw [root]
      rfl
    · rw [find?_of_ne root, find?_of_ne root]
      exact AList.lookup_insert_ne same

theorem find?_erase (full : path ≠ []) (free : tree.occupied path = false) :
    (tree.erase path free).find? other = if other = path then none else tree.find? other := by
  by_cases same : other = path
  · rw [if_pos same, same, find?_of_ne full]
    exact AList.lookup_erase _ _
  · rw [if_neg same]
    by_cases root : other = []
    · rw [root]
      rfl
    · rw [find?_of_ne root, find?_of_ne root]
      exact AList.lookup_erase_ne same

theorem find?_write (h : tree.write path content = .ok tree') :
    tree'.find? other = if other = path then some (.file content) else tree.find? other := by
  unfold write at h
  split at h
  next full =>
    split at h
    next parent =>
      split at h
      · cases h
      next directory =>
        injection h with h
        rw [← h]
        exact find?_put full parent _
    · cases h
  · cases h

theorem find?_remove (h : tree.remove path = .ok tree') :
    tree'.find? other = if other = path then none else tree.find? other := by
  unfold remove at h
  split at h
  · cases h
  · split at h
    · cases h
    next full =>
      split at h
      next free =>
        injection h with h
        rw [← h]
        exact find?_erase full free
      · cases h

theorem remove_file (file : tree.find? path = some (.file content)) :
    ∃ tree', tree.remove path = .ok tree' := by
  have full : path ≠ [] := by
    rintro rfl
    cases file
  have free : tree.occupied path = false := by
    refine not_occupied ?_
    rw [file]
    rintro ⟨⟩
  unfold remove
  rw [file, if_neg (by simp), if_neg full, dif_pos free]
  exact ⟨_, rfl⟩

end Operations

end Tree

end FileTree
