import HashLink.Module.Wire
import HashLink.Storage.Path

/-!
# A tree of files

Modules live in files. What loading and saving do to a file system is described on a tree of named
nodes: which node a path leads to, which file a save creates or replaces, and how the system refuses
the rest. A path is walked one step at a time, and every step but the last has to end in a folder
that is there.
-/

namespace HashLink

/-- What a place in the tree holds. -/
inductive Node where
  /-- A folder. What is in it is said by the places below. -/
  | folder
  /-- A file. -/
  | file (bytes : List UInt8)
  /-- A device that is always empty and forgets what is written to it, or refuses it. -/
  | device (refusal : Option FileError)
  deriving DecidableEq, Repr

/-- What reading a node gives. -/
def Node.content : Node → Except FileError (List UInt8)
  | .folder => .error .isDirectory
  | .file bytes => .ok bytes
  | .device _ => .ok []

/-- A place in the tree: the names that lead there from the root. -/
abbrev Place := List String

/-- A tree of files, with the folder that paths start from. The root is always a folder. -/
structure FileTree where
  nodes : List (Place × Node)
  here : Place
  deriving DecidableEq, Repr

namespace FileTree

/-! ## Places -/

/-- The node at a place. -/
def node? (t : FileTree) (place : Place) : Option Node :=
  if place.isEmpty then some .folder else t.nodes.lookup place

/-- Puts a node at a place, instead of what is there. -/
def put (t : FileTree) (place : Place) (node : Node) : FileTree :=
  { t with nodes := (place, node) :: t.nodes.filter fun entry => entry.1 != place }

@[simp] theorem node?_put_self (t : FileTree) {place : Place} (h : place ≠ []) (node : Node) :
    (t.put place node).node? place = some node := by
  simp [node?, put, h]

theorem lookup_filter_ne {place other : Place} (h : other ≠ place) (nodes : List (Place × Node)) :
    (nodes.filter fun entry => entry.1 != place).lookup other = nodes.lookup other := by
  induction nodes with
  | nil => rfl
  | cons entry rest ih =>
    obtain ⟨key, node⟩ := entry
    by_cases hk : key = place
    · subst hk
      have hne : (other == key) = false := by simp [h]
      simp [List.lookup_cons, hne, ih]
    · simp [List.lookup_cons, hk, ih]

theorem node?_put_of_ne (t : FileTree) {place other : Place} (h : other ≠ place) (node : Node) :
    (t.put place node).node? other = t.node? other := by
  have hne : (other == place) = false := by simp [h]
  simp [node?, put, List.lookup_cons, hne, lookup_filter_ne h]

/-- Makes a folder at a place, unless there is something. -/
def ensureFolder (t : FileTree) (place : Place) : FileTree :=
  if (t.node? place).isSome then t else t.put place .folder

/-- Puts a node at a place, and folders on the way there. -/
def plant (t : FileTree) (place : Place) (node : Node) : FileTree :=
  let way := (List.range place.length).map fun n => place.take n
  (way.foldl ensureFolder t).put place node

/-- The tree of a new system: the usual folders, the devices that are always empty, and an empty
folder to work in. Nobody types, so the standard input is among those devices. -/
def fresh (here : Place) : FileTree :=
  let folders := ["bin", "boot", "dev", "etc", "home", "lib", "media", "mnt", "opt", "proc", "root",
    "run", "sbin", "srv", "sys", "tmp", "usr", "var"]
  let nodes := folders.map fun name => ([name], Node.folder)
  (⟨nodes, here⟩ : FileTree)
    |>.plant ["dev", "null"] (.device none)
    |>.plant ["dev", "stdin"] (.device none)
    |>.plant ["dev", "full"] (.device (some .noSpace))
    |>.plant here .folder

/-- The files below the folder that paths start from, with the places that lead there from it. -/
def files (t : FileTree) : List (Place × List UInt8) :=
  t.nodes.filterMap fun (place, node) =>
    match node with
    | .file bytes => if t.here.isPrefixOf place then some (place.drop t.here.length, bytes) else none
    | _ => none

/-! ## Walking -/

/-- Looks a name up in a folder. -/
def lookup (t : FileTree) (folder : Place) (name : String) : Except FileError (Option Node) :=
  if maxNameBytes < name.utf8ByteSize then .error .nameTooLong
  else .ok (t.node? (folder ++ [name]))

/-- The folder that a step leads to. The root is in itself. -/
def enter (t : FileTree) (folder : Place) : PathStep → Except FileError Place
  | .stay => .ok folder
  | .up => .ok folder.dropLast
  | .down name => do
    match ← t.lookup folder name with
    | some .folder => return folder ++ [name]
    | some _ => throw .notADirectory
    | none => throw .notFound

/-- Where a path ends: in a folder, or at a name in one. -/
structure Destination where
  folder : Place
  name : Option String
  deriving DecidableEq, Repr

/-- Walks a path up to its last name. -/
def walk (t : FileTree) (path : Path) : Except FileError Destination := do
  let start := if path.fromRoot then [] else t.here
  match path.steps.getLast? with
  | some (.down name) => return ⟨← path.steps.dropLast.foldlM t.enter start, some name⟩
  | _ => return ⟨← path.steps.foldlM t.enter start, none⟩

/-! ## Reading and writing -/

/-- Finds what a path leads to, which is no folder. -/
def find (t : FileTree) (text : String) : Except FileError Node := do
  let path ← Path.ofString text
  let destination ← t.walk path
  match destination.name with
  | none => throw .isDirectory
  | some name =>
    match ← t.lookup destination.folder name with
    | none => throw .notFound
    | some .folder => throw .isDirectory
    | some node => if path.asFolder then throw .notADirectory else return node

/-- Reads a file. -/
def read (t : FileTree) (text : String) : Except FileError (List UInt8) := do
  (← t.find text).content

/-- Creates or replaces a file. No folder is created for a path that ends in a slash. -/
def write (t : FileTree) (text : String) (bytes : List UInt8) : Except FileError FileTree := do
  let path ← Path.ofString text
  let destination ← t.walk path
  match destination.name, path.asFolder with
  | none, _ | some _, true => throw .isDirectory
  | some name, false =>
    match ← t.lookup destination.folder name with
    | some .folder => throw .isDirectory
    | some (.device (some refusal)) => throw refusal
    | some (.device none) => return t
    | some (.file _) | none => return t.put (destination.folder ++ [name]) (.file bytes)

/-! ## Modules -/

/-- Loads a module. -/
def load (t : FileTree) (text : String) : Except ModuleError Module :=
  match t.read text with
  | .error e => .error (.file e)
  | .ok bytes => Module.decode bytes

/-- Saves a module. A module that has no bytes leaves the tree as it is. -/
def save (t : FileTree) (text : String) (m : Module) : Except ModuleError FileTree := do
  let bytes ← m.encode
  match t.write text bytes with
  | .error e => throw (.file e)
  | .ok t => return t

end FileTree

end HashLink
