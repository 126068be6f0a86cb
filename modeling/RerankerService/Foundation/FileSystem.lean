import Mathlib.Data.List.Dedup
import Mathlib.Data.List.Induction

/-!
# File systems

A node is keyed by its location, the names that lead to it from the root. A path is what a program
writes, from the root too: it may go through `..` and symbolic links. `lookup` says at which location
it ends for the operating system, and `resolve` at which one for a program that follows the links
itself. A program asks for changes, and the system may refuse any of them.
-/

namespace RerankerService.Files

variable {ν β : Type}

/-- `here` is `.`, or what a slash at the end of a path stands for. -/
inductive Component (ν : Type) where
  | here
  | parent
  | name (name : ν)
  deriving DecidableEq

abbrev Location (ν : Type) := List ν

abbrev Path (ν : Type) := List (Component ν)

inductive Node (ν β : Type) where
  | file (content : β)
  | directory
  | symlink (absolute : Bool) (target : Path ν)
  deriving DecidableEq

def Node.isFile : Node ν β → Bool
  | .file _ => true
  | _ => false

def Node.isSymlink : Node ν β → Bool
  | .symlink _ _ => true
  | _ => false

/-- The node without the content of a file. -/
def Node.kind : Node ν β → Node ν Unit
  | .file _ => .file ()
  | .directory => .directory
  | .symlink absolute target => .symlink absolute target

def Node.withContent (content : β) : Node ν β → Node ν β
  | .file _ => .file content
  | node => node

/-- A file, a directory with everything below it, a link, or nothing at all. `locations` has every
node, in the order in which directories are listed. -/
structure Tree (ν β : Type) where
  node : Location ν → Option (Node ν β)
  closed : ∀ l name, node (l ++ [name]) ≠ none → node l = some .directory
  locations : List (Location ν)
  listed : ∀ l, node l ≠ none → l ∈ locations

/-- The system calls fail with these. -/
inductive OsError where
  | notFound
  | notDirectory
  | isDirectory
  | exists
  | notEmpty
  | invalid
  | busy
  | denied
  | loop
  deriving DecidableEq, Repr

/-- The changes of a file system. -/
inductive Change (ν : Type) where
  | make (l : Location ν)
  | write (l : Location ν)
  | rename (source goal : Location ν)
  | remove (l : Location ν)

/-- What the system refuses for a reason that no tree shows: a permission, a full disk, a mount. -/
abbrev Refusals (ν : Type) := Change ν → Option OsError

namespace Tree

def empty : Tree ν β where
  node _ := none
  closed _ _ h := (h rfl).elim
  locations := []
  listed _ h := (h rfl).elim

def leaf (node : Node ν β) : Tree ν β where
  node l := if l.isEmpty then some node else none
  closed l name h := absurd (if_neg (by simp)) h
  locations := [[]]
  listed l h := by
    cases l with
    | nil => exact List.mem_singleton_self _
    | cons name rest => exact absurd rfl h

def subtree (t : Tree ν β) (l : Location ν) : Tree ν β where
  node q := t.node (l ++ q)
  closed q name h := t.closed (l ++ q) name (by rwa [List.append_assoc])
  locations := t.locations.map (List.drop l.length)
  listed q h := List.mem_map.mpr ⟨l ++ q, t.listed _ h, List.drop_left⟩

/-- A directory of files. -/
def ofFiles [DecidableEq ν] (files : List (ν × β)) : Tree ν β where
  node
    | [] => some .directory
    | [name] => (files.lookup name).map .file
    | _ => none
  closed l name h := by
    match l with
    | [] => rfl
    | [_] => exact (h rfl).elim
    | _ :: _ :: _ => exact (h rfl).elim
  locations := [] :: files.map fun file => [file.1]
  listed l h := by
    match l with
    | [] => exact List.mem_cons_self
    | [name] =>
        obtain ⟨node, hnode⟩ := Option.ne_none_iff_exists'.mp h
        obtain ⟨content, hcontent, -⟩ := Option.map_eq_some_iff.mp hnode
        obtain ⟨before, after, rfl, -⟩ := List.lookup_eq_some_iff.mp hcontent
        simp
    | _ :: _ :: _ => exact (h rfl).elim

def isDirectory (t : Tree ν β) (l : Location ν) : Bool :=
  match t.node l with
  | some .directory => true
  | _ => false

@[simp]
theorem isDirectory_iff {t : Tree ν β} {l : Location ν} :
    t.isDirectory l = true ↔ t.node l = some .directory := by
  unfold isDirectory
  split
  · simp_all
  · simp_all

/-- What is above a node is a directory. -/
theorem node_of_append {t : Tree ν β} {l rest : Location ν} (h : t.node (l ++ rest) ≠ none)
    (hrest : rest ≠ []) : t.node l = some .directory := by
  induction rest using List.reverseRecOn with
  | nil => exact absurd rfl hrest
  | append_singleton rest name ih =>
      rw [← List.append_assoc] at h
      have hparent := t.closed _ _ h
      by_cases hnil : rest = []
      · rwa [hnil, List.append_nil] at hparent
      · exact ih (by rw [hparent]; exact Option.some_ne_none _) hnil

variable [DecidableEq ν]

/-- Put the tree `s` at `l`, in place of what is there. -/
def graft (t : Tree ν β) (l : Location ν) (s : Tree ν β)
    (h : s.node [] ≠ none → l ≠ [] → t.node l.dropLast = some .directory) : Tree ν β where
  node q := if l <+: q then s.node (q.drop l.length) else t.node q
  closed q name hq := by
    by_cases hpre : l <+: q
    · obtain ⟨rest, rfl⟩ := hpre
      rw [if_pos ⟨rest ++ [name], (List.append_assoc _ _ _).symm⟩, List.append_assoc,
        List.drop_left] at hq
      rw [if_pos (List.prefix_append l rest), List.drop_left]
      exact s.closed rest name hq
    · rw [if_neg hpre]
      by_cases hpre' : l <+: q ++ [name]
      · obtain rfl : q ++ [name] = l := (List.prefix_concat_iff.mp hpre').elim Eq.symm fun h =>
          absurd h hpre
        rw [if_pos hpre', List.drop_length] at hq
        have hparent := h hq (by simp)
        rwa [List.dropLast_concat] at hparent
      · rw [if_neg hpre'] at hq
        exact t.closed q name hq
  locations := t.locations ++ s.locations.map (l ++ ·)
  listed q hq := by
    by_cases hpre : l <+: q
    · obtain ⟨rest, rfl⟩ := hpre
      rw [if_pos (List.prefix_append l rest), List.drop_left] at hq
      exact List.mem_append_right _ (List.mem_map_of_mem (s.listed rest hq))
    · rw [if_neg hpre] at hq
      exact List.mem_append_left _ (t.listed q hq)

/-- What a directory has, in the order of the list. -/
def children (t : Tree ν β) (l : Location ν) : List (Location ν) :=
  (t.locations.filter fun q => q ≠ [] ∧ q.dropLast = l ∧ (t.node q).isSome).dedup

def height (t : Tree ν β) : Nat :=
  (t.locations.map List.length).foldr max 0

/-- A tree with what is in a directory before the directory, so far down. -/
def postOrder (t : Tree ν β) : Nat → Location ν → List (Location ν)
  | 0, l => [l]
  | depth + 1, l => (t.children l).flatMap (t.postOrder depth) ++ [l]

end Tree

/-- The system follows so many links in one lookup. A program follows links to links so deep, a loop
being deeper than that. -/
structure Limits where
  links : Nat
  depth : Nat
  links_le_depth : links ≤ depth

/-- A tree with a root. -/
structure FileSystem (ν β : Type) extends Tree ν β where
  root : node [] = some .directory
  limits : Limits

namespace FileSystem

/-- Nothing but a root. -/
def new (links : Nat) : FileSystem ν β where
  toTree := .leaf .directory
  root := rfl
  limits := { links, depth := links, links_le_depth := Nat.le_refl links }

def depth (fs : FileSystem ν β) : Nat :=
  fs.limits.depth

/-! ### Paths -/

def normalize : Path ν → Component ν → Path ν
  | names, .here => names
  | names, .parent => names.dropLast
  | names, .name name => names ++ [.name name]

/-- `os.path.abspath(path)`. It does not ask where the links lead. -/
def abspath (path : Path ν) : Path ν :=
  path.foldl normalize []

/-- The system looks up a path from a location. At a link, `jump` takes the target and the rest of
the path. With `creates` the last name need not exist. -/
def advance (fs : FileSystem ν β) (creates : Bool)
    (jump : Location ν → Path ν → Except OsError (Location ν)) :
    Location ν → Path ν → Except OsError (Location ν)
  | l, [] => .ok l
  | l, .here :: rest =>
      if fs.isDirectory l then fs.advance creates jump l rest else .error .notDirectory
  | l, .parent :: rest =>
      if fs.isDirectory l then fs.advance creates jump l.dropLast rest else .error .notDirectory
  | l, .name name :: rest =>
      match fs.node (l ++ [name]) with
      | none =>
          if fs.isDirectory l then
            if creates && rest.isEmpty then .ok (l ++ [name]) else .error .notFound
          else .error .notDirectory
      | some (.symlink absolute target) => jump (if absolute then [] else l) (target ++ rest)
      | some _ => fs.advance creates jump (l ++ [name]) rest

def lookupFrom (fs : FileSystem ν β) (creates : Bool) :
    Nat → Location ν → Path ν → Except OsError (Location ν)
  | 0 => fs.advance creates fun _ _ => .error .loop
  | links + 1 => fs.advance creates (fs.lookupFrom creates links)

/-- Where a path leads that is passed to the system. -/
def lookup (fs : FileSystem ν β) (path : Path ν) : Except OsError (Location ν) :=
  fs.lookupFrom false fs.limits.links [] path

/-- Where a file that is opened for writing is. -/
def locate (fs : FileSystem ν β) (path : Path ν) : Except OsError (Location ν) :=
  fs.lookupFrom true fs.limits.links [] path

/-- Where the last name of a path is, without following it. -/
def entry (fs : FileSystem ν β) (path : Path ν) : Except OsError (Location ν) :=
  match path.getLast? with
  | some (.name name) => do
      let l ← fs.lookup path.dropLast
      return l ++ [name]
  | _ => fs.lookup path

/-- One step of a resolution, with `follow` for the target of a link. Unlike the system, it does not
ask whether `l` is a directory. -/
def enter (fs : FileSystem ν β) (follow : Location ν → Path ν → Except OsError (Location ν))
    (l : Location ν) : Component ν → Except OsError (Location ν)
  | .here => .ok l
  | .parent => .ok l.dropLast
  | .name name =>
      match fs.node (l ++ [name]) with
      | none => .error .notFound
      | some (.symlink absolute target) => follow (if absolute then [] else l) target
      | some _ => .ok (l ++ [name])

def follow (fs : FileSystem ν β) : Nat → Location ν → Path ν → Except OsError (Location ν)
  | 0, _, _ => .error .loop
  | depth + 1, l, path => path.foldlM (fs.enter (fs.follow depth)) l

/-- The resolution goes on from a location. -/
def walk (fs : FileSystem ν β) (l : Location ν) (path : Path ν) : Except OsError (Location ν) :=
  path.foldlM (fs.enter (fs.follow fs.depth)) l

/-- `Path.resolve(strict=True)`. -/
def resolve (fs : FileSystem ν β) (path : Path ν) : Except OsError (Location ν) :=
  fs.walk [] path

/-! ### What programs ask -/

/-- `Path.exists()`. -/
def pathExists (fs : FileSystem ν β) (path : Path ν) : Bool :=
  match fs.lookup path with
  | .ok _ => true
  | .error _ => false

/-- `Path.is_dir()`. -/
def isDir (fs : FileSystem ν β) (path : Path ν) : Bool :=
  match fs.lookup path with
  | .ok l => fs.isDirectory l
  | .error _ => false

/-- `Path.is_file()`. -/
def isFile (fs : FileSystem ν β) (path : Path ν) : Bool :=
  match fs.lookup path with
  | .ok l => (fs.node l).any Node.isFile
  | .error _ => false

/-- The content of the file at a location. -/
def readAt (fs : FileSystem ν β) (l : Location ν) : Except OsError β :=
  match fs.node l with
  | some (.file content) => .ok content
  | _ => .error .isDirectory

/-- `open(path, "rb").read()`. -/
def read (fs : FileSystem ν β) (path : Path ν) : Except OsError β := do
  let l ← fs.lookup path
  fs.readAt l

/-! ### What programs do -/

variable [DecidableEq ν]

/-- Put a tree at a location whose parent is a directory. -/
def put (fs : FileSystem ν β) (l : Location ν) (s : Tree ν β) :
    Except OsError (FileSystem ν β) :=
  if h : l ≠ [] ∧ fs.isDirectory l.dropLast = true then
    .ok
      { fs.toTree.graft l s fun _ _ => Tree.isDirectory_iff.mp h.2 with
        root := by
          change (if l <+: [] then _ else _) = _
          rw [if_neg fun hpre => h.1 (List.prefix_nil.mp hpre)]
          exact fs.root
        limits := fs.limits }
  else .error .notDirectory

def remove (fs : FileSystem ν β) (l : Location ν) (h : l ≠ []) : FileSystem ν β :=
  { fs.toTree.graft l .empty fun hnode => (hnode rfl).elim with
    root := by
      change (if l <+: [] then _ else _) = _
      rw [if_neg fun hpre => h (List.prefix_nil.mp hpre)]
      exact fs.root
    limits := fs.limits }

/-- Another content for the file at `l`. -/
def overwrite (fs : FileSystem ν β) (l : Location ν) (content : β) : FileSystem ν β where
  node q := if q = l then (fs.node q).map (Node.withContent content) else fs.node q
  closed q name hq := by
    have hnode : fs.node (q ++ [name]) ≠ none := by
      intro hnone
      simp [hnone] at hq
    have hparent := fs.closed q name hnode
    split
    · rw [hparent]
      rfl
    · exact hparent
  root := by
    split
    · rw [fs.root]
      rfl
    · exact fs.root
  limits := fs.limits
  locations := fs.locations
  listed q hq := fs.listed q fun hnone => by simp [hnone] at hq

def permit (refusals : Refusals ν) (change : Change ν) : Except OsError Unit :=
  match refusals change with
  | none => .ok ()
  | some error => .error error

variable (refusals : Refusals ν)

/-- `os.mkdir(path)`. -/
def makeDirectory (fs : FileSystem ν β) (path : Path ν) : Except OsError (FileSystem ν β) := do
  let l ← fs.entry path
  if (fs.node l).isSome then .error .exists
  else
    permit refusals (.make l)
    fs.put l (.leaf .directory)

/-- `Path.mkdir(parents=True, exist_ok=True)` along the prefixes of a path. -/
def makeDirectories (fs : FileSystem ν β) : List (Path ν) → Except OsError Unit × FileSystem ν β
  | [] => (.ok (), fs)
  | path :: rest =>
      match fs.makeDirectory refusals path with
      | .ok next => next.makeDirectories rest
      | .error error => if fs.isDir path then fs.makeDirectories rest else (.error error, fs)

/-- `Path.write_text(content)`. -/
def writeText (fs : FileSystem ν β) (path : Path ν) (content : β) :
    Except OsError (FileSystem ν β) := do
  let l ← fs.locate path
  if fs.isDirectory l then .error .isDirectory
  else
    permit refusals (.write l)
    fs.put l (.leaf (.file content))

/-- A node can be renamed to a place where nothing is, a directory also to an empty directory, and
another node to one that is no directory. -/
def makesWay (fs : FileSystem ν β) (m : Location ν) (node : Node ν β) : Except OsError Unit :=
  match node, fs.node m with
  | _, none => .ok ()
  | .directory, some .directory =>
      if (fs.children m).isEmpty then .ok () else .error .notEmpty
  | .directory, some _ => .error .notDirectory
  | _, some .directory => .error .isDirectory
  | _, some _ => .ok ()

/-- `os.replace(source, target)`. -/
def replace (fs : FileSystem ν β) (source target : Path ν) : Except OsError (FileSystem ν β) := do
  let l ← fs.entry source
  let m ← fs.entry target
  match fs.node l with
  | none => .error .notFound
  | some node =>
      if l = m then return fs
      else if h : l = [] then .error .busy
      else if l <+: m then .error .invalid
      else
        fs.makesWay m node
        permit refusals (.rename l m)
        (fs.remove l h).put m (fs.subtree l)

/-- `os.unlink` or `os.rmdir`, one after the other until the first that fails. -/
def removeAll : List (Location ν) → FileSystem ν β → Except OsError Unit × FileSystem ν β
  | [], fs => (.ok (), fs)
  | l :: rest, fs =>
      match refusals (.remove l) with
      | some error => (.error error, fs)
      | none => if h : l = [] then (.error .busy, fs) else removeAll rest (fs.remove l h)

/-- `shutil.rmtree(path)`. -/
def rmtree (fs : FileSystem ν β) (path : Path ν) : Except OsError Unit × FileSystem ν β :=
  match fs.entry path with
  | .error error => (.error error, fs)
  | .ok l =>
      match fs.node l with
      | none => (.error .notFound, fs)
      | some .directory => removeAll refusals (fs.postOrder fs.height l) fs
      | some _ => (.error .notDirectory, fs)

end FileSystem

end RerankerService.Files
