import SchemaClient.Store.Web

/-!
# File trees

A file tree as a table from places to what stands there. A place is the list of the names on the
way to it from the root, which is always a directory. The operations on a tree follow paths part by
part, as a file system does.
-/

namespace SchemaClient.Store

/-- A place in a tree. -/
abbrev Place := List String

/-- What stands at a place. -/
inductive Node where
  | directory
  | file (content : Content)
deriving DecidableEq, Repr

/-- A file tree, and the place from which relative paths are followed. -/
structure Tree where
  here : Place
  nodes : List (Place × Node)

namespace Tree

/-- What stands at a place. -/
def node? (t : Tree) (place : Place) : Option Node :=
  if place.isEmpty then some .directory else t.nodes.lookup place

/-- The tree with a node put at a place, in place of an earlier one. -/
def put (t : Tree) (place : Place) (n : Node) : Tree :=
  { t with nodes := t.nodes.filter (·.1 != place) ++ [(place, n)] }

theorem lookup_put_self (nodes : List (Place × Node)) (place : Place) (n : Node) :
    (nodes.filter (·.1 != place) ++ [(place, n)]).lookup place = some n := by
  induction nodes with
  | nil => simp
  | cons p nodes ih =>
    by_cases h : p.1 = place
    · rw [List.filter_cons_of_neg (by simp [h])]
      exact ih
    · rw [List.filter_cons_of_pos (by simp [h]), List.cons_append, List.lookup_cons]
      rw [show (place == p.1) = false by simpa using Ne.symm h]
      exact ih

theorem lookup_put_of_ne (nodes : List (Place × Node)) {place q : Place} (n : Node)
    (hq : q ≠ place) :
    (nodes.filter (·.1 != place) ++ [(place, n)]).lookup q = nodes.lookup q := by
  induction nodes with
  | nil =>
    have hne : (q == place) = false := by simpa using hq
    rw [List.filter_nil, List.nil_append, List.lookup_cons, hne]
  | cons p nodes ih =>
    by_cases h : p.1 = place
    · rw [List.filter_cons_of_neg (by simp [h]), ih, List.lookup_cons]
      rw [show (q == p.1) = false by simpa [h] using hq]
    · rw [List.filter_cons_of_pos (by simp [h]), List.cons_append, List.lookup_cons,
        List.lookup_cons, ih]

theorem node?_put_self (t : Tree) {place : Place} (n : Node) (h : place ≠ []) :
    (t.put place n).node? place = some n := by
  rw [node?, if_neg (by simpa using h)]
  exact lookup_put_self t.nodes place n

theorem node?_put_of_ne (t : Tree) {place q : Place} (n : Node) (h : q ≠ place) :
    (t.put place n).node? q = t.node? q := by
  unfold node?
  split
  · rfl
  · exact lookup_put_of_ne t.nodes n h

/-- The tree without a place and what is below it. -/
def erase (t : Tree) (place : Place) : Tree :=
  { t with nodes := t.nodes.filter fun p => !place.isPrefixOf p.1 }

/-- The tree whose working directory is the given place, with all directories on the way to it. -/
def empty (here : Place) : Tree :=
  ⟨here, (List.range here.length).map fun n => (here.take (n + 1), .directory)⟩

/-- How many bytes a name may have. -/
def maxName : Nat := 255

/-- How many bytes a path may have. -/
def maxPath : Nat := 4095

/-- Goes from a directory to the directory that a part of a path names. -/
def enter (t : Tree) (place : Place) (part : String) : Except Problem Place :=
  if part = "." then .ok place
  else if part = ".." then .ok place.dropLast
  else if maxName < part.utf8ByteSize then .error .nameTooLong
  else match t.node? (place ++ [part]) with
    | some .directory => .ok (place ++ [part])
    | some (.file _) => .error .notDirectory
    | none => .error .notFound

/-- Goes from a directory along parts of a path. -/
def walk (t : Tree) (place : Place) : List String → Except Problem Place
  | [] => .ok place
  | part :: parts => do walk t (← t.enter place part) parts

/-- Where a path leads to: its place, whether it must be a directory, and whether it is one that
stands under no name of the path's end. -/
structure Target where
  place : Place
  mustBeDirectory : Bool
  unnamed : Bool

/-- Follows a path to the place that its last part names. -/
def target (t : Tree) (path : String) : Except Problem Target :=
  if path.isEmpty then .error .notFound
  else if path.toList.contains '\x00' then .error .invalidPath
  else if maxPath < path.utf8ByteSize then .error .nameTooLong
  else
    let start := if Path.isAbsolute path then [] else t.here
    let parts := Path.parts path
    match parts.getLast? with
    | none => .ok ⟨start, true, true⟩
    | some last => do
      let place ← t.walk start parts.dropLast
      if last = "." ∨ last = ".." then return ⟨← t.enter place last, true, true⟩
      if maxName < last.utf8ByteSize then .error .nameTooLong
      return ⟨place ++ [last], Path.endsWithSlash path, false⟩

/-- What a path names. -/
def find (t : Tree) (path : String) : Except Problem Node := do
  let g ← t.target path
  match t.node? g.place with
  | none => .error .notFound
  | some .directory => return .directory
  | some (.file c) => if g.mustBeDirectory then .error .notDirectory else return .file c

/-- What the file of a path holds. -/
def read (t : Tree) (path : String) : Except Problem Content := do
  match ← t.find path with
  | .file c => return c
  | .directory => .error .isDirectory

/-- The tree with a file under a path. -/
def write (t : Tree) (path : String) (c : Content) : Except Problem Tree := do
  let g ← t.target path
  match t.node? g.place with
  | some .directory => .error .isDirectory
  | some (.file _) =>
    if g.mustBeDirectory then .error .notDirectory else return t.put g.place (.file c)
  | none => if g.mustBeDirectory then .error .isDirectory else return t.put g.place (.file c)

/-- The tree with a new directory under a path. -/
def createDirectory (t : Tree) (path : String) : Except Problem Tree := do
  let g ← t.target path
  if g.unnamed || (t.node? g.place).isSome then .error .alreadyExists
  return t.put g.place .directory

/-- The tree without what a path names and all that is below it. -/
def remove (t : Tree) (path : String) : Except Problem Tree := do
  let _ ← t.find path
  let g ← t.target path
  if g.unnamed then .error (.other "Invalid argument")
  return t.erase g.place

/-- Whether a path names a directory. -/
def isDirectory (t : Tree) (path : String) : Bool :=
  match t.find path with
  | .ok .directory => true
  | _ => false

/-- Replaces the tree by the outcome of an operation, if it succeeds. -/
def update (f : Tree → Except Problem Tree) : StateM Tree (Except Problem Unit) := fun t =>
  match f t with
  | .ok t => (.ok (), t)
  | .error e => (.error e, t)

/-- A scratch file is not part of the tree: it vanishes unless it is put under a path. -/
instance : Disk (StateM Tree) where
  isThere path := fun t => ((t.find path).toOption.isSome, t)
  isDirectory path := fun t => (t.isDirectory path, t)
  read path := fun t => (t.read path, t)
  write path c := update (·.write path c)
  createDirectory path := update (·.createDirectory path)
  createScratch directory := fun t =>
    (match t.find (if directory.isEmpty then "." else directory) with
      | .ok .directory => .ok (Path.join directory ".scratch")
      | .ok (.file _) => .error .notDirectory
      | .error e => .error e, t)
  install _ path c := update (·.write path c)

/-- A tree on its own has no way into the web. -/
instance : Web (StateM Tree) := .offline

end Tree

end SchemaClient.Store
