/-
# File trees

A file system without links: a tree of directories and files, and the directory in which
relative paths start. Here two dots do lead up, from the directory that was reached; so a
path runs only through directories that exist. A name may have 255 bytes and a path 4095.

Key definitions: `FileTree`, `FileSystem`, `FileSystem.resolve`, `FileSystem.files`,
`FileTree.addDirectory`, `FileTree.addFile`.
-/
import SupportLayer.Files

namespace SupportLayer

/-- A file with its bytes, or a directory with its entries. -/
inductive FileTree where
  | file (content : Bytes)
  | directory (entries : List (List Char × FileTree))
  deriving Repr

namespace FileTree

/-- The empty directory. -/
def empty : FileTree := .directory []

/-- The entry of a name. -/
def entry? (name : List Char) : List (List Char × FileTree) → Option FileTree
  | [] => none
  | (n, tree) :: rest => if n = name then some tree else entry? name rest

/-- The entries with one changed, or added behind the others. -/
def changeEntry (name : List Char) (change : Option FileTree → FileTree) :
    List (List Char × FileTree) → List (List Char × FileTree)
  | [] => [(name, change none)]
  | (n, tree) :: rest =>
    if n = name then (n, change (some tree)) :: rest else (n, tree) :: changeEntry name change rest

/-- A tree with the one at the end of some names changed. Directories that are missing are
made, and a file that stands in the way gives way to one. -/
def change (f : Option FileTree → FileTree) : List (List Char) → Option FileTree → FileTree
  | [], old => f old
  | name :: names, some (.directory entries) =>
    .directory (changeEntry name (change f names) entries)
  | name :: names, _ => .directory [(name, change f names none)]

/-- The names in a path, without idle segments. -/
def names (path : List Char) : List (List Char) :=
  (Path.segmentsOf path).filter (!Path.isIdle ·)

/-- A tree with a directory at a path. -/
def addDirectory (tree : FileTree) (path : List Char) : FileTree :=
  change (fun old => match old with
    | some (.directory entries) => .directory entries
    | _ => empty) (names path) (some tree)

/-- A tree with a file at a path. -/
def addFile (tree : FileTree) (path : List Char) (content : Bytes) : FileTree :=
  change (fun _ => .file content) (names path) (some tree)

end FileTree

/-- A tree and the names that lead from its root to the working directory. -/
structure FileSystem where
  root : FileTree
  working : List (List Char)

namespace FileSystem

/-- The number of bytes that a name may have. -/
def nameLimit : Nat := 255

/-- The number of bytes that no path reaches. -/
def pathLimit : Nat := 4096

/-- Where a path has led: the tree reached, and the directories above it, nearest first. -/
structure Place where
  here : FileTree
  above : List FileTree

/-- The place one segment further. -/
def Place.step (p : Place) (segment : List Char) : Except StreamError Place :=
  match p.here with
  | .file _ => .error .notDirectory
  | .directory entries =>
    if Path.isIdle segment then .ok p
    else if segment = ['.', '.'] then
      match p.above with
      | [] => .ok p
      | parent :: above => .ok ⟨parent, above⟩
    else if nameLimit < Utf8.size segment then .error .nameTooLong
    else
      match FileTree.entry? segment entries with
      | some tree => .ok ⟨tree, p.here :: p.above⟩
      | none => .error .missing

/-- The place that segments lead to. -/
def Place.follow (p : Place) : List (List Char) → Except StreamError Place
  | [] => .ok p
  | segment :: segments =>
    match p.step segment with
    | .ok q => q.follow segments
    | .error cause => .error cause

/-- The root. -/
def top (fs : FileSystem) : Place := ⟨fs.root, []⟩

/-- The place that a path leads to. -/
def resolve (fs : FileSystem) (path : Path) : Except StreamError Place :=
  if path.text.contains '\x00' then .error .nulInPath
  else if path.text = [] then .error .missing
  else if pathLimit ≤ Utf8.size path.text then .error .nameTooLong
  else
    match path.text.head? with
    | some '/' => fs.top.follow path.segments
    | _ =>
      match fs.top.follow fs.working with
      | .ok working => working.follow path.segments
      | .error cause => .error cause

/-- A path leads to a file. -/
def isFile (fs : FileSystem) (path : Path) : Bool :=
  match fs.resolve path with
  | .ok ⟨.file _, _⟩ => true
  | _ => false

/-- The bytes of the file that a path leads to. -/
def read (fs : FileSystem) (path : Path) : Except StreamError Bytes :=
  match fs.resolve path with
  | .ok ⟨.file content, _⟩ => .ok content
  | .ok ⟨.directory _, _⟩ => .error .directory
  | .error cause => .error cause

/-- The files of the tree. -/
def files (fs : FileSystem) : Files := ⟨fs.isFile, fs.read⟩

instance : Coe FileSystem Files := ⟨files⟩

@[simp] theorem files_isFile (fs : FileSystem) : fs.files.isFile = fs.isFile := rfl

@[simp] theorem files_read (fs : FileSystem) : fs.files.read = fs.read := rfl

end FileSystem

end SupportLayer
