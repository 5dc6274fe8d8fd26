import QuadAsm.Cli.Path

/-!
# File trees

A file system as a value, with the working directory of those who use it. A place is the list of the
names that lead to it from the root; path names are resolved to places as the system does it, so
every part but the last must be a folder that exists. Paths that start with a slash start at the
root, others at the working directory. There are no links, and everything may be read and written.
-/

namespace QuadAsm.Cli

/-- A place, by the names that lead to it from the root. -/
abbrev Place := List Bytes

/-- Why a path cannot be used. -/
inductive PathCause where
  | notFound
  | notFolder
  | isFolder
  | tooLong
  deriving DecidableEq, Repr

/-- The bytes that a name in a folder may have at most. -/
def longestName : Nat := 255

/-- The bytes that a path may have at most. -/
def longestPath : Nat := 4095

/-- The wording of a cause. -/
def PathCause.words : PathCause → Bytes
  | notFound => "no such file or directory"
  | notFolder => "not a directory"
  | isFolder => "is a directory"
  | tooLong => "file name too long"

/-- What was tried with a path, and why it failed. -/
structure PathError where
  action : Bytes
  path : Bytes
  cause : PathCause
  deriving DecidableEq, Repr

/-- The wording of a path error. -/
def PathError.message (e : PathError) : Bytes :=
  e.action ++ " " ++ e.path ++ ": " ++ e.cause.words

/-- The files and folders of a system. -/
structure FileTree where
  files : List (Place × Bytes) := []
  folders : List Place := []
  /-- The working directory. -/
  home : Place := []
  deriving DecidableEq, Repr, Inhabited

namespace FileTree

variable (t : FileTree)

/-- The contents of the file at a place. -/
def file? (p : Place) : Option Bytes := t.files.lookup p

/-- Whether there is a folder at a place. The root is one. -/
def isFolder (p : Place) : Bool := p.isEmpty || t.folders.contains p

/-- Goes on from a place. The root is above itself. -/
def walk (here : Place) : List Bytes → Except PathCause Place
  | [] => .ok here
  | part :: rest =>
    if !t.isFolder here then
      .error (if (t.file? here).isSome then .notFolder else .notFound)
    else if part.isEmpty || part == "." then walk here rest
    else if part == ".." then walk here.dropLast rest
    else if part.length > longestName then .error .tooLong
    else walk (here ++ [part]) rest

/-- Where a path starts. -/
def start (path : Bytes) : Place := if Path.isRooted path then [] else t.home

/-- The place that a path leads to. There may be nothing there. -/
def resolve (path : Bytes) : Except PathCause Place :=
  if path.length > longestPath then .error .tooLong
  else if path.isEmpty then .error .notFound
  else t.walk (t.start path) (Path.parts path)

/-- The place of something that exists. -/
def find (path : Bytes) : Except PathCause Place :=
  match t.resolve path with
  | .error cause => .error cause
  | .ok p => if t.isFolder p || (t.file? p).isSome then .ok p else .error .notFound

/-- The contents of a file. Folders can be opened, but not read. -/
def read (path : Bytes) : Except PathError Bytes :=
  match t.find path with
  | .error cause => .error ⟨"open", path, cause⟩
  | .ok p =>
    match t.file? p with
    | some bytes => .ok bytes
    | none => .error ⟨"read", path, .isFolder⟩

/-- The files with new contents at a place. -/
def put : List (Place × Bytes) → Place → Bytes → List (Place × Bytes)
  | [], p, bytes => [(p, bytes)]
  | (q, old) :: rest, p, bytes =>
    if q = p then (q, bytes) :: rest else (q, old) :: put rest p bytes

/-- The place where a file may be written. A path that ends in a slash names a folder, whether there
is one or not. -/
def target (path : Bytes) : Except PathCause Place := do
  if path.getLast? == some Path.slash && path.length ≤ longestPath then
    let _ ← t.resolve (Path.beforeLastPart (Path.withoutSlashes path) ++ ".")
    .error .isFolder
  else
    let p ← t.resolve path
    if t.isFolder p then .error .isFolder else .ok p

/-- Writes a file, which is made if there is none. -/
def write (path bytes : Bytes) : Except PathError FileTree :=
  match t.target path with
  | .error cause => .error ⟨"open", path, cause⟩
  | .ok p => .ok { t with files := put t.files p bytes }

/-- Writes to a file that was made before. -/
def fill (path bytes : Bytes) : FileTree :=
  match t.resolve path with
  | .error _ => t
  | .ok p => { t with files := put t.files p bytes }

/-- Removes a file, if there is one. -/
def remove (path : Bytes) : FileTree :=
  match t.resolve path with
  | .error _ => t
  | .ok p => { t with files := t.files.filter (·.1 != p) }

/-- Whether a text comes before another, byte by byte. -/
def bytesLe : Bytes → Bytes → Bool
  | [], _ => true
  | _ :: _, [] => false
  | a :: as, b :: bs => a < b || (a == b && bytesLe as bs)

/-- The order in which folders are searched: by the names in each folder. -/
def placeLe : Place → Place → Bool
  | [], _ => true
  | _ :: _, [] => false
  | a :: as, b :: bs => if a = b then placeLe as bs else bytesLe a b

/-- The paths of the files at or below a path, in the order in which folders are searched. -/
def filesBelow (path : Bytes) : Except PathError (List Bytes) :=
  match t.find path with
  | .error cause => .error ⟨"lstat", path, cause⟩
  | .ok p =>
    if (t.file? p).isSome then .ok [path]
    else
      let below := (t.files.map (·.1)).filter p.isPrefixOf
      let sorted := below.mergeSort placeLe
      .ok (sorted.map fun q => Path.join path (Bytes.join "/" (q.drop p.length)))

/-- The folders that lead to a place. -/
def parents (p : Place) : List Place := ((List.range p.length).drop 1).map p.take

/-- A folder to work in. -/
def workFolder : Place := ["work"]

/-- The tree with these files in the working directory. -/
def ofFiles (files : List (Bytes × Bytes)) : FileTree :=
  let placed := files.map fun (path, bytes) =>
    (workFolder ++ (Path.parts path).filter (!·.isEmpty), bytes)
  { files := placed
    folders := (workFolder :: placed.flatMap fun (p, _) => parents p).eraseDups
    home := workFolder }

/-- The path of a place from the working directory on, if it is below. -/
def pathFromHome? (p : Place) : Option Bytes :=
  if t.home.isPrefixOf p then some (Bytes.join "/" (p.drop t.home.length)) else none

/-- What has changed below the working directory since `old`: files with their new contents, or
nothing if they are gone. -/
def changes (old : FileTree) : List (Bytes × Option Bytes) :=
  let written := t.files.filter fun (p, bytes) => old.file? p != some bytes
  let gone := old.files.filter fun (p, _) => (t.file? p).isNone
  written.filterMap (fun (p, bytes) => (t.pathFromHome? p).map (·, some bytes))
    ++ gone.filterMap fun (p, _) => (t.pathFromHome? p).map (·, none)

end FileTree

/-- What a command leaves behind. -/
structure Outcome where
  exit : Nat := 0
  stdout : Bytes := []
  stderr : Bytes := []
  tree : FileTree
  deriving DecidableEq, Repr, Inhabited

end QuadAsm.Cli
