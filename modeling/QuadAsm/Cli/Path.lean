import QuadAsm.Text.Bytes
import QuadAsm.Text.Split

/-!
# Path names

Path names as texts: their parts are separated by slashes.
-/

namespace QuadAsm.Cli.Path

/-- The separator. -/
def slash : UInt8 := Bytes.code '/'

/-- Starts the extension of a name. -/
def dot : UInt8 := Bytes.code '.'

/-- The parts between slashes. -/
def parts (path : Bytes) : List Bytes := Text.splitAll (· == slash) path

/-- What follows the last slash. -/
def lastPart (path : Bytes) : Bytes := ((parts path).getLast?).getD []

/-- What stands before the last part, with the slash. -/
def beforeLastPart (path : Bytes) : Bytes := path.take (path.length - (lastPart path).length)

/-- The extension of the last part, from its last dot on. -/
def extension (path : Bytes) : Bytes :=
  let name := lastPart path
  if dot ∈ name then dot :: (name.reverse.takeWhile (· != dot)).reverse else []

/-- The path without the extension of its last part. -/
def withoutExtension (path : Bytes) : Bytes := path.take (path.length - (extension path).length)

/-- The path without an ending, if it has it. -/
def dropEnding (ending path : Bytes) : Bytes :=
  if ending.isSuffixOf path then path.take (path.length - ending.length) else path

/-- The path without the slashes at its end. -/
def withoutSlashes (path : Bytes) : Bytes := (path.reverse.dropWhile (· == slash)).reverse

/-- The last part, whatever slashes follow it. -/
def base (path : Bytes) : Bytes :=
  if path.isEmpty then "."
  else
    let kept := withoutSlashes path
    if kept.isEmpty then "/" else lastPart kept

/-- Adds a part to a clean list of parts, which is given backwards. -/
def push (rooted : Bool) (done : List Bytes) (part : Bytes) : List Bytes :=
  if part.isEmpty || part == "." then done
  else if part == ".." then
    match done with
    | last :: rest => if last == ".." then part :: done else rest
    | [] => if rooted then [] else [part]
  else part :: done

/-- Whether a path starts at the root. -/
def isRooted (path : Bytes) : Bool := path.head? == some slash

/-- The parts of a path that are needed to say where it leads. -/
def cleanParts (path : Bytes) : List Bytes :=
  ((parts path).foldl (push (isRooted path)) []).reverse

/-- The shortest path that means the same. -/
def clean (path : Bytes) : Bytes :=
  let kept := Bytes.join "/" (cleanParts path)
  if isRooted path then "/" ++ kept else if kept.isEmpty then "." else kept

/-- What stands before the last slash, cleaned. -/
def folder (path : Bytes) : Bytes :=
  clean (beforeLastPart path)

/-- A path inside a folder, cleaned. -/
def join (folder name : Bytes) : Bytes :=
  if folder.isEmpty then (if name.isEmpty then [] else clean name)
  else clean (folder ++ "/" ++ name)

end QuadAsm.Cli.Path
