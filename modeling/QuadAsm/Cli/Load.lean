import QuadAsm.Cli.Host
import QuadAsm.Source.Load

/-!
# Programs in file trees

Loading the program of a file. Messages name the file.
-/

namespace QuadAsm.Cli

/-- Why the program of a file cannot be loaded. -/
inductive LoadFault where
  /-- There is no such file. -/
  | unopened (cause : PathError)
  /-- The path leads to something that cannot be read. -/
  | unreadable (path : Bytes) (cause : PathError)
  | unloadable (path : Bytes) (cause : Source.LoadError)

/-- The wording of a fault. -/
def LoadFault.message : LoadFault → Bytes
  | unopened cause => cause.message
  | unreadable path cause =>
    path ++ ": error parsing IR file: yaml: input error: " ++ cause.message
  | unloadable path cause => path ++ ": " ++ cause.message

/-- Loads the program of a file. -/
def Host.loadProgram (host : Host) (tree : FileTree) (path : Bytes) : Except LoadFault Program :=
  match tree.read path with
  | .error e => .error (if e.cause = .isFolder then .unreadable path e else .unopened e)
  | .ok bytes =>
    match Source.loadBy host.read bytes with
    | .ok p => .ok p
    | .error e => .error (.unloadable path e)

end QuadAsm.Cli
