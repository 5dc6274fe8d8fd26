import QuadAsm.Source.Build
import QuadAsm.Source.Read

/-!
# Loading programs

Reading a file and building its program in one step.
-/

namespace QuadAsm.Source

/-- Why a program cannot be loaded. -/
inductive LoadError where
  /-- The text is not a program file. -/
  | unreadable (cause : Yaml.ReadError OperandFault)
  /-- The file is not well formed. -/
  | illFormed (cause : BuildError)

/-- The wording of a loading error. -/
def LoadError.message : LoadError → Bytes
  | unreadable cause => "error parsing IR file: " ++ cause.message OperandFault.message
  | illFormed cause => cause.message

/-- Loads a program from the bytes of its file, with a reader of such files. -/
def loadBy (read : Bytes → Except (Yaml.ReadError OperandFault) File) (bytes : Bytes) :
    Except LoadError Program :=
  match read bytes with
  | .error e => .error (.unreadable e)
  | .ok file =>
    match file.build with
    | .error e => .error (.illFormed e)
    | .ok program => .ok program

/-- Loads a program from the bytes of its file. -/
def load (bytes : Bytes) : Except LoadError Program := loadBy File.read bytes

end QuadAsm.Source
