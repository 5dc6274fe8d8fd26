import QuadAsm.Emit.Program

/-!
# Targets

The machines and systems there is code for. A target is known by a name and by a number.
-/

namespace QuadAsm.Emit

/-- A machine with its system. -/
inductive Target where
  | x86Linux
  deriving DecidableEq, Repr

/-- Why a target is refused. -/
inductive TargetError where
  | unknownName (name : Bytes)
  | unknownCode (code : Int)
  deriving DecidableEq, Repr

/-- The wording of a refusal. -/
def TargetError.message : TargetError → Bytes
  | unknownName name => "unknown target: " ++ name
  | unknownCode code => "unknown target: " ++ Bytes.ofInt code

namespace Target

/-- The name of a target. -/
def name : Target → Bytes
  | x86Linux => "x86_64-linux"

/-- The number of a target. -/
def code : Target → Int
  | x86Linux => 0

/-- All targets. -/
def all : List Target := [x86Linux]

/-- The target with this name. -/
def ofName (name : Bytes) : Except TargetError Target :=
  match all.find? (·.name == name) with
  | some t => .ok t
  | none => .error (.unknownName name)

/-- The target with this number. -/
def ofCode (code : Int) : Except TargetError Target :=
  match all.find? (·.code == code) with
  | some t => .ok t
  | none => .error (.unknownCode code)

/-- The assembly text of a program for a target. -/
def compile (target : Target) (options : Options) (p : Program) : Except Failure Bytes :=
  match target with
  | x86Linux => p.compile options

/-- Writes the assembly of a program for a target to an output. -/
def generate (target : Target) (options : Options) (schedule : List TaskEvent) (p : Program) :
    Asm.Writing Failure Unit :=
  match target with
  | x86Linux => p.generate options schedule

end Target

end QuadAsm.Emit
