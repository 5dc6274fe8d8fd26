import QuadAsm.Asm.Line

/-!
# Writing assembly

An assembly goes to its output piece by piece, in the order of the text. An argument that cannot be
written ends the work in the middle of its line, and what stands before it is in the output then.
-/

namespace QuadAsm.Asm

/-- Work that writes to an output and can fail. What was written before a failure stays. -/
abbrev Writing (ε : Type) : Type → Type := ExceptT ε (StateM Bytes)

namespace Writing

variable {ε α : Type}

/-- Appends a text to the output. -/
def put (text : Bytes) : Writing ε Unit := modify (· ++ text)

/-- How the work ends on an output, and the output after it. -/
def on (w : Writing ε α) (out : Bytes) : Except ε α × Bytes := (w.run.run out).run

end Writing

open Writing (put)

/-- Writes an argument behind a separator, if the line has it. -/
def Arg.writeIf (present : Prop) [Decidable present] (separator : Bytes) (a : Arg) :
    Writing Crash Unit :=
  if present then do put (separator ++ (← a.text)) else pure ()

/-- Writes an instruction with its arguments. -/
def Line.writeInstruction (l : Line) : Writing Crash Unit := do
  put ("  " ++ l.op)
  l.arg1.writeIf (1 ≤ l.arity) " "
  l.arg2.writeIf (2 ≤ l.arity) ", "

/-- Writes what stands before the comment of a line. -/
def Line.writeBody (l : Line) : Writing Crash Unit :=
  if !l.label.isEmpty then put (l.label ++ ":")
  else if !l.op.isEmpty then l.writeInstruction
  else pure ()

/-- Writes a line. -/
def Line.write (l : Line) : Writing Crash Unit := do
  l.writeBody
  put (if l.comment.isEmpty then [] else "  # " ++ l.comment)
  put "\n"

/-- Writes a function. -/
def Function.write (f : Function) : Writing Crash Unit := do
  put (f.name ++ ":\n")
  f.lines.forM Line.write

/-- Writes an assembly. -/
def Assembly.write (u : Assembly) : Writing Crash Unit := do
  put u.dataSection
  put ".text\n"
  u.functions.forM Function.write

end QuadAsm.Asm
