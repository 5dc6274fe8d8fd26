import QuadAsm.Text.Bytes

/-!
# Registers

The working registers have numbers; stack pointer and frame pointer have none. The first six
arguments of a call travel in registers, and `r11` is kept for the back end itself.
-/

namespace QuadAsm.Machine

/-- The registers that emitted code names. -/
inductive Register where
  | rax
  | r10
  | rcx
  | rdx
  | rdi
  | rsi
  | r8
  | r9
  | r11
  | rbp
  | rsp
  deriving DecidableEq, Repr, Inhabited

/-- The size of a value in memory. -/
inductive Size where
  | byte
  | word
  deriving DecidableEq, Repr, Inhabited

/-- One byte is a byte; everything else is handled as a word. -/
def Size.ofWidth (width : Int) : Size := if width = 1 then byte else word

namespace Register

/-- The working registers in the order of their numbers. -/
def working : List Register := [rax, r10, rcx, rdx, rdi, rsi, r8, r9, r11]

/-- The working register with this number. -/
def ofCode? (n : Int) : Option Register := if 0 ≤ n then working[n.toNat]? else none

/-- The name of the whole register. -/
def fullName : Register → Bytes
  | rax => "rax"
  | r10 => "r10"
  | rcx => "rcx"
  | rdx => "rdx"
  | rdi => "rdi"
  | rsi => "rsi"
  | r8 => "r8"
  | r9 => "r9"
  | r11 => "r11"
  | rbp => "rbp"
  | rsp => "rsp"

/-- The name of the lowest byte. -/
def lowName : Register → Bytes
  | rax => "al"
  | r10 => "r10b"
  | rcx => "cl"
  | rdx => "dl"
  | rdi => "dil"
  | rsi => "sil"
  | r8 => "r8b"
  | r9 => "r9b"
  | r11 => "r11b"
  | rbp => "bpl"
  | rsp => "spl"

/-- The name of the part that holds a value of this size. -/
def name (r : Register) : Size → Bytes
  | .byte => r.lowName
  | .word => r.fullName

/-- Holds addresses and arguments on their way through the back end. -/
def scratch : Register := r11

/-- Holds the result of a call. -/
def result : Register := rax

/-- The registers of the first arguments. -/
def arguments : List Register := [rdi, rax, rdx, rcx, r8, r9]

/-- The register of the argument at a position, counted from one. -/
def ofArgument? (position : Int) : Option Register :=
  if 1 ≤ position then arguments[(position - 1).toNat]? else none

end Register

end QuadAsm.Machine
