import QuadAsm.Machine.Instruction
import QuadAsm.Proofs.Machine.Ram

/-!
# The processor

What the instructions do that lead to the next line: `Instr.exec` changes the registers, the result
of the last comparison and the memory. Instructions that lead elsewhere have no meaning here, and
a division that has no quotient of 64 bits stops the machine. `execAll` runs a block of such
instructions.
-/

namespace QuadAsm.Machine

/-- The registers that no emitted instruction names. A called routine gives them back as they
were. -/
inductive Kept where
  | rbx
  | r12
  | r13
  | r14
  | r15
  deriving DecidableEq, Repr

/-- What instructions work on. -/
structure Cpu where
  regs : Register → Word
  kept : Kept → Word
  ram : Ram
  /-- Both sides of the last comparison; `none` when the flags tell something else. -/
  compared : Option (Word × Word)

/-- Whether a comparison of signed words has this outcome. -/
def Condition.holds : Condition → Word → Word → Bool
  | equal, a, b => a == b
  | notEqual, a, b => a != b
  | less, a, b => a.slt b
  | greater, a, b => b.slt a
  | lessEqual, a, b => a.sle b
  | greaterEqual, a, b => b.sle a

/-- The second word after an instruction of two words; a comparison leaves it. -/
def Arith.result : Arith → (src dst : Word) → Word
  | add, src, dst => dst + src
  | sub, src, dst => dst - src
  | imul, src, dst => dst * src
  | and, src, dst => dst &&& src
  | or, src, dst => dst ||| src
  | xor, src, dst => dst ^^^ src
  | cmp, _, dst => dst

/-- The sign of a word as the word above it. -/
def signWord (w : Word) : Word := if w.msb then -1 else 0

/-- The address that a memory argument means, given the addresses of the labels. -/
def Memory.address (data : Bytes → Word) (regs : Register → Word) : Memory → Word
  | base reg offset => regs reg + BitVec.ofInt 64 offset
  | .data label => data label

@[simp] theorem Memory.address_base_zero (data : Bytes → Word) (regs : Register → Word)
    (r : Register) : (Memory.base r 0).address data regs = regs r := by
  simp [address]

namespace Cpu

variable (c : Cpu)

/-- Changes a register. -/
def set (r : Register) (w : Word) : Cpu := { c with regs := Function.update c.regs r w }

/-- Changes memory. -/
def poke (a : Word) (size : Size) (w : Word) : Cpu := { c with ram := c.ram.write a size w }

/-- Forgets the last comparison. -/
def unflag : Cpu := { c with compared := none }

/-- An instruction of two words; the flags tell a comparison apart from the others. -/
def arith (op : Arith) (src : Word) (dst : Register) : Cpu :=
  match op with
  | .cmp => { c with compared := some (c.regs dst, src) }
  | op => (c.set dst (op.result src (c.regs dst))).unflag

/-- Puts a word on the stack. -/
def push (w : Word) : Cpu :=
  (c.set .rsp (c.regs .rsp - 8)).poke (c.regs .rsp - 8) .word w

/-- The word on top of the stack. -/
def top : Word := c.ram.read (c.regs .rsp) .word

/-- Takes a word from the stack. -/
def drop : Cpu := c.set .rsp (c.regs .rsp + 8)

/-- The number in the 128 bits of `rdx` and `rax`. -/
def dividend : Int := (c.regs .rdx ++ c.regs .rax : BitVec 128).toInt

/-- Divides the number in `rdx` and `rax` by a word, toward zero. There must be a quotient, and it
must fit in a word. -/
def divide (divisor : Word) : Option Cpu :=
  if divisor = 0 ∨ c.dividend.tdiv divisor.toInt < -2 ^ 63
      ∨ 2 ^ 63 ≤ c.dividend.tdiv divisor.toInt then none
  else
    some (((c.set .rax (BitVec.ofInt 64 (c.dividend.tdiv divisor.toInt))).set .rdx
      (BitVec.ofInt 64 (c.dividend.tmod divisor.toInt))).unflag)

@[simp] theorem set_regs_self (r : Register) (w : Word) : (c.set r w).regs r = w :=
  Function.update_self ..

@[simp] theorem set_regs_of_ne {r r' : Register} (h : r' ≠ r) (w : Word) :
    (c.set r w).regs r' = c.regs r' :=
  Function.update_of_ne h ..

@[simp] theorem set_kept (r : Register) (w : Word) : (c.set r w).kept = c.kept := rfl
@[simp] theorem set_ram (r : Register) (w : Word) : (c.set r w).ram = c.ram := rfl
@[simp] theorem set_compared (r : Register) (w : Word) : (c.set r w).compared = c.compared := rfl

@[simp] theorem set_set (r : Register) (w w' : Word) : (c.set r w).set r w' = c.set r w' := by
  simp [set]

@[simp] theorem poke_regs (a : Word) (size : Size) (w : Word) :
    (c.poke a size w).regs = c.regs := rfl
@[simp] theorem poke_kept (a : Word) (size : Size) (w : Word) :
    (c.poke a size w).kept = c.kept := rfl
@[simp] theorem poke_ram (a : Word) (size : Size) (w : Word) :
    (c.poke a size w).ram = c.ram.write a size w := rfl
@[simp] theorem poke_compared (a : Word) (size : Size) (w : Word) :
    (c.poke a size w).compared = c.compared := rfl

@[simp] theorem unflag_regs : c.unflag.regs = c.regs := rfl
@[simp] theorem unflag_kept : c.unflag.kept = c.kept := rfl
@[simp] theorem unflag_ram : c.unflag.ram = c.ram := rfl

@[simp] theorem push_rsp (w : Word) : (c.push w).regs .rsp = c.regs .rsp - 8 := by simp [push]
@[simp] theorem push_kept (w : Word) : (c.push w).kept = c.kept := rfl
@[simp] theorem push_ram (w : Word) :
    (c.push w).ram = c.ram.write (c.regs .rsp - 8) .word w := rfl

@[simp] theorem push_regs_of_ne {r : Register} (h : r ≠ .rsp) (w : Word) :
    (c.push w).regs r = c.regs r := by
  simp [push, h]

@[simp] theorem drop_rsp : c.drop.regs .rsp = c.regs .rsp + 8 := by simp [drop]
@[simp] theorem drop_kept : c.drop.kept = c.kept := rfl
@[simp] theorem drop_ram : c.drop.ram = c.ram := rfl

@[simp] theorem drop_regs_of_ne {r : Register} (h : r ≠ .rsp) : c.drop.regs r = c.regs r := by
  simp [drop, h]

end Cpu

namespace Instr

/-- What an instruction does, if it leads to the next line. -/
def exec (data : Bytes → Word) (i : Instr) (c : Cpu) : Option Cpu :=
  match i with
  | load size src dst => some (c.set dst (c.ram.read (src.address data c.regs) size))
  | store size src dst => some (c.poke (dst.address data c.regs) size (c.regs src))
  | move src dst => some (c.set dst (c.regs src))
  | constant value dst => some (c.set dst value.toBitVec)
  | address src dst => some (c.set dst (src.address data c.regs))
  | widen reg => some (c.set reg (Size.byte.clip (c.regs reg)))
  | arith op src dst => some (c.arith op (c.regs src) dst)
  | arithConst op value dst => some (c.arith op value.toBitVec dst)
  | negate reg => some (c.set reg (-c.regs reg)).unflag
  | extendSign => some (c.set .rdx (signWord (c.regs .rax)))
  | divide reg => c.divide (c.regs reg)
  | set cond reg =>
    c.compared.map fun (a, b) =>
      c.set reg ((c.regs reg).extractLsb' 8 56 ++ if cond.holds a b then 1#8 else 0#8)
  | push reg => some (c.push (c.regs reg))
  | pop reg => some (c.drop.set reg c.top)
  | nop => some c
  | jump _ | jumpIfEqual _ | call _ | ret => none

/-- Whether an instruction may lead elsewhere than to the next line. -/
def isControl : Instr → Bool
  | jump _ | jumpIfEqual _ | call _ | ret => true
  | _ => false

/-- The registers that an instruction may change. -/
def writes : Instr → List Register
  | load _ _ dst | move _ dst | constant _ dst | address _ dst => [dst]
  | widen reg | negate reg | set _ reg => [reg]
  | arith .cmp _ _ | arithConst .cmp _ _ => []
  | arith _ _ dst | arithConst _ _ dst => [dst]
  | extendSign => [.rdx]
  | divide _ => [.rax, .rdx]
  | push _ => [.rsp]
  | pop reg => [.rsp, reg]
  | store .. | nop | jump _ | jumpIfEqual _ | call _ | ret => []

end Instr

/-- A division changes `rax` and `rdx`. -/
theorem Cpu.divide_regs {c c' : Cpu} {w : Word} (h : c.divide w = some c') {r : Register}
    (ha : r ≠ .rax) (hd : r ≠ .rdx) : c'.regs r = c.regs r := by
  unfold divide at h
  split at h
  · cases h
  · cases h
    simp [ha, hd]

/-- A division leaves memory as it was. -/
theorem Cpu.divide_ram {c c' : Cpu} {w : Word} (h : c.divide w = some c') :
    c'.ram = c.ram ∧ c'.kept = c.kept := by
  unfold divide at h
  split at h
  · cases h
  · cases h
    exact ⟨rfl, rfl⟩

@[simp] theorem Cpu.arith_regs_self (c : Cpu) (op : Arith) (src : Word) (dst : Register) :
    (c.arith op src dst).regs dst = op.result src (c.regs dst) := by
  cases op <;> simp [arith, Arith.result]

/-- Arithmetic changes one register. -/
theorem Cpu.arith_regs (c : Cpu) (op : Arith) (src : Word) {dst r : Register} (h : r ≠ dst) :
    (c.arith op src dst).regs r = c.regs r := by
  cases op <;> simp [arith, h]

@[simp] theorem Cpu.arith_kept (c : Cpu) (op : Arith) (src : Word) (dst : Register) :
    (c.arith op src dst).kept = c.kept := by
  cases op <;> rfl

@[simp] theorem Cpu.arith_ram (c : Cpu) (op : Arith) (src : Word) (dst : Register) :
    (c.arith op src dst).ram = c.ram := by
  cases op <;> rfl

/-- An instruction changes no other register than those it writes. -/
theorem Instr.exec_regs {data : Bytes → Word} {i : Instr} {c c' : Cpu}
    (h : i.exec data c = some c') {r : Register} (hr : r ∉ i.writes) : c'.regs r = c.regs r := by
  cases i with
  | load | move | constant | address | widen | negate | extendSign | push | pop =>
    simp only [writes, List.mem_cons, List.not_mem_nil, or_false, not_or] at hr
    simp only [exec, Option.some.injEq] at h
    subst h
    simp [hr]
  | store | nop => cases h; rfl
  | arith op src dst | arithConst op src dst =>
    cases h
    cases op with
    | cmp => rfl
    | _ =>
      simp only [writes, List.mem_singleton] at hr
      exact c.arith_regs _ _ hr
  | divide reg =>
    simp only [writes, List.mem_cons, List.not_mem_nil, or_false, not_or] at hr
    exact Cpu.divide_regs h hr.1 hr.2
  | set cond reg =>
    simp only [writes, List.mem_singleton] at hr
    simp only [exec, Option.map_eq_some_iff] at h
    obtain ⟨_, _, rfl⟩ := h
    simp [hr]
  | jump | jumpIfEqual | call | ret => cases h

/-- An instruction changes none of the registers it cannot name. -/
theorem Instr.exec_kept {data : Bytes → Word} {i : Instr} {c c' : Cpu}
    (h : i.exec data c = some c') : c'.kept = c.kept := by
  cases i with
  | divide reg => exact (Cpu.divide_ram h).2
  | set cond reg =>
    simp only [exec, Option.map_eq_some_iff] at h
    obtain ⟨_, _, rfl⟩ := h
    rfl
  | arith | arithConst => cases h; simp
  | jump | jumpIfEqual | call | ret => cases h
  | _ => cases h; rfl

/-- Only stores and pushes change memory. -/
theorem Instr.exec_ram {data : Bytes → Word} {i : Instr} {c c' : Cpu}
    (h : i.exec data c = some c') (hstore : ∀ size src dst, i ≠ .store size src dst)
    (hpush : ∀ reg, i ≠ .push reg) : c'.ram = c.ram := by
  cases i with
  | store size src dst => exact absurd rfl (hstore size src dst)
  | push reg => exact absurd rfl (hpush reg)
  | divide reg => exact (Cpu.divide_ram h).1
  | set cond reg =>
    simp only [exec, Option.map_eq_some_iff] at h
    obtain ⟨_, _, rfl⟩ := h
    rfl
  | arith | arithConst => cases h; simp
  | jump | jumpIfEqual | call | ret => cases h
  | _ => cases h; rfl

/-- Runs a block of instructions that lead to the next line. -/
def execAll (data : Bytes → Word) : List Instr → Cpu → Option Cpu
  | [], c => some c
  | i :: rest, c => (i.exec data c).bind (execAll data rest)

section
variable {data : Bytes → Word}

@[simp] theorem execAll_nil (c : Cpu) : execAll data [] c = some c := rfl

@[simp] theorem execAll_cons (i : Instr) (rest : List Instr) (c : Cpu) :
    execAll data (i :: rest) c = (i.exec data c).bind (execAll data rest) := rfl

/-- Two blocks run one after the other. -/
theorem execAll_append (b₁ b₂ : List Instr) (c : Cpu) :
    execAll data (b₁ ++ b₂) c = (execAll data b₁ c).bind (execAll data b₂) := by
  induction b₁ generalizing c with
  | nil => rfl
  | cons i rest ih =>
    simp only [List.cons_append, execAll_cons]
    cases i.exec data c with
    | none => rfl
    | some c₁ => exact ih c₁

/-- A block changes no other register than those its instructions write. -/
theorem execAll_regs {block : List Instr} {c c' : Cpu} (h : execAll data block c = some c')
    {r : Register} (hr : ∀ i ∈ block, r ∉ i.writes) : c'.regs r = c.regs r := by
  induction block generalizing c with
  | nil => cases h; rfl
  | cons i rest ih =>
    simp only [execAll_cons, Option.bind_eq_some_iff] at h
    obtain ⟨c₁, h₁, h₂⟩ := h
    rw [ih h₂ fun j hj => hr j (List.mem_cons_of_mem _ hj),
      Instr.exec_regs h₁ (hr i (List.mem_cons_self ..))]

/-- Two blocks that both run, run one after the other. -/
theorem execAll_append_of {b₁ b₂ : List Instr} {c c₁ c₂ : Cpu}
    (h₁ : execAll data b₁ c = some c₁) (h₂ : execAll data b₂ c₁ = some c₂) :
    execAll data (b₁ ++ b₂) c = some c₂ := by
  rw [execAll_append, h₁]
  exact h₂

end

end QuadAsm.Machine
