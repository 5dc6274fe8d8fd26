import QuadAsm.Proofs.Machine.Cpu

/-!
# Running code

An `Image` is code in which symbols are resolved, and a `Process` is an image that was loaded:
labels and lines have addresses, and the routines of the runtime are there to be called. Functions
and labels are symbols of one assembly. A jump goes to a line under a label, and a call goes to a
function or a label of the image, whichever has the name, before it goes to a routine of the
runtime. A return goes to the line whose address is on top of the stack. A routine of the runtime is
one step: it changes registers and memory as it likes, within the laws that are stated where they
are needed. What the process does to the outside is the list of its calls to routines.

Main definitions: `Process.step`, `Process.run`. Main result: `Process.run_block`.
-/

namespace QuadAsm.Machine

/-! ## The runtime -/

/-- What a value is printed or read as. -/
inductive Channel where
  | int
  | byte
  | string
  deriving DecidableEq, Repr

/-- The routines of the runtime. -/
inductive Service where
  | print (channel : Channel)
  | read (channel : Channel)
  deriving DecidableEq, Repr

namespace Service

/-- The name of a routine. -/
def name : Service → Bytes
  | print .int => "printInt"
  | print .byte => "printByte"
  | print .string => "printString"
  | read .int => "readInt"
  | read .byte => "readByte"
  | read .string => "readString"

/-- All routines. -/
def all : List Service :=
  [print .int, print .byte, print .string, read .int, read .byte, read .string]

/-- The routine with this name. -/
def ofName? (name : Bytes) : Option Service := all.find? (·.name == name)

@[simp] theorem ofName?_name (v : Service) : ofName? v.name = some v := by
  rcases v with c | c <;> cases c <;> decide

end Service

/-- A call of a routine: what was printed or read. -/
structure Event where
  service : Service
  value : Word
  deriving DecidableEq, Repr

/-- How many values were read. -/
def readCount (trace : List Event) : Nat :=
  trace.countP fun e => match e.service with
    | .read _ => true
    | .print _ => false

/-! ## Code -/

/-- Code with its labels and its functions resolved to positions. -/
structure Image where
  code : List Instr
  /-- The position of a label. -/
  label : Bytes → Option Nat
  /-- The position of a function. -/
  entry : Bytes → Option Nat

/-- The instruction on a line, if there is one. -/
def Item.instr? : Item → Option Instr
  | instr i => some i
  | label _ | comment _ => none

/-- The instructions among lines. -/
def instructions (items : List Item) : List Instr := items.filterMap Item.instr?

/-- How many instructions stand before a label. -/
def labelPosition (name : Bytes) : List Item → Option Nat
  | [] => none
  | .label l :: rest => if l = name then some 0 else labelPosition name rest
  | .comment _ :: rest => labelPosition name rest
  | .instr _ :: rest => (labelPosition name rest).map (· + 1)

/-- How many instructions stand before a function. -/
def entryPosition (name : Bytes) : List Routine → Option Nat
  | [] => none
  | r :: rest =>
    if r.name = name then some 0
    else (entryPosition name rest).map ((instructions r.items).length + ·)

namespace Image

/-- The lines of one function alone. -/
def ofItems (items : List Item) : Image where
  code := instructions items
  label := (labelPosition · items)
  entry _ := none

/-- Functions one after the other. -/
def link (routines : List Routine) : Image where
  code := instructions (routines.flatMap (·.items))
  label := (labelPosition · (routines.flatMap (·.items)))
  entry := (entryPosition · routines)

/-- Where a call goes, if its symbol is one of the image. There is no order between functions and
labels in an assembly: one that has a symbol twice is none. -/
def symbol (img : Image) (name : Bytes) : Option Nat := (img.entry name).or (img.label name)

/-- Calls by the name of a function go to the function. -/
theorem symbol_of_entry {img : Image} {name : Bytes} {n : Nat} (h : img.entry name = some n) :
    img.symbol name = some n := by
  rw [symbol, h, Option.some_or]

/-- Calls by a name that no label has go to functions only. -/
theorem symbol_of_label_eq_none {img : Image} {name : Bytes} (h : img.label name = none) :
    img.symbol name = img.entry name := by
  rw [symbol, h, Option.or_none]

/-- A block of instructions stands at a position. -/
def Holds (img : Image) (n : Nat) (block : List Instr) : Prop := block <+: img.code.drop n

/-- The first instruction of a block stands at its position. -/
theorem Holds.head {img : Image} {n : Nat} {i : Instr} {rest : List Instr}
    (h : img.Holds n (i :: rest)) : img.code[n]? = some i := by
  obtain ⟨t, ht⟩ := h
  have : (img.code.drop n)[0]? = some i := by rw [← ht]; rfl
  simpa using this

/-- The first part of a block stands where the block does. -/
theorem Holds.left {img : Image} {n : Nat} {b₁ b₂ : List Instr} (h : img.Holds n (b₁ ++ b₂)) :
    img.Holds n b₁ :=
  (List.prefix_append b₁ b₂).trans h

/-- The second part stands behind the first. -/
theorem Holds.right {img : Image} {n : Nat} {b₁ b₂ : List Instr} (h : img.Holds n (b₁ ++ b₂)) :
    img.Holds (n + b₁.length) b₂ := by
  obtain ⟨t, ht⟩ := h
  refine ⟨t, ?_⟩
  rw [← List.drop_drop, ← ht, List.append_assoc, List.drop_left]

/-- The rest stands behind the first instruction. -/
theorem Holds.tail {img : Image} {n : Nat} {i : Instr} {rest : List Instr}
    (h : img.Holds n (i :: rest)) : img.Holds (n + 1) rest := by
  have hcons : img.Holds n ([i] ++ rest) := h
  exact hcons.right

end Image

/-! ## Processes -/

/-- A loaded image. -/
structure Process where
  image : Image
  /-- The addresses of the labels in the data section. -/
  data : Bytes → Word
  /-- The addresses of the instructions by their positions. -/
  place : Nat → Word
  /-- What a routine does, given the calls before this one. -/
  serve : Service → List Event → Cpu → Cpu

/-- A process at some moment. -/
structure State where
  cpu : Cpu
  /-- The position of the next instruction. -/
  pc : Nat
  /-- The calls of routines so far, the last one first. -/
  trace : List Event

namespace Process

variable (P : Process)

/-- The position at an address. -/
def position? (w : Word) : Option Nat :=
  (List.range P.image.code.length).find? (P.place · = w)

/-- The call of a routine as others see it. -/
def event (v : Service) (before after : Cpu) : Event :=
  match v with
  | .print _ => ⟨v, before.regs .rdi⟩
  | .read _ => ⟨v, after.regs .rax⟩

/-- Calls a routine of the runtime. -/
def service (v : Service) (s : State) : State :=
  let cpu := P.serve v s.trace s.cpu
  ⟨cpu, s.pc + 1, event v s.cpu cpu :: s.trace⟩

/-- One step. There is none when the code is left or the machine stops. -/
def step (s : State) : Option State :=
  match P.image.code[s.pc]? with
  | none => none
  | some (.jump l) => (P.image.label l).map fun n => { s with pc := n }
  | some (.jumpIfEqual l) =>
    s.cpu.compared.bind fun (a, b) =>
      if a = b then (P.image.label l).map fun n => { s with pc := n }
      else some { s with pc := s.pc + 1 }
  | some (.call l) =>
    match P.image.symbol l with
    | some n => some { s with cpu := s.cpu.push (P.place (s.pc + 1)), pc := n }
    | none => (Service.ofName? l).map (P.service · s)
  | some .ret => (P.position? s.cpu.top).map fun n => { s with cpu := s.cpu.drop, pc := n }
  | some i => (i.exec P.data s.cpu).map fun cpu => { s with cpu, pc := s.pc + 1 }

/-- Several steps. -/
def run : Nat → State → Option State
  | 0, s => some s
  | n + 1, s => (P.step s).bind (run n)

variable {P}

@[simp] theorem run_zero (s : State) : P.run 0 s = some s := rfl

/-- A run splits into two. -/
theorem run_add (m n : Nat) (s : State) : P.run (m + n) s = (P.run m s).bind (P.run n) := by
  induction m generalizing s with
  | zero => rw [Nat.zero_add]; rfl
  | succ m ih =>
    rw [Nat.succ_add]
    simp only [run]
    cases P.step s with
    | none => rfl
    | some s₁ => exact ih s₁

/-- A run that goes on from where another ended. -/
theorem run_trans {m n : Nat} {s s₁ s₂ : State} (h₁ : P.run m s = some s₁)
    (h₂ : P.run n s₁ = some s₂) : P.run (m + n) s = some s₂ := by
  rw [run_add, h₁]
  exact h₂

/-- A run of one step. -/
theorem run_one (s : State) : P.run 1 s = P.step s := by
  simp only [run]
  cases P.step s <;> rfl

/-- A step by an instruction that leads to the next line. -/
theorem step_exec {s : State} {i : Instr} {c : Cpu} (hi : P.image.code[s.pc]? = some i)
    (he : i.exec P.data s.cpu = some c) : P.step s = some ⟨c, s.pc + 1, s.trace⟩ := by
  unfold step
  rw [hi]
  cases i with
  | jump | jumpIfEqual | call | ret => cases he
  | _ => simp only [he, Option.map_some]

/-- A block of instructions that lead to the next line is run from its first line to its end. -/
theorem run_block {s : State} {block : List Instr} {c : Cpu} (hb : P.image.Holds s.pc block)
    (he : execAll P.data block s.cpu = some c) :
    P.run block.length s = some ⟨c, s.pc + block.length, s.trace⟩ := by
  induction block generalizing s with
  | nil => cases he; rfl
  | cons i rest ih =>
    simp only [execAll_cons, Option.bind_eq_some_iff] at he
    obtain ⟨c₁, h₁, h₂⟩ := he
    simp only [List.length_cons, run, step_exec hb.head h₁, Option.bind_some]
    rw [ih hb.tail h₂, Nat.add_right_comm, Nat.add_assoc]

/-- A run has got as far as it goes at every moment before. -/
theorem exists_run_of_le {m n : Nat} {s s' : State} (h : P.run n s = some s') (hle : m ≤ n) :
    ∃ t, P.run m s = some t := by
  obtain ⟨k, rfl⟩ := Nat.exists_eq_add_of_le hle
  rw [run_add, Option.bind_eq_some_iff] at h
  obtain ⟨t, ht, -⟩ := h
  exact ⟨t, ht⟩

/-- A block, and then a step by the instruction after it. -/
theorem run_block_step {s s' : State} {block : List Instr} {i : Instr} {c : Cpu}
    (hb : P.image.Holds s.pc block) (he : execAll P.data block s.cpu = some c)
    (hs : P.step ⟨c, s.pc + block.length, s.trace⟩ = some s') :
    P.run (block ++ [i]).length s = some s' := by
  rw [List.length_append]
  exact run_trans (run_block hb he) ((run_one _).trans hs)

/-- A jump. -/
theorem step_jump {s : State} {l : Bytes} {n : Nat} (hi : P.image.code[s.pc]? = some (.jump l))
    (hl : P.image.label l = some n) : P.step s = some { s with pc := n } := by
  simp [step, hi, hl]

/-- A jump that depends on a comparison. -/
theorem step_jumpIfEqual {s : State} {l : Bytes} {a b : Word}
    (hi : P.image.code[s.pc]? = some (.jumpIfEqual l)) (hc : s.cpu.compared = some (a, b)) :
    P.step s = if a = b then (P.image.label l).map fun n => { s with pc := n }
      else some { s with pc := s.pc + 1 } := by
  simp [step, hi, hc]

/-- A call of a function, or of a label. -/
theorem step_call {s : State} {l : Bytes} {n : Nat} (hi : P.image.code[s.pc]? = some (.call l))
    (hn : P.image.symbol l = some n) :
    P.step s = some { s with cpu := s.cpu.push (P.place (s.pc + 1)), pc := n } := by
  simp [step, hi, hn]

/-- A call of a routine of the runtime. -/
theorem step_service {s : State} {v : Service} (hi : P.image.code[s.pc]? = some (.call v.name))
    (hn : P.image.symbol v.name = none) : P.step s = some (P.service v s) := by
  simp [step, hi, hn]

variable (P) in
/-- What one step can be. -/
inductive Moves (s : State) : State → Prop where
  | exec {i : Instr} {c : Cpu} : P.image.code[s.pc]? = some i → i.exec P.data s.cpu = some c →
      Moves s ⟨c, s.pc + 1, s.trace⟩
  | jump {l : Bytes} {n : Nat} : P.image.code[s.pc]? = some (.jump l) → P.image.label l = some n →
      Moves s { s with pc := n }
  | taken {l : Bytes} {n : Nat} : P.image.code[s.pc]? = some (.jumpIfEqual l) →
      P.image.label l = some n → Moves s { s with pc := n }
  | passed {l : Bytes} : P.image.code[s.pc]? = some (.jumpIfEqual l) →
      Moves s { s with pc := s.pc + 1 }
  | call {l : Bytes} {n : Nat} : P.image.code[s.pc]? = some (.call l) → P.image.symbol l = some n →
      Moves s { s with cpu := s.cpu.push (P.place (s.pc + 1)), pc := n }
  | service {l : Bytes} (v : Service) : P.image.code[s.pc]? = some (.call l) →
      P.image.symbol l = none → Moves s (P.service v s)
  | ret {n : Nat} : P.image.code[s.pc]? = some .ret → P.position? s.cpu.top = some n →
      Moves s { s with cpu := s.cpu.drop, pc := n }

/-- Every step is one of these. -/
theorem moves_of_step {s s' : State} (h : P.step s = some s') : P.Moves s s' := by
  unfold step at h
  split at h
  · cases h
  · next l hi =>
    obtain ⟨n, hn, rfl⟩ := Option.map_eq_some_iff.1 h
    exact .jump hi hn
  · next l hi =>
    obtain ⟨⟨a, b⟩, -, h⟩ := Option.bind_eq_some_iff.1 h
    simp only at h
    split at h
    · obtain ⟨n, hn, rfl⟩ := Option.map_eq_some_iff.1 h
      exact .taken hi hn
    · cases h
      exact .passed hi
  · next l hi =>
    split at h
    · next n hn =>
      cases h
      exact .call hi hn
    · next hnone =>
      obtain ⟨v, -, rfl⟩ := Option.map_eq_some_iff.1 h
      exact .service v hi hnone
  · next hi =>
    obtain ⟨n, hn, rfl⟩ := Option.map_eq_some_iff.1 h
    exact .ret hi hn
  · next i _ _ _ _ hi =>
    obtain ⟨c, hc, rfl⟩ := Option.map_eq_some_iff.1 h
    exact .exec hi hc

/-- An instruction that leads to the next line is executed. -/
theorem exec_of_step {s s' : State} {i : Instr} (hi : P.image.code[s.pc]? = some i)
    (hcontrol : i.isControl = false) (h : P.step s = some s') :
    ∃ c, i.exec P.data s.cpu = some c ∧ s' = ⟨c, s.pc + 1, s.trace⟩ := by
  cases moves_of_step h with
  | exec hcode he =>
    cases hi.symm.trans hcode
    exact ⟨_, he, rfl⟩
  | jump hcode | taken hcode | passed hcode | call hcode | service _ hcode | ret hcode =>
    cases hi.symm.trans hcode
    cases hcontrol

/-- Code whose instructions lead to the next line is run line by line. -/
theorem run_straight {s s' : State} {block : List Instr} (hb : P.image.Holds s.pc block)
    (hcontrol : ∀ i ∈ block, i.isControl = false) {n : Nat} (hn : n ≤ block.length)
    (h : P.run n s = some s') :
    ∃ c, execAll P.data (block.take n) s.cpu = some c ∧ s' = ⟨c, s.pc + n, s.trace⟩ := by
  induction n generalizing s block with
  | zero =>
    cases h
    exact ⟨_, rfl, rfl⟩
  | succ n ih =>
    cases block with
    | nil => cases hn
    | cons i rest =>
      obtain ⟨hi, hrest⟩ := List.forall_mem_cons.1 hcontrol
      obtain ⟨t, hstep, hrun⟩ := Option.bind_eq_some_iff.1 h
      obtain ⟨c, hc, rfl⟩ := exec_of_step hb.head hi hstep
      obtain ⟨c', hc', rfl⟩ := ih (s := ⟨c, s.pc + 1, s.trace⟩) hb.tail hrest
        (Nat.le_of_succ_le_succ hn) hrun
      refine ⟨c', ?_, by rw [Nat.add_assoc, Nat.add_comm 1]⟩
      rw [List.take_succ_cons, execAll_cons, hc]
      exact hc'

variable (P) in
/-- The process comes to a position for the first time after some steps. -/
structure Arrives (s : State) (position n : Nat) (s' : State) : Prop where
  run : P.run n s = some s'
  pc : s'.pc = position
  first : ∀ m t, m < n → P.run m s = some t → t.pc ≠ position

/-- Code whose instructions lead to the next line was executed from its first line to its last when
the process comes to the line after it. -/
theorem Arrives.straight {s s' : State} {block : List Instr} {n : Nat}
    (h : P.Arrives s (s.pc + block.length) n s') (hb : P.image.Holds s.pc block)
    (hcontrol : ∀ i ∈ block, i.isControl = false) :
    n = block.length ∧ execAll P.data block s.cpu = some s'.cpu := by
  rcases Nat.lt_or_ge block.length n with hlt | hle
  · obtain ⟨t, ht⟩ := exists_run_of_le h.run (Nat.le_of_lt hlt)
    obtain ⟨c, -, rfl⟩ := run_straight hb hcontrol (Nat.le_refl _) ht
    exact absurd rfl (h.first _ _ hlt ht)
  · obtain ⟨c, hc, rfl⟩ := run_straight hb hcontrol hle h.run
    have hn : n = block.length := Nat.add_left_cancel h.pc
    rw [hn, List.take_length] at hc
    exact ⟨hn, hc⟩

variable (P)

/-- The law that routines of the runtime keep: stack pointer, frame pointer, the registers that no
instruction names, and the memory from the stack pointer on are as they were before the call. -/
structure KeepsStack : Prop where
  rsp : ∀ v trace c, (P.serve v trace c).regs .rsp = c.regs .rsp
  rbp : ∀ v trace c, (P.serve v trace c).regs .rbp = c.regs .rbp
  kept : ∀ v trace c, (P.serve v trace c).kept = c.kept
  ram : ∀ v trace c x, (c.regs .rsp).toNat ≤ x.toNat → (P.serve v trace c).ram x = c.ram x

end Process

end QuadAsm.Machine
