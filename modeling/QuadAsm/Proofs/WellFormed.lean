import QuadAsm.Proofs.Emit.Lines
import QuadAsm.Proofs.Output

/-!
# Instructions of an assembly

The operation of an instruction and the names of its registers are chosen in different places. They
fit together: every instruction has one of the shapes that there are for its operation
(`Asm.Legal`), and a label in the data section that it names is one of the assembly. The exceptions
are jumps and calls that lead to a symbol without a name. Nothing stops them, and they have no
argument where there should be one. Main result: `instructions_wellFormed_unless_nameless`.
-/

namespace QuadAsm

open Emit Layout Machine

namespace Asm

/-- The names of the registers. -/
def wordRegisters : List Bytes :=
  ["rax", "rbx", "rcx", "rdx", "rsi", "rdi", "rbp", "rsp", "r8", "r9", "r10", "r11", "r12", "r13",
    "r14", "r15"]

/-- The names of their lowest bytes. -/
def byteRegisters : List Bytes :=
  ["al", "bl", "cl", "dl", "sil", "dil", "bpl", "spl", "r8b", "r9b", "r10b", "r11b", "r12b", "r13b",
    "r14b", "r15b"]

namespace Arg

def IsRegister (a : Arg) : Prop := ∃ reg ∈ wordRegisters, a = .ofReg reg

def IsByteRegister (a : Arg) : Prop := ∃ reg ∈ byteRegisters, a = .ofReg reg

def IsConstant (a : Arg) : Prop := ∃ value, a = .ofImm value

/-- A bare label. -/
def IsLabel (a : Arg) : Prop := ∃ label, label ≠ [] ∧ a = .ofLabel label

inductive IsMemory : Arg → Prop where
  | base {reg : Bytes} (offset : Int) : reg ∈ wordRegisters → IsMemory (.memory reg offset)
  | data {label : Bytes} : label ≠ [] → IsMemory (.data label)

/-- An address relative to the frame pointer or in the data section, written as the memory there. -/
def IsAddress (a : Arg) : Prop :=
  ∃ m : Arg, m.IsMemory ∧ (m.reg = "rbp" ∨ m.reg = "rip") ∧ a = m.asAddress ∧ a.text = m.text

end Arg

def binaryOperations : List Bytes := ["addq", "subq", "imulq", "andq", "orq", "xorq", "cmpq"]

def unaryOperations : List Bytes := ["negq", "idivq", "pushq", "popq"]

def setOperations : List Bytes := ["sete", "setne", "setl", "setg", "setle", "setge"]

/-- The operations that lead to a symbol. -/
def leadOperations : List Bytes := ["jmp", "je", "callq"]

def plainOperations : List Bytes := ["cqto", "nop", "retq"]

/-- The shapes of instructions. -/
inductive Legal : Bytes → List Arg → Prop where
  | storeByte {a b : Arg} : a.IsByteRegister → b.IsMemory → Legal "movb" [a, b]
  | extend {a b : Arg} : a.IsMemory ∨ a.IsByteRegister → b.IsRegister → Legal "movzbq" [a, b]
  | move {a b : Arg} : a.IsRegister ∨ a.IsMemory ∨ a.IsConstant → b.IsRegister → Legal "movq" [a, b]
  | store {a b : Arg} : a.IsRegister → b.IsMemory → Legal "movq" [a, b]
  | address {a b : Arg} : a.IsAddress → b.IsRegister → Legal "leaq" [a, b]
  | binary {op : Bytes} {a b : Arg} : op ∈ binaryOperations →
      a.IsRegister ∨ a.IsConstant → b.IsRegister → Legal op [a, b]
  | unary {op : Bytes} {a : Arg} : op ∈ unaryOperations → a.IsRegister → Legal op [a]
  | set {op : Bytes} {a : Arg} : op ∈ setOperations → a.IsByteRegister → Legal op [a]
  | lead {op : Bytes} {a : Arg} : op ∈ leadOperations → a.IsLabel → Legal op [a]
  | plain {op : Bytes} : op ∈ plainOperations → Legal op []

/-- The arguments of a line. -/
def Line.args (l : Line) : List Arg := [l.arg1, l.arg2].filter (· ≠ {})

/-- The labels in the data section. -/
def Assembly.dataLabels (u : Assembly) : List Bytes :=
  u.strings.map (·.label) ++ u.globals.map (·.label)

/-- What an argument names in the data section is there. -/
def Arg.Defined (u : Assembly) (a : Arg) : Prop := a.reg = "rip" → a.label ∈ u.dataLabels

/-- A line of an assembly that is an instruction as it should be. -/
structure Line.WellFormed (u : Assembly) (l : Line) : Prop where
  arity : l.arity = l.args.length
  shape : Legal l.op l.args
  memory : l.args.countP (·.deref) ≤ 1
  defined : ∀ a ∈ l.args, a.Defined u

section
variable {a b : Arg}

/-- A register is an argument, and no memory. -/
theorem Arg.IsRegister.bare (h : a.IsRegister) : a ≠ {} ∧ a.deref = false := by
  obtain ⟨reg, hreg, rfl⟩ := h
  refine ⟨?_, rfl⟩
  rintro ⟨⟩
  revert hreg
  decide

/-- So is the low byte of one. -/
theorem Arg.IsByteRegister.bare (h : a.IsByteRegister) : a ≠ {} ∧ a.deref = false := by
  obtain ⟨reg, hreg, rfl⟩ := h
  refine ⟨?_, rfl⟩
  rintro ⟨⟩
  revert hreg
  decide

/-- A constant is an argument. -/
theorem Arg.IsConstant.ne_empty (h : a.IsConstant) : a ≠ {} := by
  obtain ⟨value, rfl⟩ := h
  rintro ⟨⟩

/-- A label with a name is an argument. -/
theorem Arg.IsLabel.ne_empty (h : a.IsLabel) : a ≠ {} := by
  obtain ⟨label, hlabel, rfl⟩ := h
  rintro ⟨⟩
  exact hlabel rfl

/-- Memory is an argument. -/
theorem Arg.IsMemory.ne_empty (h : a.IsMemory) : a ≠ {} := by
  cases h <;> rintro ⟨⟩

/-- An address is an argument. -/
theorem Arg.IsAddress.ne_empty (h : a.IsAddress) : a ≠ {} := by
  obtain ⟨m, -, hreg, rfl, -⟩ := h
  intro he
  have hempty : m.reg = [] := congrArg Arg.reg he
  rw [hempty] at hreg
  revert hreg
  decide

/-- A legal pair has no empty argument, and one that is not memory. -/
theorem Legal.pair {op : Bytes} (h : Legal op [a, b]) :
    a ≠ {} ∧ b ≠ {} ∧ (a.deref = false ∨ b.deref = false) := by
  cases h with
  | storeByte ha hb => exact ⟨ha.bare.1, hb.ne_empty, .inl ha.bare.2⟩
  | store ha hb => exact ⟨ha.bare.1, hb.ne_empty, .inl ha.bare.2⟩
  | extend ha hb =>
    exact ⟨ha.elim (·.ne_empty) (·.bare.1), hb.bare.1, .inr hb.bare.2⟩
  | move ha hb =>
    refine ⟨?_, hb.bare.1, .inr hb.bare.2⟩
    rcases ha with ha | ha | ha
    · exact ha.bare.1
    · exact ha.ne_empty
    · exact ha.ne_empty
  | address ha hb => exact ⟨ha.ne_empty, hb.bare.1, .inr hb.bare.2⟩
  | binary _ ha hb => exact ⟨ha.elim (·.bare.1) (·.ne_empty), hb.bare.1, .inr hb.bare.2⟩

/-- The argument of a legal instruction is not empty. -/
theorem Legal.single {op : Bytes} (h : Legal op [a]) : a ≠ {} := by
  cases h with
  | unary _ ha => exact ha.bare.1
  | set _ ha => exact ha.bare.1
  | lead _ ha => exact ha.ne_empty

variable {u : Assembly} {op : Bytes}

/-- A legal instruction with two arguments is as it should be. -/
theorem wellFormed_binaryLine (h : Legal op [a, b]) (ha : a.Defined u) (hb : b.Defined u) :
    (binaryLine op a b).WellFormed u := by
  obtain ⟨hne, hne', hderef⟩ := h.pair
  have hargs : (binaryLine op a b).args = [a, b] := by simp [Line.args, binaryLine, hne, hne']
  refine ⟨by rw [hargs]; rfl, hargs.symm ▸ h, ?_, by rw [hargs]; simp [ha, hb]⟩
  rw [hargs]
  rcases hderef with hderef | hderef
  · cases hb : b.deref <;> simp [hderef, hb]
  · cases ha : a.deref <;> simp [hderef, ha]

/-- So is one with one argument. -/
theorem wellFormed_unaryLine (h : Legal op [a]) (ha : a.Defined u) :
    (unaryLine op a).WellFormed u := by
  have hargs : (unaryLine op a).args = [a] := by simp [Line.args, unaryLine, h.single]
  exact ⟨by rw [hargs]; rfl, hargs.symm ▸ h, by rw [hargs]; exact List.countP_le_length,
    by rw [hargs]; simp [ha]⟩

/-- So is one without arguments. -/
theorem wellFormed_plainLine (h : Legal op []) : (plainLine op).WellFormed u :=
  ⟨rfl, h, Nat.zero_le 1, List.forall_mem_nil _⟩

end

end Asm

/-! ## Instructions -/

namespace Machine

/-- Registers are written as such. -/
theorem Register.isRegister_arg (r : Register) : r.arg.IsRegister :=
  ⟨r.fullName, by cases r <;> decide, rfl⟩

/-- Low bytes of registers are written as such. -/
theorem Register.isByteRegister_lowArg (r : Register) : r.lowArg.IsByteRegister :=
  ⟨r.lowName, by cases r <;> decide, rfl⟩

/-- A register names nothing in the data section. -/
theorem Register.defined_arg (r : Register) (u : Asm.Assembly) : r.arg.Defined u := by
  have hname : r.fullName ≠ "rip" := by cases r <;> decide
  exact fun h => absurd h hname

/-- Nor does its low byte. -/
theorem Register.defined_lowArg (r : Register) (u : Asm.Assembly) : r.lowArg.Defined u := by
  have hname : r.lowName ≠ "rip" := by cases r <;> decide
  exact fun h => absurd h hname

/-- Nor does a constant. -/
theorem defined_ofImm (value : Int64) (u : Asm.Assembly) : (Asm.Arg.ofImm value).Defined u := by
  rintro ⟨⟩

/-- Nor does a label that code leads to. -/
theorem defined_ofLabel (label : Bytes) (u : Asm.Assembly) : (Asm.Arg.ofLabel label).Defined u := by
  rintro ⟨⟩

/-- What is named by a label is in the data section. -/
def Memory.Known (u : Asm.Assembly) : Memory → Prop
  | .base _ _ => True
  | .data label => label ≠ [] ∧ label ∈ u.dataLabels

/-- The address of this is an argument of its own kind. -/
def Memory.Fixed : Memory → Prop
  | .base reg offset => reg = .rbp ∧ offset ≠ 0
  | .data _ => True

section
variable {u : Asm.Assembly} {m : Memory}

/-- Memory is written as such. -/
theorem Memory.isMemory_arg (h : m.Known u) : m.arg.IsMemory := by
  cases m with
  | base reg offset =>
    have hname : reg.fullName ∈ Asm.wordRegisters := by cases reg <;> decide
    exact .base offset hname
  | data label => exact .data h.1

/-- What it names in the data section is there. -/
theorem Memory.defined_arg (h : m.Known u) : m.arg.Defined u := by
  cases m with
  | base reg offset => exact reg.defined_arg u
  | data label => exact fun _ => h.2

/-- The address of something with a fixed place is written as such. -/
theorem Memory.isAddress_arg (h : m.Known u) (hfixed : m.Fixed) : m.arg.asAddress.IsAddress := by
  refine ⟨m.arg, isMemory_arg h, ?_, rfl, ?_⟩
  · cases m with
    | base reg offset => exact .inl (hfixed.1 ▸ rfl)
    | data label => exact .inr rfl
  · cases m with
    | base reg offset =>
      simp [arg, Asm.Arg.asAddress, Asm.Arg.memory, Asm.Arg.text, hfixed.2, reg.fullName_ne_nil]
    | data label =>
      have hlabel := h.1
      have hrip : ("rip" : Bytes) ≠ [] := by decide
      simp [arg, Asm.Arg.asAddress, Asm.Arg.data, Asm.Arg.text, hlabel, hrip]

end

end Machine

namespace Emit.Context

variable {ctx : Context} {q : Procedure} {u : Asm.Assembly}

/-- The labels that the code of a procedure can name are those in the data section. -/
def Names (ctx : Context) (u : Asm.Assembly) : Prop :=
  u.dataLabels =
    ctx.globals.labelledStrings.map (·.1) ++ ctx.globals.vars.map fun v => globalLabel v.name

/-- The storage of variables and strings is known, and has a fixed place. -/
theorem known_of_addresses (hframe : Frame.assign q = .ok ctx.frame) (hnames : ctx.Names u)
    {m : Memory} (h : ctx.Addresses m) : m.Known u ∧ m.Fixed := by
  rcases h with ⟨v, hv⟩ | ⟨text, label, hlabel, rfl⟩
  · rcases storage_cases hv with ⟨o, ho, rfl⟩ | ⟨hglobal, rfl⟩
    · obtain ⟨i, -, -, rfl⟩ := Frame.offset?_eq_some hframe ho
      exact ⟨trivial, rfl, by omega⟩
    · refine ⟨⟨by rintro ⟨⟩, ?_⟩, trivial⟩
      rw [hnames]
      exact List.mem_append_right _ (List.mem_map.2 ⟨v, hglobal, rfl⟩)
  · obtain ⟨i, hi, rfl⟩ := Globals.exists_of_stringLabel hlabel
    refine ⟨⟨by rintro ⟨⟩, ?_⟩, trivial⟩
    have hmem : (text, i) ∈ ctx.globals.strings.zipIdx := List.mk_mem_zipIdx_iff_getElem?.2 hi
    rw [hnames]
    refine List.mem_append_left _ (List.mem_map.2 ⟨(Layout.stringLabel i, text), ?_, rfl⟩)
    exact List.mem_map.2 ⟨(text, i), hmem, rfl⟩

/-- All memory that code reaches is known. -/
theorem known_of_reaches (hframe : Frame.assign q = .ok ctx.frame) (hnames : ctx.Names u)
    {m : Memory} (h : ctx.Reaches m) : m.Known u := by
  rcases h with haddress | ⟨reg, -, rfl⟩
  · exact (known_of_addresses hframe hnames haddress).1
  · trivial

/-- An instruction is as it should be, unless it leads to a symbol without a name. -/
theorem wellFormed_of_emits (hframe : Frame.assign q = .ok ctx.frame) (hnames : ctx.Names u)
    {op : Op Signature} {i : Instr} (h : ctx.Emits op i) (hnamed : i.destination? ≠ some []) :
    i.line.WellFormed u := by
  have hreg (r : Register) := r.isRegister_arg
  have hlow (r : Register) := r.isByteRegister_lowArg
  cases i with
  | load size src dst =>
    have hknown : src.Known u := by
      rcases h with hreach | ⟨-, -, proc, position, -, -, -, rfl⟩
      · exact known_of_reaches hframe hnames hreach
      · trivial
    have hmem := Memory.isMemory_arg hknown
    cases size with
    | byte =>
      exact Asm.wellFormed_binaryLine (.extend (.inl hmem) (hreg dst)) (Memory.defined_arg hknown)
        (dst.defined_arg u)
    | word =>
      exact Asm.wellFormed_binaryLine (.move (.inr (.inl hmem)) (hreg dst))
        (Memory.defined_arg hknown) (dst.defined_arg u)
  | store size src dst =>
    have hknown : dst.Known u := known_of_reaches hframe hnames h
    have hmem := Memory.isMemory_arg hknown
    cases size with
    | byte =>
      exact Asm.wellFormed_binaryLine (.storeByte (hlow src) hmem) (src.defined_lowArg u)
        (Memory.defined_arg hknown)
    | word =>
      exact Asm.wellFormed_binaryLine (.store (hreg src) hmem) (src.defined_arg u)
        (Memory.defined_arg hknown)
  | move src dst =>
    exact Asm.wellFormed_binaryLine (.move (.inl (hreg src)) (hreg dst)) (src.defined_arg u)
      (dst.defined_arg u)
  | constant value dst =>
    exact Asm.wellFormed_binaryLine (.move (.inr (.inr ⟨value, rfl⟩)) (hreg dst))
      (defined_ofImm value u) (dst.defined_arg u)
  | address src dst =>
    obtain ⟨hknown, hfixed⟩ := known_of_addresses hframe hnames h
    exact Asm.wellFormed_binaryLine (.address (Memory.isAddress_arg hknown hfixed) (hreg dst))
      (Memory.defined_arg hknown) (dst.defined_arg u)
  | widen reg =>
    exact Asm.wellFormed_binaryLine (.extend (.inr (hlow reg)) (hreg reg)) (reg.defined_lowArg u)
      (reg.defined_arg u)
  | arith op src dst =>
    have hop : op.mnemonic ∈ Asm.binaryOperations := by cases op <;> decide
    exact Asm.wellFormed_binaryLine (.binary hop (.inl (hreg src)) (hreg dst)) (src.defined_arg u)
      (dst.defined_arg u)
  | arithConst op value dst =>
    have hop : op.mnemonic ∈ Asm.binaryOperations := by cases op <;> decide
    exact Asm.wellFormed_binaryLine (.binary hop (.inr ⟨value, rfl⟩) (hreg dst))
      (defined_ofImm value u) (dst.defined_arg u)
  | negate reg | divide reg | push reg | pop reg =>
    exact Asm.wellFormed_unaryLine (.unary (by decide) (hreg reg)) (reg.defined_arg u)
  | set cond reg =>
    have hop : cond.mnemonic ∈ Asm.setOperations := by cases cond <;> decide
    exact Asm.wellFormed_unaryLine (.set hop (hlow reg)) (reg.defined_lowArg u)
  | jump l | jumpIfEqual l | call l =>
    have hl : l ≠ [] := fun hl => hnamed (congrArg some hl)
    exact Asm.wellFormed_unaryLine (.lead (by decide) ⟨l, hl, rfl⟩) (defined_ofLabel l u)
  | extendSign | ret | nop => exact Asm.wellFormed_plainLine (.plain (by decide))

end Emit.Context

/-! ## Symbols without a name -/

/-- Jumps to a label or calls a procedure that has no name. -/
def Op.Nameless : Op Signature → Prop
  | .goto target | .ifZero _ target => target = some []
  | .call callee => callee.name = []
  | _ => False

/-- There is no argument, but room for one. -/
theorem Machine.Instr.args_of_nameless {i : Instr} (h : i.destination? = some []) :
    i.line.op ∈ Asm.leadOperations ∧ i.line.arity = 1 ∧ i.line.args = [] := by
  cases i with
  | jump l | jumpIfEqual l | call l =>
    cases h
    exact ⟨by decide, rfl, rfl⟩
  | _ => cases h

namespace Emit.Context

variable {ctx : Context} {op : Op Signature}

/-- Code leads to a symbol without a name only for a quad that does. -/
theorem nameless_of_emits {i : Instr} (h : ctx.Emits op i) (hi : i.destination? = some []) :
    op.Nameless := by
  cases i with
  | jump l =>
    cases hi
    rw [show op = .goto (some []) from h]
    rfl
  | jumpIfEqual l =>
    cases hi
    obtain ⟨cond, rfl⟩ := h
    rfl
  | call l =>
    cases hi
    rcases h with ⟨callee, rfl, hname⟩ | ⟨service, -, hname⟩
    · exact hname.symm
    · have hnamed : [] ≠ service.name := by
        rcases service with channel | channel <;> cases channel <;> decide
      exact absurd hname hnamed
  | _ => cases hi

/-- The code of such a quad does. -/
theorem exists_of_nameless {block : List Instr} (h : ctx.codeOf op = .ok block)
    (hop : op.Nameless) : ∃ i ∈ block, i.destination? = some [] := by
  cases codes_of_codeOf h with
  | goto =>
    obtain rfl := Option.some.inj hop
    exact ⟨.jump [], List.mem_singleton_self _, rfl⟩
  | ifZero =>
    obtain rfl := Option.some.inj hop
    exact ⟨.jumpIfEqual [], by simp, rfl⟩
  | @call callee =>
    obtain ⟨rest, hrest⟩ := callCode_eq callee
    rw [hrest]
    exact ⟨_, List.mem_cons_self, congrArg some hop⟩
  | _ => cases hop

end Emit.Context

/-- Only instructions have operations. -/
theorem Machine.exists_instr_of_op {items : List Item} {l : Asm.Line}
    (hl : l ∈ items.map Item.line) (hop : l.op ≠ []) : ∃ i, .instr i ∈ items ∧ l = i.line := by
  obtain ⟨item, hitem, rfl⟩ := List.mem_map.1 hl
  cases item with
  | instr i => exact ⟨i, hitem, rfl⟩
  | label name | comment text => exact absurd rfl hop

/-- Every instruction of an assembly is as it should be, whatever the program is, unless it leads
to a symbol without a name. There it has no argument, although one is announced. This happens if and
only if the program has a quad that jumps to a label or calls a procedure without a name. -/
theorem instructions_wellFormed_unless_nameless {p : Program} {options : Options}
    {schedule : List TaskEvent} (hschedule : Group.Complete p.procedures.length schedule)
    {u : Asm.Assembly} (h : p.assemblyBy options schedule = .ok u) :
    (∀ fn ∈ u.functions, ∀ l ∈ fn.lines, l.op ≠ [] →
      l.WellFormed u ∨ l.op ∈ Asm.leadOperations ∧ l.arity = 1 ∧ l.args = []) ∧
    ((∃ fn ∈ u.functions, ∃ l ∈ fn.lines, l.op ≠ [] ∧ ¬ l.WellFormed u) ↔
      ∃ q ∈ p.procedures, ∃ quad ∈ q.body, quad.op.Nameless) := by
  obtain ⟨g, rs, -, hu, hall⟩ :=
    Program.parts_of_assemblyBy (fun _ hi => hschedule.finish_mem hi) h
  have hnames : u.dataLabels =
      g.labelledStrings.map (·.1) ++ g.vars.map fun v => globalLabel v.name := by
    rw [hu]
    simp [Asm.Assembly.dataLabels, Function.comp_def]
  have hfunctions : u.functions = rs.map Routine.function := by rw [hu]
  -- an instruction that is not as it should be leads to a symbol without a name
  have hline : ∀ fn ∈ u.functions, ∀ l ∈ fn.lines, l.op ≠ [] → l.WellFormed u ∨
      (∃ q ∈ p.procedures, ∃ quad ∈ q.body, quad.op.Nameless) ∧
        ∃ i : Instr, i.destination? = some [] ∧ l = i.line := by
    intro fn hfn l hl hop
    rw [hfunctions] at hfn
    obtain ⟨r, hr, rfl⟩ := List.mem_map.1 hfn
    obtain ⟨q, hq, ctx, rfl, hc⟩ := exists_of_forall₂ hall.flip hr
    obtain ⟨i, hi, rfl⟩ := exists_instr_of_op hl hop
    obtain ⟨quad, hquad, hemits⟩ := hc.emits hi
    by_cases hdest : i.destination? = some []
    · have hnameless := Context.nameless_of_emits hemits hdest
      refine .inr ⟨⟨q, hq, quad, ?_, hnameless⟩, i, hdest, rfl⟩
      rcases Procedure.mem_quads.1 hquad with rfl | hbody | rfl
      · cases hnameless
      · exact hbody
      · cases hnameless
    · exact .inl (Context.wellFormed_of_emits hc.frame hnames hemits hdest)
  refine ⟨fun fn hfn l hl hop => ?_, ?_, ?_⟩
  · refine (hline fn hfn l hl hop).imp_right ?_
    rintro ⟨-, i, hi, rfl⟩
    exact Instr.args_of_nameless hi
  · rintro ⟨fn, hfn, l, hl, hop, hbad⟩
    exact ((hline fn hfn l hl hop).resolve_left hbad).1
  · rintro ⟨q, hq, quad, hquad, hnameless⟩
    obtain ⟨r, hr, ctx, -, hc⟩ := exists_of_forall₂ hall hq
    obtain ⟨blocks, hlaid⟩ := Procedure.laid_of_itemsIn hc.items
    obtain ⟨block, hblock, hcode⟩ :=
      exists_of_forall₂ hlaid.code (Procedure.mem_quads.2 (.inr (.inl hquad)))
    obtain ⟨i, hi, hdest⟩ := Context.exists_of_nameless hcode hnameless
    have hmem : i ∈ instructions r.items :=
      hlaid.instructions ▸ List.mem_flatten.2 ⟨block, hblock, hi⟩
    obtain ⟨item, hitem, hinstr⟩ := List.mem_filterMap.1 hmem
    obtain rfl : item = .instr i := by
      cases item <;> cases hinstr
      rfl
    obtain ⟨hop, harity, hargs⟩ := Instr.args_of_nameless hdest
    refine ⟨r.function, hfunctions ▸ List.mem_map_of_mem hr, i.line,
      List.mem_map_of_mem (f := Item.line) hitem, ?_, fun hwell => ?_⟩
    · intro hempty
      rw [hempty] at hop
      revert hop
      decide
    · have hlength := hwell.arity
      rw [harity, hargs] at hlength
      cases hlength

open NamelessCall in
/-- A procedure without a name that calls itself has code, with a call of nothing. -/
theorem namelessCall_malformed : file.build = .ok program ∧
    ∃ u, program.assembly {} = .ok u ∧
      ∃ fn ∈ u.functions, ∃ l ∈ fn.lines, l.op ≠ [] ∧ ¬ l.WellFormed u := by
  obtain ⟨u, hu⟩ : ∃ u, program.assembly {} = .ok u := ⟨_, rfl⟩
  have hschedule : Group.Complete program.procedures.length (Group.inOrder 1) :=
    Group.complete_inOrder 1
  refine ⟨by rfl, u, hu, ?_⟩
  exact (instructions_wellFormed_unless_nameless hschedule hu).2.2
    ⟨nameless, List.mem_singleton_self _, _, List.mem_singleton_self _, rfl⟩

end QuadAsm
