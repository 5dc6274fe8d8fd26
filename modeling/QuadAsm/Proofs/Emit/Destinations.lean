import QuadAsm.Proofs.Emit.Footprint
import QuadAsm.Proofs.Emit.Program

/-!
# Where code leads to

Jumps and calls name the symbol they lead to. The code of a quad names the target or the callee of
the quad, or the routine that serves it, and nothing else (`Context.destinations_of_codeOf`), so the
symbols that a function names can be read off the quads (`Compiled.destinations`). A symbol without
a name cannot be written (`Instr.error?_text`).
-/

namespace QuadAsm

open Emit Layout Machine

/-! ## Instructions -/

namespace Machine

/-- The symbol that an instruction may lead to. -/
def Instr.destination? : Instr → Option Bytes
  | jump l | jumpIfEqual l | call l => some l
  | _ => none

/-- An instruction that goes on to the next line names no other place. -/
theorem Instr.destination?_of_isControl {i : Instr} (h : i.isControl = false) :
    i.destination? = none := by
  cases i <;> first | rfl | cases h

/-- The symbols that code names. -/
def destinations (code : List Instr) : List Bytes := code.filterMap Instr.destination?

@[simp] theorem destinations_append (a b : List Instr) :
    destinations (a ++ b) = destinations a ++ destinations b :=
  List.filterMap_append

/-- The destinations of blocks in a row are those of the blocks. -/
theorem destinations_flatten (blocks : List (List Instr)) :
    destinations blocks.flatten = blocks.flatMap destinations := by
  induction blocks with
  | nil => rfl
  | cons block rest ih => rw [List.flatten_cons, destinations_append, ih, List.flatMap_cons]

/-- Code that leads to the next line names no symbols. -/
@[simp] theorem Footprint.destinations {g : Globals} {room : Nat} {rs : List Register}
    {code : List Instr} (h : Footprint g room rs code) : destinations code = [] :=
  List.filterMap_eq_nil_iff.2 fun i hi => i.destination?_of_isControl (h i hi).control

end Machine

/-! ## Quads -/

/-- The symbols that a quad leads to. -/
def Op.destinations : Op Signature → List Bytes
  | .goto target | .ifZero _ target => target.toList
  | .call callee => [callee.name]
  | .output opd => [(Service.print opd.channel).name]
  | .input opd => [(Service.read opd.channel).name]
  | _ => []

/-- A quad after which the next one follows leads nowhere else. -/
theorem Op.destinations_of_isStraight {op : Op Signature} (h : op.isStraight = true) :
    op.destinations = [] := by
  cases op <;> first | rfl | cases h

namespace Emit.Context

variable {ctx : Context} {q : Procedure}

/-- Moving the stack pointer leads nowhere. -/
theorem destinations_adjustStack (op : Arith) : destinations (ctx.adjustStack op) = [] := by
  unfold adjustStack
  split <;> rfl

/-- The code of a quad leads where the quad does. -/
theorem destinations_of_codeOf (hframe : Frame.assign q = .ok ctx.frame)
    (hsym : ∀ v ∈ ctx.globals.vars, v.form ≠ .pointer) {op : Op Signature} {block : List Instr}
    (h : ctx.codeOf op = .ok block) : destinations block = op.destinations := by
  by_cases hop : op.isStraight = true
  · rw [(footprint_of_codeOf hframe hsym h hop).destinations, op.destinations_of_isStraight hop]
  cases codes_of_codeOf h with
  | goto => rfl
  | ifZero hload =>
    rw [destinations_append, (footprint_of_loadValue hload).destinations]
    rfl
  | call =>
    unfold callCode
    split <;> rfl
  | enter hmoves =>
    rw [destinations_append, destinations_append, destinations_adjustStack,
      (footprint_of_receive hframe hmoves).destinations]
    rfl
  | leave =>
    rw [leaveCode, destinations_append, destinations_adjustStack]
    rfl
  | output hload =>
    rw [destinations_append, (footprint_of_loadValue hload).destinations]
    rfl
  | input hstore =>
    rw [← List.singleton_append, destinations_append,
      (footprint_of_storeValue hframe hstore).destinations]
    rfl
  | binary | unary | assign | addrOf | nop | setArg | pushArg | getArg | setRet | getRet =>
    exact (hop rfl).elim

end Emit.Context

/-- A function leads where the quads of its procedure do. -/
theorem Emit.Compiled.destinations {f : Source.File} {p : Program} {q : Procedure} {ctx : Context}
    {r : Routine} (hc : Compiled p q ctx r) (hbuild : f.build = .ok p) :
    Machine.destinations (instructions r.items) = q.quads.flatMap (·.op.destinations) := by
  obtain ⟨blocks, hcode, hinstructions, -⟩ := Procedure.laid_of_itemsIn hc.items
  rw [hinstructions, destinations_flatten]
  clear hinstructions
  generalize q.quads = quads at hcode ⊢
  induction hcode with
  | nil => rfl
  | cons hblock _ ih =>
    rw [List.flatMap_cons, List.flatMap_cons, ih,
      Context.destinations_of_codeOf hc.frame (hc.form_ne_pointer hbuild) hblock]

/-! ## Lines -/

namespace Asm

/-- An argument with a register can be written. -/
theorem Arg.error?_text_of_reg {a : Arg} (h : a.reg ≠ []) : error? a.text = none := by
  unfold Arg.text
  rw [if_pos (by simpa using h)]
  split_ifs <;> rfl

end Asm

namespace Machine

/-- Every register has a name. -/
theorem Register.fullName_ne_nil (r : Register) : r.fullName ≠ [] := by
  cases r <;> decide

/-- The low byte of every register has a name. -/
theorem Register.lowName_ne_nil (r : Register) : r.lowName ≠ [] := by
  cases r <;> decide

/-- Memory is always named with a register. -/
theorem Memory.reg_arg_ne_nil (m : Memory) : m.arg.reg ≠ [] := by
  cases m with
  | base reg offset => exact reg.fullName_ne_nil
  | data label => exact (by decide : ("rip" : Bytes) ≠ [])

@[simp] theorem Register.error?_text_arg (r : Register) : error? r.arg.text = none :=
  Asm.Arg.error?_text_of_reg r.fullName_ne_nil

@[simp] theorem Register.error?_text_lowArg (r : Register) : error? r.lowArg.text = none :=
  Asm.Arg.error?_text_of_reg r.lowName_ne_nil

@[simp] theorem Memory.error?_text_arg (m : Memory) : error? m.arg.text = none :=
  Asm.Arg.error?_text_of_reg m.reg_arg_ne_nil

@[simp] theorem Memory.error?_text_asAddress (m : Memory) : error? m.arg.asAddress.text = none :=
  Asm.Arg.error?_text_of_reg m.reg_arg_ne_nil

@[simp] theorem error?_text_ofImm (value : Int64) : error? (Asm.Arg.ofImm value).text = none := rfl

/-- A label can be written unless it is empty. -/
theorem error?_text_ofLabel (label : Bytes) :
    error? (Asm.Arg.ofLabel label).text = if label = [] then some .emptyArgument else none := by
  cases label <;> rfl

/-- An instruction without arguments can be written. -/
theorem error?_text_plainLine (op : Bytes) : error? (plainLine op).text = none := by
  cases op <;> rfl

/-- An instruction with one argument can be written if the argument can. -/
theorem error?_text_unaryLine {op : Bytes} (h : op ≠ []) (arg : Asm.Arg) :
    error? (unaryLine op arg).text = error? arg.text := by
  obtain ⟨c, rest, rfl⟩ := List.exists_cons_of_ne_nil h
  cases ht : arg.text <;> simp [unaryLine, Asm.Line.text, Asm.Line.instructionText, ht]

/-- An instruction with two arguments fails as the first of them that cannot be written. -/
theorem error?_text_binaryLine {op : Bytes} (h : op ≠ []) (arg1 arg2 : Asm.Arg) :
    error? (binaryLine op arg1 arg2).text = (error? arg1.text).or (error? arg2.text) := by
  obtain ⟨c, rest, rfl⟩ := List.exists_cons_of_ne_nil h
  cases ht : arg1.text <;> cases ht' : arg2.text <;>
    simp [binaryLine, Asm.Line.text, Asm.Line.instructionText, ht, ht']

/-- Every arithmetic instruction has a name. -/
theorem Arith.mnemonic_ne_nil (op : Arith) : op.mnemonic ≠ [] := by
  cases op <;> decide

/-- Every instruction that takes the result of a comparison has a name. -/
theorem Condition.mnemonic_ne_nil (cond : Condition) : cond.mnemonic ≠ [] := by
  cases cond <;> decide

/-- An instruction can be written, unless it leads to a symbol without a name. -/
theorem Instr.error?_text (i : Instr) :
    error? i.line.text = if i.destination? = some [] then some .emptyArgument else none := by
  cases i with
  | load size src dst | store size src dst =>
    cases size <;>
      simp (disch := decide) [Instr.line, Instr.destination?, error?_text_binaryLine]
  | move | constant | address | widen =>
    simp (disch := decide) [Instr.line, Instr.destination?, error?_text_binaryLine]
  | arith op | arithConst op =>
    simp [Instr.line, Instr.destination?, error?_text_binaryLine op.mnemonic_ne_nil]
  | negate | divide | push | pop | jump | jumpIfEqual | call =>
    simp (disch := decide) [Instr.line, Instr.destination?, error?_text_unaryLine,
      error?_text_ofLabel]
  | set cond =>
    simp [Instr.line, Instr.destination?, error?_text_unaryLine cond.mnemonic_ne_nil]
  | extendSign | ret | nop => simp [Instr.line, Instr.destination?, error?_text_plainLine]

end Machine

end QuadAsm
