import QuadAsm.Proofs.Arguments.Pass
import QuadAsm.Proofs.Emit.Footprint
import QuadAsm.Proofs.Emit.Program

/-!
# Arguments on the way to a call

Between the quad that passes an argument in a register and the call there may be other work. The
code of most operators works in `rax`, which is the register of the second argument, and division
works in `rdx` as well, which is that of the third. So the second argument does not survive any such
work and the third does not survive a division (`Op.disturbs`), while the others always do. Main
result: what the register of an argument holds at the call (`argument_at_call`).
-/

namespace QuadAsm

open Emit Layout Machine

/-! ## What work leaves behind -/

/-- What the code of an operator makes of `rax`, where its left operand is. -/
def BinOp.leaves : BinOp → Word → Word → Word
  | .sub, a, b => a - b
  | .mult, a, b => a * b
  | .div, a, b => BitVec.ofInt 64 (a.toInt.tdiv b.toInt)
  | _, a, _ => a

/-- What the code of an operator makes of `rax`, where its operand is. -/
def UnOp.leaves : UnOp → Word → Word
  | .neg, a => -a
  | .not, a => a ^^^ 1
  | _, a => a

/-- What the code of a quad leaves in a register that it works in, if it starts with the processor
`c`. -/
def Emit.Context.residue (ctx : Context) (data : Bytes → Word) (c : Cpu) (reg : Register) :
    Op Signature → Option Word :=
  let value := ctx.valueOf data (c.regs .rbp) c.ram
  fun op => match reg, op with
    | .rax, .binary op src1 src2 _ => some (op.leaves (value src1) (value src2))
    | .rax, .unary op src _ => some (op.leaves (value src))
    | .rax, .assign src _ => some (value src)
    | .rax, .addrOf src _ => some (ctx.target data (c.regs .rbp) c.ram src)
    | .rdx, .binary .div src1 src2 _ =>
      some (BitVec.ofInt 64 ((value src1).toInt.tmod (value src2).toInt))
    | _, _ => none

/-- Whether the code of a quad works in the register of the argument at a position. -/
def Op.disturbs (i : Int) : Op Signature → Bool
  | .binary .div _ _ _ => i = 2 ∨ i = 3
  | .binary .. | .unary .. | .assign .. | .addrOf .. => i = 2
  | _ => false

/-- Whether a quad may come between the argument at a position and the call: it computes something,
or it passes another argument. -/
def Op.comesBetween (i : Int) : Op Signature → Bool
  | .binary .. | .unary .. | .assign .. | .addrOf .. | .nop => true
  | .setArg j _ => j ≠ i
  | _ => false

/-- What comes between the arguments of a call does not jump. -/
theorem Op.isStraight_of_comesBetween {i : Int} {op : Op Signature} (h : op.comesBetween i = true) :
    op.isStraight = true := by
  cases op with
  | binary | unary | assign | addrOf | nop | setArg => rfl
  | _ => cases h

/-- A quad that changes the register of an argument disturbs it, unless it passes the argument. -/
theorem Op.disturbs_of_mem_clobbers {i : Int} {reg : Register}
    (hreg : Register.ofArgument? i = some reg) {op : Op Signature} (hop : op.comesBetween i = true)
    (hmem : reg ∈ op.clobbers) : op.disturbs i = true := by
  have harg := Register.mem_arguments hreg
  have hrax (h : reg = .rax) : i = 2 := Register.ofArgument?_inj hreg (h ▸ rfl)
  have hrdx (h : reg = .rdx) : i = 3 := Register.ofArgument?_inj hreg (h ▸ rfl)
  have hcopy : ∀ r ∈ Register.arguments, r ∈ [.rax, .scratch] → r = .rax := by decide
  have hwork : ∀ r ∈ Register.arguments, r ∈ [.rax, .r10, .scratch] → r = .rax := by decide
  have hdivide : ∀ r ∈ Register.arguments, r ∈ [.rax, .r10, .rdx, .scratch] → r = .rax ∨ r = .rdx :=
    by decide
  cases op with
  | binary op src1 src2 dst =>
    cases op with
    | div => exact decide_eq_true ((hdivide reg harg hmem).imp hrax hrdx)
    | _ => exact decide_eq_true (hrax (hwork reg harg hmem))
  | unary | assign | addrOf => exact decide_eq_true (hrax (hcopy reg harg hmem))
  | nop => cases hmem
  | setArg j opd =>
    have hne : j ≠ i := of_decide_eq_true hop
    rw [clobbers] at hmem
    cases hj : Register.ofArgument? j with
    | some reg' =>
      rw [hj] at hmem
      cases List.mem_singleton.1 hmem
      exact absurd (Register.ofArgument?_inj hj hreg) hne
    | none =>
      rw [hj] at hmem
      obtain ⟨hrsp, -, hscratch⟩ := Register.ofArgument?_ne hreg
      simp [hrsp, hscratch] at hmem
  | _ => cases hop

namespace Emit

/-- The code of an operator leaves something in `rax`, and division the remainder in `rdx`. -/
theorem combine_leaves {data : Bytes → Word} {op : BinOp} {work : List Instr} {result : Register}
    (h : combine op = .ok (work, result)) {c c' : Cpu} (he : execAll data work c = some c') :
    c'.regs .rax = op.leaves (c.regs .rax) (c.regs .r10) ∧
      (op = .div → c'.regs .rdx
        = BitVec.ofInt 64 ((c.regs .rax).toInt.tmod (c.regs .r10).toInt)) := by
  cases op with
  | add | and | or | sub | mult =>
    cases h
    cases he
    exact ⟨rfl, fun hdiv => by cases hdiv⟩
  | div =>
    cases h
    have hd : (c.set .rdx (signWord (c.regs .rax))).dividend = (c.regs .rax).toInt := by
      simp [Cpu.dividend, toInt_signWord_append]
    obtain ⟨c₁, hc₁, he⟩ := Option.bind_eq_some_iff.1 he
    cases hc₁
    obtain ⟨c₂, hc₂, he⟩ := Option.bind_eq_some_iff.1 he
    cases he
    simp only [Instr.exec, Cpu.divide, hd] at hc₂
    split at hc₂
    · cases hc₂
    · cases hc₂
      exact ⟨rfl, fun _ => rfl⟩
  | eq | neq | lt | gt | lte | gte =>
    cases h
    cases he
    exact ⟨rfl, fun hdiv => by cases hdiv⟩
  | unknown code => cases h

/-- The same for an operator with one source. -/
theorem change_leaves {data : Bytes → Word} {op : UnOp} {work : List Instr}
    (h : change op = .ok work) {c c' : Cpu} (he : execAll data work c = some c') :
    c'.regs .rax = op.leaves (c.regs .rax) := by
  cases op with
  | copy | neg | not =>
    cases h
    cases he
    rfl
  | unknown code => cases h

namespace Context

variable {ctx : Context} {q : Procedure} {data : Bytes → Word} {i : Int} {reg : Register}

/-- The code of a quad leaves the register of an argument as it was, if it does not disturb it. -/
theorem regs_of_not_disturbs (hframe : Frame.assign q = .ok ctx.frame)
    (hsym : ∀ v ∈ ctx.globals.vars, v.form ≠ .pointer)
    (hreg : Register.ofArgument? i = some reg) {op : Op Signature} {block : List Instr}
    (hcode : ctx.codeOf op = .ok block) (hop : op.comesBetween i = true)
    (hquiet : op.disturbs i = false) {c c' : Cpu} (he : execAll data block c = some c') :
    c'.regs reg = c.regs reg := by
  refine (footprint_of_codeOf hframe hsym hcode (Op.isStraight_of_comesBetween hop)).regs he ?_
  intro hmem
  rw [Op.disturbs_of_mem_clobbers hreg hop hmem] at hquiet
  cases hquiet

/-- The code of a binary operator leaves in its registers what the operator leaves there. -/
theorem binary_leaves (hframe : Frame.assign q = .ok ctx.frame) {op : BinOp}
    {src1 src2 dst : Operand} {code : List Instr}
    (h : ctx.codeOf (.binary op src1 src2 dst) = .ok code) {c c' : Cpu}
    (he : execAll data code c = some c') :
    c'.regs .rax = op.leaves (ctx.valueOf data (c.regs .rbp) c.ram src1)
        (ctx.valueOf data (c.regs .rbp) c.ram src2) ∧
      (op = .div → c'.regs .rdx
        = BitVec.ofInt 64 ((ctx.valueOf data (c.regs .rbp) c.ram src1).toInt.tmod
          (ctx.valueOf data (c.regs .rbp) c.ram src2).toInt)) := by
  cases codes_of_codeOf h with
  | binary hleft hright hwork hstore =>
    rw [execAll_append, execAll_append, execAll_append, loadValue_exec data hleft,
      Option.bind_some, loadValue_exec data hright, Option.bind_some,
      Option.bind_eq_some_iff] at he
    obtain ⟨c₃, he₃, he⟩ := he
    have hleaves := combine_leaves hwork he₃
    have hregs {r : Register} (hr : r ∉ [.scratch]) : c'.regs r = c₃.regs r :=
      (footprint_of_storeValue hframe hstore).regs he hr
    rw [hregs (r := .rax) (by decide), hregs (r := .rdx) (by decide)]
    simpa using hleaves

/-- The code of a unary operator leaves in `rax` what the operator leaves there. -/
theorem unary_leaves (hframe : Frame.assign q = .ok ctx.frame) {op : UnOp} {src dst : Operand}
    {code : List Instr} (h : ctx.codeOf (.unary op src dst) = .ok code) {c c' : Cpu}
    (he : execAll data code c = some c') :
    c'.regs .rax = op.leaves (ctx.valueOf data (c.regs .rbp) c.ram src) := by
  cases codes_of_codeOf h with
  | unary hload hwork hstore =>
    rw [execAll_append, execAll_append, loadValue_exec data hload, Option.bind_some,
      Option.bind_eq_some_iff] at he
    obtain ⟨c₂, he₂, he⟩ := he
    rw [(footprint_of_storeValue hframe hstore).regs he (by decide), change_leaves hwork he₂,
      Cpu.set_regs_self]

/-- The code of a copy leaves the value in `rax`. -/
theorem assign_leaves (hframe : Frame.assign q = .ok ctx.frame) {src dst : Operand}
    {code : List Instr} (h : ctx.codeOf (.assign src dst) = .ok code) {c c' : Cpu}
    (he : execAll data code c = some c') :
    c'.regs .rax = ctx.valueOf data (c.regs .rbp) c.ram src := by
  cases codes_of_codeOf h with
  | assign hload hstore =>
    rw [execAll_append, loadValue_exec data hload, Option.bind_some] at he
    rw [(footprint_of_storeValue hframe hstore).regs he (by decide), Cpu.set_regs_self]

/-- The code that sets a pointer leaves the address in `rax`. -/
theorem addrOf_leaves {src dst : Operand} {code : List Instr}
    (h : ctx.codeOf (.addrOf src dst) = .ok code) {c c' : Cpu}
    (he : execAll data code c = some c') :
    c'.regs .rax = ctx.target data (c.regs .rbp) c.ram src := by
  cases codes_of_codeOf h with
  | addrOf hload hstore =>
    obtain ⟨v, rfl, -, -, he₂⟩ := storeAddress_exec data hstore
      (c.set .rax (ctx.target data (c.regs .rbp) c.ram src))
    rw [execAll_append, loadAddress_exec data hload, Option.bind_some, he₂] at he
    cases he
    rw [Cpu.poke_regs, Cpu.set_regs_self]

/-- The code of a quad leaves its residue in the register of an argument that it disturbs. -/
theorem residue_of_disturbs (hframe : Frame.assign q = .ok ctx.frame)
    (hreg : Register.ofArgument? i = some reg) {op : Op Signature} {block : List Instr}
    (hcode : ctx.codeOf op = .ok block) (hdisturbs : op.disturbs i = true) {c c' : Cpu}
    (he : execAll data block c = some c') : ctx.residue data c reg op = some (c'.regs reg) := by
  have hsecond (h : i = 2) : reg = .rax := by
    subst h
    exact (Option.some.inj hreg).symm
  have hthird (h : i = 3) : reg = .rdx := by
    subst h
    exact (Option.some.inj hreg).symm
  cases op with
  | binary op src1 src2 dst =>
    obtain ⟨hrax, hrdx⟩ := binary_leaves hframe hcode he
    cases op with
    | div =>
      rcases of_decide_eq_true hdisturbs with hi | hi
      · rw [hsecond hi, hrax]
        rfl
      · rw [hthird hi, hrdx rfl]
        rfl
    | _ =>
      rw [hsecond (of_decide_eq_true hdisturbs), hrax]
      rfl
  | unary op src dst =>
    rw [hsecond (of_decide_eq_true hdisturbs), unary_leaves hframe hcode he]
    rfl
  | assign src dst =>
    rw [hsecond (of_decide_eq_true hdisturbs), assign_leaves hframe hcode he]
    rfl
  | addrOf src dst =>
    rw [hsecond (of_decide_eq_true hdisturbs), addrOf_leaves hcode he]
    rfl
  | _ => cases hdisturbs

/-- Several quads that do not disturb the register of an argument leave it as it was. -/
theorem regs_of_forall_not_disturbs (hframe : Frame.assign q = .ok ctx.frame)
    (hsym : ∀ v ∈ ctx.globals.vars, v.form ≠ .pointer)
    (hreg : Register.ofArgument? i = some reg) {quads : List Quad} {blocks : List (List Instr)}
    (hcode : List.Forall₂ (fun quad block => ctx.codeOf quad.op = .ok block) quads blocks)
    (hquads : ∀ quad ∈ quads, quad.op.comesBetween i = true)
    (hquiet : ∀ quad ∈ quads, quad.op.disturbs i = false) {c c' : Cpu}
    (he : execAll data blocks.flatten c = some c') : c'.regs reg = c.regs reg := by
  induction hcode generalizing c with
  | nil =>
    cases he
    rfl
  | cons hblock _ ih =>
    rw [List.flatten_cons, execAll_append, Option.bind_eq_some_iff] at he
    obtain ⟨c₁, he₁, he⟩ := he
    obtain ⟨hquad, hquads⟩ := List.forall_mem_cons.1 hquads
    obtain ⟨hfirst, hquiet⟩ := List.forall_mem_cons.1 hquiet
    rw [ih hquads hquiet he, regs_of_not_disturbs hframe hsym hreg hblock hquad hfirst he₁]

/-- An argument that was passed is still there after quads that do not disturb it. -/
theorem regs_of_passed (hframe : Frame.assign q = .ok ctx.frame)
    (hsym : ∀ v ∈ ctx.globals.vars, v.form ≠ .pointer)
    (hreg : Register.ofArgument? i = some reg) {pass : Quad} {x : Operand}
    (hpass : pass.op = .setArg i x) {quads : List Quad} {blocks : List (List Instr)}
    (hcode : List.Forall₂ (fun quad block => ctx.codeOf quad.op = .ok block) (pass :: quads) blocks)
    (hquads : ∀ quad ∈ quads, quad.op.comesBetween i = true)
    (hquiet : ∀ quad ∈ quads, quad.op.disturbs i = false) {c c' : Cpu}
    (he : execAll data blocks.flatten c = some c') :
    c'.regs reg = ctx.valueOf data (c.regs .rbp) c.ram x := by
  cases hcode with
  | cons hload hcode =>
    rw [hpass] at hload
    obtain ⟨-, hset⟩ := setArg_exec data hload c
    rw [List.flatten_cons, execAll_append, hset, hreg, Option.bind_some] at he
    rw [regs_of_forall_not_disturbs hframe hsym hreg hcode hquads hquiet he, Cpu.set_regs_self]

/-- After several quads there is what the last one that disturbs the register has left there. -/
theorem exists_residue (hframe : Frame.assign q = .ok ctx.frame)
    (hsym : ∀ v ∈ ctx.globals.vars, v.form ≠ .pointer)
    (hreg : Register.ofArgument? i = some reg) {earlier later : List Quad} {quad : Quad}
    {blocks : List (List Instr)}
    (hcode : List.Forall₂ (fun quad block => ctx.codeOf quad.op = .ok block)
      (earlier ++ quad :: later) blocks)
    (hlater : ∀ next ∈ later, next.op.comesBetween i = true)
    (hdisturbs : quad.op.disturbs i = true)
    (hquiet : ∀ next ∈ later, next.op.disturbs i = false) {c c' : Cpu}
    (he : execAll data blocks.flatten c = some c') :
    ∃ before after c₁, blocks = before ++ after ∧ before.length = earlier.length ∧
      execAll data before.flatten c = some c₁ ∧
      ctx.residue data c₁ reg quad.op = some (c'.regs reg) := by
  obtain ⟨before, after, rfl, hbefore, hafter⟩ := append_of_forall₂ hcode
  rw [List.flatten_append, execAll_append, Option.bind_eq_some_iff] at he
  obtain ⟨c₁, he₁, he⟩ := he
  refine ⟨before, after, c₁, rfl, hbefore.length_eq.symm, he₁, ?_⟩
  cases hafter with
  | cons hblock hrest =>
    rw [List.flatten_cons, execAll_append, Option.bind_eq_some_iff] at he
    obtain ⟨c₂, he₂, he⟩ := he
    rw [regs_of_forall_not_disturbs hframe hsym hreg hrest hlater hquiet he]
    exact residue_of_disturbs hframe hreg hblock hdisturbs he₂

/-- Quads that lead straight on have code that leads straight on. -/
theorem isControl_of_forall_isStraight (hframe : Frame.assign q = .ok ctx.frame)
    (hsym : ∀ v ∈ ctx.globals.vars, v.form ≠ .pointer) {quads : List Quad}
    {blocks : List (List Instr)}
    (hcode : List.Forall₂ (fun quad block => ctx.codeOf quad.op = .ok block) quads blocks)
    (hquads : ∀ quad ∈ quads, quad.op.isStraight = true) :
    ∀ instr ∈ blocks.flatten, instr.isControl = false := by
  induction hcode with
  | nil => exact List.forall_mem_nil _
  | cons hblock _ ih =>
    obtain ⟨hquad, hquads⟩ := List.forall_mem_cons.1 hquads
    rw [List.flatten_cons]
    exact List.forall_mem_append.2
      ⟨fun instr hi => (footprint_of_codeOf hframe hsym hblock hquad instr hi).control, ih hquads⟩

end Context

end Emit

/-! ## Up to the call -/

/-- A quad passes an argument in a register: quad number `k` of the procedure passes the operand `x`
at position `i`, then come the quads `between`, and then the call. -/
structure Procedure.Passes (q : Procedure) (k : Nat) (i : Int) (x : Operand) (between : List Quad)
    (callee : Signature) : Prop where
  quads : ∃ l l' rest,
    q.quads.drop k = ⟨l, .setArg i x⟩ :: between ++ ⟨l', .call callee⟩ :: rest
  low : 1 ≤ i
  high : i ≤ registerArguments
  between : ∀ quad ∈ between, quad.op.comesBetween i = true

namespace Procedure.Passes

variable {q : Procedure} {k : Nat} {i : Int} {x : Operand} {between : List Quad}
  {callee : Signature}

/-- The argument has a register. -/
theorem exists_register (h : q.Passes k i x between callee) :
    ∃ reg, Register.ofArgument? i = some reg := by
  refine Option.ne_none_iff_exists'.1 fun hnone => ?_
  obtain ⟨n, rfl⟩ := Int.eq_ofNat_of_zero_le (Int.le_trans (by decide) h.low)
  have hlow := h.low
  have hhigh := h.high
  have habove := (Register.ofArgument?_eq_none (by omega)).1 hnone
  omega

/-- The code from the argument on stands before the instruction that calls. -/
theorem exists_work (h : q.Passes k i x between callee) {ctx : Context} {img : Image} {e : Nat}
    {blocks : List (List Instr)} (hplaced : q.Placed ctx img e blocks) :
    ∃ pass work rest, pass.op = .setArg i x ∧
      List.Forall₂ (fun quad block => ctx.codeOf quad.op = .ok block) (pass :: between) work ∧
      img.Holds (e + start blocks k) (work.flatten ++ .call callee.name :: rest) ∧
      ∀ m ≤ work.length, start blocks (k + m) = start blocks k + start work m := by
  obtain ⟨l, l', rest, hquads⟩ := h.quads
  have hcode := List.forall₂_drop k hplaced.code
  rw [hquads] at hcode
  obtain ⟨work, others, hdrop, hwork, hothers⟩ := append_of_forall₂ hcode
  cases hothers with
  | cons hcall _ =>
    obtain ⟨tail, htail⟩ := callCode_eq callee
    cases hcall
    have hholds := hplaced.holds.drop k
    rw [hdrop, List.flatten_append, List.flatten_cons, htail] at hholds
    refine ⟨_, work, _, rfl, hwork, hholds, fun m hm => ?_⟩
    rw [start_add, hdrop, start_append_left hm]

end Procedure.Passes

/-- What the register of an argument holds at the call. Take a procedure of a program that was built
from a file and compiled, wherever its code stands, a quad that passes an argument in a register,
and between it and the next call only quads that compute something or pass other arguments. Let the
machine come from that quad to the instruction that calls.

If none of the quads between works in the register, it holds the value that the operand had when it
was passed: so it does for every argument but the second and the third, for the second if there is
nothing between but other arguments and empty quads, and for the third if there is no division.
Otherwise the argument is lost: the register holds what the last quad that works in it has left
there. -/
theorem argument_at_call {f : Source.File} {p : Program} {options : Options} {a : Asm.Assembly}
    (hbuild : f.build = .ok p) (hasm : p.assembly options = .ok a) {q : Procedure}
    (hq : q ∈ p.procedures) :
    ∃ ctx r, Compiled p q ctx r ∧ r.function ∈ a.functions ∧
      ∀ (P : Process) (e : Nat) (blocks : List (List Instr)) (k : Nat) (i : Int) (x : Operand)
        (between : List Quad) (callee : Signature),
        q.Placed ctx P.image e blocks → q.Passes k i x between callee →
        ∃ reg, Register.ofArgument? i = some reg ∧
          ∀ (s s' : State) (n : Nat), s.pc = e + start blocks k →
            P.Arrives s (e + start blocks (k + (1 + between.length))) n s' →
            P.image.code[s'.pc]? = some (.call callee.name) ∧
            ((∀ quad ∈ between, quad.op.disturbs i = false) →
              s'.cpu.regs reg = ctx.valueOf P.data (s.cpu.regs .rbp) s.cpu.ram x) ∧
            ∀ earlier quad later, between = earlier ++ quad :: later →
              quad.op.disturbs i = true → (∀ next ∈ later, next.op.disturbs i = false) →
              ∃ m t, m ≤ n ∧ P.run m s = some t ∧
                t.pc = e + start blocks (k + (1 + earlier.length)) ∧
                ctx.residue P.data t.cpu reg quad.op = some (s'.cpu.regs reg) := by
  obtain ⟨g, rs, -, hfuns, hall⟩ := Program.compiled_of_assembly hasm
  obtain ⟨r, hr, ctx, -, hc⟩ := exists_of_forall₂ hall hq
  have hsym := hc.form_ne_pointer hbuild
  refine ⟨ctx, r, hc, hfuns ▸ List.mem_map_of_mem hr,
    fun P e blocks k i x between callee hplaced h => ?_⟩
  obtain ⟨reg, hreg⟩ := h.exists_register
  obtain ⟨pass, work, rest, hpass, hwork, hholds, hstart⟩ := h.exists_work hplaced
  refine ⟨reg, hreg, fun s s' n hs harrives => ?_⟩
  have hlen : 1 + between.length = work.length := by
    rw [← hwork.length_eq, List.length_cons, Nat.add_comm]
  rw [hlen, hstart _ (Nat.le_refl _), start_length, ← Nat.add_assoc, ← hs] at harrives
  rw [← hs] at hholds
  have hstraight : ∀ quad ∈ pass :: between, quad.op.isStraight = true :=
    List.forall_mem_cons.2
      ⟨hpass ▸ rfl, fun quad hquad => Op.isStraight_of_comesBetween (h.between quad hquad)⟩
  obtain ⟨hn, he⟩ := harrives.straight hholds.left
    (Context.isControl_of_forall_isStraight hc.frame hsym hwork hstraight)
  refine ⟨?_, fun hquiet => ?_, fun earlier quad later hbetween hdisturbs hquiet => ?_⟩
  · rw [harrives.pc]
    exact hholds.right.head
  · exact Context.regs_of_passed hc.frame hsym hreg hpass hwork h.between hquiet he
  · have hlater : ∀ next ∈ later, next.op.comesBetween i = true :=
      fun next hnext => h.between next (by simp [hbetween, hnext])
    rw [hbetween] at hwork
    have hcode : List.Forall₂ (fun quad block => ctx.codeOf quad.op = .ok block)
        ((pass :: earlier) ++ quad :: later) work := hwork
    obtain ⟨before, after, c₁, rfl, hcount, he₁, hresidue⟩ :=
      Context.exists_residue hc.frame hsym hreg hcode hlater hdisturbs hquiet he
    rw [List.flatten_append, List.append_assoc] at hholds
    refine ⟨_, _, ?_, Process.run_block hholds.left he₁, ?_, hresidue⟩
    · rw [hn, List.flatten_append, List.length_append]
      exact Nat.le_add_right _ _
    · rw [Nat.add_comm 1, ← List.length_cons (a := pass), ← hcount, hstart _ (by simp),
        start_append_left (Nat.le_refl _), start_length, hs, Nat.add_assoc]

namespace LostArgument

/-- A program that sets a variable after it has passed the second argument. -/
def file : Source.File where
  procedures := [
    { name := "main"
      locals := [{ name := "x" }]
      body := [{ op := "setarg", index := 2, src := some { int := some 5 } },
        { op := "setarg", index := 1, src := some { int := some 4 } },
        { op := "assign", src := some { int := some 9 }, dst := some { name := "x" } },
        { op := "call", callee := "f" }] },
    { name := "f", formals := [{ name := "a" }, { name := "b" }] }]

def x : Variable := ⟨0, .symbol, "x", 8, .int⟩

def f : Procedure where
  name := "f"
  formals := [⟨1, .symbol, "a", 8, .int⟩, ⟨2, .symbol, "b", 8, .int⟩]

/-- What comes between the second argument and the call. -/
def between : List Quad := [⟨[], .setArg 1 (.lit (.int 4))⟩, ⟨[], .assign (.lit (.int 9)) x⟩]

def main : Procedure where
  name := "main"
  locals := [x]
  body := ⟨[], .setArg 2 (.lit (.int 5))⟩ :: between ++ [⟨[], .call f.signature⟩]

/-- The program. -/
def program : Program := ⟨[], [], [main, f]⟩

/-- The setting of the caller. -/
def ctx : Context := ⟨⟨[], []⟩, ⟨"main", [⟨x, .local, -16⟩], 16⟩, 0⟩

/-- The code of the caller. -/
def blocks : List (List Instr) :=
  [[.push .rbp, .move .rsp .rbp, .arithConst .add 8 .rbp, .arithConst .sub 16 .rsp],
    [.constant 5 .rax], [.constant 4 .rdi],
    [.constant 9 .rax, .store .word .rax (.base .rbp (-16))], [.call "f"],
    [.arithConst .add 16 .rsp, .pop .rbp, .ret]]

def process : Process where
  image := { code := blocks.flatten, label := fun _ => none, entry := fun _ => none }
  data _ := 0
  place _ := 0
  serve _ _ c := c

/-- A machine that comes to the second argument. -/
def state : State where
  cpu := {
    regs := fun r => if r = .rbp then 8192 else 8168
    kept := fun _ => 0
    ram := fun _ => 0
    compared := none }
  pc := 4
  trace := []

/-- The code of the procedure starts the image. -/
theorem placed : main.Placed ctx process.image 0 blocks := by
  refine ⟨.cons rfl (.cons rfl (.cons rfl (.cons rfl (.cons rfl (.cons rfl .nil))))),
    List.prefix_rfl, fun l k hk => ?_⟩
  have hlabels : ∀ quad ∈ main.quads, quad.labels = [] := by decide
  obtain ⟨hlt, hmem, -⟩ := List.findIdx?_eq_some_iff_getElem.1 hk
  rw [decide_eq_true_iff, hlabels _ (List.getElem_mem hlt)] at hmem
  cases hmem

/-- The literal is passed, and nothing between it and the call undoes that. -/
theorem passes : main.Passes 1 2 (.lit (.int 5)) between f.signature :=
  ⟨⟨[], [], _, rfl⟩, by decide, by decide, by decide⟩

/-- The machine comes to the call after four steps. -/
theorem exists_arrives : ∃ s', process.Arrives state 8 4 s' := by
  have hpcs : ∀ m ≤ 4, (process.run m state).map (·.pc) = some (4 + m) := by decide +kernel
  obtain ⟨s', hrun, hpc⟩ := Option.map_eq_some_iff.1 (hpcs 4 (Nat.le_refl 4))
  refine ⟨s', hrun, hpc, fun m t hm ht => ?_⟩
  have hbefore := hpcs m (Nat.le_of_lt hm)
  rw [ht, Option.map_some, Option.some.injEq] at hbefore
  omega

end LostArgument

open LostArgument in
/-- At the call, the register of the second argument holds 9 instead of 5. -/
theorem lostArgument_overwritten : ∃ r s',
    file.build = .ok program ∧ Compiled program main ctx r ∧
      main.Placed ctx process.image 0 blocks ∧
      main.Passes 1 2 (.lit (.int 5)) between f.signature ∧ process.Arrives state 8 4 s' ∧
      process.image.code[s'.pc]? = some (.call "f") ∧ Register.ofArgument? 2 = some .rax ∧
      ctx.valueOf process.data (state.cpu.regs .rbp) state.cpu.ram (.lit (.int 5)) = 5 ∧
      s'.cpu.regs .rax = 9 := by
  have hbuild : file.build = .ok program := by rfl
  obtain ⟨asm, hasm⟩ : ∃ asm, program.assembly {} = .ok asm := ⟨_, rfl⟩
  have hmain : main ∈ program.procedures := by decide
  obtain ⟨⟨globals, layout, arity⟩, r, hc, -, hall⟩ := argument_at_call hbuild hasm hmain
  obtain rfl : layout = ctx.frame := Except.ok.inj (hc.frame.symm.trans (by decide +kernel))
  obtain rfl : globals = ctx.globals :=
    Except.ok.inj (hc.globals.symm.trans (by decide +kernel))
  obtain rfl : arity = ctx.arity := hc.arity
  obtain ⟨s', harrives⟩ := exists_arrives
  obtain ⟨reg, hreg, hcall⟩ := hall process 0 blocks 1 2 (.lit (.int 5)) between f.signature placed
    passes
  have hrax : reg = .rax := Option.some.inj (hreg.symm.trans rfl)
  have hposition : 8 = 0 + start blocks (1 + (1 + between.length)) := by decide
  obtain ⟨hat, -, hlost⟩ := hcall state s' 4 (by decide) (hposition ▸ harrives)
  obtain ⟨m, t, -, -, -, hresidue⟩ := hlost [⟨[], .setArg 1 (.lit (.int 4))⟩]
    ⟨[], .assign (.lit (.int 9)) x⟩ [] rfl rfl (List.forall_mem_nil _)
  rw [hrax] at hresidue
  have hnine : some (9 : Word) = some (s'.cpu.regs .rax) := hresidue
  exact ⟨r, s', hbuild, hc, placed, passes, harrives, hat, rfl, rfl,
    (Option.some.inj hnine).symm⟩

end QuadAsm
