import QuadAsm.Proofs.Storage

/-!
# What operators compute

The quads that apply an operator, in any state of the machine. Their result is the operator applied
to the values that the sources have in memory (`Op.result?`). Main result: the code of such a quad
leaves the result in the destination, cut to its width, and touches no other byte of memory
(`operators_compute`). The destination may be a source, or a pointer to one: all that is asked of it
is that a pointer points to a variable of the width it was declared for.
-/

namespace QuadAsm

open Emit Layout Machine

/-- Where the result of an operator goes and what it is, given the values of the operands. -/
def Op.result? (value : Operand → Word) : Op Signature → Option (Operand × Word)
  | .binary op src1 src2 dst => (op.compute? (value src1) (value src2)).map (dst, ·)
  | .unary op src dst => (op.compute? (value src)).map (dst, ·)
  | _ => none

namespace Emit.Context

variable {ctx : Context} {data : Bytes → Word} {frame : Word} {ram : Ram}

/-- A pointer holds the address of a variable of the width that it was declared for. -/
structure PointsTo (ctx : Context) (data : Bytes → Word) (frame : Word) (ram : Ram)
    (v u : Variable) : Prop where
  knows : ctx.Knows u
  plain : u.form ≠ .pointer
  width : u.width = v.width
  address : ram.read (ctx.address data frame v) .word = ctx.address data frame u

/-- The code of an operator writes the result to what the destination stands for. -/
theorem operator_exec (data : Bytes → Word) {op : Op Signature} {code : List Instr}
    (hcode : ctx.codeOf op = .ok code) (c : Cpu) {dst : Operand} {w : Word}
    (hresult : op.result? (ctx.valueOf data (c.regs .rbp) c.ram) = some (dst, w)) :
    ∃ v c', dst = .var v ∧ ctx.Knows v ∧ execAll data code c = some c' ∧
      c.Becomes c' (c.ram.write (ctx.target data (c.regs .rbp) c.ram v) v.size w) := by
  cases op with
  | binary op src1 src2 dst =>
    obtain ⟨w', hw, hpair⟩ := Option.map_eq_some_iff.1 hresult
    cases hpair
    exact binary_exec data hcode c hw
  | unary op src dst =>
    obtain ⟨w', hw, hpair⟩ := Option.map_eq_some_iff.1 hresult
    cases hpair
    exact unary_exec data hcode c hw
  | assign | addrOf | goto | ifZero | nop | call | enter | leave | setArg | getArg | setRet
  | getRet | output | input | mayhem => cases hresult

/-- A write to what an operand stands for does not change what it stands for: a variable keeps its
place, and a pointer is not part of what it points to. -/
theorem target_write_target {v : Variable} (hv : ctx.Knows v)
    (hpoint : v.form = .pointer → ctx.Separate data frame ∧ ∃ u, ctx.PointsTo data frame ram v u)
    (w : Word) :
    ctx.target data frame (ram.write (ctx.target data frame ram v) v.size w) v
      = ctx.target data frame ram v := by
  by_cases hform : v.form = .pointer
  · obtain ⟨hs, u, hu⟩ := hpoint hform
    have hvu : v ≠ u := by
      rintro rfl
      exact hu.plain hform
    have htarget : ctx.target data frame ram v = ctx.address data frame u := by
      simpa [target, hform] using hu.address
    have hsize : v.size = u.holds := by
      rw [holds_of_ne hu.plain, Variable.size, Variable.size, hu.width]
    rw [htarget, hsize, target_write_of_ne hs hu.knows hv hvu, htarget]
  · rw [target_of_ne hform, target_of_ne hform]

end Emit.Context

/-- An operator gives its destination the right value, whatever the operands are, and changes no
byte outside of the destination. -/
theorem operators_compute {p : Program} {q : Procedure} {ctx : Context}
    (hg : Globals.assign p = .ok ctx.globals) (hf : Frame.assign q = .ok ctx.frame)
    (hplain : ∀ v ∈ p.globals, v.form ≠ .pointer) {data : Bytes → Word} {c : Cpu}
    {op : Op Signature} {code : List Instr} (hcode : ctx.codeOf op = .ok code) {dst : Operand}
    {w : Word} (hresult : op.result? (ctx.valueOf data (c.regs .rbp) c.ram) = some (dst, w))
    (hpoint : ∀ v, dst = .var v → v.form = .pointer → ctx.InMemory data (c.regs .rbp) ∧
      ∃ u, ctx.PointsTo data (c.regs .rbp) c.ram v u) :
    ∃ v c', dst = .var v ∧ execAll data code c = some c' ∧
      ctx.valueOf data (c'.regs .rbp) c'.ram v = v.size.clip w ∧
      (∀ x, ¬ Within x (ctx.target data (c.regs .rbp) c.ram v) v.size.bytes →
        c'.ram x = c.ram x) ∧
      c'.regs .rbp = c.regs .rbp ∧ c'.regs .rsp = c.regs .rsp := by
  obtain ⟨v, c', rfl, hv, he, hbecomes⟩ := Context.operator_exec data hcode c hresult
  have hsame := Context.target_write_target hv (fun hform => by
    obtain ⟨hm, hu⟩ := hpoint v rfl hform
    exact ⟨hm.separate hg hf hplain, hu⟩) w
  refine ⟨v, c', rfl, he, ?_, fun x hx => ?_, hbecomes.rbp, hbecomes.rsp⟩
  · rw [hbecomes.rbp, hbecomes.ram]
    exact Context.valueOf_write_target hsame
  · rw [hbecomes.ram]
    exact Ram.write_of_not_within hx

namespace MixedFrame

/-- The machine when the pointer points to a byte that holds 255. -/
def pointing : Cpu :=
  { cpu with ram := (cpu.ram.write 8152 .word 8160).write 8160 .byte 255 }

end MixedFrame

open MixedFrame in
/-- One more than the byte 255, through the pointer to that same byte, is 0. -/
theorem mixedFrame_wraps : ∃ code c',
    context.codeOf (.binary .add (.var b) (.lit (.int 1)) (.var a)) = .ok code ∧
      execAll (fun _ => 0) code pointing = some c' ∧
      context.valueOf (fun _ => 0) (c'.regs .rbp) c'.ram a = 0 := by
  have hknows : context.Knows b := ⟨.frame (-32), rfl⟩
  have hpoints : context.PointsTo (fun _ => 0) 8192 pointing.ram a b :=
    ⟨hknows, by decide, rfl, by decide⟩
  have hglobals : Globals.assign program = .ok context.globals := rfl
  have hframe : Frame.assign main = .ok context.frame := rfl
  obtain ⟨code, hcode⟩ : ∃ code, context.codeOf (.binary .add (.var b) (.lit (.int 1)) (.var a))
    = .ok code := ⟨_, rfl⟩
  have hresult : (Op.binary .add (.var b) (.lit (.int 1)) (.var a)).result?
      (context.valueOf (fun _ => 0) (pointing.regs .rbp) pointing.ram) = some (.var a, 256) := by
    decide
  obtain ⟨v, c', hv, he, hval, -⟩ := operators_compute hglobals hframe (by decide) hcode hresult
    fun v hv _ => by
      cases hv
      exact ⟨inMemory, b, hpoints⟩
  cases hv
  exact ⟨code, c', hcode, he, hval⟩

end QuadAsm
