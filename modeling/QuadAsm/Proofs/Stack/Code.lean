import QuadAsm.Proofs.Emit.Enter
import QuadAsm.Proofs.Emit.Link
import QuadAsm.Proofs.Stack.Stage

/-!
# The stages of compiled code

The code of a procedure that is balanced leads from stage to stage: entering it takes the frame,
every argument that is passed on the stack takes one more word, every call gives the words of its
arguments back, and leaving gives the frame back. Main results: the code of every quad leads to the
stage of the next one (`Context.flows_of_codeOf`), hence every procedure has stages
(`Piece.exists_staged`), and so has the whole program (`exists_staged_of_pieces`).
-/

namespace QuadAsm

open Layout Machine

/-! ## Balanced procedures -/

/-- How many words of arguments are on the stack after a quad, if there were `depth` before it. -/
def Op.depthAfter (depth : Nat) : Op Signature → Nat
  | .setArg index _ => if (Emit.registerArguments : Int) < index then depth + 1 else depth
  | .call callee => depth - Emit.stackArguments callee.formals.length
  | _ => depth

/-- The procedure that a quad calls, if it does. -/
def Op.callee? : Op Signature → Option Signature
  | .call callee => some callee
  | _ => none

/-- Only a call has a callee. -/
theorem Op.callee?_eq_some {op : Op Signature} {callee : Signature} :
    op.callee? = some callee ↔ op = .call callee := by
  cases op <;> simp [Op.callee?]

/-- Where a quad jumps to, if it does. -/
def Op.target? : Op Signature → Option (Option Bytes)
  | .goto target | .ifZero _ target => some target
  | _ => none

/-- Whether a quad may be followed by the next one. -/
def Op.continues : Op Signature → Bool
  | .goto _ | .leave _ => false
  | _ => true

/-- How many words of arguments are on the stack before each quad. There are none when the procedure
is entered and when it is left, a call finds its arguments there, and whatever way leads to a quad,
the number is the same. -/
structure Procedure.Balanced (q : Procedure) (depth : Nat → Nat) : Prop where
  enter : depth 0 = 0
  leave : depth (q.body.length + 1) = 0
  call : ∀ k quad callee, q.quads[k]? = some quad → quad.op = .call callee →
    Emit.stackArguments callee.formals.length ≤ depth k
  next : ∀ k quad, q.quads[k]? = some quad → quad.op.continues = true →
    depth (k + 1) = quad.op.depthAfter (depth k)
  jump : ∀ k quad target, q.quads[k]? = some quad → quad.op.target? = some target →
    ∃ l n, target = some l ∧ q.labelled? l = some n ∧ depth n = depth k

/-- Whether a procedure is balanced can be seen quad by quad. -/
theorem Procedure.balanced_iff {q : Procedure} {depth : Nat → Nat} :
    q.Balanced depth ↔ depth 0 = 0 ∧ depth (q.body.length + 1) = 0 ∧ ∀ x ∈ q.quads.zipIdx,
      (∀ callee ∈ x.1.op.callee?,
        Emit.stackArguments callee.formals.length ≤ depth x.2) ∧
      (x.1.op.continues = true → depth (x.2 + 1) = x.1.op.depthAfter (depth x.2)) ∧
      ∀ target ∈ x.1.op.target?,
        ((target.bind q.labelled?).any fun n => depth n = depth x.2) = true := by
  constructor
  · rintro ⟨henter, hleave, hcall, hnext, hjump⟩
    refine ⟨henter, hleave, fun ⟨quad, k⟩ hx => ?_⟩
    have hquad := List.mem_zipIdx_iff_getElem?.1 hx
    refine ⟨fun callee hop => hcall k quad callee hquad (Op.callee?_eq_some.1 hop),
      hnext k quad hquad, fun target htarget => ?_⟩
    obtain ⟨l, n, rfl, hn, hdepth⟩ := hjump k quad target hquad htarget
    simp [hn, hdepth]
  · rintro ⟨henter, hleave, hall⟩
    have hquads : ∀ k quad, q.quads[k]? = some quad → _ := fun k quad hquad =>
      hall (quad, k) (List.mem_zipIdx_iff_getElem?.2 hquad)
    refine ⟨henter, hleave, fun k quad callee hquad hop => ?_, fun k quad hquad => ?_,
      fun k quad target hquad htarget => ?_⟩
    · exact (hquads k quad hquad).1 callee (Op.callee?_eq_some.2 hop)
    · exact (hquads k quad hquad).2.1
    · have hany := (hquads k quad hquad).2.2 target htarget
      obtain ⟨n, hn, hdepth⟩ := (Option.any_eq_true _ _).1 hany
      obtain ⟨l, rfl, hl⟩ := Option.bind_eq_some_iff.1 hn
      exact ⟨l, n, rfl, hl, of_decide_eq_true hdepth⟩

instance (q : Procedure) (depth : Nat → Nat) : Decidable (q.Balanced depth) :=
  decidable_of_iff' _ Procedure.balanced_iff

namespace Emit.Context

variable {ctx : Context} {q : Procedure} {label : Bytes → Stage → Prop}

/-! ## Quads -/

/-- The number of bytes that are reserved for the frame. -/
def reserved (ctx : Context) : Nat := ctx.span.toNat

/-- The stack pointer is moved by not much more than half of the memory at most. -/
theorem activationSize_lt (hframe : Frame.assign q = .ok ctx.frame) :
    ctx.activationSize < 2 ^ 63 + 8 := by
  have hsize : ctx.frame.size < 2 ^ 63 := by
    rw [(Frame.slots_of_assign hframe).2.2.2]
    exact Int64.toInt_lt _
  have hword : wordWidth = 8 := rfl
  unfold activationSize
  split <;> omega

/-- What is reserved is the size of the activation, unless that is empty. -/
theorem reserved_eq (hframe : Frame.assign q = .ok ctx.frame) :
    (ctx.reserved : Int) = max 0 ctx.activationSize := by
  have hlt := activationSize_lt hframe
  unfold reserved span
  split
  · rw [BitVec.toNat_ofInt]
    omega
  · have hzero : (0 : Word).toNat = 0 := rfl
    omega

/-- The constant by which the stack pointer is moved. -/
theorem toBitVec_activationSize (h : 0 < ctx.activationSize) :
    (Int64.ofInt ctx.activationSize).toBitVec = BitVec.ofNat 64 ctx.reserved := by
  rw [reserved, span, if_pos h, BitVec.ofNat_toNat, BitVec.setWidth_eq]
  rfl

/-- Nothing is reserved for an empty activation. -/
theorem reserved_of_not_pos (h : ¬ 0 < ctx.activationSize) : ctx.reserved = 0 := by
  rw [reserved, span, if_neg h]
  rfl

/-- Reserving the frame. -/
theorem flows_of_reserve (hframe : Frame.assign q = .ok ctx.frame) :
    Flows ctx.globals label (.inside ctx.room 0) (ctx.adjustStack .sub)
      (.inside ctx.room ctx.reserved) := by
  rw [← Nat.zero_add ctx.reserved]
  unfold adjustStack
  split
  · next hpos =>
    have heq := reserved_eq hframe
    have hlt := activationSize_lt hframe
    exact .single (.lower (toBitVec_activationSize hpos) (by omega))
  · next hpos =>
    rw [reserved_of_not_pos hpos]
    exact .nil _

/-- Giving the frame back. -/
theorem flows_of_release (ctx : Context) :
    Flows ctx.globals label (.inside ctx.room ctx.reserved) (ctx.adjustStack .add)
      (.inside ctx.room 0) := by
  rw [← Nat.zero_add ctx.reserved]
  unfold adjustStack
  split
  · next hpos => exact .single (.raise (toBitVec_activationSize hpos))
  · next hpos =>
    rw [reserved_of_not_pos hpos]
    exact .nil _

/-- Entering a procedure. -/
theorem flows_of_enter (hframe : Frame.assign q = .ok ctx.frame) {proc : Signature}
    {block : List Instr} (h : ctx.codeOf (.enter proc) = .ok block) :
    Flows ctx.globals label (.outside ctx.room) block (.inside ctx.room ctx.reserved) := by
  cases codes_of_codeOf h with
  | enter hmoves =>
    have hprologue : Flows ctx.globals label (.outside ctx.room)
        [.push .rbp, .move .rsp .rbp, .arithConst .add 8 .rbp] (.inside ctx.room 0) :=
      .cons .save (.cons .link (.single .frame))
    exact (hprologue.append (flows_of_reserve hframe)).append
      (.footprint (footprint_of_receive hframe hmoves) (by decide) (by decide) _)

/-- Leaving a procedure. -/
theorem flows_of_leaveCode (ctx : Context) (st : Stage) :
    Flows ctx.globals label (.inside ctx.room ctx.reserved) ctx.leaveCode st := by
  exact (flows_of_release ctx).append (.cons .restore (.single .ret))

/-- Calling a procedure gives the words of its arguments back. -/
theorem flows_of_callCode {g : Globals} {r n depth : Nat} (callee : Signature)
    (h : stackArguments callee.formals.length ≤ depth) :
    Flows g label (.inside r (n + 8 * depth)) (callCode callee)
      (.inside r (n + 8 * (depth - stackArguments callee.formals.length))) := by
  unfold callCode
  split
  · next hzero =>
    rw [hzero, Nat.sub_zero]
    exact .single .call
  · have hsum : n + 8 * depth = n + 8 * (depth - stackArguments callee.formals.length)
        + 8 * stackArguments callee.formals.length := by
      omega
    rw [hsum]
    exact .cons .call (.single (.raise rfl))

/-- Passing an argument in its register, or else on the stack. -/
theorem flows_of_setArg {index : Int} {opd : Operand} {block : List Instr}
    (h : ctx.codeOf (.setArg index opd) = .ok block) (n depth : Nat) :
    Flows ctx.globals label (.inside ctx.room (n + 8 * depth)) block
      (.inside ctx.room (n + 8 * (Op.setArg index opd).depthAfter depth)) := by
  rw [Op.depthAfter]
  cases codes_of_codeOf h with
  | setArg hindex hreg hload =>
    obtain ⟨i, rfl⟩ := Int.eq_ofNat_of_zero_le (by omega : 0 ≤ index)
    have hnone := Register.ofArgument?_eq_none (i := i) (by omega)
    rw [if_neg (by rw [Int.ofNat_lt, ← hnone, hreg]; nofun)]
    obtain ⟨hrsp, hrbp, -⟩ := Register.ofArgument?_ne hreg
    exact .footprint (footprint_of_loadValue hload) (by simpa using hrsp.symm)
      (by simpa using hrbp.symm) _
  | pushArg hindex hreg hload =>
    obtain ⟨i, rfl⟩ := Int.eq_ofNat_of_zero_le (by omega : 0 ≤ index)
    rw [if_pos (Int.ofNat_lt.2 ((Register.ofArgument?_eq_none (by omega)).1 hreg))]
    exact (Flows.footprint (footprint_of_loadValue hload) (by decide) (by decide) _).append
      (.single .push)

/-- The code of a quad of a body leads to the next quad, with as many words of arguments on the
stack as there are after it. -/
theorem flows_of_codeOf (hframe : Frame.assign q = .ok ctx.frame)
    (hsym : ∀ v ∈ ctx.globals.vars, v.form ≠ .pointer) {op : Op Signature} {block : List Instr}
    (h : ctx.codeOf op = .ok block) (hbody : ∀ s, op ≠ .enter s ∧ op ≠ .leave s) {depth : Nat}
    (hcall : ∀ callee, op = .call callee → stackArguments callee.formals.length ≤ depth)
    (hjump : ∀ target, op.target? = some target → ∃ l, target = some l ∧
      label l (.inside ctx.room (ctx.reserved + 8 * depth)))
    {st : Stage} (hst : op.continues = true →
      st = .inside ctx.room (ctx.reserved + 8 * op.depthAfter depth)) :
    Flows ctx.globals label (.inside ctx.room (ctx.reserved + 8 * depth)) block st := by
  cases codes_of_codeOf h with
  | goto =>
    obtain ⟨l, hsome, hl⟩ := hjump _ rfl
    cases hsome
    exact .single (.jump hl)
  | ifZero hload =>
    obtain ⟨l, hsome, hl⟩ := hjump _ rfl
    cases hsome
    rw [hst rfl]
    exact (Flows.footprint (footprint_of_loadValue hload) (by decide) (by decide) _).append
      (.cons (.quiet ⟨rfl, nofun, nofun, trivial⟩) (.single (.jumpIfEqual hl)))
  | @call callee =>
    rw [hst rfl]
    exact flows_of_callCode callee (hcall callee rfl)
  | setArg | pushArg =>
    rw [hst rfl]
    exact flows_of_setArg h _ _
  | output hload =>
    rw [hst rfl]
    exact (Flows.footprint (footprint_of_loadValue hload) (by decide) (by decide) _).append
      (.single .call)
  | input hstore =>
    rw [hst rfl]
    exact .cons .call (.footprint (footprint_of_storeValue hframe hstore) (by decide)
      (by decide) _)
  | @binary op =>
    rw [hst rfl]
    have hwork := (footprint_of_codeOf hframe hsym h rfl).mono op.clobbers_subset
    exact .footprint hwork (by decide) (by decide) _
  | unary | assign | addrOf | nop | getArg | setRet | getRet =>
    rw [hst rfl]
    exact .footprint (footprint_of_codeOf hframe hsym h rfl)
      (by simp [Op.clobbers, Register.scratch, Register.result])
      (by simp [Op.clobbers, Register.scratch, Register.result]) _
  | @enter proc => exact absurd rfl (hbody proc).1
  | @leave proc => exact absurd rfl (hbody proc).2

/-! ## Procedures -/

/-- The stage at the start of a quad. -/
def quadStage (ctx : Context) (depth : Nat → Nat) (k : Nat) : Stage :=
  if k = 0 then .outside ctx.room else .inside ctx.room (ctx.reserved + 8 * depth k)

end Emit.Context

namespace Emit.Piece

variable {p : Program} (x : Piece p) {label : Bytes → Stage → Prop} {depth : Nat → Nat}

/-- The stage at the start of a quad, or the one after all of them. -/
def mark (depth : Nat → Nat) (st : Stage) (k : Nat) : Stage :=
  if k < x.blocks.length then x.ctx.quadStage depth k else st

variable {x}

/-- There is a block for each quad, and for entering and leaving. -/
theorem length_blocks : x.blocks.length = x.procedure.body.length + 2 := by
  rw [← x.laid.code.length_eq]
  simp [Procedure.quads]

/-- The stage at the start of a quad after the one that enters. -/
theorem mark_of_pos {st : Stage} {k : Nat} (hk : 0 < k) (hle : k ≤ x.procedure.body.length + 1) :
    x.mark depth st k = .inside x.ctx.room (x.ctx.reserved + 8 * depth k) := by
  have hlen := x.length_blocks
  rw [mark, if_pos (by omega), Context.quadStage, if_neg (by omega)]

/-- The code of a balanced procedure leads from quad to quad. -/
theorem flows (hsym : ∀ v ∈ x.ctx.globals.vars, v.form ≠ .pointer)
    (hbody : ∀ quad ∈ x.procedure.body, ∀ s, quad.op ≠ .enter s ∧ quad.op ≠ .leave s)
    (hbal : x.procedure.Balanced depth)
    (hlabel : ∀ l k, x.procedure.labelled? l = some k →
      k ≠ 0 ∧ label l (x.ctx.quadStage depth k)) (st : Stage) {k : Nat} {block : List Instr}
    (hk : x.blocks[k]? = some block) :
    Flows x.ctx.globals label (x.mark depth st k) block (x.mark depth st (k + 1)) := by
  obtain ⟨hlt, rfl⟩ := List.getElem?_eq_some_iff.1 hk
  have hlt' : k < x.procedure.quads.length := x.laid.code.length_eq ▸ hlt
  have hquad := List.getElem?_eq_getElem hlt'
  have hcode : x.ctx.codeOf x.procedure.quads[k].op = .ok x.blocks[k] :=
    (List.forall₂_iff_get.1 x.laid.code).2 k hlt' hlt
  have hlen := x.length_blocks
  generalize x.procedure.quads[k] = quad at hquad hcode
  rcases Procedure.quads_cases hquad with ⟨rfl, rfl⟩ | ⟨rfl, rfl⟩ | ⟨j, rfl, hj⟩
  · have hnext := hbal.next 0 _ hquad rfl
    have hdepth : depth 1 = 0 := hnext.trans hbal.enter
    rw [mark_of_pos (Nat.succ_pos 0) (by omega), hdepth, mark, if_pos hlt]
    exact Context.flows_of_enter x.compiled.frame hcode
  · have hblock : x.ctx.leaveCode = x.blocks[x.procedure.body.length + 1] := Except.ok.inj hcode
    rw [mark_of_pos (Nat.succ_pos _) (Nat.le_refl _), hbal.leave, ← hblock]
    exact Context.flows_of_leaveCode x.ctx _
  · have hle : j < x.procedure.body.length := (List.getElem?_eq_some_iff.1 hj).1
    rw [mark_of_pos (Nat.succ_pos j) (by omega)]
    refine Context.flows_of_codeOf x.compiled.frame hsym hcode
      (hbody quad (List.mem_of_getElem? hj)) (fun callee hop => hbal.call _ quad callee hquad hop)
      (fun target ht => ?_) fun hnext => ?_
    · obtain ⟨l, n, rfl, hl, hdepth⟩ := hbal.jump _ quad target hquad ht
      obtain ⟨hn, hmark⟩ := hlabel l n hl
      rw [Context.quadStage, if_neg hn, hdepth] at hmark
      exact ⟨l, rfl, hmark⟩
    · rw [mark_of_pos (Nat.succ_pos _) (by omega), hbal.next _ quad hquad hnext]

/-- A balanced procedure has stages, and any stage may follow it. -/
theorem exists_staged (hsym : ∀ v ∈ x.ctx.globals.vars, v.form ≠ .pointer)
    (hbody : ∀ quad ∈ x.procedure.body, ∀ s, quad.op ≠ .enter s ∧ quad.op ≠ .leave s)
    (hbal : x.procedure.Balanced depth)
    (hlabel : ∀ l k, x.procedure.labelled? l = some k →
      k ≠ 0 ∧ label l (x.ctx.quadStage depth k)) (st : Stage) :
    ∃ stage, (∀ k < x.blocks.length, stage (start x.blocks k) = x.ctx.quadStage depth k) ∧
      stage x.blocks.flatten.length = st ∧
      Staged x.ctx.globals label x.blocks.flatten stage := by
  have hflows : ∀ k block, x.blocks[k]? = some block →
      Flows x.ctx.globals label (x.mark depth st k) block (x.mark depth st (k + 1)) :=
    fun k block hk => flows hsym hbody hbal hlabel st hk
  obtain ⟨stage, hstart, hstaged⟩ := exists_staged_of_blocks hflows
  refine ⟨stage, fun k hk => ?_, ?_, hstaged⟩
  · rw [hstart k (Nat.le_of_lt hk), mark, if_pos hk]
  · rw [← start_length, hstart _ (Nat.le_refl _), mark, if_neg (Nat.lt_irrefl _)]

end Emit.Piece

/-! ## Programs -/

namespace Emit

variable {p : Program} {g : Globals} {label : Bytes → Stage → Prop}
  {depth : Procedure → Nat → Nat}

/-- Procedures that have stages have them one after the other. -/
theorem exists_staged_of_pieces {pieces : List (Piece p)}
    (h : ∀ x ∈ pieces, ∀ st, ∃ stage,
      (∀ k < x.blocks.length,
        stage (start x.blocks k) = x.ctx.quadStage (depth x.procedure) k) ∧
      stage x.blocks.flatten.length = st ∧ Staged g label x.blocks.flatten stage) :
    ∃ stage, (∀ pre x post, pieces = pre ++ x :: post → ∀ k < x.blocks.length,
        stage (extent pre + start x.blocks k) = x.ctx.quadStage (depth x.procedure) k) ∧
      stage (extent pieces) = .outside 0 ∧
      Staged g label (pieces.flatMap (·.blocks)).flatten stage := by
  induction pieces with
  | nil => exact ⟨fun _ => .outside 0, by simp, rfl, .nil _⟩
  | cons x rest ih =>
    obtain ⟨hx, hrest⟩ := List.forall_mem_cons.1 h
    obtain ⟨τ, hτ, hend, hstaged'⟩ := ih hrest
    obtain ⟨σ, hσ, hglue, hstaged⟩ := hx (τ 0)
    refine ⟨glue x.blocks.flatten.length σ τ, fun pre y post hpieces k hk => ?_, ?_, ?_⟩
    · cases pre with
      | nil =>
        cases hpieces
        rw [extent_nil, Nat.zero_add, glue_of_le hglue (start_le _ _), hσ k hk]
      | cons z pre =>
        cases hpieces
        rw [extent_cons, Nat.add_assoc, glue_add, hτ pre y post rfl k hk]
    · rw [extent_cons, glue_add, hend]
    · rw [List.flatMap_cons, List.flatten_append]
      exact hstaged.append hstaged' hglue

end Emit

end QuadAsm
