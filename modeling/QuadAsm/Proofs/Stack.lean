import QuadAsm.Proofs.Emit.Calls
import QuadAsm.Proofs.Stack.Code
import QuadAsm.Proofs.Stack.Run

/-!
# Procedures keep the stack in order

In a program whose procedures are balanced, whatever they call and however deep, the stack pointer
is where the number of pending arguments says, and every return leads back to the call it belongs
to. Main result: `stack_stays_in_order`.
-/

namespace QuadAsm

open Emit Layout Machine

/-- The number of bytes that the variables of the procedure of a name reach below its frame pointer.
-/
def Program.need (p : Program) (name : Bytes) : Nat :=
  match p.procedures.find? (·.name = name) with
  | some q => reach (ownedVariables q).length
  | none => 0

/-- A procedure is found by its name. -/
theorem Program.need_eq {p : Program} (h : (p.procedures.map (·.name)).Nodup) {q : Procedure}
    (hq : q ∈ p.procedures) : p.need q.name = reach (ownedVariables q).length := by
  unfold need
  cases hfind : p.procedures.find? (·.name = q.name) with
  | none => exact absurd (List.find?_eq_none.1 hfind q hq) (by simp)
  | some q' =>
    have hname : q'.name = q.name := by simpa using List.find?_some hfind
    obtain rfl := List.inj_on_of_nodup_map h (List.mem_of_find?_eq_some hfind) hq hname
    rfl

/-- A label marks a quad with this stage. -/
def Emit.Marks {p : Program} (pieces : List (Piece p)) (depth : Procedure → Nat → Nat) (l : Bytes)
    (st : Stage) : Prop :=
  ∃ x ∈ pieces, ∃ k < x.blocks.length, x.procedure.labelled? l = some k ∧
    x.ctx.quadStage (depth x.procedure) k = st

/-- The code of a program from a file has stages, when its procedures are balanced and no label
takes a call of the runtime. -/
theorem Source.File.exists_hasStages {f : Source.File} {p : Program} {g : Globals}
    {pieces : List (Piece p)} {depth : Procedure → Nat → Nat} (hbuild : f.build = .ok p)
    (hpieces : pieces.map (·.procedure) = p.procedures) (hg : ∀ x ∈ pieces, x.ctx.globals = g)
    (hbal : ∀ q ∈ p.procedures, q.Balanced (depth q)) (hlabels : p.LabelsSpareRuntime) :
    ∃ stage, (linked pieces).HasStages g p.need stage ∧
      ∀ pre x post, pieces = pre ++ x :: post → ∀ k < x.blocks.length,
        stage (extent pre + start x.blocks k) = x.ctx.quadStage (depth x.procedure) k := by
  have hmem : ∀ x ∈ pieces, x.procedure ∈ p.procedures :=
    fun x hx => hpieces ▸ List.mem_map_of_mem hx
  have hall : ∀ x ∈ pieces, ∀ st, ∃ stage,
      (∀ k < x.blocks.length,
        stage (start x.blocks k) = x.ctx.quadStage (depth x.procedure) k) ∧
      stage x.blocks.flatten.length = st ∧
      Staged g (Marks pieces depth) x.blocks.flatten stage := by
    intro x hx st
    rw [← hg x hx]
    refine Piece.exists_staged (x.compiled.form_ne_pointer hbuild)
      (fun quad hquad s => op_of_mem_body hbuild (hmem x hx) hquad s) (hbal _ (hmem x hx))
      (fun l k hl => ?_) st
    have hk : k < x.blocks.length :=
      x.laid.code.length_eq ▸ (List.findIdx?_eq_some_iff_getElem.1 hl).1
    exact ⟨labelled?_ne_zero hbuild (hmem x hx) hl, x, hx, k, hk, hl, rfl⟩
  obtain ⟨stage, hstart, hend, hstaged⟩ := exists_staged_of_pieces hall
  refine ⟨stage, ⟨?_, fun l n hl => ?_, fun n l hcall => ?_, 0, ?_⟩, hstart⟩
  · rw [code_linked]
    refine hstaged.mono fun l st ⟨x, hx, k, hk, hl, hst⟩ n hn => ?_
    obtain ⟨pre, post, rfl⟩ := List.append_of_mem hx
    have hplaced := (placed_linked hbuild hpieces).1.label l k hl
    cases hplaced.symm.trans hn
    exact (hstart pre x post rfl k hk).trans hst
  · obtain ⟨pre, x, post, rfl, rfl, rfl⟩ := exists_of_entry hl
    have hx : x ∈ pre ++ x :: post := by simp
    have hpos : 0 < x.blocks.length := by rw [x.length_blocks]; omega
    have hzero := hstart pre x post rfl 0 hpos
    rw [x.compiled.name, Program.need_eq (nodup_names hbuild) (hmem x hx)]
    refine hzero.trans ?_
    rw [Context.quadStage, if_pos rfl, Context.room, Frame.length_slots x.compiled.frame]
  · exact symbol_eq_entry hpieces hbuild hlabels hcall
  · rw [code_linked]
    exact hend

/-- A frame that lies in the stack has a size that is not negative. -/
theorem Emit.Context.activationSize_nonneg {ctx : Context} {q : Procedure}
    (hframe : Frame.assign q = .ok ctx.frame) (hroom : ctx.room + 8 < 2 ^ 63) :
    0 ≤ ctx.activationSize := by
  have hword : wordWidth = 8 := rfl
  have hsize := (Frame.size_bounds hframe (by unfold room reach at *; omega)).1
  unfold activationSize
  split <;> omega

/-- Inside of a procedure the stack pointer can be told from the frame pointer. -/
theorem Emit.Context.rsp_eq {ctx : Context} {q : Procedure}
    (hframe : Frame.assign q = .ok ctx.frame) {lo hi depth : Nat} {c cur : Cpu}
    (h : Active lo hi c cur (.inside ctx.room (ctx.reserved + 8 * depth)))
    (half : hi < lo + 2 ^ 63) :
    cur.regs .rbp = c.regs .rsp ∧
      cur.regs .rsp = cur.regs .rbp - 8 - BitVec.ofInt 64 ctx.activationSize
        - BitVec.ofNat 64 (8 * depth) := by
  obtain ⟨hrsp, hrbp⟩ := h.regs
  have hroom : lo + ctx.room ≤ (c.regs .rsp).toNat := h.room
  have htop := h.top
  have hlt := (c.regs .rsp).isLt
  have hpos := activationSize_nonneg hframe (by omega)
  have hreserved : ctx.activationSize = ctx.reserved := by
    rw [reserved_eq hframe]
    omega
  have hsum := toNat_add_ofNat (a := cur.regs .rsp) (n := 8 + (ctx.reserved + 8 * depth))
    (by omega)
  have hframe' : c.regs .rsp = cur.regs .rsp
      + (8 + (BitVec.ofNat 64 ctx.reserved + BitVec.ofNat 64 (8 * depth))) := by
    refine BitVec.eq_of_toNat_eq ?_
    rw [BitVec.ofNat_add, BitVec.ofNat_add] at hsum
    exact (hsum.trans (by omega)).symm
  refine ⟨hrbp, ?_⟩
  rw [hrbp, hframe', hreserved, BitVec.ofInt_natCast]
  abel

/-- Procedures keep the stack in order. Take a program that was built from a file and compiled, with
a number of pending words for each quad that makes its procedures balanced, and no label that has
the name of a routine of the runtime which the program calls. Let a process run its code, from where
some procedure is entered by somebody outside, for any number of steps and with any calls on the
way, as long as the stack pointer stays in the memory of the stack, there is room for every frame,
and no store through a pointer hits a saved frame pointer or a return address.

Then at the start of every quad after the one that enters, the frame pointer is where the return
address of the running procedure is, and the stack pointer is below it by the saved frame pointer,
the size of the activation and the pending words. And every return goes to the line after the call
that it returns from, with the stack pointer, the frame pointer and the registers that no
instruction names as they were when the machine came to the call; the return of the first procedure
finds everything as it was when that was entered. -/
theorem stack_stays_in_order {f : Source.File} {p : Program} {options : Options}
    {a : Asm.Assembly} (hbuild : f.build = .ok p) (hasm : p.assembly options = .ok a)
    {depth : Procedure → Nat → Nat} (hbal : ∀ q ∈ p.procedures, q.Balanced (depth q))
    (hlabels : p.LabelsSpareRuntime) :
    ∃ (g : Globals) (pieces : List (Piece p)), Globals.assign p = .ok g ∧
      pieces.map (·.procedure) = p.procedures ∧
      p.routines options g = .ok (pieces.map (·.routine)) ∧
      a.functions = pieces.map (·.routine.function) ∧
      ∀ (P : Process) (lo hi : Nat) (name : Bytes) (first : State) (n : Nat) (s : State),
        P.image = linked pieces → P.Hosts g lo hi →
        P.image.entry name = some first.pc → P.position? first.cpu.top = none →
        P.run n first = some s →
        (∀ m t, m ≤ n → P.run m first = some t →
          P.OnStack first.cpu p.need lo hi (P.pending first m) t) →
        (∀ x ∈ pieces, ∃ e, P.image.entry x.procedure.name = some e ∧
          x.procedure.Placed x.ctx P.image e x.blocks ∧
          ∀ k, 0 < k → k < x.procedure.quads.length → s.pc = e + start x.blocks k →
            s.cpu.regs .rbp = (P.opening first.cpu (P.pending first n)).regs .rsp ∧
            s.cpu.regs .rsp = s.cpu.regs .rbp - 8 - BitVec.ofInt 64 x.ctx.activationSize
              - BitVec.ofNat 64 (8 * depth x.procedure k)) ∧
        (P.image.code[s.pc]? = some .ret →
          (∀ t rest, P.pending first n = t :: rest →
            ∃ s', P.step s = some s' ∧ s'.pc = t.pc + 1 ∧
              s'.cpu.regs .rsp = t.cpu.regs .rsp ∧ s'.cpu.regs .rbp = t.cpu.regs .rbp ∧
              s'.cpu.kept = t.cpu.kept) ∧
          (P.pending first n = [] →
            s.cpu.top = first.cpu.top ∧ s.cpu.regs .rsp = first.cpu.regs .rsp ∧
              s.cpu.regs .rbp = first.cpu.regs .rbp ∧ s.cpu.kept = first.cpu.kept)) := by
  obtain ⟨g, pieces, hassign, hpieces, hroutines, hfuns, hg⟩ := Program.pieces_of_assembly hasm
  obtain ⟨stage, himg, hstart⟩ := Source.File.exists_hasStages hbuild hpieces hg hbal hlabels
  refine ⟨g, pieces, hassign, hpieces, hroutines, hfuns,
    fun P lo hi name first n s hcode hP hname hfirst hrun hstack => ?_⟩
  rw [← hcode] at himg
  have h := Orderly.run himg hP hname hfirst hrun hstack
  refine ⟨fun x hx => ?_, fun hret => ⟨fun t rest hcalls => ?_, fun hcalls => ?_⟩⟩
  · obtain ⟨pre, post, rfl⟩ := List.append_of_mem hx
    obtain ⟨hplaced, hentry⟩ := Source.File.placed_linked hbuild hpieces
    rw [← hcode] at hplaced hentry
    refine ⟨extent pre, hentry, hplaced, fun k hk hlt hpc => ?_⟩
    have hactive := h.active
    rw [hpc, hstart pre x post rfl k (x.laid.code.length_eq ▸ hlt), Context.quadStage,
      if_neg (Nat.ne_of_gt hk)] at hactive
    exact Context.rsp_eq x.compiled.frame hactive hP.area.half
  · rw [hcalls] at h
    obtain ⟨s', hstep, hpc, hrsp, hrbp, hkept, -⟩ := h.returns himg hP hret
    exact ⟨s', hstep, hpc, hrsp, hrbp, hkept⟩
  · rw [hcalls] at h
    obtain ⟨hrsp, hrbp, hkept, htop⟩ := h.at_ret himg hret
    exact ⟨htop, hrsp, hrbp, hkept⟩

namespace PushedArgument

/-- A program with a call that pushes an argument. -/
def file : Source.File where
  procedures := [
    { name := "main"
      body := [{ op := "setarg", index := 7, src := some { int := some 5 } },
        { op := "call", callee := "f" }] },
    { name := "f", formals := Source.sevenFormals }]

def f : Procedure where
  name := "f"
  formals := sevenFormals 0

def main : Procedure where
  name := "main"
  body := [{ op := .setArg 7 (.lit (.int 5)) }, { op := .call f.signature }]

/-- The program. -/
def program : Program := ⟨[], [], [main, f]⟩

/-- The argument is on the stack when the call comes. -/
def depth (q : Procedure) (k : Nat) : Nat := if q.name = main.name ∧ k = 2 then 1 else 0

/-- The stack is in its own part of memory, and the runtime leaves it alone. -/
theorem hosts : program.trial.Hosts ⟨[], []⟩ 4096 8200 where
  keeps := ⟨fun _ _ _ => rfl, fun _ _ _ => rfl, fun _ _ _ => rfl, fun _ _ _ _ _ => rfl⟩
  place := Program.place_trial (by decide +kernel)
  area := ⟨by decide, by decide, nofun⟩

/-- No procedure needs more than 80 bytes. -/
theorem need_le (l : Bytes) : program.need l ≤ 80 := by
  unfold Program.need
  split
  · next q hq =>
    have hall : ∀ q ∈ program.procedures, reach (ownedVariables q).length ≤ 80 := by decide
    exact hall q (List.mem_of_find?_eq_some hq)
  · exact Nat.zero_le _

/-- Whether an instruction stores through no pointer. -/
def isDirect : Instr → Bool
  | .store _ _ dst => dst ≠ .base .scratch 0
  | _ => true

/-- The machine stays on the stack until the second procedure returns. -/
theorem onStack (m : Nat) (t : State) (hm : m ≤ 20)
    (hrun : program.trial.run m (.fresh 8192) = some t) :
    program.trial.OnStack (State.fresh 8192).cpu program.need 4096 8200
      (program.trial.pending (.fresh 8192) m) t := by
  have hrsp : ∀ m ≤ 20, (program.trial.run m (.fresh 8192)).all fun t =>
      4096 + 80 ≤ (t.cpu.regs .rsp).toNat ∧ (t.cpu.regs .rsp).toNat + 8 ≤ 8200 := by
    decide +kernel
  have hdirect : ∀ i ∈ program.trial.image.code, isDirect i = true := by decide +kernel
  have ht := hrsp m hm
  rw [hrun, Option.all_some, decide_eq_true_iff] at ht
  refine ⟨⟨by omega, ht.2⟩, fun l _ => ?_, fun i hi c _ x _ size reg hstore => ?_⟩
  · have hneed := need_le l
    omega
  · subst hstore
    exact absurd (hdirect _ (List.mem_of_getElem? hi)) (by simp [isDirect])

end PushedArgument

open PushedArgument in
/-- The callee returns to the line after the call, with the argument on top of the stack. -/
theorem pushedArgument_returns : ∃ s s',
    file.build = .ok program ∧ program.trial.run 20 (.fresh 8192) = some s ∧
      program.trial.step s = some s' ∧
      s'.pc = 6 ∧ s'.cpu.regs .rsp = 8176 ∧ s'.cpu.regs .rbp = 8192 := by
  have hbuild : file.build = .ok program := by rfl
  obtain ⟨asm, hasm⟩ : ∃ asm, program.assembly {} = .ok asm := ⟨_, rfl⟩
  have hbal : ∀ q ∈ program.procedures, q.Balanced (depth q) := by decide
  obtain ⟨g, pieces, hg, -, hroutines, -, hall⟩ :=
    stack_stays_in_order hbuild hasm hbal (by decide)
  obtain rfl : g = ⟨[], []⟩ := Except.ok.inj (hg.symm.trans (by decide +kernel))
  have hpc : (program.trial.run 20 (.fresh 8192)).map (·.pc) = some 23 := by decide +kernel
  obtain ⟨s, hrun, hs⟩ := Option.map_eq_some_iff.1 hpc
  have hcalls : (program.trial.pending (.fresh 8192) 20).map
      (fun t => (t.pc, t.cpu.regs .rsp, t.cpu.regs .rbp)) = [(5, 8176, 8192)] := by decide +kernel
  obtain ⟨t, hpending, ht⟩ := List.map_eq_singleton_iff.1 hcalls
  simp only [Prod.mk.injEq] at ht
  obtain ⟨ht, hrsp, hrbp⟩ := ht
  have hret : program.trial.image.code[s.pc]? = some .ret := by
    rw [hs]
    decide +kernel
  obtain ⟨-, hreturn⟩ := hall program.trial 4096 8200 "main" (.fresh 8192) 20 s
    (Program.image_trial hroutines) hosts (by decide +kernel) (by decide +kernel) hrun onStack
  obtain ⟨s', hstep, hpc', hrsp', hrbp', -⟩ := (hreturn hret).1 t [] hpending
  exact ⟨s, s', hbuild, hrun, hstep, by rw [hpc', ht], hrsp'.trans hrsp, hrbp'.trans hrbp⟩

end QuadAsm
