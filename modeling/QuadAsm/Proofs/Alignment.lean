import QuadAsm.Proofs.Stack
import QuadAsm.Proofs.Stack.Chain

/-!
# Calls of the runtime are aligned

A procedure is entered with the stack pointer below a multiple of 16 by its stack arguments and the
return address, and it reserves as much as brings the stack pointer back to a multiple of 16
(`Context.reserved_modEq`). So wherever no arguments are pending the stack pointer is a multiple of
16, and when a procedure is called it finds the same situation as its caller did. A routine of the
runtime is called by its name, so the call goes astray if a procedure or a label has that name. Main
result: `runtime_calls_aligned_unless_captured`, for chains of activations of any length.
-/

namespace QuadAsm

open Emit Layout Machine

namespace Emit

variable {p : Program}

/-- How many words of arguments the procedure at a position finds on the stack. -/
def argsAt : List (Piece p) → Nat → Nat
  | [], _ => 0
  | x :: rest, n =>
    if n < x.blocks.flatten.length then stackArguments x.procedure.formals.length
    else argsAt rest (n - x.blocks.flatten.length)

/-- Inside of a procedure these are the words of its own arguments. -/
theorem argsAt_eq (pre : List (Piece p)) (x : Piece p) (post : List (Piece p)) {m : Nat}
    (hm : m < x.blocks.flatten.length) :
    argsAt (pre ++ x :: post) (extent pre + m) = stackArguments x.procedure.formals.length := by
  induction pre with
  | nil => rw [List.nil_append, extent_nil, Nat.zero_add, argsAt, if_pos hm]
  | cons y rest ih =>
    rw [List.cons_append, argsAt, extent_cons, if_neg (by omega), Nat.add_assoc,
      Nat.add_sub_cancel_left, ih]

end Emit

/-! ## Calls -/

/-- Whether there is a call in the code of a quad. -/
def Op.calls : Op Signature → Bool
  | .call _ | .output _ | .input _ => true
  | _ => false

namespace Emit.Context

variable {ctx : Context} {q : Procedure}

/-- The code of a quad that calls: there is one call, and what comes before it has nothing to do
with the frame. -/
theorem exists_call (hframe : Frame.assign q = .ok ctx.frame) {op : Op Signature}
    {block : List Instr} (h : ctx.codeOf op = .ok block) (hcalls : op.calls = true) :
    ∃ before l after, block = before ++ .call l :: after ∧
      Footprint ctx.globals ctx.room [.rdi] before ∧ ∀ i ∈ after, i.isControl = false := by
  cases codes_of_codeOf h with
  | call =>
    unfold callCode
    split
    · exact ⟨[], _, [], rfl, .nil, List.forall_mem_nil _⟩
    · exact ⟨[], _, _, rfl, .nil, List.forall_mem_singleton.2 rfl⟩
  | output hload => exact ⟨_, _, [], rfl, footprint_of_loadValue hload, List.forall_mem_nil _⟩
  | input hstore =>
    exact ⟨[], _, _, rfl, .nil, fun i hi => (footprint_of_storeValue hframe hstore i hi).control⟩
  | binary | unary | assign | addrOf | goto | ifZero | nop | enter | leave | setArg | pushArg
  | getArg | setRet | getRet => cases hcalls

/-- At the call of a quad the stage is the one at the start of the quad. -/
theorem stage_of_call (hframe : Frame.assign q = .ok ctx.frame) {op : Op Signature}
    {block : List Instr} (h : ctx.codeOf op = .ok block) (hcalls : op.calls = true) {img : Image}
    {need : Bytes → Nat} {stage : Nat → Stage} (himg : img.HasStages ctx.globals need stage)
    {n : Nat} (hholds : img.Holds n block) {j : Nat} {l : Bytes}
    (hj : block[j]? = some (.call l)) : stage (n + j) = stage n := by
  obtain ⟨before, l', after, rfl, hbefore, hafter⟩ := exists_call hframe h hcalls
  -- there is no other call in the block
  have hlen : j = before.length := by
    rcases Nat.lt_trichotomy j before.length with hlt | heq | hgt
    · rw [List.getElem?_append_left hlt] at hj
      cases (hbefore _ (List.mem_of_getElem? hj)).control
    · exact heq
    · obtain ⟨d, rfl⟩ := Nat.exists_eq_add_of_lt hgt
      rw [List.getElem?_append_right (by omega),
        show before.length + d + 1 - before.length = d + 1 by omega,
        List.getElem?_cons_succ] at hj
      cases hafter _ (List.mem_of_getElem? hj)
  rw [hlen]
  exact himg.eq_of_footprint hholds.left hbefore (by decide) (by decide)

/-- What a procedure reserves makes up for its stack arguments. -/
theorem reserved_modEq (hframe : Frame.assign q = .ok ctx.frame)
    (hfit : reach ctx.frame.slots.length + 16 ≤ 2 ^ 63) :
    ctx.reserved + 8 * stackArguments ctx.arity ≡ 0 [MOD 16] := by
  obtain ⟨hpos, -, -, hsize⟩ := Frame.size_bounds hframe hfit
  have heq := reserved_eq hframe
  have hword : wordWidth = 8 := rfl
  unfold activationSize at heq
  unfold Nat.ModEq
  split at heq
  · next hodd => omega
  · next heven => omega

end Emit.Context

/-! ## Chains of activations -/

/-- Where a procedure is entered that was called after words were pushed from a multiple of 16. -/
theorem Machine.pushed_modEq {rsp opened : Word} (hrsp : rsp.toNat % 16 = 0) {k : Nat}
    (h : opened = rsp - BitVec.ofNat 64 (8 * k) - 8) : opened.toNat + 8 + 8 * k ≡ 0 [MOD 16] := by
  have hback : opened + BitVec.ofNat 64 (8 * k + 8) = rsp := by
    rw [h, BitVec.ofNat_add]
    abel
  have hsum := toNat_add_ofNat_modEq opened (8 * k + 8)
  rw [hback] at hsum
  unfold Nat.ModEq at *
  omega

/-- Every call finds the arguments of its callee on the stack, and nothing else. -/
def Procedure.PassesExactly (q : Procedure) (depth : Nat → Nat) : Prop :=
  ∀ k quad callee, q.quads[k]? = some quad → quad.op = .call callee →
    depth k = stackArguments callee.formals.length

/-- Whether calls find their arguments can be seen quad by quad. -/
theorem Procedure.passesExactly_iff {q : Procedure} {depth : Nat → Nat} :
    q.PassesExactly depth ↔ ∀ x ∈ q.quads.zipIdx, ∀ callee ∈ x.1.op.callee?,
      depth x.2 = stackArguments callee.formals.length := by
  constructor
  · rintro h ⟨quad, k⟩ hx callee hop
    exact h k quad callee (List.mem_zipIdx_iff_getElem?.1 hx) (Op.callee?_eq_some.1 hop)
  · intro h k quad callee hquad hop
    exact h (quad, k) (List.mem_zipIdx_iff_getElem?.2 hquad) callee (Op.callee?_eq_some.2 hop)

instance (q : Procedure) (depth : Nat → Nat) : Decidable (q.PassesExactly depth) :=
  decidable_of_iff' _ Procedure.passesExactly_iff

namespace Source.File

variable {f : Source.File} {p : Program} {g : Globals} {pieces : List (Piece p)}
  {depth : Procedure → Nat → Nat} {stage : Nat → Stage}

variable (hbuild : f.build = .ok p) (hpieces : pieces.map (·.procedure) = p.procedures)
include hbuild hpieces

/-- A jump stays in its procedure. -/
theorem argsAt_of_jump (hbal : ∀ q ∈ p.procedures, q.Balanced (depth q)) {n m : Nat} {l : Bytes}
    {i : Instr} (hi : (linked pieces).code[n]? = some i)
    (hjump : i = .jump l ∨ i = .jumpIfEqual l)
    (hm : (linked pieces).label l = some m) : argsAt pieces m = argsAt pieces n := by
  obtain ⟨pre, x, post, n', rfl, rfl, hn'⟩ := exists_piece_of_code hi
  have hx : x.procedure ∈ p.procedures := by simp [← hpieces]
  obtain ⟨k, quad, block, j, hquad, -, hcode, hj, -⟩ := Piece.exists_quad hn'
  have hemits := Context.emits_of_codeOf hcode i (List.mem_of_getElem? hj)
  have htarget : quad.op.target? = some (some l) := by
    rcases hjump with rfl | rfl
    · have hop : quad.op = .goto (some l) := hemits
      rw [hop]
      rfl
    · obtain ⟨cond, hop⟩ : ∃ cond, quad.op = .ifZero cond (some l) := hemits
      rw [hop]
      rfl
  obtain ⟨l', k', heq, hlabel, -⟩ := (hbal _ hx).jump k quad _ hquad htarget
  cases heq
  have hplaced := (placed_linked hbuild hpieces).1.label l k' hlabel
  cases hplaced.symm.trans hm
  have hk' : k' < x.blocks.length :=
    x.laid.code.length_eq ▸ (List.findIdx?_eq_some_iff_getElem.1 hlabel).1
  rw [argsAt_eq pre x post (Piece.start_lt hk'),
    argsAt_eq pre x post (List.getElem?_eq_some_iff.1 hn').1]

/-- A call by the name of a procedure goes to that procedure. -/
theorem argsAt_of_entry {q : Procedure} (hq : q ∈ p.procedures) {m : Nat}
    (hm : (linked pieces).entry q.name = some m) :
    argsAt pieces m = stackArguments q.formals.length := by
  obtain ⟨pre, y, post, rfl, hname, rfl⟩ := exists_of_entry hm
  have hy : y.procedure ∈ p.procedures := by simp [← hpieces]
  rw [y.compiled.name] at hname
  obtain rfl := List.inj_on_of_nodup_map (nodup_names hbuild) hy hq hname
  have hpos : 0 < y.blocks.length := by rw [y.length_blocks]; omega
  exact argsAt_eq pre y post (Piece.start_lt hpos)

-- the stages of the code are those that the pending words of the quads give
variable (hfit : ∀ q ∈ p.procedures, reach (ownedVariables q).length + 16 ≤ 2 ^ 63)
  (hg : ∀ x ∈ pieces, x.ctx.globals = g) (himg : (linked pieces).HasStages g p.need stage)
  (hstart : ∀ pre x post, pieces = pre ++ x :: post → ∀ k < x.blocks.length,
    stage (extent pre + start x.blocks k) = x.ctx.quadStage (depth x.procedure) k)
include hfit hg himg hstart

/-- At the call of a quad, the stack pointer is off a multiple of 16 by the pending words. -/
theorem taken_of_call {pre post : List (Piece p)} {x : Piece p}
    (hsplit : pieces = pre ++ x :: post) {k j : Nat} {quad : Quad} {block : List Instr} {l : Bytes}
    (hquad : x.procedure.quads[k]? = some quad) (hblock : x.blocks[k]? = some block)
    (hcode : x.ctx.codeOf quad.op = .ok block) (hcalls : quad.op.calls = true)
    (hj : block[j]? = some (.call l)) :
    (stage (extent pre + (start x.blocks k + j))).taken + 8
        + 8 * argsAt pieces (extent pre + (start x.blocks k + j))
      ≡ 8 * depth x.procedure k [MOD 16] := by
  subst hsplit
  have hx : x ∈ pre ++ x :: post := by simp
  have hframe := x.compiled.frame
  have hpos : k ≠ 0 := by
    rintro rfl
    cases hquad
    cases hcalls
  obtain ⟨hk, -⟩ := List.getElem?_eq_some_iff.1 hblock
  obtain ⟨hjlt, -⟩ := List.getElem?_eq_some_iff.1 hj
  have hholds := (placed_linked hbuild hpieces).1.holds.block hblock
  rw [← hg x hx] at himg
  have hstage := Context.stage_of_call hframe hcode hcalls himg hholds hj
  rw [Nat.add_assoc, hstart pre x post rfl k hk, Context.quadStage, if_neg hpos] at hstage
  have hlt : start x.blocks k + j < x.blocks.flatten.length :=
    Nat.lt_of_lt_of_le (Nat.add_lt_add_left hjlt _) (start_succ hblock ▸ start_le x.blocks (k + 1))
  have hreserved := Context.reserved_modEq hframe
    (by rw [Frame.length_slots hframe]; exact hfit _ (hpieces ▸ List.mem_map_of_mem hx))
  rw [x.compiled.arity] at hreserved
  rw [hstage, argsAt_eq pre x post hlt, Stage.taken]
  unfold Nat.ModEq at *
  omega

/-- The calls of a program are aligned to each other, if none that is meant for the runtime goes
elsewhere. -/
theorem aligns (hbal : ∀ q ∈ p.procedures, q.Balanced (depth q))
    (hexact : ∀ q ∈ p.procedures, q.PassesExactly (depth q)) (hlabels : p.LabelsSpareRuntime)
    (hnames : p.ProceduresSpareRuntime) : (linked pieces).Aligns stage (argsAt pieces) := by
  refine ⟨fun n i hi hret => ?_, fun n m l hi hm => ?_, fun n m l hi hm => ?_⟩
  · obtain ⟨pre, x, post, m, rfl, rfl, hm⟩ := exists_piece_of_code hi
    obtain ⟨hlt, -⟩ := List.getElem?_eq_some_iff.1 hm
    rw [Nat.add_assoc, argsAt_eq pre x post (Piece.succ_lt hm hret), argsAt_eq pre x post hlt]
  · rcases hi with hi | hi
    · exact argsAt_of_jump hbuild hpieces hbal hi (.inl rfl) hm
    · exact argsAt_of_jump hbuild hpieces hbal hi (.inr rfl) hm
  · rw [symbol_eq_entry hpieces hbuild hlabels hi] at hm
    obtain ⟨pre, x, post, n', hsplit, rfl, hn'⟩ := exists_piece_of_code hi
    have hx : x.procedure ∈ p.procedures := by simp [← hpieces, hsplit]
    obtain ⟨k, quad, block, j, hquad, hblock, hcode, hj, rfl⟩ := Piece.exists_quad hn'
    have hmem := List.mem_of_getElem? hquad
    -- a call that goes to a position is not of the runtime, so the quad calls a procedure
    obtain ⟨callee, hop, rfl⟩ : ∃ callee, quad.op = .call callee ∧ l = callee.name := by
      rcases Context.emits_of_codeOf hcode _ (List.mem_of_getElem? hj) with hcall | ⟨v, hv, rfl⟩
      · exact hcall
      · have hnone := hnames _ hx v (Procedure.mem_services hmem hv)
        rw [entry_linked_eq_none hpieces hnone] at hm
        cases hm
    obtain ⟨q', hq', rfl⟩ := callee_of_mem_quads hbuild hx hmem hop
    have htaken := taken_of_call hbuild hpieces hfit hg himg hstart hsplit hquad hblock hcode
      (by rw [hop]; rfl) hj
    rw [hexact _ hx k quad _ hquad hop] at htaken
    rw [argsAt_of_entry hbuild hpieces hq' hm]
    exact htaken

end Source.File

/-- Calls of the runtime are aligned, however deep the calls go, as long as they are calls of the
runtime: no procedure and no label may have the name of a routine that the program calls. Take a
program that was built from a file and compiled, with a number of pending words for each quad that
makes its procedures balanced and is the number of stack arguments at every call, and frames that
fit in half of the memory. Let a procedure be called after its stack arguments were pushed from a
multiple of 16, and let the machine run on from there for any number of steps, through any chain of
calls and returns, with a runtime that leaves the stack pointer alone. Then whenever the machine
comes to the call of a quad that prints or reads, and no words are pending there, that call goes to
the runtime, and the stack pointer is a multiple of 16.

Nothing is assumed about memory. A chain of activations is one in which returns go back to their
calls. -/
theorem runtime_calls_aligned_unless_captured {f : Source.File} {p : Program} {options : Options}
    {a : Asm.Assembly} (hbuild : f.build = .ok p) (hasm : p.assembly options = .ok a)
    {depth : Procedure → Nat → Nat} (hbal : ∀ q ∈ p.procedures, q.Balanced (depth q))
    (hexact : ∀ q ∈ p.procedures, q.PassesExactly (depth q))
    (hfit : ∀ q ∈ p.procedures, reach (ownedVariables q).length + 16 ≤ 2 ^ 63)
    (hlabels : p.LabelsSpareRuntime) (hnames : p.ProceduresSpareRuntime) :
    ∃ (g : Globals) (pieces : List (Piece p)), Globals.assign p = .ok g ∧
      pieces.map (·.procedure) = p.procedures ∧
      p.routines options g = .ok (pieces.map (·.routine)) ∧
      a.functions = pieces.map (·.routine.function) ∧
      ∀ (P : Process) (q : Procedure) (rsp : Word) (first : State) (n : Nat) (s : State),
        P.image = linked pieces → (∀ v trace c, (P.serve v trace c).regs .rsp = c.regs .rsp) →
        q ∈ p.procedures → P.image.entry q.name = some first.pc → rsp.toNat % 16 = 0 →
        first.cpu.regs .rsp = rsp - BitVec.ofNat 64 (8 * stackArguments q.formals.length) - 8 →
        P.run n first = some s →
        (∀ m t, m < n → P.run m first = some t → P.Chained (P.pending first m) t) →
        ∀ x ∈ pieces, ∃ e, P.image.entry x.procedure.name = some e ∧
          x.procedure.Placed x.ctx P.image e x.blocks ∧
          ∀ k quad opd block j l, x.procedure.quads[k]? = some quad →
            quad.op = .output opd ∨ quad.op = .input opd → depth x.procedure k = 0 →
            x.blocks[k]? = some block → block[j]? = some (.call l) →
            s.pc = e + start x.blocks k + j →
            P.image.symbol l = none ∧ (s.cpu.regs .rsp).toNat % 16 = 0 := by
  obtain ⟨g, pieces, hassign, hpieces, hroutines, hfuns, hg⟩ := Program.pieces_of_assembly hasm
  obtain ⟨stage, himg, hstart⟩ := Source.File.exists_hasStages hbuild hpieces hg hbal hlabels
  have halign := Source.File.aligns hbuild hpieces hfit hg himg hstart hbal hexact hlabels hnames
  refine ⟨g, pieces, hassign, hpieces, hroutines, hfuns,
    fun P q rsp first n s hcode hserve hq hentry hrsp hfirst hrun hchain x hx => ?_⟩
  obtain ⟨pre, post, hsplit⟩ := List.append_of_mem hx
  have hlinked := Source.File.placed_linked hbuild (hsplit ▸ hpieces)
  rw [← hsplit, ← hcode] at hlinked
  refine ⟨extent pre, hlinked.2, hlinked.1,
    fun k quad opd block j l hquad hop hdepth hblock hj hpc => ?_⟩
  have hpushed : (first.cpu.regs .rsp).toNat + 8 + 8 * argsAt pieces first.pc ≡ 0 [MOD 16] := by
    rw [Source.File.argsAt_of_entry hbuild hpieces hq (hcode ▸ hentry)]
    exact pushed_modEq hrsp hfirst
  have hlevel :=
    (Leveled.run (hcode ▸ himg) (hcode ▸ halign) hserve hentry hpushed hrun hchain).level
  have hcalls : quad.op.calls = true := by
    rcases hop with hop | hop <;> rw [hop] <;> rfl
  obtain ⟨quad', hquad', hblockCode⟩ := getElem?_of_forall₂ x.laid.code hblock
  cases hquad.symm.trans hquad'
  refine ⟨?_, ?_⟩
  · have hne : ∀ callee, quad.op ≠ .call callee := by
      rcases hop with hop | hop <;> simp [hop]
    rw [hcode]
    exact Source.File.symbol_of_codeOf hpieces hlabels hnames hx (List.mem_of_getElem? hquad) hne
      hblockCode (List.mem_of_getElem? hj)
  · have htaken := Source.File.taken_of_call hbuild hpieces hfit hg himg hstart hsplit hquad hblock
      hblockCode hcalls hj
    rw [Nat.add_assoc] at hpc
    rw [← hpc, hdepth] at htaken
    have hrest := hlevel.modEq
    unfold Nat.ModEq at *
    omega

namespace OddArguments

/-- A procedure with one stack argument that calls another procedure and prints. -/
def file : Source.File where
  procedures := [
    { name := "main"
      body := [{ op := "setarg", index := 7, src := some { int := some 5 } },
        { op := "call", callee := "f" }] },
    { name := "f"
      formals := Source.sevenFormals
      body := [{ op := "call", callee := "g" }, { op := "output", src := some { name := "h" } }] },
    { name := "g" }]

def h : Variable := ⟨6, .symbol, "h", 8, .int⟩

def g : Procedure := { name := "g" }

def f : Procedure where
  name := "f"
  formals := sevenFormals 0
  body := [{ op := .call g.signature }, { op := .output h }]

def main : Procedure where
  name := "main"
  body := [{ op := .setArg 7 (.lit (.int 5)) }, { op := .call f.signature }]

/-- The program. -/
def program : Program := ⟨[], [], [main, f, g]⟩

/-- The argument is on the stack when the first call comes. -/
def depth (q : Procedure) (k : Nat) : Nat := if q.name = main.name ∧ k = 2 then 1 else 0

/-- The code of the procedure that prints, quad by quad. -/
theorem blocks_eq {x : Piece program} (h : x.procedure = f) :
    x.blocks = f.quads.map fun quad => (f.bareContext.codeOf quad.op).toOption.getD [] := by
  rw [x.blocks_eq_map, h, Piece.ctx_eq_bareContext h (by decide +kernel)]

/-- Whether the machine goes on properly after some steps. -/
def isChained (m : Nat) : Bool :=
  (program.trial.run m (.fresh 8184)).all fun (t : State) =>
    program.trial.image.code[t.pc]? ≠ some .ret ||
      (program.trial.step t).all fun s' =>
        (program.trial.pending (.fresh 8184) m).head?.any fun c => s'.pc = c.pc + 1

/-- The second procedure returns to the first one, and the machine goes on there. -/
theorem chained (m : Nat) (t : State) (hm : m < 25)
    (hrun : program.trial.run m (.fresh 8184) = some t) :
    program.trial.Chained (program.trial.pending (.fresh 8184) m) t := by
  intro hcode s' hstep
  have hall : ∀ m < 25, isChained m = true := by decide +kernel
  have ht := hall m hm
  simp only [isChained, hrun, Option.all_some, hcode, hstep, ne_eq, not_true_eq_false,
    decide_false, Bool.false_or, Option.any_eq_true, decide_eq_true_eq] at ht
  obtain ⟨c, hc, hpc⟩ := ht
  obtain ⟨rest, hrest⟩ := List.head?_eq_some_iff.1 hc
  exact ⟨c, rest, hrest, hpc⟩

end OddArguments

open OddArguments in
/-- The procedure prints with the stack pointer at a multiple of 16, although it was entered with
one word more on the stack. -/
theorem oddArguments_aligned : ∃ s, file.build = .ok program ∧
    program.trial.run 25 (.fresh 8184) = some s ∧
    program.trial.image.code[s.pc]? = some (.call "printInt") ∧
    program.trial.image.symbol "printInt" = none ∧ (s.cpu.regs .rsp).toNat % 16 = 0 := by
  have hbuild : file.build = .ok program := by rfl
  obtain ⟨asm, hasm⟩ : ∃ asm, program.assembly {} = .ok asm := ⟨_, rfl⟩
  have hbal : ∀ q ∈ program.procedures, q.Balanced (depth q) := by decide
  have hexact : ∀ q ∈ program.procedures, q.PassesExactly (depth q) := by decide
  obtain ⟨globals, pieces, hglobals, hpieces, hroutines, -, hall⟩ :=
    runtime_calls_aligned_unless_captured hbuild hasm hbal hexact (by decide) (by decide)
      (by decide)
  obtain rfl : globals = ⟨[], []⟩ := Except.ok.inj (hglobals.symm.trans (by decide +kernel))
  have hpc : (program.trial.run 25 (.fresh 8184)).map (·.pc) = some 23 := by decide +kernel
  obtain ⟨s, hrun, hs⟩ := Option.map_eq_some_iff.1 hpc
  have hf : f ∈ pieces.map (·.procedure) := by
    rw [hpieces]
    decide
  obtain ⟨x, hx, hxf⟩ := List.mem_map.1 hf
  obtain ⟨e, hentry, -, haligned⟩ := hall program.trial main 8192 (.fresh 8184) 25 s
    (Program.image_trial hroutines) (fun _ _ _ => rfl) (by decide) (by decide +kernel)
    (by decide) (by decide) hrun chained x hx
  obtain rfl : 9 = e := by
    rw [hxf] at hentry
    exact Option.some.inj
      ((by decide +kernel : some 9 = program.trial.image.entry f.name).trans hentry)
  refine ⟨s, hbuild, hrun, by rw [hs]; decide +kernel, ?_⟩
  refine haligned 2 ⟨[], .output h⟩ h [.load .word (.base .rbp (-64)) .rdi, .call "printInt"] 1
    "printInt" (by rw [hxf]; rfl) (.inl rfl) (by rw [hxf]; rfl) ?_ rfl ?_
  · rw [blocks_eq hxf]
    decide +kernel
  · rw [hs, blocks_eq hxf]
    decide +kernel

namespace Namesake

/-- A program that prints, with a procedure that has the name of the routine for it. -/
def file : Source.File where
  procedures := [
    { name := "main", body := [{ op := "output", src := some { int := some 5 } }] },
    { name := "printInt"
      formals := Source.sevenFormals
      body := [{ op := "output", src := some { bool := some true } }] }]

/-- The program. -/
def program : Program := ⟨[], [], [
  { name := "main", body := [{ op := .output (.lit (.int 5)) }] },
  { name := "printInt"
    formals := sevenFormals 0
    body := [{ op := .output (.lit (.bool true)) }] }]⟩

end Namesake

open Namesake in
/-- A procedure with the name of a routine takes the calls of that routine, which push no arguments:
it expects one word on the stack that is not there, and prints with the stack pointer 8 above a
multiple of 16. Nothing is ever pending and no procedure has returned yet. -/
theorem namesake_misaligned :
    file.build = .ok program ∧ (program.assembly {}).toOption.isSome ∧
    (∀ q ∈ program.procedures, q.Balanced fun _ => 0) ∧
    (∀ q ∈ program.procedures, q.PassesExactly fun _ => 0) ∧
    (∀ m < 18, ((program.trial.run m (.fresh 8184)).bind
      fun s => program.trial.image.code[s.pc]?) ≠ some .ret) ∧
    program.trial.image.symbol "printByte" = none ∧
    (program.trial.run 18 (.fresh 8184)).map (fun s =>
      (program.trial.image.code[s.pc]?, (s.cpu.regs .rsp).toNat % 16))
      = some (some (.call "printByte"), 8) := by
  refine ⟨rfl, by decide +kernel, by decide, by decide, by decide +kernel, by decide +kernel,
    by decide +kernel⟩

end QuadAsm
