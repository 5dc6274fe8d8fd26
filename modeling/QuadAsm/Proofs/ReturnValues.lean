import QuadAsm.Proofs.Emit.Enter
import QuadAsm.Proofs.Emit.Link
import QuadAsm.Proofs.Operators
import QuadAsm.Proofs.Stack.Run

/-!
# Where results are found

A procedure sets its result in a register, and its caller takes it from there after the call. In
between the procedure may jump to its end, gives its frame up and returns, and the caller takes
stack arguments back. None of this touches the register or memory. Main result:
`result_reaches_caller`.
-/

namespace QuadAsm

open Emit Layout Machine

/-! ## Runs that leave memory alone -/

namespace Machine

/-- Whether an instruction may change memory. -/
def Instr.stores : Instr → Bool
  | .store .. | .push _ => true
  | _ => false

/-- An instruction that does not store leaves memory alone. -/
theorem Instr.exec_ram_of_stores {data : Bytes → Word} {i : Instr} {c c' : Cpu}
    (h : i.exec data c = some c') (hi : i.stores = false) : c'.ram = c.ram := by
  refine i.exec_ram h ?_ ?_
  · rintro size src dst rfl
    cases hi
  · rintro reg rfl
    cases hi

/-- A run on which memory changes in an area only. -/
structure Process.Touches (P : Process) (area : Word → Prop) (s : State) (n : Nat) (s' : State) :
    Prop where
  run : P.run n s = some s'
  ram : ∀ m t, m ≤ n → P.run m s = some t → ∀ x, ¬ area x → t.cpu.ram x = s.cpu.ram x

namespace Process.Touches

variable {P : Process} {area : Word → Prop} {s s₁ s₂ : State} {m n : Nat}

/-- No steps touch nothing. -/
theorem refl (P : Process) (area : Word → Prop) (s : State) : P.Touches area s 0 s := by
  refine ⟨rfl, fun m t hm ht x _ => ?_⟩
  obtain rfl := Nat.le_zero.1 hm
  cases ht
  rfl

/-- One step touches what it changes. -/
theorem step (h : P.step s = some s₁) (hram : ∀ x, ¬ area x → s₁.cpu.ram x = s.cpu.ram x) :
    P.Touches area s 1 s₁ := by
  refine ⟨(run_one s).trans h, fun m t hm ht => ?_⟩
  rcases Nat.le_one_iff_eq_zero_or_eq_one.1 hm with rfl | rfl
  · cases ht
    exact fun _ _ => rfl
  · rw [run_one, h] at ht
    cases ht
    exact hram

/-- One run after the other. -/
theorem trans (h₁ : P.Touches area s m s₁) (h₂ : P.Touches area s₁ n s₂) :
    P.Touches area s (m + n) s₂ := by
  refine ⟨run_trans h₁.run h₂.run, fun k t hk ht x hx => ?_⟩
  rcases Nat.le_total k m with hle | hle
  · exact h₁.ram k t hle ht x hx
  · obtain ⟨j, rfl⟩ := Nat.exists_eq_add_of_le hle
    rw [run_add, h₁.run] at ht
    rw [h₂.ram j t (by omega) ht x hx, h₁.ram m s₁ (Nat.le_refl m) h₁.run x hx]

/-- A block of instructions of which only the last one may change memory. -/
theorem block (area : Word → Prop) {block : List Instr} {c : Cpu} (hb : P.image.Holds s.pc block)
    (he : execAll P.data block s.cpu = some c) (hquiet : ∀ i ∈ block.dropLast, i.stores = false)
    (hram : ∀ x, ¬ area x → c.ram x = s.cpu.ram x) :
    P.Touches area s block.length ⟨c, s.pc + block.length, s.trace⟩ := by
  induction block generalizing s with
  | nil =>
    cases he
    exact refl P area s
  | cons i rest ih =>
    obtain ⟨c₁, h₁, h₂⟩ := Option.bind_eq_some_iff.1 he
    have hfirst : ∀ x, ¬ area x → c₁.ram x = s.cpu.ram x := by
      cases rest with
      | nil =>
        cases h₂
        exact hram
      | cons j rest =>
        have hi : i.stores = false := hquiet i (by simp)
        exact fun x _ => congrFun (i.exec_ram_of_stores h₁ hi) x
    have hstep := step (step_exec hb.head h₁) hfirst
    have hrest : P.Touches area ⟨c₁, s.pc + 1, s.trace⟩ rest.length
        ⟨c, s.pc + 1 + rest.length, s.trace⟩ := by
      refine ih (s := ⟨c₁, s.pc + 1, s.trace⟩) hb.tail h₂ (fun j hj => hquiet j ?_)
        fun x hx => (hram x hx).trans (hfirst x hx).symm
      cases rest with
      | nil => cases hj
      | cons _ _ => exact List.mem_cons_of_mem _ hj
    rw [List.length_cons, Nat.add_comm rest.length, ← Nat.add_assoc]
    exact hstep.trans hrest

end Process.Touches

end Machine

/-! ## Leaving and taking arguments back -/

namespace Emit

/-- Moving the stack pointer stores nothing. -/
theorem Context.stores_of_adjustStack {ctx : Context} {op : Arith} :
    ∀ i ∈ ctx.adjustStack op, i.stores = false := by
  unfold adjustStack
  split <;> simp [Instr.stores]

/-- Leaving a procedure returns to the caller with its frame pointer, when the stack pointer is
where entering has left it. -/
theorem Context.leave_touches {ctx : Context} {P : Process} {s : State} {position : Nat}
    (area : Word → Prop) (hb : P.image.Holds s.pc ctx.leaveCode)
    (hrsp : s.cpu.regs .rsp = s.cpu.regs .rbp - 8 - ctx.span)
    (hback : P.position? (s.cpu.ram.read (s.cpu.regs .rbp) .word) = some position) :
    ∃ c n, P.Touches area s n ⟨c, position, s.trace⟩ ∧ c.ram = s.cpu.ram ∧
      c.regs .rbp = s.cpu.ram.read (s.cpu.regs .rbp - 8) .word ∧
      c.regs .rsp = s.cpu.regs .rbp + 8 ∧
      ∀ r, r ≠ .rsp → r ≠ .rbp → c.regs r = s.cpu.regs r := by
  obtain ⟨c₁, he, hram, -, hrsp₁, hregs⟩ := ctx.adjustStack_exec P.data s.cpu (.inl rfl)
  have hsaved : c₁.regs .rsp = s.cpu.regs .rbp - 8 := by
    rw [hrsp₁, hrsp]
    exact BitVec.sub_add_cancel ..
  -- the frame pointer of the caller is taken from the stack
  obtain ⟨c₂, hc₂⟩ : ∃ c₂, c₂ = c₁.drop.set .rbp c₁.top := ⟨_, rfl⟩
  have hrsp₂ : c₂.regs .rsp = s.cpu.regs .rbp := by
    rw [hc₂, Cpu.set_regs_of_ne _ (by decide), Cpu.drop_rsp, hsaved]
    exact BitVec.sub_add_cancel ..
  have hram₂ : c₂.ram = s.cpu.ram := by rw [hc₂, Cpu.set_ram, Cpu.drop_ram, hram]
  have hcode : ctx.leaveCode = (ctx.adjustStack .add ++ [.pop .rbp]) ++ [.ret] := by
    rw [leaveCode, List.append_assoc]
    rfl
  rw [hcode] at hb
  have hpop : execAll P.data (ctx.adjustStack .add ++ [.pop .rbp]) s.cpu = some c₂ :=
    execAll_append_of he (by rw [hc₂]; rfl)
  have hrun := Process.Touches.block area hb.left hpop
    (by rw [List.dropLast_concat]; exact stores_of_adjustStack) fun x _ => congrFun hram₂ x
  have hret : P.step ⟨c₂, s.pc + (ctx.adjustStack .add ++ [Instr.pop .rbp]).length, s.trace⟩
      = some ⟨c₂.drop, position, s.trace⟩ := by
    have htop : c₂.top = s.cpu.ram.read (s.cpu.regs .rbp) .word := by
      rw [Cpu.top, hrsp₂, hram₂]
    simp only [Process.step, hb.right.head, htop, hback, Option.map_some]
  refine ⟨c₂.drop, _, hrun.trans (.step hret fun _ _ => rfl), hram₂, ?_, ?_,
    fun r hr hr' => ?_⟩
  · rw [Cpu.drop_regs_of_ne _ (by decide), hc₂, Cpu.set_regs_self, Cpu.top, hsaved, hram]
  · rw [Cpu.drop_rsp, hrsp₂]
  · rw [Cpu.drop_regs_of_ne _ hr, hc₂, Cpu.set_regs_of_ne _ hr', Cpu.drop_regs_of_ne _ hr,
      hregs r hr]

/-- After a call the caller takes its stack arguments back. -/
theorem callCode_exec (callee : Signature) : ∃ rest, callCode callee = .call callee.name :: rest ∧
    (∀ i ∈ rest, i.stores = false) ∧
    ∀ data c, ∃ c', execAll data rest c = some c' ∧ c'.ram = c.ram ∧
      c'.regs .rsp = c.regs .rsp + BitVec.ofNat 64 (8 * stackArguments callee.formals.length) ∧
      ∀ r, r ≠ .rsp → c'.regs r = c.regs r := by
  unfold callCode
  cases stackArguments callee.formals.length with
  | zero =>
    exact ⟨[], rfl, List.forall_mem_nil _, fun data c => ⟨c, rfl, rfl, by simp, fun _ _ => rfl⟩⟩
  | succ n =>
    refine ⟨_, rfl, List.forall_mem_singleton.2 rfl, fun data c => ⟨_, rfl, c.arith_ram .., ?_,
      fun r hr => c.arith_regs _ _ hr⟩⟩
    exact c.arith_regs_self ..

/-! ## Setting and taking a result -/

namespace Context

variable {ctx : Context} {opd : Operand} {reg : Register} {code : List Instr}

/-- Loading a value stores nothing. -/
theorem stores_of_loadValue (h : ctx.loadValue opd reg = .ok code) :
    ∀ i ∈ code, i.stores = false := by
  cases loadsValue_of_loadValue h with
  | plain | through | string | number => simp [Instr.stores]

/-- The last instruction of a store is the one that changes memory. -/
theorem stores_of_storeValue (h : ctx.storeValue opd reg = .ok code) :
    ∃ before last, code = before ++ [last] ∧ ∀ i ∈ before, i.stores = false := by
  cases storesValue_of_storeValue h with
  | plain => exact ⟨[], _, rfl, List.forall_mem_nil _⟩
  | through => exact ⟨[_], _, rfl, List.forall_mem_singleton.2 rfl⟩

/-- The bytes of memory that an operand stands for. -/
def Occupies (ctx : Context) (data : Bytes → Word) (frame : Word) (ram : Ram) (opd : Operand)
    (z : Word) : Prop :=
  ∃ u, opd = .var u ∧ Within z (ctx.target data frame ram opd) u.size.bytes

/-- What is written to the memory of an operand is its value, when the operand is not a pointer into
itself. -/
theorem valueOf_write_of_apart {data : Bytes → Word} {frame : Word} {ram : Ram} {u : Variable}
    (h : u.form = .pointer →
      Apart (ctx.address data frame u) 8 (ctx.target data frame ram u) u.size.bytes) (w : Word) :
    ctx.valueOf data frame (ram.write (ctx.target data frame ram u) u.size w) u
      = u.size.clip w := by
  refine valueOf_write_target ?_
  by_cases hform : u.form = .pointer
  · have htarget (ram' : Ram) : ctx.target data frame ram' u
        = ram'.read (ctx.address data frame u) .word := by
      simp [target, hform]
    calc
      _ = (ram.write (ctx.target data frame ram u) u.size w).read
          (ctx.address data frame u) .word := htarget _
      _ = ram.read (ctx.address data frame u) .word := Ram.read_write_apart (h hform)
      _ = ctx.target data frame ram u := (htarget ram).symm
  · rw [target_of_ne hform, target_of_ne hform]

/-- A pointer to a variable of the width that it was declared for does not point into itself. -/
theorem PointsTo.apart {data : Bytes → Word} {frame : Word} {ram : Ram} {u w : Variable}
    (h : ctx.PointsTo data frame ram u w) (hs : ctx.Separate data frame) (hu : ctx.Knows u)
    (hform : u.form = .pointer) :
    Apart (ctx.address data frame u) 8 (ctx.target data frame ram u) u.size.bytes := by
  have hne : u ≠ w := by
    rintro rfl
    exact h.plain hform
  have hapart := hs u w hu h.knows hne
  have htarget : ctx.target data frame ram u = ctx.address data frame w := by
    simpa [target, hform] using h.address
  have hsize : w.size = u.size := by rw [Variable.size, Variable.size, h.width]
  rw [holds_of_eq hform, holds_of_ne h.plain, hsize] at hapart
  rw [htarget]
  exact hapart

variable {P : Process} {s : State}

/-- Setting a result only changes the register for results. -/
theorem setRet_touches (area : Word → Prop) (h : ctx.codeOf (.setRet opd) = .ok code)
    (hb : P.image.Holds s.pc code) :
    ∃ c, P.Touches area s code.length ⟨c, s.pc + code.length, s.trace⟩ ∧ c.ram = s.cpu.ram ∧
      c.regs .result = ctx.valueOf P.data (s.cpu.regs .rbp) s.cpu.ram opd ∧
      ∀ r, r ≠ .result → c.regs r = s.cpu.regs r := by
  have hload := liftM_rejection_eq_ok.1 h
  refine ⟨_, .block area hb (loadValue_exec P.data hload s.cpu) (fun i hi => ?_) fun _ _ => rfl,
    rfl, Cpu.set_regs_self .., fun r hr => Cpu.set_regs_of_ne _ hr _⟩
  exact stores_of_loadValue hload i (List.dropLast_subset _ hi)

/-- Taking a result gives the operand the value in the register for results and changes no other
memory. -/
theorem getRet_touches (h : ctx.codeOf (.getRet opd) = .ok code) (hb : P.image.Holds s.pc code)
    (hself : ∀ u, opd = .var u → u.form = .pointer →
      Apart (ctx.address P.data (s.cpu.regs .rbp) u) 8
        (ctx.target P.data (s.cpu.regs .rbp) s.cpu.ram u) u.size.bytes) :
    ∃ u c, opd = .var u ∧
      P.Touches (ctx.Occupies P.data (s.cpu.regs .rbp) s.cpu.ram opd) s code.length
        ⟨c, s.pc + code.length, s.trace⟩ ∧
      ctx.valueOf P.data (s.cpu.regs .rbp) c.ram opd = u.size.clip (s.cpu.regs .result) ∧
      c.regs .rbp = s.cpu.regs .rbp ∧ c.regs .rsp = s.cpu.regs .rsp := by
  have hstore := liftM_rejection_eq_ok.1 h
  obtain ⟨before, last, hcode, hquiet⟩ := stores_of_storeValue hstore
  obtain ⟨u, c, rfl, -, he, hram, hregs, -⟩ := storeValue_exec P.data hstore s.cpu
  refine ⟨u, c, rfl, .block _ hb he ?_ fun z hz => ?_, ?_, hregs .rbp (by decide),
    hregs .rsp (by decide)⟩
  · rwa [hcode, List.dropLast_concat]
  · rw [hram]
    exact Ram.write_of_not_within fun hin => hz ⟨u, rfl, hin⟩
  · rw [hram]
    exact valueOf_write_of_apart (hself u rfl) _

end Context

end Emit

/-! ## The way out of a procedure -/

/-- What the quad at a position does. -/
def Procedure.op? (q : Procedure) (k : Nat) : Option (Op Signature) := q.quads[k]?.map (·.op)

/-- The block of the quad at a position. -/
theorem Procedure.Placed.block_of_op? {q : Procedure} {ctx : Context} {img : Image} {n : Nat}
    {blocks : List (List Instr)} (h : q.Placed ctx img n blocks) {k : Nat} {op : Op Signature}
    (hk : q.op? k = some op) :
    ∃ block, ctx.codeOf op = .ok block ∧ img.Holds (n + start blocks k) block ∧
      n + start blocks (k + 1) = n + start blocks k + block.length := by
  obtain ⟨quad, hquad, rfl⟩ := Option.map_eq_some_iff.1 hk
  obtain ⟨block, hblock, hcode, hholds⟩ := h.block hquad
  exact ⟨block, hcode, hholds, by rw [start_succ hblock, Nat.add_assoc]⟩

/-- From the quad at a position of a procedure, jumps and quads that do nothing lead to a quad that
leaves the procedure `last`. -/
inductive Program.LeadsOut (p : Program) (last : Procedure) : Procedure → Nat → Prop where
  | leave {k : Nat} {proc : Signature} : last.op? k = some (.leave proc) → LeadsOut p last last k
  | nop {q : Procedure} {k : Nat} : q.op? k = some .nop → LeadsOut p last q (k + 1) →
      LeadsOut p last q k
  | goto {q q' : Procedure} {k k' : Nat} {l : Bytes} : q.op? k = some (.goto (some l)) →
      q' ∈ p.procedures → q'.labelled? l = some k' → LeadsOut p last q' k' → LeadsOut p last q k

section
variable {f : Source.File} {p : Program} {pieces : List (Piece p)}

/-- The way out of a procedure leads to the code that leaves it, with registers and memory as they
were. -/
theorem Program.LeadsOut.touches (hbuild : f.build = .ok p)
    (hpieces : pieces.map (·.procedure) = p.procedures) {P : Process}
    (himage : P.image = linked pieces) (area : Word → Prop) {x : Piece p} (hx : x ∈ pieces)
    {q : Procedure} {k : Nat} (h : p.LeadsOut x.procedure q k) {z : Piece p} (hz : z ∈ pieces)
    (hzq : z.procedure = q) {e : Nat} (hplaced : z.procedure.Placed z.ctx P.image e z.blocks)
    {s : State} (hpc : s.pc = e + start z.blocks k) :
    ∃ n position, P.Touches area s n { s with pc := position } ∧
      P.image.Holds position x.ctx.leaveCode := by
  induction h generalizing z e s with
  | leave hop =>
    obtain rfl := Source.File.piece_inj hbuild hpieces hz hx hzq
    obtain ⟨block, hcode, hholds, -⟩ := hplaced.block_of_op? hop
    cases hcode
    rw [← hpc] at hholds
    exact ⟨0, s.pc, .refl P area s, hholds⟩
  | nop hop _ ih =>
    subst hzq
    obtain ⟨block, hcode, hholds, hnext⟩ := hplaced.block_of_op? hop
    cases hcode
    rw [← hpc] at hholds
    obtain ⟨n, position, hrest, hleave⟩ := ih hz rfl hplaced (s := { s with pc := s.pc + 1 })
      (by rw [hnext, ← hpc]; rfl)
    exact ⟨1 + n, position, .trans (.step (Process.step_exec hholds.head rfl) fun _ _ => rfl) hrest,
      hleave⟩
  | goto hop hq' hl _ ih =>
    subst hzq
    obtain ⟨block, hcode, hholds, -⟩ := hplaced.block_of_op? hop
    cases hcode
    rw [← hpc] at hholds
    rw [← hpieces] at hq'
    obtain ⟨z', hz', rfl⟩ := List.mem_map.1 hq'
    obtain ⟨e', -, hplaced'⟩ := Source.File.placed_of_mem hbuild hpieces hz'
    rw [← himage] at hplaced'
    have hstep := Process.step_jump hholds.head (hplaced'.label _ _ hl)
    obtain ⟨n, position, hrest, hleave⟩ := ih hz' rfl hplaced'
      (s := { s with pc := e' + start z'.blocks _ }) rfl
    exact ⟨1 + n, position, .trans (.step hstep fun _ _ => rfl) hrest, hleave⟩

end

/-! ## From the callee to the caller -/

/-- A machine that is about to set a result. In the callee `x` the quad `k` sets its result to `v`
and from there it leaves; in the caller `y` the quad `m` calls it and the next one takes the result
to `dst`. The stack pointer is where entering has left it, and the stack holds the frame pointer of
the caller and the address after the call. A pointer that takes the result does not point into
itself; one that points to a symbol or a temporary of its width does not (`PointsTo.apart`). -/
structure Emit.ReturnReady {p : Program} (P : Process) (x y : Piece p) (k m : Nat)
    (v dst : Operand) (frame : Word) (e e' : Nat) (s : State) : Prop where
  sets : x.procedure.op? k = some (.setRet v)
  leads : p.LeadsOut x.procedure x.procedure (k + 1)
  calls : y.procedure.op? m = some (.call x.procedure.signature)
  takes : y.procedure.op? (m + 1) = some (.getRet dst)
  pc : s.pc = e + start x.blocks k
  rsp : s.cpu.regs .rsp = s.cpu.regs .rbp - 8 - x.ctx.span
  saved : s.cpu.ram.read (s.cpu.regs .rbp - 8) .word = frame
  back : s.cpu.ram.read (s.cpu.regs .rbp) .word = P.place (e' + start y.blocks m + 1)
  apart : ∀ u, dst = .var u → u.form = .pointer →
    Apart (y.ctx.address P.data frame u) 8 (y.ctx.target P.data frame s.cpu.ram u) u.size.bytes

section
variable {f : Source.File} {p : Program} {pieces : List (Piece p)} {P : Process} {x y : Piece p}
  {k m : Nat} {v dst : Operand} {frame : Word} {e e' : Nat} {s : State}

/-- A result that was set is in its register when the callee returns. -/
theorem Emit.ReturnReady.returns (h : ReturnReady P x y k m v dst frame e e' s)
    (hbuild : f.build = .ok p) (hpieces : pieces.map (·.procedure) = p.procedures)
    (himage : P.image = linked pieces)
    (hplace : ∀ i j, i < P.image.code.length → j < P.image.code.length →
      P.place i = P.place j → i = j)
    (area : Word → Prop) (hx : x ∈ pieces)
    (hplaced : x.procedure.Placed x.ctx P.image e x.blocks)
    (hreturn : e' + start y.blocks m + 1 < P.image.code.length) :
    ∃ c n, P.Touches area s n ⟨c, e' + start y.blocks m + 1, s.trace⟩ ∧ c.ram = s.cpu.ram ∧
      c.regs .result = x.ctx.valueOf P.data (s.cpu.regs .rbp) s.cpu.ram v ∧
      c.regs .rbp = frame ∧ c.regs .rsp = s.cpu.regs .rbp + 8 := by
  -- the result is set
  obtain ⟨block, hcode, hholds, hnext⟩ := hplaced.block_of_op? h.sets
  rw [← h.pc] at hholds hnext
  obtain ⟨c, hset, hram, hresult, hregs⟩ := Context.setRet_touches area hcode hholds
  have hrbp := hregs .rbp (by decide)
  have hrsp := hregs .rsp (by decide)
  -- the machine comes to where the callee leaves
  obtain ⟨n, position, hout, hleave⟩ := h.leads.touches hbuild hpieces himage area hx hx rfl
    hplaced (s := ⟨c, s.pc + block.length, s.trace⟩) hnext.symm
  -- the callee returns
  have hback : P.position? (c.ram.read (c.regs .rbp) .word)
      = some (e' + start y.blocks m + 1) := by
    rw [hram, hrbp, h.back, Process.position?_place hplace hreturn]
  obtain ⟨c', n', hret, hram', hrbp', hrsp', hregs'⟩ := Context.leave_touches
    (s := ⟨c, position, s.trace⟩) area hleave (by rw [hrsp, hrbp]; exact h.rsp) hback
  refine ⟨c', _, (hset.trans hout).trans hret, hram'.trans hram, ?_, ?_, ?_⟩
  · exact (hregs' .result (by decide) (by decide)).trans hresult
  · rw [hrbp', hram, hrbp, h.saved]
  · rw [hrsp', hrbp]

end

/-- Results reach the caller. Take a program that was built from a file and compiled, a process that
runs its code, a procedure `x` that sets its result and leaves, with any jumps in between, and a
procedure `y` that calls it and takes the result right after the call. From where the result is set,
the machine comes to the quad after the one that takes it. There the frame pointer is the one of the
caller, the stack arguments are off the stack, and the operand that took the result has the value
that was set, cut to its width. On the way no byte of memory changes other than those that this
operand stands for. -/
theorem result_reaches_caller {f : Source.File} {p : Program} {options : Options}
    {a : Asm.Assembly} (hbuild : f.build = .ok p) (hasm : p.assembly options = .ok a) :
    ∃ (g : Globals) (pieces : List (Piece p)), Globals.assign p = .ok g ∧
      pieces.map (·.procedure) = p.procedures ∧
      p.routines options g = .ok (pieces.map (·.routine)) ∧
      a.functions = pieces.map (·.routine.function) ∧
      ∀ P : Process, P.image = linked pieces →
        (∀ i j, i < P.image.code.length → j < P.image.code.length → P.place i = P.place j →
          i = j) →
        ∀ x ∈ pieces, ∀ y ∈ pieces, ∃ e e', P.image.entry x.procedure.name = some e ∧
          P.image.entry y.procedure.name = some e' ∧
          ∀ k m v dst frame s, ReturnReady P x y k m v dst frame e e' s →
            ∃ u s' n, dst = .var u ∧ P.run n s = some s' ∧
              s'.pc = e' + start y.blocks (m + 2) ∧ s'.cpu.regs .rbp = frame ∧
              s'.cpu.regs .rsp = s.cpu.regs .rbp + 8
                + BitVec.ofNat 64 (8 * stackArguments x.procedure.formals.length) ∧
              y.ctx.valueOf P.data frame s'.cpu.ram dst
                = u.size.clip (x.ctx.valueOf P.data (s.cpu.regs .rbp) s.cpu.ram v) ∧
              ∀ i t, i ≤ n → P.run i s = some t → ∀ z,
                ¬ Within z (y.ctx.target P.data frame s.cpu.ram dst) u.size.bytes →
                  t.cpu.ram z = s.cpu.ram z := by
  obtain ⟨g, pieces, hassign, hpieces, hroutines, hfuns, -⟩ := Program.pieces_of_assembly hasm
  refine ⟨g, pieces, hassign, hpieces, hroutines, hfuns, fun P himage hplace x hx y hy => ?_⟩
  obtain ⟨e, hentry, hplaced⟩ := Source.File.placed_of_mem hbuild hpieces hx
  obtain ⟨e', hentry', hplaced'⟩ := Source.File.placed_of_mem hbuild hpieces hy
  rw [← himage] at hentry hplaced hentry' hplaced'
  refine ⟨e, e', hentry, hentry', fun k m v dst frame s h => ?_⟩
  -- the blocks of the caller
  obtain ⟨call, hcall, hcalls, hafter⟩ := hplaced'.block_of_op? h.calls
  obtain ⟨take, htake, htakes, hend⟩ := hplaced'.block_of_op? h.takes
  obtain ⟨rest, hrest, hquiet, hclean⟩ := callCode_exec x.procedure.signature
  obtain rfl : .call x.procedure.name :: rest = call := by
    rw [← Except.ok.inj hcall]
    exact hrest.symm
  rw [List.length_cons, Nat.add_comm rest.length, ← Nat.add_assoc] at hafter
  have hreturn : e' + start y.blocks m + 1 < P.image.code.length := by
    obtain ⟨before, last, rfl, -⟩ := Context.stores_of_storeValue (liftM_rejection_eq_ok.1 htake)
    have hlast := List.getElem?_eq_some_iff.1 htakes.right.head
    have := hlast.1
    omega
  -- the area that may change
  obtain ⟨area, harea⟩ : ∃ area, area = y.ctx.Occupies P.data frame s.cpu.ram dst := ⟨_, rfl⟩
  obtain ⟨c, n, hrun, hram, hresult, hrbp, hrsp⟩ :=
    h.returns hbuild hpieces himage hplace area hx hplaced hreturn
  -- the caller takes its arguments back
  obtain ⟨c₁, he, hram₁, hrsp₁, hregs₁⟩ := hclean P.data c
  have hback : P.Touches area ⟨c, e' + start y.blocks m + 1, s.trace⟩ _ _ :=
    .block area hcalls.tail he (fun i hi => hquiet i (List.dropLast_subset _ hi))
      fun z _ => congrFun hram₁ z
  -- and the result
  rw [hafter] at htakes
  have hframe : c₁.regs .rbp = frame := (hregs₁ .rbp (by decide)).trans hrbp
  have hmem : c₁.ram = s.cpu.ram := hram₁.trans hram
  obtain ⟨u, c₂, hu, htaken, hval, hrbp₂, hrsp₂⟩ := Context.getRet_touches
    (s := ⟨c₁, e' + start y.blocks m + 1 + rest.length, s.trace⟩) htake htakes
    (by simpa only [hframe, hmem] using h.apart)
  simp only [hframe, hmem, ← harea] at htaken hval hrbp₂ hrsp₂
  have hall := (hrun.trans hback).trans htaken
  refine ⟨u, _, _, hu, hall.run, ?_, hrbp₂, ?_, ?_, fun i t hi ht z hz => hall.ram i t hi ht z ?_⟩
  · rw [hend, hafter]
  · rw [hrsp₂, hrsp₁, hrsp]
    rfl
  · rw [hval, hregs₁ .result (by decide), hresult]
  · rw [harea]
    rintro ⟨w, hw, hin⟩
    obtain rfl : u = w := by simpa using hu.symm.trans hw
    exact hz hin

namespace ByteResult

/-- A procedure with seven formals returns 300 to a caller that takes it through a pointer to a
byte. -/
def file : Source.File where
  procedures := [
    { name := "main"
      locals := [{ name := "b", width := 1 }]
      addrs := [{ name := "r", width := 1 }]
      body := [{ op := "addrof", src := some { name := "b" }, dst := some { name := "r" } },
        { op := "setarg", index := 7, src := some { int := some 5 } },
        { op := "call", callee := "f" }, { op := "getret", dst := some { name := "r" } }] },
    { name := "f"
      formals := Source.sevenFormals
      exit := "end"
      body := [{ op := "setret", src := some { int := some 300 } }, { op := "nop" },
        { op := "goto", target := "end" }, { op := "setret", src := some { int := some 0 } }] }]

def r : Variable := ⟨0, .pointer, "r", 1, .int⟩
def b : Variable := ⟨1, .symbol, "b", 1, .int⟩

def f : Procedure where
  name := "f"
  formals := sevenFormals 2
  body := [{ op := .setRet (.lit (.int 300)) }, { op := .nop }, { op := .goto (some "end") },
    { op := .setRet (.lit (.int 0)) }]
  leaveLabels := ["end"]

def main : Procedure where
  name := "main"
  locals := [b]
  addrs := [r]
  body := [{ op := .addrOf b r }, { op := .setArg 7 (.lit (.int 5)) }, { op := .call f.signature },
    { op := .getRet r }]

/-- The program. -/
def program : Program := ⟨[], [], [main, f]⟩

/-- The variables of the caller do not overlap. -/
theorem separate : main.bareContext.Separate program.trial.data 8184 := by
  have hm : main.bareContext.InMemory program.trial.data 8184 := by
    refine ⟨by decide +kernel, fun v hv => ?_, fun _ _ v hv => ?_⟩
    · cases hv
    · cases hv
  have hglobals : Globals.assign program = .ok main.bareContext.globals := by decide +kernel
  exact hm.separate (q := main) hglobals rfl fun v hv => by cases hv

end ByteResult

open ByteResult in
/-- The byte that the pointer of the caller points to becomes 44, which is 300 without what does not
fit, and nothing else changes. -/
theorem byteResult_taken : ∃ s s' n,
    file.build = .ok program ∧ program.trial.run 21 (.fresh 8184) = some s ∧
      program.trial.run n s = some s' ∧
      s'.pc = 12 ∧ s'.cpu.regs .rbp = 8184 ∧
      main.bareContext.valueOf program.trial.data 8184 s'.cpu.ram r = 44 ∧
      ∀ z, ¬ Within z 8168 1 → s'.cpu.ram z = s.cpu.ram z := by
  have hbuild : file.build = .ok program := by rfl
  obtain ⟨asm, hasm⟩ : ∃ asm, program.assembly {} = .ok asm := ⟨_, rfl⟩
  obtain ⟨g, pieces, hg, hpieces, hroutines, -, hall⟩ := result_reaches_caller hbuild hasm
  obtain rfl : g = ⟨[], []⟩ := Except.ok.inj (hg.symm.trans (by decide +kernel))
  obtain ⟨x, hx, hxf⟩ : ∃ x ∈ pieces, x.procedure = f :=
    List.mem_map.1 (by rw [hpieces]; decide)
  obtain ⟨y, hy, hym⟩ : ∃ y ∈ pieces, y.procedure = main :=
    List.mem_map.1 (by rw [hpieces]; decide)
  obtain ⟨e, e', hentry, hentry', hreach⟩ := hall program.trial
    (Program.image_trial hroutines) (Program.place_trial (by decide +kernel)) x hx y hy
  rw [hxf] at hentry
  rw [hym] at hentry'
  obtain rfl : 15 = e := Option.some.inj
    ((by decide +kernel : some 15 = program.trial.image.entry f.name).trans hentry)
  obtain rfl : 0 = e' := Option.some.inj
    ((by decide +kernel : some 0 = program.trial.image.entry main.name).trans hentry')
  have hxctx : x.ctx = f.bareContext := Piece.ctx_eq_bareContext hxf hg
  have hyctx : y.ctx = main.bareContext := Piece.ctx_eq_bareContext hym hg
  -- the machine when the result is about to be set
  have hstate : (program.trial.run 21 (.fresh 8184)).map (fun s =>
      (s.pc, s.cpu.regs .rsp, s.cpu.regs .rbp,
        s.cpu.ram.read 8120 .word, s.cpu.ram.read 8128 .word, s.cpu.ram.read 8160 .word))
        = some (27, 8048, 8128, 8184, 10, 8168) := by decide +kernel
  obtain ⟨s, hrun, hs⟩ := Option.map_eq_some_iff.1 hstate
  simp only [Prod.mk.injEq] at hs
  obtain ⟨hpc, hrsp, hrbp, hsaved, hback, hpointer⟩ := hs
  have hleads : program.LeadsOut f f 2 :=
    .nop rfl (.goto rfl (by decide) (by decide +kernel : f.labelled? "end" = some 5) (.leave rfl))
  -- the pointer holds the address of the byte
  have htarget : main.bareContext.target program.trial.data 8184 s.cpu.ram r = 8168 := hpointer
  have hpoints : main.bareContext.PointsTo program.trial.data 8184 s.cpu.ram r b :=
    ⟨⟨.frame (-16), by decide +kernel⟩, by decide, rfl, hpointer⟩
  have hready : ReturnReady program.trial x y 1 3 (.lit (.int 300)) r 8184 15 0 s := by
    refine ⟨by rw [hxf]; rfl, hxf ▸ hleads, by rw [hym, hxf]; rfl, by rw [hym]; rfl, ?_, ?_, ?_,
      ?_, fun u hu _ => ?_⟩
    · rw [hpc, x.blocks_eq_map, hxf, hxctx]
      decide +kernel
    · rw [hrsp, hrbp, hxctx]
      decide +kernel
    · rw [hrbp]
      exact hsaved
    · rw [hrbp, y.blocks_eq_map, hym, hyctx]
      exact hback.trans (by decide +kernel)
    · cases hu
      rw [hyctx]
      exact hpoints.apart separate ⟨.frame (-24), by decide +kernel⟩ rfl
  obtain ⟨u, s', n, hu, hrun', hpc', hrbp', -, hval, hram⟩ := hreach 1 3 _ _ 8184 s hready
  cases hu
  have hset : x.ctx.valueOf program.trial.data (s.cpu.regs .rbp) s.cpu.ram (.lit (.int 300))
      = 300 := rfl
  rw [hyctx, hset] at hval
  rw [hyctx, htarget] at hram
  refine ⟨s, s', n, hbuild, hrun, hrun', ?_, hrbp', hval.trans (by decide +kernel),
    hram n s' (Nat.le_refl n) hrun'⟩
  rw [hpc', y.blocks_eq_map, hym, hyctx]
  decide +kernel

end QuadAsm
