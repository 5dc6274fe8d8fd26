import QuadAsm.Proofs.Emit.Access

/-!
# What code may change

The footprint of a block is what its instructions may change at most: some registers, and in memory
slots of the frame, global variables and what a pointer points to. Main result: the footprint of the
code of every quad that leads straight on to the next one (`Context.footprint_of_codeOf`).
-/

namespace QuadAsm

open Layout Machine

/-! ## Instructions -/

namespace Machine

/-- Where an instruction may store: to a slot, to a global variable, or through a pointer. The room
is the number of bytes that the slots reach below the frame pointer. -/
def Instr.Aims (g : Globals) (room : Nat) : Instr → Prop
  | store _ _ (.base .rbp offset) => -(room : Int) ≤ offset ∧ offset ≤ -16
  | store _ _ (.base reg offset) => reg = .scratch ∧ offset = 0
  | store size _ (.data label) => ∃ v ∈ g.vars, label = globalLabel v.name ∧ size = v.size
  | _ => True

/-- An instruction that leads to the next line and changes no other registers than `rs`. -/
structure Instr.Works (g : Globals) (room : Nat) (rs : List Register) (i : Instr) : Prop where
  control : i.isControl = false
  writes : ∀ r ∈ i.writes, r ∈ rs
  aims : i.Aims g room

/-- Code whose instructions lead to the next line and change no other registers than `rs`. -/
def Footprint (g : Globals) (room : Nat) (rs : List Register) (code : List Instr) : Prop :=
  ∀ i ∈ code, i.Works g room rs

namespace Footprint

variable {g : Globals} {room : Nat} {rs rs' : List Register} {a b : List Instr}

theorem nil : Footprint g room rs [] := List.forall_mem_nil _

theorem cons {i : Instr} (hi : i.Works g room rs) (h : Footprint g room rs a) :
    Footprint g room rs (i :: a) :=
  List.forall_mem_cons.2 ⟨hi, h⟩

/-- More registers may be written. -/
theorem mono (h : Footprint g room rs a) (hrs : rs ⊆ rs') : Footprint g room rs' a :=
  fun i hi => ⟨(h i hi).control, fun r hr => hrs ((h i hi).writes r hr), (h i hi).aims⟩

theorem append (ha : Footprint g room rs a) (hb : Footprint g room rs b) :
    Footprint g room rs (a ++ b) :=
  List.forall_mem_append.2 ⟨ha, hb⟩

/-- Code leaves every other register as it was. -/
theorem regs (h : Footprint g room rs a) {data : Bytes → Word} {c c' : Cpu}
    (he : execAll data a c = some c') {r : Register} (hr : r ∉ rs) : c'.regs r = c.regs r :=
  execAll_regs he fun i hi hmem => hr ((h i hi).writes r hmem)

end Footprint

end Machine

/-! ## Access to operands -/

namespace Emit.Context

variable {ctx : Context} {q : Procedure} {opd : Operand} {reg : Register} {code : List Instr}

/-- The number of bytes that the slots of the frame reach below the frame pointer. -/
def room (ctx : Context) : Nat := reach ctx.frame.slots.length

/-- Loading a value changes the register. -/
theorem footprint_of_loadValue (h : ctx.loadValue opd reg = .ok code) :
    Footprint ctx.globals ctx.room [reg] code := by
  cases loadsValue_of_loadValue h with
  | plain | string | number => exact .cons ⟨rfl, fun _ h => h, trivial⟩ .nil
  | through =>
    exact .cons ⟨rfl, fun _ h => h, trivial⟩ (.cons ⟨rfl, fun _ h => h, trivial⟩ .nil)

/-- Loading an address changes the register. -/
theorem footprint_of_loadAddress (h : ctx.loadAddress opd reg = .ok code) :
    Footprint ctx.globals ctx.room [reg] code := by
  cases loadsAddress_of_loadAddress h with
  | plain | held | string => exact .cons ⟨rfl, fun _ h => h, trivial⟩ .nil

/-- The memory of a variable is a slot or belongs to a global variable. -/
theorem aims_of_storage (hframe : Frame.assign q = .ok ctx.frame) {v : Variable} {m : Memory}
    (h : ctx.storage v = .ok m) {size : Size} (hsize : v ∈ ctx.globals.vars → size = v.size) :
    (Instr.store size reg m).Aims ctx.globals ctx.room := by
  rcases storage_cases h with ⟨o, ho, rfl⟩ | ⟨hv, rfl⟩
  · obtain ⟨i, hi, -, rfl⟩ := Frame.offset?_eq_some hframe ho
    unfold Instr.Aims room reach
    constructor <;> push_cast <;> omega
  · exact ⟨v, hv, rfl, hsize hv⟩

/-- Storing a value changes no register but the scratch register. -/
theorem footprint_of_storeValue (hframe : Frame.assign q = .ok ctx.frame)
    (h : ctx.storeValue opd reg = .ok code) :
    Footprint ctx.globals ctx.room [.scratch] code := by
  cases storesValue_of_storeValue h with
  | plain _ hm =>
    exact .cons ⟨rfl, List.nil_subset _, aims_of_storage hframe hm fun _ => rfl⟩ .nil
  | through =>
    exact .cons ⟨rfl, fun _ h => h, trivial⟩ (.cons ⟨rfl, List.nil_subset _, rfl, rfl⟩ .nil)

/-- Storing an address changes no register. -/
theorem footprint_of_storeAddress (hframe : Frame.assign q = .ok ctx.frame)
    (hsym : ∀ v ∈ ctx.globals.vars, v.form ≠ .pointer) (h : ctx.storeAddress opd reg = .ok code) :
    Footprint ctx.globals ctx.room [] code := by
  obtain ⟨v, m, rfl, hform, hm, rfl⟩ := exists_of_storeAddress h
  exact .cons ⟨rfl, List.nil_subset _,
    aims_of_storage hframe hm fun hv => absurd hform (hsym v hv)⟩ .nil

end Emit.Context

/-! ## Quads -/

/-- Whether the code of a quad leads straight on to the code of the next quad. -/
def Op.isStraight : Op Signature → Bool
  | .binary .. | .unary .. | .assign .. | .addrOf .. | .nop | .setArg .. | .getArg .. | .setRet _
  | .getRet _ => true
  | _ => false

/-- The registers that combining two values may change. Division also needs `rdx`. -/
def BinOp.clobbers : BinOp → List Register
  | .div => [.rax, .r10, .rdx, .scratch]
  | _ => [.rax, .r10, .scratch]

/-- No operation works on other registers than these. -/
theorem BinOp.clobbers_subset (op : BinOp) : op.clobbers ⊆ [.rax, .r10, .rdx, .scratch] := by
  unfold clobbers
  split <;> decide

/-- Every operation works on these. -/
theorem BinOp.subset_clobbers (op : BinOp) : [.rax, .r10, .scratch] ⊆ op.clobbers := by
  unfold clobbers
  split <;> decide

/-- The registers that the code of a quad may change, if it leads straight on. -/
def Op.clobbers : Op Signature → List Register
  | .binary op _ _ _ => op.clobbers
  | .unary .. | .assign .. | .addrOf .. => [.rax, .scratch]
  | .setArg index _ =>
    match Register.ofArgument? index with
    | some reg => [reg]
    | none => [.scratch, .rsp]
  | .setRet _ => [.result]
  | .getRet _ => [.scratch]
  | _ => []

namespace Emit

/-- The code of an operation on two values works on its registers. -/
theorem footprint_of_combine {g : Globals} {room : Nat} {op : BinOp} {work : List Instr}
    {result : Register} (h : combine op = .ok (work, result)) :
    Footprint g room op.clobbers work := by
  cases op with
  | unknown name => cases h
  | div =>
    cases h
    exact .cons ⟨rfl, by decide, trivial⟩ (.cons ⟨rfl, by decide, trivial⟩ .nil)
  | add | sub | mult | and | or =>
    cases h
    exact .cons ⟨rfl, by decide, trivial⟩ .nil
  | eq | neq | lt | gt | lte | gte =>
    cases h
    exact .cons ⟨rfl, by decide, trivial⟩ (.cons ⟨rfl, by decide, trivial⟩
      (.cons ⟨rfl, by decide, trivial⟩ .nil))

/-- The code of an operation on one value works on two. -/
theorem footprint_of_change {g : Globals} {room : Nat} {op : UnOp} {work : List Instr}
    (h : change op = .ok work) : Footprint g room [.rax, .scratch] work := by
  cases op with
  | unknown name => cases h
  | copy => cases h; exact .nil
  | neg | not =>
    cases h
    exact .cons ⟨rfl, by decide, trivial⟩ .nil

namespace Context

variable {ctx : Context} {q : Procedure}

/-- Moving the arguments into the slots of the formals changes the scratch register. -/
theorem footprint_of_receive (hframe : Frame.assign q = .ok ctx.frame) {count position : Nat}
    {formals : List Variable} {code : List Instr}
    (h : ctx.receive count position formals = .ok code) :
    Footprint ctx.globals ctx.room [.scratch] code := by
  induction formals generalizing position code with
  | nil =>
    cases h
    exact .nil
  | cons v rest ih =>
    obtain ⟨store, others, hstore, hothers, rfl⟩ := exists_of_receive_cons h
    have hfetch : Footprint ctx.globals ctx.room [.scratch] (incoming count position).1 := by
      unfold incoming
      split
      · exact .nil
      · exact .cons ⟨rfl, fun _ h => h, trivial⟩ .nil
    exact (hfetch.append (footprint_of_storeValue hframe hstore)).append (ih hothers)

/-- The code of a quad that leads straight on changes no other registers than it may. -/
theorem footprint_of_codeOf (hframe : Frame.assign q = .ok ctx.frame)
    (hsym : ∀ v ∈ ctx.globals.vars, v.form ≠ .pointer) {op : Op Signature} {block : List Instr}
    (h : ctx.codeOf op = .ok block) (hop : op.isStraight = true) :
    Footprint ctx.globals ctx.room op.clobbers block := by
  cases codes_of_codeOf h with
  | @binary op src1 src2 dst _ _ _ _ _ hleft hright hwork hstore =>
    have hmoves {reg : Register} (hreg : reg ∈ [.rax, .r10, .scratch]) : [reg] ⊆ op.clobbers :=
      List.cons_subset.2 ⟨op.subset_clobbers hreg, List.nil_subset _⟩
    exact ((((footprint_of_loadValue hleft).mono (hmoves (by decide))).append
      ((footprint_of_loadValue hright).mono (hmoves (by decide)))).append
      (footprint_of_combine hwork)).append
      ((footprint_of_storeValue hframe hstore).mono (hmoves (by decide)))
  | unary hload hwork hstore =>
    show Footprint _ _ [.rax, .scratch] _
    exact (((footprint_of_loadValue hload).mono (by decide)).append
      (footprint_of_change hwork)).append
      ((footprint_of_storeValue hframe hstore).mono (by decide))
  | assign hload hstore =>
    show Footprint _ _ [.rax, .scratch] _
    exact ((footprint_of_loadValue hload).mono (by decide)).append
      ((footprint_of_storeValue hframe hstore).mono (by decide))
  | addrOf hload hstore =>
    show Footprint _ _ [.rax, .scratch] _
    exact ((footprint_of_loadAddress hload).mono (by decide)).append
      ((footprint_of_storeAddress hframe hsym hstore).mono (by simp))
  | nop => exact .cons ⟨rfl, List.nil_subset _, trivial⟩ .nil
  | setArg _ hreg hload =>
    rw [Op.clobbers, hreg]
    exact footprint_of_loadValue hload
  | pushArg _ hreg hload =>
    rw [Op.clobbers, hreg]
    exact ((footprint_of_loadValue hload).mono (by simp)).append
      (.cons ⟨rfl, by decide, trivial⟩ .nil)
  | getArg => exact .nil
  | setRet hload => exact footprint_of_loadValue hload
  | getRet hstore => exact footprint_of_storeValue hframe hstore
  | goto | ifZero | call | enter | leave | output | input => cases hop

end Context

end Emit

end QuadAsm
