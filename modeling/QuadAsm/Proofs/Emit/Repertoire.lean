import QuadAsm.Proofs.Arguments.Pass

/-!
# The instructions of a quad

What the instructions for a quad can be (`Context.Emits`): they address the storage of variables and
strings and the words on which arguments came, other memory only through a working register, and
they lead elsewhere only where the quad does. Nothing is assumed about the program. Main result:
`Context.emits_of_codeOf`.
-/

namespace QuadAsm.Emit

open Layout Machine

namespace Context

/-- The storage of a variable or a string. -/
def Addresses (ctx : Context) (m : Memory) : Prop :=
  (∃ v : Variable, ctx.storage v = .ok m) ∨
    ∃ text label, ctx.globals.stringLabel text = .ok label ∧ m = .data label

/-- The storage of something, or what an address in a working register leads to. -/
def Reaches (ctx : Context) (m : Memory) : Prop :=
  ctx.Addresses m ∨ ∃ reg, reg ≠ .rbp ∧ m = .base reg 0

/-- A word on which an argument came, for a quad that enters. -/
def Incoming (op : Op Signature) (m : Memory) : Prop :=
  ∃ proc position, op = .enter proc ∧ registerArguments < position ∧
    position ≤ proc.formals.length ∧
    m = .base .rbp (8 * ((proc.formals.length : Int) - position + 1))

/-- The instructions that there can be for a quad. -/
def Emits (ctx : Context) (op : Op Signature) : Instr → Prop
  | .load size src dst => ctx.Reaches src ∨ size = .word ∧ dst = .scratch ∧ Incoming op src
  | .store _ _ dst => ctx.Reaches dst
  | .address src _ => ctx.Addresses src
  | .jump l => op = .goto (some l)
  | .jumpIfEqual l => ∃ cond, op = .ifZero cond (some l)
  | .call l =>
    (∃ callee, op = .call callee ∧ l = callee.name) ∨
      ∃ service, op.service? = some service ∧ l = service.name
  | .ret => ∃ proc, op = .leave proc
  | _ => True

section
variable {ctx : Context} {op : Op Signature} {opd : Operand} {reg : Register} {code : List Instr}

/-- What an address in a working register leads to may be used. -/
theorem reaches_base (ctx : Context) (hreg : reg ≠ .rbp) : ctx.Reaches (.base reg 0) :=
  .inr ⟨reg, hreg, rfl⟩

/-- The storage of a variable may be used. -/
theorem reaches_of_storage {v : Variable} {m : Memory} (h : ctx.storage v = .ok m) :
    ctx.Reaches m :=
  .inl (.inl ⟨v, h⟩)

/-- Loading a value takes no instruction that is not in the repertoire. -/
theorem emits_of_loadValue (h : ctx.loadValue opd reg = .ok code) (hreg : reg ≠ .rbp) :
    ∀ i ∈ code, ctx.Emits op i := by
  cases loadsValue_of_loadValue h with
  | plain _ hm => exact List.forall_mem_singleton.2 (.inl (reaches_of_storage hm))
  | through _ hm =>
    exact List.forall_mem_cons.2 ⟨.inl (reaches_of_storage hm),
      List.forall_mem_singleton.2 (.inl (ctx.reaches_base hreg))⟩
  | string hlabel => exact List.forall_mem_singleton.2 (.inr ⟨_, _, hlabel, rfl⟩)
  | number => exact List.forall_mem_singleton.2 trivial

/-- Nor does loading an address. -/
theorem emits_of_loadAddress (h : ctx.loadAddress opd reg = .ok code) :
    ∀ i ∈ code, ctx.Emits op i := by
  cases loadsAddress_of_loadAddress h with
  | plain _ hm => exact List.forall_mem_singleton.2 (.inl ⟨_, hm⟩)
  | held _ hm => exact List.forall_mem_singleton.2 (.inl (reaches_of_storage hm))
  | string hlabel => exact List.forall_mem_singleton.2 (.inr ⟨_, _, hlabel, rfl⟩)

/-- Nor does storing a value. -/
theorem emits_of_storeValue (h : ctx.storeValue opd reg = .ok code) :
    ∀ i ∈ code, ctx.Emits op i := by
  cases storesValue_of_storeValue h with
  | plain _ hm => exact List.forall_mem_singleton.2 (reaches_of_storage hm)
  | through _ _ hm =>
    exact List.forall_mem_cons.2 ⟨.inl (reaches_of_storage hm),
      List.forall_mem_singleton.2 (ctx.reaches_base (by decide))⟩

/-- Nor does setting a pointer. -/
theorem emits_of_storeAddress (h : ctx.storeAddress opd reg = .ok code) :
    ∀ i ∈ code, ctx.Emits op i := by
  obtain ⟨v, m, rfl, -, hm, rfl⟩ := exists_of_storeAddress h
  exact List.forall_mem_singleton.2 (reaches_of_storage hm)

/-- Nor does computing with two values. -/
theorem emits_of_combine {binary : BinOp} {result : Register}
    (h : combine binary = .ok (code, result)) : ∀ i ∈ code, ctx.Emits op i := by
  cases binary with
  | unknown name => cases h
  | add | sub | mult | div | and | or | eq | neq | lt | gt | lte | gte =>
    cases h
    simp [Emits]

/-- Nor does computing with one value. -/
theorem emits_of_change {unary : UnOp} (h : change unary = .ok code) :
    ∀ i ∈ code, ctx.Emits op i := by
  cases unary with
  | unknown name => cases h
  | copy | neg | not =>
    cases h
    simp [Emits]

/-- A procedure that is entered loads its arguments from the words on which they came. -/
theorem emits_of_receive {proc : Signature} {position : Nat} {formals : List Variable}
    (hpos : 1 ≤ position) (hle : position + formals.length ≤ proc.formals.length + 1)
    (h : ctx.receive proc.formals.length position formals = .ok code) :
    ∀ i ∈ code, ctx.Emits (.enter proc) i := by
  induction formals generalizing position code with
  | nil =>
    cases h
    exact List.forall_mem_nil _
  | cons v rest ih =>
    obtain ⟨store, others, hstore, hothers, rfl⟩ := exists_of_receive_cons h
    rw [List.length_cons] at hle
    have hfetch : ∀ i ∈ (incoming proc.formals.length position).1, ctx.Emits (.enter proc) i := by
      unfold incoming
      split
      · exact List.forall_mem_nil _
      · next hnone =>
        have habove := (Register.ofArgument?_eq_none hpos).1 hnone
        exact List.forall_mem_singleton.2
          (.inr ⟨rfl, rfl, proc, position, rfl, habove, by omega, rfl⟩)
    exact List.forall_mem_append.2 ⟨List.forall_mem_append.2 ⟨hfetch, emits_of_storeValue hstore⟩,
      ih (by omega) (by omega) hothers⟩

/-- Moving the stack pointer is in the repertoire of every quad. -/
theorem emits_of_adjustStack (ctx : Context) (op : Op Signature) (arith : Arith) :
    ∀ i ∈ ctx.adjustStack arith, ctx.Emits op i := by
  unfold adjustStack
  split <;> simp [Emits]

/-- The code of a quad consists of such instructions. -/
theorem emits_of_codeOf {block : List Instr} (h : ctx.codeOf op = .ok block) :
    ∀ i ∈ block, ctx.Emits op i := by
  cases codes_of_codeOf h with
  | binary hleft hright hwork hstore =>
    simp only [List.forall_mem_append]
    exact ⟨⟨⟨emits_of_loadValue hleft (by decide), emits_of_loadValue hright (by decide)⟩,
      emits_of_combine hwork⟩, emits_of_storeValue hstore⟩
  | unary hload hwork hstore =>
    simp only [List.forall_mem_append]
    exact ⟨⟨emits_of_loadValue hload (by decide), emits_of_change hwork⟩,
      emits_of_storeValue hstore⟩
  | assign hload hstore =>
    exact List.forall_mem_append.2 ⟨emits_of_loadValue hload (by decide),
      emits_of_storeValue hstore⟩
  | addrOf hload hstore =>
    exact List.forall_mem_append.2 ⟨emits_of_loadAddress hload, emits_of_storeAddress hstore⟩
  | goto => exact List.forall_mem_singleton.2 rfl
  | ifZero hload =>
    refine List.forall_mem_append.2 ⟨emits_of_loadValue hload (by decide), ?_⟩
    exact List.forall_mem_cons.2 ⟨trivial, List.forall_mem_singleton.2 ⟨_, rfl⟩⟩
  | nop => exact List.forall_mem_singleton.2 trivial
  | @call callee =>
    have hcall : ctx.Emits (.call callee) (.call callee.name) := .inl ⟨callee, rfl, rfl⟩
    unfold callCode
    split
    · exact List.forall_mem_singleton.2 hcall
    · exact List.forall_mem_cons.2 ⟨hcall, List.forall_mem_singleton.2 trivial⟩
  | enter hmoves =>
    simp only [List.forall_mem_append]
    exact ⟨⟨by simp [Emits], ctx.emits_of_adjustStack _ _⟩,
      emits_of_receive (Nat.le_refl 1) (by omega) hmoves⟩
  | @leave proc =>
    refine List.forall_mem_append.2 ⟨ctx.emits_of_adjustStack _ _, ?_⟩
    exact List.forall_mem_cons.2 ⟨trivial, List.forall_mem_singleton.2 ⟨proc, rfl⟩⟩
  | setArg _ hreg hload => exact emits_of_loadValue hload (Register.ofArgument?_ne hreg).2.1
  | pushArg _ _ hload =>
    exact List.forall_mem_append.2 ⟨emits_of_loadValue hload (by decide),
      List.forall_mem_singleton.2 trivial⟩
  | getArg => exact List.forall_mem_nil _
  | setRet hload => exact emits_of_loadValue hload (by decide)
  | getRet hstore => exact emits_of_storeValue hstore
  | output hload =>
    exact List.forall_mem_append.2 ⟨emits_of_loadValue hload (by decide),
      List.forall_mem_singleton.2 (.inr ⟨_, rfl, rfl⟩)⟩
  | input hstore => exact List.forall_mem_cons.2 ⟨.inr ⟨_, rfl, rfl⟩, emits_of_storeValue hstore⟩

end

end Context

end QuadAsm.Emit
