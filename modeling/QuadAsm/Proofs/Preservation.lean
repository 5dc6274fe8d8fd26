import QuadAsm.Proofs.Emit.Program
import QuadAsm.Proofs.Preservation.Memory

/-!
# Code keeps the meaning of procedures

The code of a procedure, run on the machine, does what the quads mean. At the start of the code of
every quad, memory holds the store and the same was printed and read as the quads ask for
(`Agrees`). One quad leads from a state that agrees to a state that agrees (`step_simulates`), and
so does a whole run (`run_simulates`), along which nothing is written that belongs to no variable.
What is printed and read goes through routines of the runtime, so their names must not be symbols of
the code. Main result: `code_preserves_meaning_unless_captured`.
-/

namespace QuadAsm

open Emit Layout Machine

/-! ## Agreement -/

/-- The runtime reads these values and keeps its hands off the data section. -/
structure Machine.Process.Serves (P : Process) (g : Globals) (inputs : Nat → Word) : Prop
    extends P.KeepsStack where
  data : ∀ v trace c, ∀ u ∈ g.vars, ∀ x, Within x (P.data (globalLabel u.name)) u.size.bytes →
    (P.serve v trace c).ram x = c.ram x
  input : ∀ channel trace c,
    (P.serve (.read channel) trace c).regs .rax = inputs (readCount trace)

/-- A state of the machine at the start of a quad agrees with the configuration there. -/
structure Agrees (ctx : Context) (P : Process) (n : Nat) (blocks : List (List Instr)) (c : Config)
    (s : State) : Prop where
  pc : s.pc = n + start blocks c.position
  trace : s.trace = c.trace
  store : ctx.Matches P.data (s.cpu.regs .rbp) c.store s.cpu.ram

/-- From one state to another, the frame stays where it is, and what is written above the stack
pointer belongs to variables. -/
structure StaysInFrame (ctx : Context) (P : Process) (s s' : State) : Prop where
  rbp : s'.cpu.regs .rbp = s.cpu.regs .rbp
  rsp : s'.cpu.regs .rsp = s.cpu.regs .rsp
  rest : ∀ x, (s.cpu.regs .rsp).toNat ≤ x.toNat → ¬ ctx.Owns P.data (s.cpu.regs .rbp) x →
    s'.cpu.ram x = s.cpu.ram x

/-- One run after the other. -/
theorem StaysInFrame.trans {ctx : Context} {P : Process} {s s₁ s₂ : State}
    (h₁ : StaysInFrame ctx P s s₁) (h₂ : StaysInFrame ctx P s₁ s₂) : StaysInFrame ctx P s s₂ := by
  refine ⟨h₂.rbp.trans h₁.rbp, h₂.rsp.trans h₁.rsp, fun x hx hown => ?_⟩
  rw [h₂.rest x (by rw [h₁.rsp]; exact hx) (by rw [h₁.rbp]; exact hown), h₁.rest x hx hown]

/-- What the machine needs for a procedure to run as it means: variables that are separate from each
other, and routines that leave them alone. -/
structure Setting (ctx : Context) (P : Process) (inputs : Nat → Word) (frame stack : Word) :
    Prop where
  separate : ctx.Separate P.data frame
  serves : P.Serves ctx.globals inputs
  spares : ∀ v trace c, c.regs .rsp = stack → ∀ x, ctx.Owns P.data frame x →
    (P.serve v trace c).ram x = c.ram x

/-! ## One quad -/

/-- The code of a quad leads from a state to one that agrees with a configuration. -/
def Leads (ctx : Context) (P : Process) (n : Nat) (blocks : List (List Instr)) (block : List Instr)
    (s : State) (c : Config) : Prop :=
  ∃ s', P.run block.length s = some s' ∧ Agrees ctx P n blocks c s' ∧ StaysInFrame ctx P s s'

/-- The machine is at the start of the code of a quad. -/
structure Ready (ctx : Context) (P : Process) (inputs : Nat → Word) (n : Nat)
    (blocks : List (List Instr)) (c : Config) (s : State) (block : List Instr) : Prop where
  setting : Setting ctx P inputs (s.cpu.regs .rbp) (s.cpu.regs .rsp)
  agrees : Agrees ctx P n blocks c s
  here : blocks[c.position]? = some block
  holds : P.image.Holds s.pc block

namespace Ready

variable {q : Procedure} {ctx : Context} {P : Process} {n : Nat} {blocks : List (List Instr)}
  {inputs : Nat → Word} {c c' : Config} {s : State} {block : List Instr}

/-- Where the code of the next quad starts. -/
theorem pc_next (hs : Ready ctx P inputs n blocks c s block) :
    s.pc + block.length = n + start blocks (c.position + 1) := by
  rw [start_succ hs.here, ← Nat.add_assoc, ← hs.agrees.pc]

/-- A block that is run to its end and leaves another store in memory. -/
theorem advance (hs : Ready ctx P inputs n blocks c s block) {cpu : Cpu} {ram : Ram} {σ : Store}
    (he : execAll P.data block s.cpu = some cpu) (hb : s.cpu.Becomes cpu ram)
    (hm : ctx.Matches P.data (s.cpu.regs .rbp) σ ram)
    (hrest : ∀ x, ¬ ctx.Owns P.data (s.cpu.regs .rbp) x → ram x = s.cpu.ram x) :
    Leads ctx P n blocks block s (c.next σ) := by
  refine ⟨_, Process.run_block hs.holds he, ⟨hs.pc_next, hs.agrees.trace, ?_⟩,
    ⟨hb.rbp, hb.rsp, ?_⟩⟩
  · rw [hb.ram, hb.rbp]
    exact hm
  · intro x _ hx
    rw [hb.ram]
    exact hrest x hx

/-- The code of an operation on two values does what the quad means. -/
theorem binary (hs : Ready ctx P inputs n blocks c s block) {op : BinOp}
    {src src2 dst : Operand} (hcode : ctx.codeOf (.binary op src src2 dst) = .ok block)
    (h : q.quadStep? (ctx.textAddress P.data) inputs c (.binary op src src2 dst) = some c') :
    Leads ctx P n blocks block s c' := by
  simp only [Procedure.quadStep?, Option.bind_eq_bind, Option.bind_eq_some_iff,
    Option.some.injEq] at h
  obtain ⟨a, hsrc, b, hsrc2, w, hw, σ, hσ, rfl⟩ := h
  cases Context.codes_of_codeOf hcode with
  | binary hleft hright =>
    rw [← hs.agrees.store.valueOf hleft hsrc, ← hs.agrees.store.valueOf hright hsrc2] at hw
    obtain ⟨v, cpu, rfl, hv, he, hb⟩ := Context.binary_exec P.data hcode s.cpu hw
    obtain ⟨hm, hrest⟩ := hs.agrees.store.assign hs.setting.separate hv hσ
    exact hs.advance he hb hm hrest

/-- So does the code of an operation on one value. -/
theorem unary (hs : Ready ctx P inputs n blocks c s block) {op : UnOp}
    {src dst : Operand} (hcode : ctx.codeOf (.unary op src dst) = .ok block)
    (h : q.quadStep? (ctx.textAddress P.data) inputs c (.unary op src dst) = some c') :
    Leads ctx P n blocks block s c' := by
  simp only [Procedure.quadStep?, Option.bind_eq_bind, Option.bind_eq_some_iff,
    Option.some.injEq] at h
  obtain ⟨a, hsrc, w, hw, σ, hσ, rfl⟩ := h
  cases Context.codes_of_codeOf hcode with
  | unary hload =>
    rw [← hs.agrees.store.valueOf hload hsrc] at hw
    obtain ⟨v, cpu, rfl, hv, he, hb⟩ := Context.unary_exec P.data hcode s.cpu hw
    obtain ⟨hm, hrest⟩ := hs.agrees.store.assign hs.setting.separate hv hσ
    exact hs.advance he hb hm hrest

/-- So does the code of an assignment. -/
theorem assign (hs : Ready ctx P inputs n blocks c s block) {src dst : Operand}
    (hcode : ctx.codeOf (.assign src dst) = .ok block)
    (h : q.quadStep? (ctx.textAddress P.data) inputs c (.assign src dst) = some c') :
    Leads ctx P n blocks block s c' := by
  simp only [Procedure.quadStep?, Option.bind_eq_bind, Option.bind_eq_some_iff,
    Option.some.injEq] at h
  obtain ⟨a, hsrc, σ, hσ, rfl⟩ := h
  cases Context.codes_of_codeOf hcode with
  | assign hload =>
    obtain ⟨v, cpu, rfl, hv, he, hb⟩ := Context.assign_exec P.data hcode s.cpu
    rw [hs.agrees.store.valueOf hload hsrc] at hb
    obtain ⟨hm, hrest⟩ := hs.agrees.store.assign hs.setting.separate hv hσ
    exact hs.advance he hb hm hrest

/-- So does the code that sets a pointer. -/
theorem addrOf (hs : Ready ctx P inputs n blocks c s block) {src dst : Operand}
    (hcode : ctx.codeOf (.addrOf src dst) = .ok block)
    (h : q.quadStep? (ctx.textAddress P.data) inputs c (.addrOf src dst) = some c') :
    Leads ctx P n blocks block s c' := by
  simp only [Procedure.quadStep?, Option.bind_eq_bind, Option.bind_eq_some_iff,
    Option.some.injEq] at h
  obtain ⟨σ, hσ, rfl⟩ := h
  cases Context.codes_of_codeOf hcode with
  | addrOf hload =>
    obtain ⟨p, cpu, rfl, hpf, hp, he, hb⟩ := Context.addrOf_exec P.data hcode s.cpu
    have hm := hs.agrees.store.pointTo hs.setting.separate hp hpf hload hσ
    refine hs.advance he hb hm fun x hx => ?_
    exact Context.write_of_not_owns hp (Context.holds_of_eq hpf).symm hx

/-- A routine of the runtime leaves the store in memory. -/
theorem served (hs : Ready ctx P inputs n blocks c s block) {cpu : Cpu}
    (hb : s.cpu.Becomes cpu s.cpu.ram) (v : Service) (trace : List Event) :
    ctx.Matches P.data (s.cpu.regs .rbp) c.store (P.serve v trace cpu).ram ∧
      (P.serve v trace cpu).regs .rbp = s.cpu.regs .rbp ∧
      (P.serve v trace cpu).regs .rsp = s.cpu.regs .rsp ∧
      ∀ x, (s.cpu.regs .rsp).toNat ≤ x.toNat → (P.serve v trace cpu).ram x = s.cpu.ram x := by
  have hserves := hs.setting.serves
  refine ⟨hs.agrees.store.congr fun x hx => ?_, ?_, ?_, fun x hx => ?_⟩
  · rw [hs.setting.spares v trace cpu hb.rsp x hx, hb.ram]
  · rw [hserves.rbp, hb.rbp]
  · rw [hserves.rsp, hb.rsp]
  · rw [hserves.ram v trace cpu x (by rw [hb.rsp]; exact hx), hb.ram]

/-- A state with the same variables in memory, at the start of some quad. -/
theorem arrive (hs : Ready ctx P inputs n blocks c s block) {s' : State}
    (hb : s.cpu.Becomes s'.cpu s.cpu.ram) (htrace : s'.trace = c'.trace)
    (hpc : s'.pc = n + start blocks c'.position) (hstore : c'.store = c.store) :
    Agrees ctx P n blocks c' s' ∧ StaysInFrame ctx P s s' := by
  refine ⟨⟨hpc, htrace, ?_⟩, ⟨hb.rbp, hb.rsp, fun x _ _ => by rw [hb.ram]⟩⟩
  rw [hb.ram, hb.rbp, hstore]
  exact hs.agrees.store

/-- So does the code of a quad that does nothing. -/
theorem nop (hs : Ready ctx P inputs n blocks c s block) (hcode : ctx.codeOf .nop = .ok block)
    (h : q.quadStep? (ctx.textAddress P.data) inputs c .nop = some c') :
    Leads ctx P n blocks block s c' := by
  cases hcode
  cases h
  exact hs.advance rfl ⟨rfl, rfl, rfl, rfl⟩ hs.agrees.store fun _ _ => rfl

/-- A jump leads to the code of the quad under the label. -/
theorem goto (hs : Ready ctx P inputs n blocks c s block) (hq : q.Placed ctx P.image n blocks)
    {target : Option Bytes} (hcode : ctx.codeOf (.goto target) = .ok block)
    (h : q.quadStep? (ctx.textAddress P.data) inputs c (.goto target) = some c') :
    Leads ctx P n blocks block s c' := by
  simp only [Procedure.quadStep?, Procedure.jump?, Option.bind_eq_bind, Option.bind_eq_some_iff,
    Option.some.injEq] at h
  obtain ⟨l, rfl, k, hk, rfl⟩ := h
  cases Context.codes_of_codeOf hcode with
  | goto =>
    refine ⟨{ s with pc := n + start blocks k }, ?_, hs.arrive ⟨rfl, rfl, rfl, rfl⟩
      hs.agrees.trace rfl rfl⟩
    exact (Process.run_one s).trans (Process.step_jump hs.holds.head (hq.label l k hk))

/-- A conditional jump leads there or to the next quad, by the value of the condition. -/
theorem ifZero (hs : Ready ctx P inputs n blocks c s block) (hq : q.Placed ctx P.image n blocks)
    {cond : Operand} {target : Option Bytes} (hcode : ctx.codeOf (.ifZero cond target) = .ok block)
    (h : q.quadStep? (ctx.textAddress P.data) inputs c (.ifZero cond target) = some c') :
    Leads ctx P n blocks block s c' := by
  simp only [Procedure.quadStep?, Option.bind_eq_bind, Option.bind_eq_some_iff] at h
  obtain ⟨a, hcond, h⟩ := h
  cases Context.codes_of_codeOf hcode with
  | @ifZero cond l load hload =>
    have hsplit : load ++ [.arithConst .cmp 0 .rax, .jumpIfEqual l]
        = (load ++ [.arithConst .cmp 0 .rax]) ++ [.jumpIfEqual l] := by simp
    rw [hsplit] at hs ⊢
    obtain ⟨cpu, he, hcmp, hb⟩ : ∃ cpu, execAll P.data (load ++ [.arithConst .cmp 0 .rax]) s.cpu
        = some cpu ∧ cpu.compared = some (a, 0) ∧ s.cpu.Becomes cpu s.cpu.ram := by
      have he := Context.loadValue_exec P.data hload s.cpu
      rw [hs.agrees.store.valueOf hload hcond] at he
      refine ⟨_, execAll_append_of he rfl, ?_, ⟨rfl, rfl, rfl, rfl⟩⟩
      simp [Cpu.arith]
    have hstep := Process.step_jumpIfEqual (s := ⟨cpu, s.pc + _, s.trace⟩) hs.holds.right.head hcmp
    by_cases hzero : a = 0
    · simp only [hzero, if_true, Procedure.jump?, Option.bind_eq_bind, Option.bind_eq_some_iff,
        Option.some.injEq] at h
      obtain ⟨l', hl, k, hk, rfl⟩ := h
      cases hl
      rw [if_pos hzero, hq.label l k hk] at hstep
      exact ⟨_, Process.run_block_step hs.holds.left he hstep,
        hs.arrive hb hs.agrees.trace rfl rfl⟩
    · rw [if_neg hzero] at h hstep
      cases h
      refine ⟨_, Process.run_block_step hs.holds.left he hstep,
        hs.arrive hb hs.agrees.trace ?_ rfl⟩
      simp [Config.next, ← hs.pc_next, Nat.add_assoc]

/-- A value is printed by the runtime, if the call goes there. -/
theorem output (hs : Ready ctx P inputs n blocks c s block) {opd : Operand}
    (hfree : P.image.symbol (Service.print opd.channel).name = none)
    (hcode : ctx.codeOf (.output opd) = .ok block)
    (h : q.quadStep? (ctx.textAddress P.data) inputs c (.output opd) = some c') :
    Leads ctx P n blocks block s c' := by
  simp only [Procedure.quadStep?, Option.bind_eq_bind, Option.bind_eq_some_iff,
    Option.some.injEq] at h
  obtain ⟨a, hopd, rfl⟩ := h
  cases Context.codes_of_codeOf hcode with
  | output hload =>
    have he := Context.loadValue_exec P.data hload s.cpu
    rw [hs.agrees.store.valueOf hload hopd] at he
    have hstep := Process.step_service (s := ⟨s.cpu.set .rdi a, s.pc + _, s.trace⟩)
      hs.holds.right.head hfree
    have hb : s.cpu.Becomes (s.cpu.set .rdi a) s.cpu.ram := ⟨rfl, rfl, rfl, rfl⟩
    obtain ⟨hm, hrbp, hrsp, hram⟩ := hs.served hb (.print opd.channel) s.trace
    refine ⟨_, Process.run_block_step hs.holds.left he hstep, ⟨?_, ?_, ?_⟩,
      ⟨hrbp, hrsp, fun x hx _ => hram x hx⟩⟩
    · simp [Process.service, Config.note, Config.next, ← hs.pc_next, Nat.add_assoc]
    · simp [Process.service, Process.event, Config.note, Config.next, hs.agrees.trace]
    · simp only [Process.service, hrbp]
      exact hm

/-- A value is read by the runtime, if the call goes there. -/
theorem input (hs : Ready ctx P inputs n blocks c s block) {opd : Operand}
    (hfree : P.image.symbol (Service.read opd.channel).name = none)
    (hcode : ctx.codeOf (.input opd) = .ok block)
    (h : q.quadStep? (ctx.textAddress P.data) inputs c (.input opd) = some c') :
    Leads ctx P n blocks block s c' := by
  simp only [Procedure.quadStep?, Option.bind_eq_bind, Option.bind_eq_some_iff,
    Option.some.injEq] at h
  obtain ⟨σ, hσ, rfl⟩ := h
  cases Context.codes_of_codeOf hcode with
  | @input opd store hstore =>
    have hstep := Process.step_service hs.holds.head hfree
    have hsame : s.cpu.Becomes s.cpu s.cpu.ram := ⟨rfl, rfl, rfl, rfl⟩
    obtain ⟨hm, hrbp, hrsp, hram⟩ := hs.served hsame (.read opd.channel) s.trace
    have hread := hs.setting.serves.input opd.channel s.trace s.cpu
    -- the rest of the code stores what was read
    obtain ⟨v, cpu, rfl, hv, he, hb⟩ := Context.storeValue_becomes P.data hstore
      (c := P.serve (.read opd.channel) s.trace s.cpu) ⟨rfl, rfl, rfl, rfl⟩
    rw [Register.result, hread, hrbp] at hb
    rw [← hs.agrees.trace] at hσ
    obtain ⟨hmatch, hrest⟩ := hm.assign hs.setting.separate hv hσ
    refine ⟨_, (congrArg (P.run · s) (Nat.add_comm ..)).trans (Process.run_trans
      ((Process.run_one s).trans hstep) (Process.run_block hs.holds.tail he)), ⟨?_, ?_, ?_⟩,
      ⟨hb.rbp.trans hrbp, hb.rsp.trans hrsp, fun x hx hown => ?_⟩⟩
    · have hpc := hs.pc_next
      rw [List.length_cons, Nat.add_comm store.length, ← Nat.add_assoc] at hpc
      exact hpc
    · simp only [Process.service, Process.event, Config.note, Config.next, ← hs.agrees.trace,
        hread]
    · rw [hb.ram, hb.rbp, hrbp]
      exact hmatch
    · rw [hb.ram, hrest x hown, hram x hx]

/-- The code of any quad that has a meaning. A quad that prints or reads reaches the runtime, if
nothing in the image has the name of the routine. -/
theorem leads (hs : Ready ctx P inputs n blocks c s block) (hq : q.Placed ctx P.image n blocks)
    {op : Op Signature} (hfree : ∀ v, op.service? = some v → P.image.symbol v.name = none)
    (hcode : ctx.codeOf op = .ok block)
    (h : q.quadStep? (ctx.textAddress P.data) inputs c op = some c') :
    Leads ctx P n blocks block s c' := by
  cases op with
  | binary op src src2 dst => exact hs.binary hcode h
  | unary op src dst => exact hs.unary hcode h
  | assign src dst => exact hs.assign hcode h
  | goto target => exact hs.goto hq hcode h
  | ifZero cond target => exact hs.ifZero hq hcode h
  | nop => exact hs.nop hcode h
  | output opd => exact hs.output (hfree _ rfl) hcode h
  | input opd => exact hs.input (hfree _ rfl) hcode h
  | addrOf src dst => exact hs.addrOf hcode h
  | call | enter | leave | setArg | getArg | setRet | getRet | mayhem => cases h

end Ready

/-! ## Runs -/

section
variable {q : Procedure} {ctx : Context} {P : Process} {n : Nat} {blocks : List (List Instr)}
  {inputs : Nat → Word}

/-- One step of a procedure takes the machine through the code of one quad. -/
theorem step_simulates (hq : q.Placed ctx P.image n blocks)
    (hfree : ∀ v ∈ q.services, P.image.symbol v.name = none) {c c' : Config} {s : State}
    (hset : Setting ctx P inputs (s.cpu.regs .rbp) (s.cpu.regs .rsp))
    (ha : Agrees ctx P n blocks c s)
    (h : q.step? (ctx.textAddress P.data) inputs c = some c') :
    ∃ block, blocks[c.position]? = some block ∧ Leads ctx P n blocks block s c' := by
  obtain ⟨quad, hk, hquad⟩ := Option.bind_eq_some_iff.1 h
  obtain ⟨block, hblock, hcode, hholds⟩ := hq.block hk
  have hservice : ∀ v, quad.op.service? = some v → P.image.symbol v.name = none := fun v hv =>
    hfree v (Procedure.mem_services (List.mem_of_getElem? hk) hv)
  exact ⟨block, hblock, Ready.leads ⟨hset, ha, hblock, ha.pc ▸ hholds⟩ hq hservice hcode hquad⟩

/-- How many instructions are executed before step number `k` of a run. -/
def elapsed (q : Procedure) (blocks : List (List Instr)) (texts : Bytes → Word)
    (inputs : Nat → Word) (c : Config) : Nat → Nat
  | 0 => 0
  | k + 1 => elapsed q blocks texts inputs c k +
    (((q.run? texts inputs k c).bind (blocks[·.position]?)).getD []).length

/-- Every configuration of a run is met by the machine, which stays in the frame. -/
theorem run_simulates (hq : q.Placed ctx P.image n blocks)
    (hfree : ∀ v ∈ q.services, P.image.symbol v.name = none) {c c' : Config} {s : State}
    (hset : Setting ctx P inputs (s.cpu.regs .rbp) (s.cpu.regs .rsp))
    (ha : Agrees ctx P n blocks c s) {k : Nat}
    (h : q.run? (ctx.textAddress P.data) inputs k c = some c') :
    ∃ s', P.run (elapsed q blocks (ctx.textAddress P.data) inputs c k) s = some s' ∧
      Agrees ctx P n blocks c' s' ∧ StaysInFrame ctx P s s' := by
  induction k generalizing c' with
  | zero =>
    cases h
    exact ⟨s, rfl, ha, ⟨rfl, rfl, fun _ _ _ => rfl⟩⟩
  | succ k ih =>
    rw [Procedure.run?_succ, Option.bind_eq_some_iff] at h
    obtain ⟨c₁, hrun, hstep⟩ := h
    obtain ⟨s₁, hs₁, ha₁, hstay₁⟩ := ih hrun
    rw [← hstay₁.rbp, ← hstay₁.rsp] at hset
    obtain ⟨block, hblock, s₂, hs₂, ha₂, hstay₂⟩ := step_simulates hq hfree hset ha₁ hstep
    refine ⟨s₂, ?_, ha₂, hstay₁.trans hstay₂⟩
    rw [elapsed, hrun, Option.bind_some, hblock]
    exact Process.run_trans hs₁ hs₂

/-- Later quads are later in the code. -/
theorem monotone_elapsed (q : Procedure) (blocks : List (List Instr)) (texts : Bytes → Word)
    (inputs : Nat → Word) (c : Config) : Monotone (elapsed q blocks texts inputs c) :=
  monotone_nat_of_le_succ fun _ => Nat.le_add_right ..

end

/-! ## Programs from files -/

/-- A procedure of a program from a file runs as it means when its frame lies on the stack, apart
from the data section. -/
theorem Emit.Compiled.setting {f : Source.File} {p : Program} {q : Procedure} {ctx : Context}
    {r : Routine} (hc : Compiled p q ctx r) (hbuild : f.build = .ok p) {P : Process}
    {inputs : Nat → Word} {frame stack : Word} (hserves : P.Serves ctx.globals inputs)
    (hloaded : ctx.globals.Loaded P.data stack.toNat frame.toNat)
    (hfit : stack.toNat + reach ctx.frame.slots.length ≤ frame.toNat) :
    Setting ctx P inputs frame stack := by
  have hsym := hc.form_ne_pointer hbuild
  refine ⟨fun v w => ?_, hserves, fun v trace c hrsp x hx => ?_⟩
  · exact Context.Knows.apart hc.frame hc.globals hsym hloaded hfit (Nat.le_add_right ..)
  · obtain ⟨u, hu, hin⟩ := hx
    rcases Context.Knows.cases hc.frame hu with ⟨i, hi, -, haddr⟩ | ⟨hmem, haddr⟩
    · rw [haddr] at hin
      unfold reach at hfit
      have hslot := Context.within_slot (by omega) u.holds.bytes_le_eight hin
      exact hserves.ram v trace c x (by rw [hrsp]; omega)
    · rw [haddr, Context.holds_of_ne (hsym u hmem)] at hin
      exact hserves.data v trace c u hmem x hin

/-- The code of a procedure does what its quads mean, as long as what it prints and reads goes
through the runtime. In a program that was built from a file and compiled, let the lines of a
procedure stand in an image, alone or among others, with no symbol there that has the name of a
routine which the procedure calls. In the lines alone the symbols are the labels of the procedure,
so this is about its labels only. Let a machine run the image whose frame pointer leaves room for
the slots above the stack pointer, with the data section elsewhere, and let memory hold a store.
Then every configuration that the quads lead to, however many steps away, is met by the machine: in
the order of the steps it comes to the start of the code of the same quad, with the same variables
in memory and the same values printed and read, and it has written to nothing else above the stack
pointer. -/
theorem code_preserves_meaning_unless_captured {f : Source.File} {p : Program} {options : Options}
    {a : Asm.Assembly} (hbuild : f.build = .ok p) (hasm : p.assembly options = .ok a)
    {q : Procedure} (hq : q ∈ p.procedures) :
    ∃ ctx r blocks, Compiled p q ctx r ∧ r.function ∈ a.functions ∧
      q.Placed ctx (Image.ofItems r.items) 0 blocks ∧
      (∀ l, (Image.ofItems r.items).symbol l = (q.labelled? l).map (start blocks)) ∧
      ∀ (P : Process) (n : Nat) (inputs : Nat → Word) (c : Config) (s : State),
        q.Placed ctx P.image n blocks → (∀ v ∈ q.services, P.image.symbol v.name = none) →
        P.Serves ctx.globals inputs →
        ctx.globals.Loaded P.data (s.cpu.regs .rsp).toNat (s.cpu.regs .rbp).toNat →
        (s.cpu.regs .rsp).toNat + reach ctx.frame.slots.length ≤ (s.cpu.regs .rbp).toNat →
        Agrees ctx P n blocks c s →
        ∃ time : Nat → Nat, Monotone time ∧ time 0 = 0 ∧
          ∀ k c', q.run? (ctx.textAddress P.data) inputs k c = some c' →
            ∃ s', P.run (time k) s = some s' ∧ Agrees ctx P n blocks c' s' ∧
              StaysInFrame ctx P s s' := by
  obtain ⟨g, rs, -, hfuns, hall⟩ := Program.compiled_of_assembly hasm
  obtain ⟨r, hr, ctx, -, hc⟩ := exists_of_forall₂ hall hq
  obtain ⟨blocks, hlaid⟩ := Procedure.laid_of_itemsIn hc.items
  refine ⟨ctx, r, blocks, hc, ?_, hlaid.placed_ofItems, hlaid.symbol_ofItems,
    fun P n inputs c s hplaced hfree hserves hloaded hfit ha => ?_⟩
  · rw [hfuns]
    exact List.mem_map_of_mem hr
  · have hset := hc.setting hbuild hserves hloaded hfit
    exact ⟨_, monotone_elapsed q blocks (ctx.textAddress P.data) inputs c, rfl,
      fun k c' h => run_simulates hplaced hfree hset ha h⟩

/-- The lines of one procedure, with a runtime that returns 0. -/
def Machine.Process.ofItems (items : List Item) : Process where
  image := Image.ofItems items
  data _ := 0
  place _ := 0
  serve _ _ c := c.set .rax 0

/-- A machine with empty memory and room for a frame. -/
def Machine.Cpu.framed : Cpu where
  regs r := if r = .rbp then 8192 else 4096
  kept _ := 0
  ram _ := 0
  compared := none

namespace ThroughPointer

/-- A program that sets a local through a pointer and prints a global that is one more. -/
def file : Source.File where
  globals := [{ name := "g" }]
  procedures := [{
    name := "main"
    locals := [{ name := "x" }]
    addrs := [{ name := "p" }]
    body := [
      { op := "addrof", src := some { name := "x" }, dst := some { name := "p" } },
      { op := "assign", src := some { int := some 7 }, dst := some { name := "p" } },
      { op := "binop", operator := "add", src := some { name := "x" },
        src2 := some { int := some 1 }, dst := some { name := "g" } },
      { op := "output", src := some { name := "g" } }] }]

def g : Variable := ⟨0, .symbol, "g", 8, .int⟩
def p : Variable := ⟨1, .pointer, "p", 8, .int⟩
def x : Variable := ⟨2, .symbol, "x", 8, .int⟩

/-- The procedure of the program. -/
def main : Procedure where
  name := "main"
  locals := [x]
  addrs := [p]
  body := [⟨[], .addrOf x p⟩, ⟨[], .assign (Literal.int 7) p⟩,
    ⟨[], .binary .add x (Literal.int 1) g⟩, ⟨[], .output g⟩]

/-- The program. -/
def program : Program := ⟨[g], [], [main]⟩

end ThroughPointer

open ThroughPointer in
/-- The program prints 8. -/
theorem throughPointer_prints : ∃ ctx r s s' t,
    file.build = .ok program ∧ Compiled program main ctx r ∧ s.trace = [] ∧
      (Process.ofItems r.items).run t s = some s' ∧ s'.trace = [⟨.print .int, 8⟩] := by
  have hbuild : file.build = .ok program := by rfl
  obtain ⟨asm, hasm⟩ : ∃ asm, program.assembly {} = .ok asm := ⟨_, rfl⟩
  have hmain : main ∈ program.procedures := List.mem_singleton_self main
  obtain ⟨ctx, r, blocks, hc, -, hplaced, hsymbol, hsim⟩ :=
    code_preserves_meaning_unless_captured hbuild hasm hmain
  have hglobals : ctx.globals = ⟨[g], []⟩ :=
    Except.ok.inj (hc.globals.symm.trans (by decide +kernel))
  have hslots : ctx.frame.slots.length = 2 := by
    rw [Frame.length_slots hc.frame]
    rfl
  have hserves : (Process.ofItems r.items).Serves ctx.globals fun _ => 0 :=
    ⟨⟨fun _ _ _ => rfl, fun _ _ _ => rfl, fun _ _ _ => rfl, fun _ _ _ _ _ => rfl⟩,
      fun _ _ _ _ _ _ _ => rfl, fun _ _ c => c.set_regs_self ..⟩
  have hloaded : ctx.globals.Loaded (Process.ofItems r.items).data 4096 8192 := by
    rw [hglobals]
    refine ⟨fun v hv w hw hne => ?_, fun v hv y hy hin => ?_⟩
    · cases List.mem_singleton.1 hv
      cases List.mem_singleton.1 hw
      exact absurd rfl hne
    · have hlt : Within y 0#64 8 := hy.mono v.size.bytes_le_eight
      rw [within_iff (by decide), BitVec.toNat_zero] at hlt
      omega
  have hmatch : ctx.Matches (Process.ofItems r.items).data 8192 ⟨fun _ => 0, fun _ => none⟩
      Cpu.framed.ram := by
    refine ⟨fun v _ _ => ?_, fun _ _ _ _ h => nomatch h⟩
    rw [Store.read]
    cases v.size <;> simp [Cpu.framed, Ram.read, Ram.nth, Size.clip]
  have hfree : ∀ v ∈ main.services, (Process.ofItems r.items).image.symbol v.name = none := by
    intro v hv
    have hnone : ∀ v ∈ main.services, main.labelled? v.name = none := by decide
    exact (hsymbol v.name).trans (by rw [hnone v hv]; rfl)
  obtain ⟨time, -, -, hrun⟩ := hsim (Process.ofItems r.items) 0 (fun _ => 0)
    ⟨1, ⟨fun _ => 0, fun _ => none⟩, []⟩ ⟨.framed, 0 + start blocks 1, []⟩ hplaced hfree hserves
    hloaded
    (by rw [hslots]; exact (by decide : 4096 + reach 2 ≤ 8192)) ⟨rfl, rfl, hmatch⟩
  obtain ⟨s', hs', ha, -⟩ := hrun 4 _ rfl
  exact ⟨ctx, r, _, s', time 4, hbuild, hc, rfl, hs', ha.trace⟩

namespace CapturedPrint

/-- A program that prints, with the name of the routine for it as a label. -/
def file : Source.File where
  procedures := [{
    name := "main"
    body := [{ op := "output", src := some { int := some 5 }, labels := ["printInt"] }] }]

/-- The procedure of the program. -/
def main : Procedure where
  name := "main"
  body := [⟨["printInt"], .output (Literal.int 5)⟩]

/-- The lines of the procedure. -/
def items : List Item := ((main.routine ⟨[], []⟩).toOption.map (·.items)).getD []

/-- The machine is at one of the two instructions under the label, and has not printed. -/
def Caught (s : State) : Prop := (s.pc = 3 ∨ s.pc = 4) ∧ s.trace = []

/-- From the call the machine goes back to the label. -/
theorem Caught.step {s : State} (h : Caught s) :
    ∃ s', (Process.ofItems items).step s = some s' ∧ Caught s' := by
  obtain ⟨hpc | hpc, htrace⟩ := h
  · have hcode : (Process.ofItems items).image.code[s.pc]? = some (.constant 5 .rdi) := by
      rw [hpc]
      decide +kernel
    exact ⟨_, Process.step_exec hcode rfl, .inr (congrArg (· + 1) hpc), htrace⟩
  · have hcode : (Process.ofItems items).image.code[s.pc]? = some (.call "printInt") := by
      rw [hpc]
      decide +kernel
    exact ⟨_, Process.step_call hcode (by decide +kernel : _ = some 3), .inl rfl, htrace⟩

/-- The machine never gets away from there. -/
theorem Caught.run {s : State} (h : Caught s) (n : Nat) :
    ∃ s', (Process.ofItems items).run n s = some s' ∧ Caught s' := by
  induction n with
  | zero => exact ⟨s, rfl, h⟩
  | succ n ih =>
    obtain ⟨t, hrun, ht⟩ := ih
    obtain ⟨s', hstep, hs'⟩ := ht.step
    exact ⟨s', Process.run_trans hrun (by rw [Process.run_one, hstep]), hs'⟩

end CapturedPrint

open CapturedPrint in
/-- The quad prints 5, and its code calls itself for ever and prints nothing. -/
theorem capturedPrint_never_prints :
    file.build = .ok ⟨[], [], [main]⟩ ∧ main.routine ⟨[], []⟩ = .ok ⟨main.name, items⟩ ∧
      (main.run? (fun _ => 0) (fun _ => 0) 1 ⟨1, ⟨fun _ => 0, fun _ => none⟩, []⟩).map (·.trace)
        = some [⟨.print .int, 5⟩] ∧
      ∀ n, ∃ s, (Process.ofItems items).run n ⟨.framed, 3, []⟩ = some s ∧ s.trace = [] := by
  refine ⟨rfl, rfl, by decide +kernel, fun n => ?_⟩
  obtain ⟨s, hrun, -, htrace⟩ := Caught.run (s := ⟨.framed, 3, []⟩) ⟨.inl rfl, rfl⟩ n
  exact ⟨s, hrun, htrace⟩

end QuadAsm
