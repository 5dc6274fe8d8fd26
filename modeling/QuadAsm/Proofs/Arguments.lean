import QuadAsm.Proofs.Emit.Enter
import QuadAsm.Proofs.Emit.Program

/-!
# Callers and callees agree on arguments

A caller passes arguments, calls, and the callee enters: then the slots of the formals hold the
values that the operands had before, whatever order the arguments were passed in, and nothing of the
caller has changed. Main result: `call_passes_arguments`.
-/

namespace QuadAsm

open Emit Layout Machine

/-! ## Where things are -/

/-- A variable that a procedure owns lies in its frame. -/
theorem Emit.Compiled.slot {p : Program} {q : Procedure} {ctx : Context} {r : Routine}
    (hc : Compiled p q ctx r) (data : Bytes → Word) (frame : Word) {v : Variable}
    (hv : v ∈ (ownedVariables q).map (·.1)) :
    ∃ i < ctx.frame.slots.length,
      ctx.address data frame v = frame + BitVec.ofInt 64 (-16 - 8 * (i : Int)) := by
  obtain ⟨o, ho⟩ := Frame.offset?_of_mem hc.frame hv
  obtain ⟨i, hi, -, rfl⟩ := Frame.offset?_eq_some hc.frame ho
  refine ⟨i, hi, ?_⟩
  simp [Context.address, locate, ho, Location.address]

/-- A variable that a procedure owns lies below the saved frame pointer. -/
theorem Emit.Compiled.within_owned {p : Program} {q : Procedure} {ctx : Context} {r : Routine}
    (hc : Compiled p q ctx r) {data : Bytes → Word} {frame : Word} {lo : Nat}
    (hlo : lo + reach ctx.frame.slots.length ≤ frame.toNat) {v : Variable}
    (hv : v ∈ (ownedVariables q).map (·.1)) {x : Word} {size : Size}
    (hx : Within x (ctx.address data frame v) size.bytes) :
    lo ≤ x.toNat ∧ x.toNat < frame.toNat - 8 := by
  unfold reach at hlo
  obtain ⟨i, hi, ha⟩ := hc.slot data frame hv
  rw [ha] at hx
  have hslot := Context.within_slot (by omega) size.bytes_le_eight hx
  omega

/-- The word below the frame pointer. -/
theorem Machine.within_saved {frame : Word} (h : 8 ≤ frame.toNat) {x : Word}
    (hx : Within x (frame - 8) 8) : frame.toNat - 8 ≤ x.toNat ∧ x.toNat < frame.toNat := by
  have hlt := frame.isLt
  have hnat : (frame - 8).toNat = frame.toNat - 8 := toNat_sub_ofNat (n := 8) h
  rw [within_iff (by omega)] at hx
  omega

/-- Arguments on the stack lie above the address to return to. -/
theorem Emit.Context.within_stackSlot {count i : Nat} {frame : Word}
    (htop : frame.toNat + 8 * stackArguments count + 8 ≤ 2 ^ 64) (hi : registerArguments < i)
    (hle : i ≤ count) {x : Word} (hx : Within x (stackSlot count i frame) 8) :
    frame.toNat + 8 ≤ x.toNat := by
  have hsix : registerArguments = 6 := rfl
  have hstack : stackArguments count = count - 6 := rfl
  have hnat := toNat_add_ofInt (a := frame) (z := 8 * ((count : Int) - i + 1)) (by omega) (by omega)
  rw [stackSlot, within_iff (by omega)] at hx
  omega

/-- A procedure that is entered moves the arguments into its frame; besides, only the word below
the frame pointer is written. There has to be room for the frame in the part of memory that the data
section leaves free, and memory may not end among the arguments. -/
theorem Emit.Compiled.enters {p : Program} {q : Procedure} {ctx : Context} {r : Routine}
    (hc : Compiled p q ctx r) (hsym : ∀ v ∈ ctx.globals.vars, v.form ≠ .pointer)
    (hformals : ∀ v ∈ q.formals, v.form ≠ .pointer) {enter : List Instr}
    (henter : ctx.codeOf (.enter q.signature) = .ok enter) {data : Bytes → Word} {lo hi : Nat}
    (hloaded : ctx.globals.Loaded data lo hi) {c : Cpu}
    (hlo : lo + reach ctx.frame.slots.length ≤ (c.regs .rsp).toNat)
    (hhi : (c.regs .rsp).toNat ≤ hi + 8)
    (htop : (c.regs .rsp).toNat + 8 * stackArguments q.formals.length + 8 ≤ 2 ^ 64) :
    ∃ c', execAll data enter c = some c' ∧ c'.regs .rbp = c.regs .rsp ∧
      (∀ x, ¬ Within x (c.regs .rsp - 8) 8 →
        (∀ v ∈ q.formals, ¬ Within x (ctx.address data (c.regs .rsp) v) v.size.bytes) →
        c'.ram x = c.ram x) ∧
      ∀ j v, q.formals[j]? = some v → c'.ram.read (ctx.address data (c.regs .rsp) v) v.size
        = v.size.clip (Context.arrived q.formals.length (c.regs .rsp) c (1 + j)) := by
  have hsep : ctx.Separate data (c.regs .rsp) := fun v w =>
    Context.Knows.apart hc.frame hc.globals hsym hloaded hlo hhi
  obtain ⟨hnodup, howned⟩ := Frame.formals_of_assign hc.frame
  have hword : ∀ i, Register.ofArgument? (i : Nat) = none → 1 ≤ i → i ≤ q.formals.length → ∀ x,
      Within x (Context.stackSlot q.formals.length i (c.regs .rsp)) 8 →
      (c.regs .rsp).toNat + 8 ≤ x.toNat := fun i hnone hi hle x =>
    Context.within_stackSlot htop ((Register.ofArgument?_eq_none hi).1 hnone) hle
  obtain ⟨c', he, -, hrbp, -, hrest, hvalues⟩ := Context.enterCode_exec data
    (liftM_rejection_eq_ok.1 henter) hformals hnodup c hsep (by
      intro i hnone hi hle
      refine ⟨fun x hx hin => ?_, fun v hv x hx hin => ?_⟩
      · have habove := hword i hnone hi hle x hx
        have hbelow := within_saved (by unfold reach at hlo; omega) hin
        omega
      · have habove := hword i hnone hi hle x hx
        have hbelow := hc.within_owned hlo (howned v hv) hin
        omega)
  exact ⟨c', he, hrbp, hrest, hvalues⟩

/-- The callee finds an argument on the stack where the caller has pushed it. -/
theorem Emit.Context.stackSlot_eq {rsp : Word} {count i : Nat} (hi : registerArguments < i)
    (hle : i ≤ count) :
    stackSlot count i (rsp - BitVec.ofNat 64 (8 * stackArguments count + 8))
      = rsp - BitVec.ofNat 64 (8 * (i - registerArguments)) := by
  have hoffset : BitVec.ofInt 64 (8 * ((count : Int) - i + 1))
      = BitVec.ofNat 64 (8 * (count - i + 1)) := by
    rw [← BitVec.ofInt_natCast]
    congr 1
    omega
  have hsum : 8 * stackArguments count + 8
      = 8 * (count - i + 1) + 8 * (i - registerArguments) := by
    unfold stackArguments
    omega
  rw [stackSlot, hoffset, hsum, BitVec.ofNat_add]
  abel

/-- Only a variable that code can reach can be passed. -/
theorem Emit.knows_of_setArg {ctx : Context} {i : Int} {v : Variable} {block : List Instr}
    (h : ctx.codeOf (.setArg i v) = .ok block) : ctx.Knows v := by
  cases Context.codes_of_codeOf h with
  | setArg _ _ hload | pushArg _ _ hload => exact Context.knows_of_loadValue hload

/-- Everything is in place for a call: the code that passes the arguments `arg 1`, `arg 2` and so on
in some order, those on the stack in increasing order, and then the call stand where the machine is,
and the code that enters the callee stands where the call goes. The stack pointer is at or below
where entering the caller has left it, there is room for the call from `lo` on, the data section is
elsewhere, and so is what the arguments point to. -/
structure CallReady (ctx ctx' : Context) (callee : Procedure) (P : Process) (s : State)
    (arg : Nat → Operand) (order : List Nat) (blocks : List (List Instr)) (enter : List Instr)
    (n lo : Nat) : Prop where
  perm : order.Perm (List.range' 1 callee.formals.length)
  increasing : (pushed order).Pairwise (· < ·)
  code : List.Forall₂ (fun (i : Nat) block => ctx.codeOf (.setArg i (arg i)) = .ok block) order
    blocks
  holds : P.image.Holds s.pc (blocks.flatten ++ callCode callee.signature)
  entry : P.image.entry callee.name = some n
  enters : P.image.Holds n enter
  below : (s.cpu.regs .rsp).toNat + reach ctx.frame.slots.length ≤ (s.cpu.regs .rbp).toNat
  top : (s.cpu.regs .rbp).toNat + 8 ≤ 2 ^ 64
  room : lo + 8 * stackArguments callee.formals.length + 8 + reach ctx'.frame.slots.length
    ≤ (s.cpu.regs .rsp).toNat
  loaded : ctx.globals.Loaded P.data lo ((s.cpu.regs .rbp).toNat + 8)
  live : ∀ i v, arg i = .var v → v.form = .pointer → ∀ x,
    Within x (ctx.target P.data (s.cpu.regs .rbp) s.cpu.ram v) v.size.bytes →
      ¬ (lo ≤ x.toNat ∧ x.toNat < (s.cpu.regs .rsp).toNat)

namespace CallReady

variable {p : Program} {caller callee : Procedure} {ctx ctx' : Context} {r r' : Routine}
  {P : Process} {s : State} {arg : Nat → Operand} {order : List Nat} {blocks : List (List Instr)}
  {enter : List Instr} {n lo : Nat}

/-- Arguments are not read from the part of the stack that the call uses. -/
theorem not_reads (h : CallReady ctx ctx' callee P s arg order blocks enter n lo)
    (hc : Compiled p caller ctx r) (hsym : ∀ v ∈ ctx.globals.vars, v.form ≠ .pointer) {i : Nat}
    (hi : i ∈ order) {x : Word}
    (hx : ctx.Reads P.data (s.cpu.regs .rbp) s.cpu.ram (arg i) x) :
    ¬ (lo ≤ x.toNat ∧ x.toNat < (s.cpu.regs .rsp).toNat) := by
  obtain ⟨v, hv, hx⟩ := hx
  have hstorage : ctx.Knows v := by
    obtain ⟨block, -, hblock⟩ := exists_of_forall₂ h.code hi
    rw [hv] at hblock
    exact knows_of_setArg hblock
  have houtside : Within x (ctx.address P.data (s.cpu.regs .rbp) v) v.holds.bytes → _ :=
    Context.Knows.outside hc.frame hsym h.loaded h.below (by have := h.below; omega) hstorage
  rcases hx with hx | hx
  · exact houtside hx
  · by_cases hf : v.form = .pointer
    · exact h.live i v hv hf x hx
    · rw [Context.target_of_ne hf, ← Context.holds_of_ne hf] at hx
      exact houtside hx

/-- The arguments are passed. -/
theorem passes (h : CallReady ctx ctx' callee P s arg order blocks enter n lo)
    (hc : Compiled p caller ctx r) (hsym : ∀ v ∈ ctx.globals.vars, v.form ≠ .pointer) :
    ∃ c, execAll P.data blocks.flatten s.cpu = some c ∧
      Passed (fun i => ctx.valueOf P.data (s.cpu.regs .rbp) s.cpu.ram (arg i)) s.cpu order c := by
  have hlen : (pushed order).length = stackArguments callee.formals.length := by
    rw [pushed_eq h.perm h.increasing, List.length_range']
    rfl
  have hroom := h.room
  refine passed_all (.nil _ _) h.code (fun ram hram i hi => ?_) ?_
  · refine Context.valueOf_congr fun x hx => hram x fun hin => ?_
    refine h.not_reads hc hsym hi hx ⟨?_, hin.2⟩
    rw [List.nil_append, hlen] at hin
    omega
  · rw [List.nil_append, hlen]
    omega

/-- After the call the frame of the callee is right below the arguments on the stack, and every
argument is where the callee looks for it. -/
theorem arrives (h : CallReady ctx ctx' callee P s arg order blocks enter n lo) {value : Nat → Word}
    {c : Cpu} (hp : Passed value s.cpu order c) (back : Word) {frame : Word}
    (hframe : frame = s.cpu.regs .rsp
      - BitVec.ofNat 64 (8 * stackArguments callee.formals.length + 8)) :
    (c.push back).regs .rsp = frame ∧
      (∀ i, 1 ≤ i → i ≤ callee.formals.length →
        Context.arrived callee.formals.length frame (c.push back) i = value i) ∧
      ∀ x, ¬ (frame.toNat ≤ x.toNat ∧ x.toNat < (s.cpu.regs .rsp).toNat) →
        (c.push back).ram x = s.cpu.ram x := by
  have hroom := h.room
  unfold reach at hroom
  have hpushed := pushed_eq h.perm h.increasing
  have hlen : (pushed order).length = stackArguments callee.formals.length := by
    rw [hpushed, List.length_range']
    rfl
  have hrsp : c.regs .rsp - 8 = frame := by
    rw [hp.rsp, hlen, hframe, BitVec.ofNat_add, sub_add_eq_sub_sub]
    rfl
  have hnat : frame.toNat = (s.cpu.regs .rsp).toNat
      - (8 * stackArguments callee.formals.length + 8) := by
    rw [hframe, toNat_sub_ofNat (by omega)]
  have hlt := (s.cpu.regs .rsp).isLt
  refine ⟨by rw [Cpu.push_rsp, hrsp], fun i hi hle => ?_, fun x hx => ?_⟩
  · have hmem : i ∈ order := h.perm.mem_iff.2 (List.mem_range'_1.2 ⟨hi, by omega⟩)
    unfold Context.arrived
    split
    · next reg hreg =>
      rw [Cpu.push_regs_of_ne _ (Register.ofArgument?_ne hreg).1]
      exact hp.reg i hmem reg hreg
    · next hnone =>
      have habove : registerArguments < i := (Register.ofArgument?_eq_none hi).1 hnone
      have hsix : registerArguments = 6 := rfl
      have hstack : stackArguments callee.formals.length = callee.formals.length - 6 := rfl
      have hat : (pushed order)[i - 7]? = some i := by
        rw [hpushed, List.getElem?_range' (by omega)]
        congr 1
        omega
      have hword := hp.word (i - 7) i hat
      rw [hframe, Context.stackSlot_eq habove hle, hsix, Cpu.push_ram, hrsp,
        show i - 6 = i - 7 + 1 by omega, Ram.read_write_apart, hword]
      -- the address to return to was pushed below
      refine (apart_of_le ?_ ?_).symm
      · rw [hnat, toNat_sub_ofNat (by omega), Size.bytes_word]
        omega
      · rw [toNat_sub_ofNat (by omega), Size.bytes_word]
        omega
  · rw [Cpu.push_ram, hrsp, Ram.write_of_not_within, hp.ram x (by omega)]
    rw [Size.bytes_word, within_iff (by omega)]
    omega

/-- The callee moves the arguments into its frame and writes to nothing else than its frame. -/
theorem entered (h : CallReady ctx ctx' callee P s arg order blocks enter n lo)
    (hc' : Compiled p callee ctx' r') (hglobals : ctx'.globals = ctx.globals)
    (hsym : ∀ v ∈ ctx.globals.vars, v.form ≠ .pointer)
    (hformals : ∀ v ∈ callee.formals, v.form ≠ .pointer)
    (henter : ctx'.codeOf (.enter callee.signature) = .ok enter) {c : Cpu} {frame : Word}
    (hframe : frame = s.cpu.regs .rsp
      - BitVec.ofNat 64 (8 * stackArguments callee.formals.length + 8))
    (hrsp : c.regs .rsp = frame) :
    ∃ c', execAll P.data enter c = some c' ∧ c'.regs .rbp = frame ∧
      (∀ x, ¬ (lo ≤ x.toNat ∧ x.toNat < frame.toNat) → c'.ram x = c.ram x) ∧
      ∀ j v, callee.formals[j]? = some v → c'.ram.read (ctx'.address P.data frame v) v.size
        = v.size.clip (Context.arrived callee.formals.length frame c (1 + j)) := by
  have hroom := h.room
  have hbelow := h.below
  have hlt := (s.cpu.regs .rsp).isLt
  have hnat : frame.toNat = (s.cpu.regs .rsp).toNat
      - (8 * stackArguments callee.formals.length + 8) := by
    rw [hframe, toNat_sub_ofNat (by omega)]
  have hlo : lo + reach ctx'.frame.slots.length ≤ frame.toNat := by omega
  rw [← hglobals] at hsym
  have hloaded := h.loaded
  rw [← hglobals] at hloaded
  subst hrsp
  obtain ⟨c', he, hrbp, hrest, hvalues⟩ := hc'.enters hsym hformals henter hloaded hlo
    (by omega) (by omega)
  refine ⟨c', he, hrbp, fun x hx => hrest x (fun hin => ?_) fun v hv hin => ?_, hvalues⟩
  · have hsaved := within_saved (by unfold reach at hlo; omega) hin
    unfold reach at hlo
    omega
  · have hslot := hc'.within_owned hlo ((Frame.formals_of_assign hc'.frame).2 v hv) hin
    omega

/-- The whole call: the formals hold the arguments, and only the part of the stack from `lo` up to
the stack pointer was written. -/
theorem run (h : CallReady ctx ctx' callee P s arg order blocks enter n lo)
    (hc : Compiled p caller ctx r) (hc' : Compiled p callee ctx' r')
    (hglobals : ctx'.globals = ctx.globals) (hsym : ∀ v ∈ ctx.globals.vars, v.form ≠ .pointer)
    (hformals : ∀ v ∈ callee.formals, v.form ≠ .pointer)
    (henter : ctx'.codeOf (.enter callee.signature) = .ok enter) :
    ∃ s', P.run (blocks.flatten.length + 1 + enter.length) s = some s' ∧
      s'.pc = n + enter.length ∧
      (∀ j v, callee.formals[j]? = some v →
        s'.cpu.ram.read (ctx'.address P.data (s'.cpu.regs .rbp) v) v.size
          = v.size.clip (ctx.valueOf P.data (s.cpu.regs .rbp) s.cpu.ram (arg (j + 1)))) ∧
      ∀ x, ¬ (lo ≤ x.toNat ∧ x.toNat < (s.cpu.regs .rsp).toNat) →
        s'.cpu.ram x = s.cpu.ram x := by
  have hroom := h.room
  obtain ⟨frame, hframe⟩ : ∃ frame : Word, frame = s.cpu.regs .rsp
      - BitVec.ofNat 64 (8 * stackArguments callee.formals.length + 8) := ⟨_, rfl⟩
  have hnat : frame.toNat = (s.cpu.regs .rsp).toNat
      - (8 * stackArguments callee.formals.length + 8) := by
    rw [hframe, toNat_sub_ofNat (by omega)]
  obtain ⟨c₁, he₁, hp⟩ := h.passes hc hsym
  obtain ⟨rest, hcall⟩ := callCode_eq callee.signature
  have hrun₁ := Process.run_block h.holds.left he₁
  have hinstr := h.holds.right
  rw [hcall] at hinstr
  have hstep := Process.step_call (s := ⟨c₁, s.pc + blocks.flatten.length, s.trace⟩) hinstr.head
    (Image.symbol_of_entry h.entry)
  obtain ⟨hrsp, harrived, hram₂⟩ := h.arrives hp
    (P.place (s.pc + blocks.flatten.length + 1)) hframe
  obtain ⟨c₃, he₃, hrbp, hram₃, hvalues⟩ := h.entered hc' hglobals hsym hformals henter hframe hrsp
  have hrun₃ := Process.run_block (s := ⟨_, n, s.trace⟩) h.enters he₃
  refine ⟨_, Process.run_trans (Process.run_trans hrun₁ ((Process.run_one _).trans hstep)) hrun₃,
    rfl, fun j v hj => ?_, fun x hx => ?_⟩
  · have hlt : j < callee.formals.length := (List.getElem?_eq_some_iff.1 hj).1
    rw [hrbp, hvalues j v hj, harrived (1 + j) (by omega) (by omega), Nat.add_comm]
  · rw [hram₃ x (by omega), hram₂ x (by omega)]

end CallReady

/-! ## Programs from files -/

/-- The code that enters a procedure. -/
theorem Emit.Compiled.enter {p : Program} {q : Procedure} {ctx : Context} {r : Routine}
    (hc : Compiled p q ctx r) : ∃ enter, ctx.codeOf (.enter q.signature) = .ok enter := by
  obtain ⟨blocks, hl⟩ := Procedure.laid_of_itemsIn hc.items
  obtain ⟨block, -, hblock⟩ := exists_of_forall₂ hl.code (List.mem_cons_self ..)
  exact ⟨block, hblock⟩

/-- Callers and callees agree on arguments. Take two procedures of a program that was built from a
file and compiled, and any operands of the caller, one for each formal of the callee. Let the
machine execute the code that passes them, each once and in any order in which those on the stack
come in increasing order, then the call, and then the code that enters the callee. After that, the
slot of every formal holds the value that its operand had before, as far as it fits, while
everything from the stack pointer on, the slots of the caller, its saved frame pointer and its
return address included, and all globals are as they were. -/
theorem call_passes_arguments {f : Source.File} {p : Program} {options : Options}
    {a : Asm.Assembly} (hbuild : f.build = .ok p) (hasm : p.assembly options = .ok a)
    {caller callee : Procedure} (hcaller : caller ∈ p.procedures)
    (hcallee : callee ∈ p.procedures) :
    ∃ ctx r ctx' r' enter, Compiled p caller ctx r ∧ Compiled p callee ctx' r' ∧
      ctx'.codeOf (.enter callee.signature) = .ok enter ∧
      ∀ (P : Process) (s : State) (arg : Nat → Operand) (order : List Nat)
        (blocks : List (List Instr)) (n lo : Nat),
        CallReady ctx ctx' callee P s arg order blocks enter n lo →
        ∃ s', P.run (blocks.flatten.length + 1 + enter.length) s = some s' ∧
          s'.pc = n + enter.length ∧
          (∀ j v, callee.formals[j]? = some v →
            s'.cpu.ram.read (ctx'.address P.data (s'.cpu.regs .rbp) v) v.size
              = v.size.clip (ctx.valueOf P.data (s.cpu.regs .rbp) s.cpu.ram (arg (j + 1)))) ∧
          (∀ slot ∈ ctx.frame.slots,
            s'.cpu.ram.read (s.cpu.regs .rbp + BitVec.ofInt 64 slot.offset) .word
              = s.cpu.ram.read (s.cpu.regs .rbp + BitVec.ofInt 64 slot.offset) .word) ∧
          (∀ v ∈ ctx.globals.vars,
            s'.cpu.ram.read (P.data (globalLabel v.name)) v.size
              = s.cpu.ram.read (P.data (globalLabel v.name)) v.size) ∧
          s'.cpu.ram.read (s.cpu.regs .rbp - 8) .word
            = s.cpu.ram.read (s.cpu.regs .rbp - 8) .word ∧
          s'.cpu.ram.read (s.cpu.regs .rbp) .word = s.cpu.ram.read (s.cpu.regs .rbp) .word ∧
          ∀ x, (s.cpu.regs .rsp).toNat ≤ x.toNat → s'.cpu.ram x = s.cpu.ram x := by
  obtain ⟨g, rs, -, -, hall⟩ := Program.compiled_of_assembly hasm
  obtain ⟨r, -, ctx, hg, hc⟩ := exists_of_forall₂ hall hcaller
  obtain ⟨r', -, ctx', hg', hc'⟩ := exists_of_forall₂ hall hcallee
  obtain ⟨enter, henter⟩ := hc'.enter
  have hsym := hc.form_ne_pointer hbuild
  have hformals : ∀ v ∈ callee.formals, v.form ≠ .pointer := by
    intro v hv
    simp [Source.File.form_of_mem_formals hbuild hcallee hv]
  refine ⟨ctx, r, ctx', r', enter, hc, hc', henter, fun P s arg order blocks n lo h => ?_⟩
  obtain ⟨s', hrun, hpc, hvalues, hram⟩ :=
    h.run hc hc' (hg'.trans hg.symm) hsym hformals henter
  have hbelow := h.below
  have htop := h.top
  unfold reach at hbelow
  have hsaved : (s.cpu.regs .rbp - 8).toNat = (s.cpu.regs .rbp).toNat - 8 :=
    toNat_sub_ofNat (n := 8) (by omega)
  refine ⟨s', hrun, hpc, hvalues, fun slot hslot => ?_, fun v hv => ?_, ?_, ?_, fun x hx => ?_⟩
  · rw [(Frame.slots_of_assign hc.frame).1, List.mem_mapIdx] at hslot
    obtain ⟨i, hi, rfl⟩ := hslot
    rw [← Frame.length_slots hc.frame] at hi
    refine Ram.read_congr fun x hx => hram x fun hin => ?_
    have := Context.within_slot (by omega) (Nat.le_refl 8) hx
    omega
  · refine Ram.read_congr fun x hx => hram x fun hin => ?_
    exact h.loaded.stack v hv x hx ⟨hin.1, by omega⟩
  · refine Ram.read_congr fun x hx => hram x fun hin => ?_
    rw [Size.bytes_word, within_iff (by omega)] at hx
    omega
  · refine Ram.read_congr fun x hx => hram x fun hin => ?_
    rw [Size.bytes_word, within_iff (by omega)] at hx
    omega
  · exact hram x (by omega)

namespace SevenArguments

/-- A program with a procedure of seven formals, the first of one byte. -/
def file : Source.File where
  procedures := [
    { name := "main", locals := [{ name := "x" }] },
    { name := "f"
      formals := [{ name := "a", width := 1 }, { name := "b" }, { name := "c" }, { name := "d" },
        { name := "e" }, { name := "g" }, { name := "h" }] }]

def x : Variable := ⟨0, .symbol, "x", 8, .int⟩
def a : Variable := ⟨1, .symbol, "a", 1, .int⟩
def b : Variable := ⟨2, .symbol, "b", 8, .int⟩
def h : Variable := ⟨7, .symbol, "h", 8, .int⟩

def main : Procedure := { name := "main", locals := [x] }

def f : Procedure where
  name := "f"
  formals := [a, b, ⟨3, .symbol, "c", 8, .int⟩, ⟨4, .symbol, "d", 8, .int⟩,
    ⟨5, .symbol, "e", 8, .int⟩, ⟨6, .symbol, "g", 8, .int⟩, h]

/-- The program. -/
def program : Program := ⟨[], [], [main, f]⟩

/-- A large number, a variable, and then the numbers of the positions. -/
def arg : Nat → Operand
  | 1 => .lit (.int 300)
  | 2 => x
  | i => .lit (.int (Int64.ofNat i))

/-- The frame of the caller. -/
def frame : Frame := ⟨"main", [⟨x, .local, -16⟩], 16⟩

/-- The code that passes the arguments, the second first. -/
def blocks : List (List Instr) :=
  [[.load .word (.base .rbp (-16)) .rax], [.constant 300 .rdi], [.constant 3 .rdx],
    [.constant 4 .rcx], [.constant 5 .r8], [.constant 6 .r9], [.constant 7 .r11, .push .r11]]

/-- That code, the call, and the code that the call goes to. -/
def process (enter : List Instr) : Process where
  image := {
    code := blocks.flatten ++ callCode f.signature ++ enter
    label := fun _ => none
    entry := fun _ => some (blocks.flatten ++ callCode f.signature).length }
  data _ := 0
  place _ := 0
  serve _ _ c := c

/-- A machine on which the variable is 5. -/
def state : State where
  cpu := {
    regs := fun r => if r = .rbp then 8192 else 8160
    kept := fun _ => 0
    ram := Ram.write (fun _ => 0) 8176 .word 5
    compared := none }
  pc := 0
  trace := []

end SevenArguments

open SevenArguments in
/-- The callee gets the lowest byte of 300, the variable, and 7. -/
theorem sevenArguments_arrive : ∃ ctx r enter s',
    file.build = .ok program ∧ Compiled program f ctx r ∧
      ctx.codeOf (.enter f.signature) = .ok enter ∧
      (process enter).run (8 + 1 + enter.length) state = some s' ∧
      s'.cpu.ram.read (ctx.address (fun _ => 0) (s'.cpu.regs .rbp) a) .byte = 44 ∧
      s'.cpu.ram.read (ctx.address (fun _ => 0) (s'.cpu.regs .rbp) b) .word = 5 ∧
      s'.cpu.ram.read (ctx.address (fun _ => 0) (s'.cpu.regs .rbp) h) .word = 7 := by
  have hbuild : file.build = .ok program := by rfl
  obtain ⟨asm, hasm⟩ : ∃ asm, program.assembly {} = .ok asm := ⟨_, rfl⟩
  have hmain : main ∈ program.procedures := by decide
  have hf : f ∈ program.procedures := by decide
  obtain ⟨ctx, r, ctx', r', enter, hc, hc', henter, hcall⟩ :=
    call_passes_arguments hbuild hasm hmain hf
  have hslots : ctx'.frame.slots.length = 7 := by
    rw [Frame.length_slots hc'.frame]
    rfl
  obtain ⟨globals, layout, arity⟩ := ctx
  obtain rfl : layout = frame := Except.ok.inj (hc.frame.symm.trans (by decide +kernel))
  obtain rfl : globals = ⟨[], []⟩ := Except.ok.inj (hc.globals.symm.trans (by decide +kernel))
  have hready : CallReady ⟨⟨[], []⟩, frame, arity⟩ ctx' f (process enter) state arg
      [2, 1, 3, 4, 5, 6, 7] blocks enter (blocks.flatten ++ callCode f.signature).length 0 := by
    refine ⟨by decide, by decide, ?_, List.prefix_append _ _, rfl, ?_,
      (by decide : 8160 + reach 1 ≤ 8192), by decide, ?_, ⟨nofun, nofun⟩, ?_⟩
    · exact .cons rfl (.cons rfl (.cons rfl (.cons rfl (.cons rfl (.cons rfl (.cons rfl .nil))))))
    · unfold Image.Holds
      exact List.drop_left ▸ List.prefix_rfl
    · rw [hslots]
      exact (by decide : 0 + 8 * 1 + 8 + reach 7 ≤ 8160)
    · intro i v hv hf
      unfold arg at hv
      split at hv
      · cases hv
      · cases hv
        exact absurd hf (by decide)
      · cases hv
  obtain ⟨s', hrun, -, hvalues, -⟩ := hcall (process enter) state arg _ blocks _ 0 hready
  have ha := hvalues 0 a rfl
  have hb := hvalues 1 b rfl
  have hh := hvalues 6 h rfl
  refine ⟨ctx', r', enter, s', hbuild, hc', henter, hrun, ha.trans ?_, hb.trans ?_, hh.trans ?_⟩
  · exact (by decide : Size.byte.clip 300 = 44)
  · exact Ram.read_write_self (fun _ => 0) 8176 .word 5
  · rfl

end QuadAsm
