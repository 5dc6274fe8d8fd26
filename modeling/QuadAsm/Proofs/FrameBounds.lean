import QuadAsm.Proofs.Emit.Enter
import QuadAsm.Proofs.Emit.Lines

/-!
# Code stays in its frame

Code finds the variables of its procedure at offsets from the frame pointer. Such an offset is one
of a slot, so what is there lies between the stack pointer and the saved frame pointer. The words
above the frame pointer belong to the caller: entering reads each argument from there that came on
the stack, once, and nothing else uses them. Main result: `code_stays_in_frame`.
-/

namespace QuadAsm

open Emit Layout Machine

/-! ## What is addressed from the frame pointer -/

namespace Asm

/-- An argument that is memory at an offset from the frame pointer, or the address of such. -/
def Line.FrameArg (l : Line) (a : Arg) : Prop :=
  a.reg = "rbp" ∧ ((a = l.arg1 ∨ a = l.arg2) ∧ a.deref = true ∨ l.op = "leaq" ∧ a = l.arg1)

/-- How often lines name an offset from the frame pointer. -/
def frameUses (o : Int) (lines : List Line) : Nat :=
  (lines.flatMap fun l => [l.arg1, l.arg2]).countP fun a : Arg => a.reg = "rbp" ∧ a.offset = o

/-- The uses of a place are counted line by line. -/
theorem frameUses_cons (o : Int) (l : Line) (lines : List Line) :
    frameUses o (l :: lines) = frameUses o [l] + frameUses o lines := by
  rw [frameUses, ← List.singleton_append, List.flatMap_append, List.countP_append]
  rfl

end Asm

namespace Machine

/-- The memory that an instruction names. -/
def Instr.memory? : Instr → Option Memory
  | .load _ src _ => some src
  | .store _ _ dst => some dst
  | .address src _ => some src
  | _ => none

/-- The frame pointer is known by its name. -/
theorem Register.fullName_eq_rbp {r : Register} : r.fullName = "rbp" ↔ r = .rbp := by
  cases r <;> decide

/-- So is an address relative to it. -/
theorem Memory.arg_reg_eq_rbp {m : Memory} : m.arg.reg = "rbp" ↔ m = .base .rbp m.arg.offset := by
  cases m with
  | base reg offset =>
    show reg.fullName = "rbp" ↔ _
    rw [Register.fullName_eq_rbp]
    exact ⟨fun h => h ▸ rfl, fun h => (Memory.base.inj h).1⟩
  | data label =>
    have hrip : ("rip" : Bytes) ≠ "rbp" := by decide
    exact ⟨fun h => absurd h hrip, fun h => by cases h⟩

/-- Memory at an offset from the frame pointer is what the instruction names. -/
theorem Instr.memory?_of_frameArg {i : Instr} {a : Asm.Arg} (h : i.line.FrameArg a) :
    i.memory? = some (.base .rbp a.offset) := by
  obtain ⟨hreg, ⟨harg, hderef⟩ | ⟨hop, harg⟩⟩ := h
  · cases i with
    | load size src dst =>
      cases size <;>
      · rcases harg with rfl | rfl
        · exact congrArg some (Memory.arg_reg_eq_rbp.1 hreg)
        · cases hderef
    | store size src dst =>
      cases size <;>
      · rcases harg with rfl | rfl
        · cases hderef
        · exact congrArg some (Memory.arg_reg_eq_rbp.1 hreg)
    | _ => rcases harg with rfl | rfl <;> cases hderef
  · subst harg
    cases i with
    | address src dst => exact congrArg some (Memory.arg_reg_eq_rbp.1 hreg)
    | load size src dst => cases size <;> cases hop
    | store size src dst => cases size <;> cases hop
    | arith op src dst => cases op <;> cases hop
    | arithConst op value dst => cases op <;> cases hop
    | set cond reg => cases cond <;> cases hop
    | _ => cases hop

/-- What is stored to is what an instruction names that is no load. -/
theorem Instr.not_load_of_deref {i : Instr} (h : i.line.arg2.deref = true) (size : Size)
    (src : Memory) (dst : Register) : i ≠ .load size src dst := by
  rintro rfl
  cases size <;> cases h

/-- An address names a place of the frame just if it is that place. -/
theorem Memory.arg_names_iff {m : Memory} {o : Int} :
    m.arg.reg = "rbp" ∧ m.arg.offset = o ↔ m = .base .rbp o := by
  rw [arg_reg_eq_rbp]
  constructor
  · rintro ⟨hm, rfl⟩
    exact hm
  · rintro rfl
    exact ⟨rfl, rfl⟩

/-- An offset above the frame pointer is named once by an instruction whose memory is there. -/
theorem frameUses_line {o : Int} (ho : 0 < o) (i : Instr) :
    Asm.frameUses o [i.line] = if i.memory? = some (.base .rbp o) then 1 else 0 := by
  have hnone : (0 : Int) ≠ o := Int.ne_of_lt ho
  cases i with
  | load size src dst =>
    cases size <;>
      simp [Asm.frameUses, Instr.line, binaryLine, Instr.memory?, Register.arg, Asm.Arg.ofReg,
        List.countP_cons, hnone, Memory.arg_names_iff]
  | store size src dst =>
    cases size <;>
      simp [Asm.frameUses, Instr.line, binaryLine, Instr.memory?, Register.arg, Register.lowArg,
        Asm.Arg.ofReg, List.countP_cons, hnone, Memory.arg_names_iff]
  | address src dst =>
    simp [Asm.frameUses, Instr.line, binaryLine, Instr.memory?, Register.arg, Asm.Arg.ofReg,
      Asm.Arg.asAddress, List.countP_cons, hnone, Memory.arg_names_iff]
  | _ =>
    simp [Asm.frameUses, Instr.line, binaryLine, unaryLine, plainLine, Instr.memory?, Register.arg,
      Register.lowArg, Asm.Arg.ofReg, Asm.Arg.ofImm, Asm.Arg.ofLabel, hnone]

/-- Only instructions have arguments. -/
theorem exists_instr_of_frameArg {items : List Item} {l : Asm.Line}
    (hl : l ∈ items.map Item.line) {a : Asm.Arg} (h : l.FrameArg a) :
    ∃ i ∈ instructions items, i.line = l := by
  obtain ⟨item, hitem, rfl⟩ := List.mem_map.1 hl
  cases item with
  | instr i => exact ⟨i, List.mem_filterMap.2 ⟨_, hitem, rfl⟩, rfl⟩
  | label name | comment text =>
    obtain ⟨hreg, ⟨rfl | rfl, -⟩ | ⟨-, rfl⟩⟩ := h <;> cases hreg

/-- Only instructions name offsets above the frame pointer. -/
theorem frameUses_items {o : Int} (ho : 0 < o) (items : List Item) :
    Asm.frameUses o (items.map Item.line) =
      (instructions items).countP (·.memory? = some (.base .rbp o)) := by
  have hempty (l : Asm.Line) (h1 : l.arg1 = {}) (h2 : l.arg2 = {}) : Asm.frameUses o [l] = 0 := by
    simp [Asm.frameUses, h1, h2, Int.ne_of_lt ho]
  induction items with
  | nil => rfl
  | cons item rest ih =>
    rw [List.map_cons, Asm.frameUses_cons, ih]
    cases item with
    | instr i =>
      show Asm.frameUses o [i.line] + _ = (i :: instructions rest).countP _
      rw [frameUses_line ho, List.countP_cons, Nat.add_comm]
      simp
    | label name | comment text =>
      rw [hempty _ rfl rfl, Nat.zero_add]
      rfl

end Machine

/-! ## The words of the frame and the words of arguments -/

/-- The offset of a word on which one of `count` arguments came. -/
structure Emit.InArguments (count : Nat) (o : Int) : Prop where
  word : 8 ∣ o
  above : 8 ≤ o
  within : o ≤ 8 * ((count : Int) - 6)
  many : 6 < count

namespace Emit.Context

variable {ctx : Context}

/-- The offset of a word in the frame: below the saved frame pointer, and not below the stack
pointer once the frame is set up. Sizes are machine words, which is why the number of slots
matters. -/
structure InFrame (ctx : Context) (o : Int) : Prop where
  word : 8 ∣ o
  below : o ≤ -16
  within : reach ctx.frame.slots.length + 16 ≤ 2 ^ 63 →
    -ctx.frame.size ≤ o ∧ -(8 + ctx.activationSize) ≤ o

/-- Variables with an offset are inside of the frame. -/
theorem inFrame_of_offset? {q : Procedure} (hframe : Frame.assign q = .ok ctx.frame)
    {v : Variable} {o : Int} (h : ctx.frame.offset? v = some o) : ctx.InFrame o := by
  obtain ⟨i, hi, -, rfl⟩ := Frame.offset?_eq_some hframe h
  refine ⟨by omega, by omega, fun hfit => ?_⟩
  have hsize := (Frame.size_bounds hframe hfit).2.1 (by omega)
  have hactivation : ctx.frame.size ≤ ctx.activationSize := by
    unfold activationSize wordWidth
    split <;> omega
  unfold reach at hsize
  constructor <;> omega

/-- The stack pointer is moved by the size of the activation. -/
theorem span_eq {q : Procedure} (hframe : Frame.assign q = .ok ctx.frame)
    (hfit : reach ctx.frame.slots.length + 16 ≤ 2 ^ 63) :
    ctx.span = BitVec.ofInt 64 ctx.activationSize := by
  have hsize := (Frame.size_bounds hframe hfit).1
  have hactivation : 0 ≤ ctx.activationSize := by
    unfold activationSize wordWidth
    split <;> omega
  unfold span
  split
  · rfl
  · next hnot =>
    rw [show ctx.activationSize = 0 by omega]
    rfl

/-- A variable with a place in the frame has that offset. -/
theorem offset?_of_storage {v : Variable} {o : Int} (h : ctx.storage v = .ok (.base .rbp o)) :
    ctx.frame.offset? v = some o := by
  rcases storage_cases h with ⟨o', ho, hm⟩ | ⟨-, hm⟩
  · cases hm
    exact ho
  · cases hm

/-- What is at an offset from the frame pointer is the slot of a variable, or an argument that is
fetched. -/
theorem frame_of_emits {op : Op Signature} {i : Instr} {o : Int} (h : ctx.Emits op i)
    (hm : i.memory? = some (.base .rbp o)) :
    (∃ v, ctx.frame.offset? v = some o) ∨
      i = .load .word (.base .rbp o) .scratch ∧ Incoming op (.base .rbp o) := by
  have hstorage (m : Memory) (hm : m = .base .rbp o) (h : ctx.Addresses m) :
      ∃ v, ctx.frame.offset? v = some o := by
    subst hm
    rcases h with ⟨v, hv⟩ | ⟨text, label, -, hlabel⟩
    · exact ⟨v, offset?_of_storage hv⟩
    · cases hlabel
  have hreaches (m : Memory) (hm : m = .base .rbp o) (h : ctx.Reaches m) :
      ∃ v, ctx.frame.offset? v = some o := by
    rcases h with haddress | ⟨reg, hreg, rfl⟩
    · exact hstorage m hm haddress
    · exact absurd (Memory.base.inj hm).1 hreg
  cases i with
  | load size src dst =>
    cases hm
    rcases h with hreach | ⟨rfl, rfl, hincoming⟩
    · exact .inl (hreaches _ rfl hreach)
    · exact .inr ⟨rfl, hincoming⟩
  | store size src dst => exact .inl (hreaches dst (Option.some.inj hm) h)
  | address src dst => exact .inl (hstorage src (Option.some.inj hm) h)
  | _ => cases hm

/-- Arguments are taken from where the caller left them. -/
theorem inArguments_of_incoming {proc : Signature} {o : Int}
    (h : Incoming (.enter proc) (.base .rbp o)) : InArguments proc.formals.length o := by
  obtain ⟨_, position, heq, habove, hle, hm⟩ := h
  cases heq
  obtain rfl := (Memory.base.inj hm).2
  have hsix : registerArguments = 6 := rfl
  exact ⟨by omega, by omega, by omega, by omega⟩

/-- Code that is not there to enter stays away from what is above the frame pointer. -/
theorem countP_eq_zero {q : Procedure} (hframe : Frame.assign q = .ok ctx.frame)
    {code : List Instr} {o : Int} (ho : 0 < o)
    (h : ∀ i ∈ code, ∃ op, ctx.Emits op i ∧ ∀ proc, op ≠ .enter proc) :
    code.countP (·.memory? = some (.base .rbp o)) = 0 := by
  refine List.countP_eq_zero.2 fun i hi => ?_
  obtain ⟨op, hemits, hop⟩ := h i hi
  rw [decide_eq_true_eq]
  intro hm
  rcases frame_of_emits hemits hm with ⟨v, hv⟩ | ⟨-, proc, -, heq, -⟩
  · have hbelow := (inFrame_of_offset? hframe hv).below
    omega
  · exact hop proc heq

/-- Receiving the arguments fetches each one once that came on the stack. -/
theorem countP_receive {q : Procedure} (hframe : Frame.assign q = .ok ctx.frame) {o : Int}
    (ho : 0 < o) {count position : Nat} (hpos : 1 ≤ position) {formals : List Variable}
    {code : List Instr} (h : ctx.receive count position formals = .ok code) :
    code.countP (·.memory? = some (.base .rbp o)) =
      (List.range' position formals.length).countP fun p =>
        registerArguments < p ∧ 8 * ((count : Int) - p + 1) = o := by
  induction formals generalizing position code with
  | nil =>
    cases h
    rfl
  | cons v rest ih =>
    obtain ⟨store, others, hstore, hothers, rfl⟩ := exists_of_receive_cons h
    have hfetch : (incoming count position).1.countP (·.memory? = some (.base .rbp o)) =
        if registerArguments < position ∧ 8 * ((count : Int) - position + 1) = o then 1 else 0 := by
      unfold incoming
      split
      · next reg hreg =>
        have hnot : ¬ registerArguments < position := fun habove =>
          Option.some_ne_none reg (hreg.symm.trans ((Register.ofArgument?_eq_none hpos).2 habove))
        rw [if_neg (fun h => hnot h.1)]
        rfl
      · next hnone =>
        have habove := (Register.ofArgument?_eq_none hpos).1 hnone
        simp [Instr.memory?, habove, List.countP_cons]
    have hzero : store.countP (·.memory? = some (.base .rbp o)) = 0 :=
      countP_eq_zero hframe ho fun i hi =>
        ⟨.nop, emits_of_storeValue hstore i hi, fun _ h => by cases h⟩
    rw [List.countP_append, List.countP_append, hfetch, hzero, ih (by omega) hothers,
      List.length_cons, List.range'_succ, List.countP_cons]
    simp only [decide_eq_true_eq]
    omega

/-- Entering fetches each argument once that came on the stack. -/
theorem countP_enterCode {q : Procedure} (hframe : Frame.assign q = .ok ctx.frame) {o : Int}
    {formals : List Variable} {code : List Instr} (h : ctx.enterCode formals = .ok code)
    (ho : InArguments formals.length o) :
    code.countP (·.memory? = some (.base .rbp o)) = 1 := by
  obtain ⟨word, habove, hwithin, hmany⟩ := ho
  obtain ⟨moves, hmoves, rfl⟩ := exists_of_enterCode h
  have hprologue : ([.push .rbp, .move .rsp .rbp, .arithConst .add 8 .rbp]
      ++ ctx.adjustStack .sub : List Instr).countP (·.memory? = some (.base .rbp o)) = 0 := by
    unfold adjustStack
    split <;> rfl
  -- the position of the argument that came on this word
  obtain ⟨k, rfl⟩ := word
  have hposition : (fun p : Nat => decide (registerArguments < p ∧
      8 * ((formals.length : Int) - p + 1) = 8 * k)) = (· == (formals.length + 1 - k).toNat) := by
    funext p
    have hsix : registerArguments = 6 := rfl
    rw [Bool.eq_iff_iff, decide_eq_true_eq, beq_iff_eq]
    omega
  rw [List.countP_append, hprologue, Nat.zero_add,
    countP_receive hframe (by omega) (Nat.le_refl 1) hmoves, hposition]
  exact List.count_eq_one_of_mem List.nodup_range' (List.mem_range'_1.2 (by omega))

end Emit.Context

namespace Procedure

/-- No instruction comes before those that enter, and the others belong to the body or to the quad
that leaves. -/
theorem split_of_itemsIn {q : Procedure} {ctx : Context} {items : List Item}
    (h : q.itemsIn ctx = .ok items) :
    ∃ before enter after, items = before ++ enter.map .instr ++ after ∧
      ctx.codeOf q.enter.op = .ok enter ∧ instructions before = [] ∧
      ∀ i ∈ instructions after, ∃ quad ∈ q.body ++ [q.leave], ctx.Emits quad.op i := by
  obtain ⟨enter, blocks, leave, henter, hblocks, hleave, rfl⟩ := q.exists_of_itemsIn h
  have hrest := ((Context.laid_body hblocks).comment ("Fn body " ++ q.name)).append
    ((Context.laid_quad hleave).comment ("Fn epilogue " ++ q.name))
  refine ⟨.comment ("frame size: " ++ Bytes.ofInt ctx.frame.size ++ " bytes") ::
      q.enter.labels.map .label ++ [.comment q.enter.text], enter, _, ?_, henter, ?_,
    fun i hi => hrest.emits hi⟩
  · simp [Quad.items]
  · rw [instructions_append, instructions_comment, instructions_labels]
    rfl

end Procedure

/-- Code stays in its frame. In a program from a file, every offset from the frame pointer in the
lines of a procedure is one of a word in its frame. Only the code that enters also loads from
above, namely each argument that came on the stack, once; nothing is stored there. The words of the
frame lie above the stack pointer as the first part of this code leaves it. -/
theorem code_stays_in_frame {f : Source.File} {p : Program} {q : Procedure} {g : Globals}
    {r : Routine} (hbuild : f.build = .ok p) (hq : q ∈ p.procedures) (hr : q.routine g = .ok r) :
    ∃ (ctx : Context) (before after : List Asm.Line) (prologue moves : List Instr),
      ctx.globals = g ∧ Frame.assign q = .ok ctx.frame ∧ ctx.arity = q.formals.length ∧
      ctx.codeOf q.enter.op = .ok (prologue ++ moves) ∧
      r.function.lines = before ++ (prologue ++ moves).map Instr.line ++ after ∧
      (∀ data c, ∃ c', execAll data prologue c = some c' ∧
        (reach ctx.frame.slots.length + 16 ≤ 2 ^ 63 →
          c'.regs .rsp = c'.regs .rbp + BitVec.ofInt 64 (-(8 + ctx.activationSize)))) ∧
      (∀ l ∈ before ++ after, ∀ a, l.FrameArg a → ctx.InFrame a.offset) ∧
      (∀ i ∈ prologue ++ moves, ∀ a, i.line.FrameArg a → ctx.InFrame a.offset ∨
        i = .load .word (.base .rbp a.offset) .scratch ∧
          InArguments q.formals.length a.offset) ∧
      (∀ o, InArguments q.formals.length o → Asm.frameUses o r.function.lines = 1) ∧
      ∀ l ∈ r.function.lines, l.arg2.reg = "rbp" → l.arg2.deref = true → l.arg2.offset < 0 := by
  obtain ⟨frame, hframe, h⟩ := bind_eq_ok.1 hr
  obtain ⟨items, hitems, h⟩ := bind_eq_ok.1 h
  cases pure_eq_ok.1 h
  have hframe := liftM_rejection_eq_ok.1 hframe
  obtain ⟨before, enter, after, rfl, henter, hbefore, hafter⟩ := q.split_of_itemsIn hitems
  obtain ⟨moves, hmoves, heq⟩ := bind_eq_ok.1 (liftM_rejection_eq_ok.1 henter)
  have hcode := pure_eq_ok.1 heq
  have hinstructions : instructions (before ++ enter.map .instr ++ after)
      = enter ++ instructions after := by
    rw [instructions_append, instructions_append, hbefore, instructions_code, List.nil_append]
  -- what follows the code that enters is for other quads
  have hother : ∀ i ∈ instructions after, ∃ op, Context.Emits ⟨g, frame, q.formals.length⟩ op i ∧
      ∀ proc, op ≠ .enter proc := by
    intro i hi
    obtain ⟨quad, hquad, hemits⟩ := hafter i hi
    refine ⟨quad.op, hemits, fun proc => ?_⟩
    rcases List.mem_append.1 hquad with hbody | hleave
    · exact (Source.File.op_of_mem_body hbuild hq hbody proc).1
    · rw [List.mem_singleton.1 hleave]
      rintro ⟨⟩
  refine ⟨⟨g, frame, q.formals.length⟩, before.map Item.line, after.map Item.line, _, moves, rfl,
    hframe, rfl, hcode ▸ henter, ?_, fun data c => ?_, fun l hl a ha => ?_, fun i hi a ha => ?_,
    fun o ho => ?_, fun l hl hreg hderef => ?_⟩
  · rw [hcode, Routine.function]
    simp [Function.comp_def, Item.line]
  · obtain ⟨c', hexec, hrbp, hrsp, -⟩ := Context.prologue_exec data ⟨g, frame, q.formals.length⟩ c
    refine ⟨c', hexec, fun hfit => ?_⟩
    rw [hrsp, hrbp, Context.span_eq hframe hfit, Int.neg_add, BitVec.ofInt_add, BitVec.ofInt_neg,
      BitVec.ofInt_neg, ← BitVec.add_assoc, BitVec.sub_eq_add_neg, BitVec.sub_eq_add_neg]
    rfl
  · rw [← List.map_append] at hl
    obtain ⟨i, hi, rfl⟩ := exists_instr_of_frameArg hl ha
    rw [instructions_append, hbefore, List.nil_append] at hi
    obtain ⟨op, hemits, hop⟩ := hother i hi
    rcases Context.frame_of_emits hemits (Instr.memory?_of_frameArg ha) with
      ⟨v, hv⟩ | ⟨-, proc, -, heq, -⟩
    · exact Context.inFrame_of_offset? hframe hv
    · exact absurd heq (hop proc)
  · have hemits := Context.emits_of_codeOf henter i (hcode ▸ hi)
    rcases Context.frame_of_emits hemits (Instr.memory?_of_frameArg ha) with
      ⟨v, hv⟩ | ⟨hload, hincoming⟩
    · exact .inl (Context.inFrame_of_offset? hframe hv)
    · exact .inr ⟨hload, Context.inArguments_of_incoming hincoming⟩
  · have hpos : 0 < o := Int.lt_of_lt_of_le (by decide) ho.above
    rw [Routine.function, frameUses_items hpos, hinstructions, List.countP_append,
      Context.countP_enterCode hframe (liftM_rejection_eq_ok.1 henter) ho,
      Context.countP_eq_zero hframe hpos hother]
  · have harg : l.FrameArg l.arg2 := ⟨hreg, .inl ⟨.inr rfl, hderef⟩⟩
    obtain ⟨i, hi, rfl⟩ := exists_instr_of_frameArg hl harg
    have hemits : ∃ op, Context.Emits ⟨g, frame, q.formals.length⟩ op i := by
      rw [hinstructions] at hi
      rcases List.mem_append.1 hi with hi | hi
      · exact ⟨_, Context.emits_of_codeOf henter i hi⟩
      · obtain ⟨op, hemits, -⟩ := hother i hi
        exact ⟨op, hemits⟩
    obtain ⟨op, hemits⟩ := hemits
    rcases Context.frame_of_emits hemits (Instr.memory?_of_frameArg harg) with
      ⟨v, hv⟩ | ⟨hload, -⟩
    · exact Int.lt_of_le_of_lt (Context.inFrame_of_offset? hframe hv).below (by decide)
    · exact (Instr.not_load_of_deref hderef _ _ _ hload).elim

namespace NineArguments

def names : List Bytes := ["a", "b", "c", "d", "e", "f", "g", "h", "i"]

/-- A procedure with nine formals that points to the last one. -/
def file : Source.File where
  procedures := [{
    name := "f"
    formals := names.map fun name => { name }
    addrs := [{ name := "p" }]
    body := [{ op := "addrof", src := some { name := "i" }, dst := some { name := "p" } }] }]

def formals : List Variable := names.mapIdx fun i name => ⟨i + 1, .symbol, name, 8, .int⟩

/-- The procedure. -/
def f : Procedure where
  name := "f"
  formals := formals
  addrs := [⟨0, .pointer, "p", 8, .int⟩]
  body := [⟨[], .addrOf (.var ⟨9, .symbol, "i", 8, .int⟩) (.var ⟨0, .pointer, "p", 8, .int⟩)⟩]

end NineArguments

open NineArguments in
/-- Three arguments come on the stack, and each is loaded once. -/
theorem nineArguments_in_frame : file.build = .ok ⟨[], [], [f]⟩ ∧
    ∃ r, f.routine ⟨[], []⟩ = .ok r ∧
      (∀ o ∈ [8, 16, 24], Asm.frameUses o r.function.lines = 1) ∧
      ∀ l ∈ r.function.lines, l.arg2.reg = "rbp" → l.arg2.deref = true → l.arg2.offset < 0 := by
  have hbuild : file.build = .ok ⟨[], [], [f]⟩ := by rfl
  obtain ⟨r, hr⟩ : ∃ r, f.routine ⟨[], []⟩ = .ok r := ⟨_, rfl⟩
  obtain ⟨ctx, before, after, prologue, moves, -, -, -, -, -, -, -, -, huses, hstores⟩ :=
    code_stays_in_frame hbuild (List.mem_singleton_self f) hr
  have hlength : f.formals.length = 9 := rfl
  refine ⟨hbuild, r, hr, fun o ho => huses o ?_, hstores⟩
  rw [hlength]
  simp only [List.mem_cons, List.not_mem_nil, or_false] at ho
  rcases ho with rfl | rfl | rfl <;> constructor <;> decide

end QuadAsm
