import QuadAsm.Proofs.Emit.Access
import QuadAsm.Proofs.Emit.Program
import QuadAsm.Proofs.Source.Declared

/-!
# Quads without code

A quad that refers only to what is declared has code, unless it asks for a runtime service, writes
to a constant, takes the address of a constant that is no string, or lets something point that is no
pointer. `Op.fault?` tells these quads from the others by their form alone. Main results: a quad
fails with its own fault (`Context.error?_codeOf`), and a procedure or a program from a file with
the first fault among its quads (`Source.File.error?_routineIn`, `Source.File.error?_routines`).
-/

namespace QuadAsm

open Emit Layout Machine

/-! ## Faults -/

/-- Why there is no code for a quad, and how that is sorted. -/
structure Fault where
  category : Category
  cause : Rejection
  deriving DecidableEq, Repr

/-- A constant cannot be written to. -/
def Operand.storeFault? : Operand → Option Fault
  | .lit l => some ⟨.constantWrite, .storeToLiteral l⟩
  | .var _ | .absent => none

/-- Of the constants only strings have an address. -/
def Operand.addressFault? : Operand → Option Fault
  | .lit (.string _) => none
  | .lit l => some ⟨.unimplemented, .addressOfLiteral l⟩
  | .var _ | .absent => none

/-- Only pointers hold addresses. -/
def Operand.pointFault? : Operand → Option Fault
  | .lit l => some ⟨.constantWrite, .addressToLiteral l⟩
  | .var v => if v.form = .pointer then none else some ⟨.unimplemented, .notAPointer v⟩
  | .absent => none

/-- What is wrong with a quad. -/
def Op.fault? : Op Signature → Option Fault
  | .mayhem _ => some ⟨.unimplemented, .runtimeService⟩
  | .binary _ _ _ dst | .unary _ _ dst | .assign _ dst | .getRet dst | .input dst =>
    dst.storeFault?
  | .addrOf src dst => src.addressFault?.or dst.pointFault?
  | _ => none

/-- A fault that is sorted by its cause: as something that has no code or as a write to a
constant. -/
def Fault.Sorted (fault : Fault) : Prop :=
  fault.cause.category = fault.category ∧
    (fault.category = .unimplemented ∨ fault.category = .constantWrite)

/-- The fault of a quad has the category of its cause. -/
theorem Op.sorted_of_fault? {op : Op Signature} {fault : Fault} (h : op.fault? = some fault) :
    fault.Sorted := by
  have hstore : ∀ {opd : Operand}, opd.storeFault? = some fault → fault.Sorted := by
    intro opd h
    cases opd with
    | lit l =>
      cases h
      exact ⟨rfl, .inr rfl⟩
    | var | absent => cases h
  cases op with
  | mayhem opd =>
    cases h
    exact ⟨rfl, .inl rfl⟩
  | binary | unary | assign | getRet | input => exact hstore h
  | addrOf src dst =>
    rcases Option.or_eq_some_iff.1 h with h | ⟨-, h⟩
    · cases src with
      | lit l =>
        cases l with
        | string text => cases h
        | int | bool | char | malformed =>
          cases h
          exact ⟨rfl, .inl rfl⟩
      | var | absent => cases h
    · cases dst with
      | lit l =>
        cases h
        exact ⟨rfl, .inr rfl⟩
      | var v =>
        rw [Operand.pointFault?] at h
        split at h
        · cases h
        · cases h
          exact ⟨rfl, .inl rfl⟩
      | absent => cases h
  | goto | ifZero | nop | call | enter | leave | setArg | getArg | setRet | output => cases h

namespace Emit.Context

/-! ## Access -/

/-- A context in which the variables and the texts have their places. -/
structure Covers (ctx : Context) (vars : List Variable) (texts : List Bytes) : Prop where
  knows : ∀ v ∈ vars, ctx.Knows v
  labelled : ∀ text ∈ texts, ∃ label, ctx.globals.stringLabel text = .ok label

variable {ctx : Context} {vars : List Variable} {texts : List Bytes} {opd : Operand}
  {reg : Register}

/-- The memory of a variable that code can reach. -/
theorem exists_storage {v : Variable} (h : ctx.Knows v) : ∃ m, ctx.storage v = .ok m := by
  obtain ⟨place, hplace⟩ := h
  simp only [storage, hplace]
  cases place with
  | data label => exact ⟨_, rfl⟩
  | frame offset => exact ⟨_, rfl⟩

/-- The address of a string that is known can be loaded. -/
theorem Covers.exists_stringAddress (hc : ctx.Covers vars texts) {text : Bytes}
    (h : text ∈ texts) (reg : Register) : ∃ code, ctx.stringAddress text reg = .ok code := by
  obtain ⟨label, hlabel⟩ := hc.labelled text h
  rw [stringAddress, hlabel]
  exact ⟨_, rfl⟩

/-- Every declared operand has a value. -/
theorem Covers.error?_loadValue (hc : ctx.Covers vars texts) (h : opd.Declared vars texts)
    (reg : Register) : error? (ctx.loadValue opd reg) = none := by
  rw [error?_eq_none]
  cases opd with
  | var v =>
    obtain ⟨m, hm⟩ := exists_storage (hc.knows v h)
    simp only [loadValue, hm]
    cases v.form <;> exact ⟨_, rfl⟩
  | lit l =>
    cases l with
    | string text => exact hc.exists_stringAddress h reg
    | int | bool | char | malformed => exact ⟨_, rfl⟩
  | absent => exact h.elim

/-- Every declared operand can be written to, unless it is a constant. -/
theorem Covers.error?_storeValue (hc : ctx.Covers vars texts) (h : opd.Declared vars texts)
    (hreg : reg ≠ .scratch) :
    error? (ctx.storeValue opd reg) = opd.storeFault?.map (·.cause) := by
  cases opd with
  | var v =>
    obtain ⟨m, hm⟩ := exists_storage (hc.knows v h)
    simp only [storeValue, hm, if_neg hreg]
    cases v.form <;> rfl
  | lit l => rfl
  | absent => exact h.elim

/-- Every declared operand has an address, unless it is a constant that is no string. -/
theorem Covers.error?_loadAddress (hc : ctx.Covers vars texts) (h : opd.Declared vars texts)
    (reg : Register) : error? (ctx.loadAddress opd reg) = opd.addressFault?.map (·.cause) := by
  cases opd with
  | var v =>
    obtain ⟨m, hm⟩ := exists_storage (hc.knows v h)
    simp only [loadAddress, hm]
    cases v.form <;> rfl
  | lit l =>
    cases l with
    | string text => exact error?_eq_none.2 (hc.exists_stringAddress h reg)
    | int | bool | char | malformed => rfl
  | absent => exact h.elim

/-- Of the declared operands the pointers can be made to point. -/
theorem Covers.error?_storeAddress (hc : ctx.Covers vars texts) (h : opd.Declared vars texts)
    (reg : Register) : error? (ctx.storeAddress opd reg) = opd.pointFault?.map (·.cause) := by
  cases opd with
  | var v =>
    obtain ⟨m, hm⟩ := exists_storage (hc.knows v h)
    cases hf : v.form <;> simp [storeAddress, Operand.pointFault?, hf, hm]
  | lit l => rfl
  | absent => exact h.elim

/-! ## Quads -/

/-- Operators that exist have code, and the result is not in the scratch register. -/
theorem combine_of_mem {op : BinOp} (h : op ∈ BinOp.all) :
    ∃ work result, combine op = .ok (work, result) ∧ result ≠ .scratch := by
  cases op with
  | unknown code => simp [BinOp.all] at h
  | add | sub | mult | div | and | or | eq | neq | lt | gt | lte | gte =>
    exact ⟨_, _, rfl, by decide⟩

/-- There is code for every operation on one value. -/
theorem change_of_mem {op : UnOp} (h : op ∈ UnOp.all) : ∃ work, change op = .ok work := by
  cases op with
  | unknown code => simp [UnOp.all] at h
  | copy | neg | not => exact ⟨_, rfl⟩

/-- A choice by kind and width can be made for every declared operand. -/
theorem exists_of_declared (h : opd.Declared vars texts) (int byte string : Bytes) :
    ∃ name, (match opd.kind?, opd.width? with
      | some .string, some _ => .ok string
      | some _, some width =>
        if width = wordWidth then .ok int else if width = byteWidth then .ok byte else .ok string
      | _, _ => .error Crash.missing : Except Crash Bytes) = .ok name := by
  cases opd with
  | var | lit =>
    split
    · exact ⟨_, rfl⟩
    · split_ifs <;> exact ⟨_, rfl⟩
    · next hnone => exact (hnone _ _ rfl rfl).elim
  | absent => exact h.elim

/-- Every declared operand has a routine that prints it. -/
theorem exists_outputRoutine (h : opd.Declared vars texts) :
    ∃ name, outputRoutine opd = .ok name :=
  exists_of_declared h ..

/-- Every declared operand has a routine that reads it. -/
theorem exists_inputRoutine (h : opd.Declared vars texts) :
    ∃ name, inputRoutine opd = .ok name :=
  exists_of_declared h ..

/-- Passing an argument cannot fail. -/
theorem Covers.error?_passArgument (hc : ctx.Covers vars texts) (h : opd.Declared vars texts)
    {index : Int} (hindex : 1 ≤ index) : error? (ctx.passArgument index opd) = none := by
  rw [passArgument, if_neg (by omega)]
  split
  · exact hc.error?_loadValue h _
  · rw [error?_bind_pure, hc.error?_loadValue h]

/-- An operation on two values fails just if its result cannot be stored. -/
theorem Covers.error?_binaryCode (hc : ctx.Covers vars texts) {op : BinOp} (hop : op ∈ BinOp.all)
    {src1 src2 dst : Operand} (h1 : src1.Declared vars texts) (h2 : src2.Declared vars texts)
    (hdst : dst.Declared vars texts) :
    error? (ctx.binaryCode op src1 src2 dst) = dst.storeFault?.map (·.cause) := by
  obtain ⟨left, hleft⟩ := error?_eq_none.1 (hc.error?_loadValue h1 .rax)
  obtain ⟨right, hright⟩ := error?_eq_none.1 (hc.error?_loadValue h2 .r10)
  obtain ⟨work, result, hwork, hresult⟩ := combine_of_mem hop
  simp only [binaryCode, hleft, hright, hwork, ok_bind, error?_bind_pure]
  exact hc.error?_storeValue hdst hresult

/-- So does an operation on one value. -/
theorem Covers.error?_unaryCode (hc : ctx.Covers vars texts) {op : UnOp} (hop : op ∈ UnOp.all)
    {src dst : Operand} (hsrc : src.Declared vars texts) (hdst : dst.Declared vars texts) :
    error? (ctx.unaryCode op src dst) = dst.storeFault?.map (·.cause) := by
  obtain ⟨load, hload⟩ := error?_eq_none.1 (hc.error?_loadValue hsrc .rax)
  obtain ⟨work, hwork⟩ := change_of_mem hop
  simp only [unaryCode, hload, hwork, ok_bind, error?_bind_pure]
  exact hc.error?_storeValue hdst (by decide)

/-- So does an assignment. -/
theorem Covers.error?_copyValue (hc : ctx.Covers vars texts) {src dst : Operand}
    (hsrc : src.Declared vars texts) (hdst : dst.Declared vars texts) :
    error? (ctx.copyValue src dst) = dst.storeFault?.map (·.cause) := by
  obtain ⟨load, hload⟩ := error?_eq_none.1 (hc.error?_loadValue hsrc .rax)
  simp only [copyValue, hload, ok_bind, error?_bind_pure]
  exact hc.error?_storeValue hdst (by decide)

/-- Setting a pointer fails if the source has no address, and else if the destination is no pointer.
-/
theorem Covers.error?_pointTo (hc : ctx.Covers vars texts) {src dst : Operand}
    (hsrc : src.Declared vars texts) (hdst : dst.Declared vars texts) :
    error? (ctx.pointTo src dst) = (src.addressFault?.or dst.pointFault?).map (·.cause) := by
  have hstore (load : List Instr) :
      error? (ctx.storeAddress dst .rax >>= fun store => pure (load ++ store))
        = dst.pointFault?.map (·.cause) := by
    rw [error?_bind_pure, hc.error?_storeAddress hdst]
  rw [pointTo, error?_bind fun load _ => hstore load, hc.error?_loadAddress hsrc, Option.map_or]

/-- A declared quad fails with its fault. -/
theorem error?_codeOf (hc : ctx.Covers vars texts) {op : Op Signature}
    (h : op.Declared vars texts) :
    error? (ctx.codeOf op) = op.fault?.map (.rejected ·.cause) := by
  have hlift {α : Type} {x : Except Rejection α} {fault : Option Fault}
      (hx : error? x = fault.map (·.cause)) :
      error? (liftM x : Except Failure α) = fault.map (.rejected ·.cause) := by
    rw [error?_liftM_rejection, hx, Option.map_map]
    rfl
  cases op with
  | binary op src1 src2 dst => exact hlift (hc.error?_binaryCode h.1 h.2.1 h.2.2.1 h.2.2.2)
  | unary op src dst => exact hlift (hc.error?_unaryCode h.1 h.2.1 h.2.2)
  | assign src dst => exact hlift (hc.error?_copyValue h.1 h.2)
  | addrOf src dst => exact hlift (hc.error?_pointTo h.1 h.2)
  | goto target =>
    obtain ⟨l, rfl, -⟩ := h
    rfl
  | ifZero cond target =>
    obtain ⟨hcond, l, rfl, -⟩ := h
    obtain ⟨load, hload⟩ := error?_eq_none.1 (hc.error?_loadValue hcond .rax)
    simp only [codeOf, hload]
    rfl
  | nop | call | getArg | mayhem => rfl
  | enter | leave => exact h.elim
  | setArg index opd => exact hlift (hc.error?_passArgument h.2 h.1)
  | setRet opd => exact hlift (hc.error?_loadValue h _)
  | getRet opd => exact hlift (hc.error?_storeValue h (by decide))
  | output opd =>
    obtain ⟨load, hload⟩ := error?_eq_none.1 (hc.error?_loadValue h .rdi)
    obtain ⟨routine, hroutine⟩ := exists_outputRoutine h
    simp only [codeOf, hload, hroutine]
    rfl
  | input opd =>
    obtain ⟨routine, hroutine⟩ := exists_inputRoutine h
    simp only [codeOf, hroutine]
    show error? ((liftM (ctx.storeValue opd .result) : Except Failure (List Instr))
      >>= fun store => pure (.call routine :: store)) = _
    rw [error?_bind_pure]
    exact hlift (hc.error?_storeValue h (by decide))

/-- Arguments can be stored into formals that are no pointers. -/
theorem exists_receive {formals : List Variable}
    (h : ∀ v ∈ formals, ctx.Knows v ∧ v.form ≠ .pointer) (count position : Nat) :
    ∃ code, ctx.receive count position formals = .ok code := by
  induction formals generalizing position with
  | nil => exact ⟨[], rfl⟩
  | cons v rest ih =>
    obtain ⟨⟨hknows, hform⟩, hrest⟩ := List.forall_mem_cons.1 h
    obtain ⟨m, hm⟩ := exists_storage hknows
    obtain ⟨others, hothers⟩ := ih hrest (position + 1)
    simp only [receive, storeValue, hm, hothers]
    cases hv : v.form with
    | pointer => exact (hform hv).elim
    | symbol | temporary => exact ⟨_, rfl⟩

/-! ## Procedures -/

/-- A quad fails as its code does, and the failure says where. -/
theorem error?_quadItems (index : Nat) (quad : Quad) :
    error? (ctx.quadItems index quad)
      = (error? (ctx.codeOf quad.op)).map (·.within (.inQuad index quad.text)) := by
  rw [quadItems]
  cases ctx.codeOf quad.op <;> rfl

/-- Quads fail with the first of them that does. -/
theorem error?_bodyItems (index : Nat) (quads : List Quad) :
    error? (ctx.bodyItems index quads)
      = (quads.zipIdx index).findSome? fun (quad, j) => error? (ctx.quadItems j quad) := by
  induction quads generalizing index with
  | nil => rfl
  | cons quad rest ih =>
    have hrest (items : List Item) :
        error? (ctx.bodyItems (index + 1) rest >>= fun others => pure (items ++ others))
          = (rest.zipIdx (index + 1)).findSome? fun (quad, j) => error? (ctx.quadItems j quad) := by
      rw [error?_bind_pure, ih]
    rw [bodyItems, error?_bind fun items _ => hrest items, List.zipIdx_cons, findSome?_cons_or]

/-- Everything that is declared has its place. -/
theorem covers_of_assign {q : Procedure} {frame : Frame} (hframe : Frame.assign q = .ok frame)
    (p : Program) (arity : Nat) :
    Covers ⟨.ofProgram p, frame, arity⟩ ((ownedVariables q).map (·.1) ++ p.globals) p.strings where
  knows v hv := by
    show ∃ place, locate _ _ _ = .ok place
    rw [locate, Option.bind_some, Option.bind_some]
    cases ho : frame.offset? v with
    | some offset => exact ⟨_, rfl⟩
    | none =>
      -- what has no slot is a global
      rcases List.mem_append.1 hv with hv | hv
      · obtain ⟨offset, hoffset⟩ := Frame.offset?_of_mem hframe hv
        rw [ho] at hoffset
        cases hoffset
      · have hplace : (Globals.ofProgram p).location? v = some (.data (globalLabel v.name)) :=
          if_pos hv
        exact ⟨.data (globalLabel v.name), by rw [hplace]⟩
  labelled text htext := by
    rw [Globals.stringLabel]
    cases hi : (Globals.ofProgram p).strings.idxOf? text with
    | some i => exact ⟨_, rfl⟩
    | none => exact (List.idxOf?_eq_none_iff.1 hi (mem_distinct.2 htext)).elim

end Emit.Context

namespace Procedure

/-- A procedure fails with the first of its quads that does. -/
theorem error?_itemsIn (q : Procedure) (ctx : Context) :
    error? (q.itemsIn ctx)
      = q.quads.zipIdx.findSome? fun (quad, j) => error? (ctx.quadItems j quad) := by
  unfold itemsIn
  rw [error?_bind fun start _ => error?_bind fun body _ => error?_bind_pure ..,
    Context.error?_bodyItems, quads, List.cons_append, List.zipIdx_cons, findSome?_cons_or,
    List.zipIdx_append, List.findSome?_append, List.zipIdx_singleton, Nat.zero_add,
    Nat.add_comm 1]
  simp

/-- How a procedure is refused for the fault of its quad at `index`. -/
def refusal (q : Procedure) (index : Nat) (quad : Quad) (fault : Fault) : Rejection :=
  .inProcedure q.name (.inQuad index quad.text fault.cause)

/-- The refusal of a procedure for the first quad that has a fault. -/
def refusal? (q : Procedure) : Option Rejection :=
  q.quads.zipIdx.findSome? fun (quad, j) => quad.op.fault?.map (q.refusal j quad)

end Procedure

namespace Source.File

variable {f : File} {p : Program} {q : Procedure}

/-- A program from a file has a data section. -/
theorem assign_globals (h : f.build = .ok p) :
    Globals.assign p = .ok (.ofProgram p) :=
  Globals.assign_of_nodup (nodup_globals h) fun _ hv => width_of_mem_globals h hv

/-- Every procedure of a program from a file has a frame. -/
theorem exists_frame (h : f.build = .ok p) (hq : q ∈ p.procedures) :
    ∃ frame, Frame.assign q = .ok frame :=
  Frame.exists_assign (nodup_ownedVariables h hq) fun _ hv => width_of_mem_ownedVariables h hq hv

/-- Every quad of a procedure fails with its fault; the first and the last have none. -/
theorem error?_codeOf_of_mem (h : f.build = .ok p) (hq : q ∈ p.procedures) {frame : Frame}
    (hframe : Frame.assign q = .ok frame) {arity : Nat} {quad : Quad} (hquad : quad ∈ q.quads) :
    error? (Context.codeOf ⟨.ofProgram p, frame, arity⟩ quad.op)
      = quad.op.fault?.map (.rejected ·.cause) := by
  have hc := Context.covers_of_assign hframe p arity
  rcases Procedure.mem_quads.1 hquad with rfl | hquad | rfl
  · -- arguments in the scratch register go to formals, which are never pointers
    have hformals : ∀ v ∈ q.formals, _ ∧ v.form ≠ .pointer := fun v hv =>
      ⟨hc.knows v (List.mem_append_left _ ((Frame.formals_of_assign hframe).2 v hv)),
        by simp [form_of_mem_formals h hq hv]⟩
    obtain ⟨moves, hmoves⟩ := Context.exists_receive hformals q.formals.length 1
    show error? (liftM (Context.enterCode _ q.formals) : Except Failure _) = none
    rw [error?_liftM_rejection, Context.enterCode, hmoves]
    rfl
  · exact Context.error?_codeOf hc (declared_of_mem_body h hq hquad)
  · rfl

/-- A procedure of a program from a file is refused for its first fault. -/
theorem error?_routineIn (h : f.build = .ok p) (hq : q ∈ p.procedures) :
    error? (q.routineIn (.ofProgram p)) = q.refusal?.map .rejected := by
  obtain ⟨frame, hframe⟩ := exists_frame h hq
  have hroutine : error? (q.routine (.ofProgram p))
      = error? (q.itemsIn ⟨.ofProgram p, frame, q.formals.length⟩) := by
    rw [Procedure.routine, hframe]
    exact error?_bind_pure ..
  rw [Procedure.routineIn, error?_mapError, hroutine, Procedure.error?_itemsIn,
    Procedure.refusal?, List.map_findSome?, List.map_findSome?]
  refine findSome?_congr fun ⟨quad, j⟩ hmem => ?_
  simp only [Function.comp_apply, Context.error?_quadItems,
    error?_codeOf_of_mem h hq hframe (List.fst_mem_of_mem_zipIdx hmem), Option.map_map]
  rfl

/-- The procedures of a program from a file are refused for the first fault of the first of them
that has one. -/
theorem error?_routines (h : f.build = .ok p) :
    error? (routines (.ofProgram p) p.procedures)
      = (p.procedures.findSome? Procedure.refusal?).map .rejected := by
  rw [routines, error?_mapM, List.map_findSome?]
  exact findSome?_congr fun q hq => error?_routineIn h hq

/-- A program from a file is refused as its procedures are. -/
theorem error?_assemblyBy (h : f.build = .ok p) (options : Options) (schedule : List TaskEvent) :
    error? (p.assemblyBy options schedule)
      = error? (p.routinesBy options schedule (.ofProgram p)) := by
  rw [Program.assemblyBy, assign_globals h]
  exact error?_bind_pure ..

end Source.File

end QuadAsm
