import QuadAsm.Proofs.Meaning
import QuadAsm.Proofs.Outcome

/-!
# What code is made of

The shapes that code can have, whatever the program is. An access to an operand is one or two
instructions (`Context.LoadsValue` and its siblings), and the code of a quad is put together from
accesses and the instructions between them (`Context.Codes`). The functions that make the code are
taken apart here once; what is said of code elsewhere goes through these cases. Main result:
`Context.codes_of_codeOf`.
-/

namespace QuadAsm.Emit

open Layout Machine

/-! ## Symbols -/

/-- A jump has a target just if it was given one. -/
theorem jumpTarget_eq_ok {target : Option Bytes} {l : Bytes} :
    jumpTarget target = .ok l ↔ target = some l := by
  cases target <;> simp [jumpTarget]

/-- A choice by kind and width is a choice by channel. -/
theorem eq_of_channel {opd : Operand} {int byte string name : Bytes}
    (h : (match opd.kind?, opd.width? with
      | some .string, some _ => .ok string
      | some _, some width =>
        if width = wordWidth then .ok int else if width = byteWidth then .ok byte else .ok string
      | _, _ => .error Crash.missing : Except Crash Bytes) = .ok name) :
    name = match opd.channel with
      | .int => int
      | .byte => byte
      | .string => string := by
  unfold Operand.channel
  split at h
  · next hk hw =>
    cases h
    simp [hk]
  · next kind width hne hk hw =>
    have hne : kind ≠ .string := hne
    by_cases h8 : width = wordWidth
    · simpa [hk, hw, hne, h8] using h.symm
    · by_cases h1 : width = byteWidth
      · simpa [hk, hw, hne, h8, h1, byteWidth, wordWidth] using h.symm
      · simpa [hk, hw, hne, h8, h1] using h.symm
  · cases h

/-- The routine that prints an operand prints on its channel. -/
theorem outputRoutine_eq {opd : Operand} {name : Bytes} (h : outputRoutine opd = .ok name) :
    name = (Service.print opd.channel).name :=
  (eq_of_channel h).trans (by cases opd.channel <;> rfl)

/-- The routine that reads an operand reads from its channel. -/
theorem inputRoutine_eq {opd : Operand} {name : Bytes} (h : inputRoutine opd = .ok name) :
    name = (Service.read opd.channel).name :=
  (eq_of_channel h).trans (by cases opd.channel <;> rfl)

namespace Context

/-! ## Accesses -/

section
variable (ctx : Context) (reg : Register)

/-- The code that puts the value of an operand into a register. -/
inductive LoadsValue : Operand → List Instr → Prop
  | plain {v : Variable} {m : Memory} (hform : v.form ≠ .pointer) (hm : ctx.storage v = .ok m) :
    LoadsValue v [.load v.size m reg]
  | through {v : Variable} {m : Memory} (hform : v.form = .pointer) (hm : ctx.storage v = .ok m) :
    LoadsValue v [.load .word m reg, .load v.size (.base reg 0) reg]
  | string {text label : Bytes} (hlabel : ctx.globals.stringLabel text = .ok label) :
    LoadsValue (.lit (.string text)) [.address (.data label) reg]
  | number {l : Literal} (hl : ∀ text, l ≠ .string text) :
    LoadsValue (.lit l) [.constant l.number reg]

/-- The code that writes a register to an operand. -/
inductive StoresValue : Operand → List Instr → Prop
  | plain {v : Variable} {m : Memory} (hform : v.form ≠ .pointer) (hm : ctx.storage v = .ok m) :
    StoresValue v [.store v.size reg m]
  | through {v : Variable} {m : Memory} (hform : v.form = .pointer) (hreg : reg ≠ .scratch)
      (hm : ctx.storage v = .ok m) :
    StoresValue v [.load .word m .scratch, .store v.size reg (.base .scratch 0)]

/-- The code that puts the address of an operand into a register. -/
inductive LoadsAddress : Operand → List Instr → Prop
  | plain {v : Variable} {m : Memory} (hform : v.form ≠ .pointer) (hm : ctx.storage v = .ok m) :
    LoadsAddress v [.address m reg]
  | held {v : Variable} {m : Memory} (hform : v.form = .pointer) (hm : ctx.storage v = .ok m) :
    LoadsAddress v [.load .word m reg]
  | string {text label : Bytes} (hlabel : ctx.globals.stringLabel text = .ok label) :
    LoadsAddress (.lit (.string text)) [.address (.data label) reg]

end

section
variable {ctx : Context} {opd : Operand} {reg : Register} {code : List Instr}

/-- The code that loads a value has one of the forms. -/
theorem loadsValue_of_loadValue (h : ctx.loadValue opd reg = .ok code) :
    ctx.LoadsValue reg opd code := by
  cases opd with
  | var v =>
    obtain ⟨m, hm, h⟩ := bind_eq_ok.1 h
    cases hf : v.form with
    | symbol | temporary =>
      rw [hf] at h
      cases pure_eq_ok.1 h
      exact .plain (by simp [hf]) hm
    | pointer =>
      rw [hf] at h
      cases pure_eq_ok.1 h
      exact .through hf hm
  | lit l =>
    cases l with
    | string text =>
      obtain ⟨label, hlabel, h⟩ := bind_eq_ok.1 h
      cases pure_eq_ok.1 h
      exact .string hlabel
    | int | bool | char | malformed =>
      cases h
      exact .number nofun
  | absent => cases h

/-- The code that stores a value has one of the forms. -/
theorem storesValue_of_storeValue (h : ctx.storeValue opd reg = .ok code) :
    ctx.StoresValue reg opd code := by
  cases opd with
  | var v =>
    cases hf : v.form with
    | symbol | temporary =>
      simp only [storeValue, hf] at h
      obtain ⟨m, hm, h⟩ := bind_eq_ok.1 h
      cases pure_eq_ok.1 h
      exact .plain (by simp [hf]) hm
    | pointer =>
      simp only [storeValue, hf] at h
      split at h
      · cases h
      · next hreg =>
        obtain ⟨m, hm, h⟩ := bind_eq_ok.1 h
        cases pure_eq_ok.1 h
        exact .through hf hreg hm
  | lit l => cases h
  | absent => cases h

/-- The code that loads an address has one of the forms. -/
theorem loadsAddress_of_loadAddress (h : ctx.loadAddress opd reg = .ok code) :
    ctx.LoadsAddress reg opd code := by
  cases opd with
  | var v =>
    obtain ⟨m, hm, h⟩ := bind_eq_ok.1 h
    cases hf : v.form with
    | symbol | temporary =>
      rw [hf] at h
      cases pure_eq_ok.1 h
      exact .plain (by simp [hf]) hm
    | pointer =>
      rw [hf] at h
      cases pure_eq_ok.1 h
      exact .held hf hm
  | lit l =>
    cases l with
    | string text =>
      obtain ⟨label, hlabel, h⟩ := bind_eq_ok.1 h
      cases pure_eq_ok.1 h
      exact .string hlabel
    | int | bool | char | malformed => cases h
  | absent => cases h

/-- Only a pointer can be given an address, and it takes one instruction. -/
theorem exists_of_storeAddress (h : ctx.storeAddress opd reg = .ok code) :
    ∃ v m, opd = .var v ∧ v.form = .pointer ∧ ctx.storage v = .ok m ∧
      code = [.store .word reg m] := by
  cases opd with
  | var v =>
    cases hf : v.form with
    | pointer =>
      simp only [storeAddress, hf] at h
      obtain ⟨m, hm, h⟩ := bind_eq_ok.1 h
      exact ⟨v, m, rfl, hf, hm, (pure_eq_ok.1 h).symm⟩
    | symbol | temporary => simp [storeAddress, hf] at h
  | lit l => cases h
  | absent => cases h

end

/-! ## Quads -/

/-- The code that receives an argument fetches it, if it came on the stack, and stores it. -/
theorem exists_of_receive_cons {ctx : Context} {count position : Nat} {v : Variable}
    {rest : List Variable} {code : List Instr}
    (h : ctx.receive count position (v :: rest) = .ok code) :
    ∃ store others, ctx.storeValue v (incoming count position).2 = .ok store ∧
      ctx.receive count (position + 1) rest = .ok others ∧
      code = (incoming count position).1 ++ store ++ others := by
  obtain ⟨store, hstore, h⟩ := bind_eq_ok.1 h
  obtain ⟨others, hothers, h⟩ := bind_eq_ok.1 h
  exact ⟨store, others, mapError_eq_ok.1 hstore, hothers, (pure_eq_ok.1 h).symm⟩

/-- The code that enters a procedure. -/
theorem exists_of_enterCode {ctx : Context} {formals : List Variable} {code : List Instr}
    (h : ctx.enterCode formals = .ok code) :
    ∃ moves, ctx.receive formals.length 1 formals = .ok moves ∧
      code = [.push .rbp, .move .rsp .rbp, .arithConst .add 8 .rbp] ++ ctx.adjustStack .sub
        ++ moves := by
  obtain ⟨moves, hmoves, h⟩ := bind_eq_ok.1 h
  exact ⟨moves, hmoves, (pure_eq_ok.1 h).symm⟩

section
variable (ctx : Context)

/-- The code of a quad. -/
inductive Codes : Op Signature → List Instr → Prop
  | binary {op : BinOp} {src1 src2 dst : Operand} {left right work store : List Instr}
      {result : Register} (hleft : ctx.loadValue src1 .rax = .ok left)
      (hright : ctx.loadValue src2 .r10 = .ok right) (hwork : combine op = .ok (work, result))
      (hstore : ctx.storeValue dst result = .ok store) :
    Codes (.binary op src1 src2 dst) (left ++ right ++ work ++ store)
  | unary {op : UnOp} {src dst : Operand} {load work store : List Instr}
      (hload : ctx.loadValue src .rax = .ok load) (hwork : change op = .ok work)
      (hstore : ctx.storeValue dst .rax = .ok store) :
    Codes (.unary op src dst) (load ++ work ++ store)
  | assign {src dst : Operand} {load store : List Instr}
      (hload : ctx.loadValue src .rax = .ok load) (hstore : ctx.storeValue dst .rax = .ok store) :
    Codes (.assign src dst) (load ++ store)
  | addrOf {src dst : Operand} {load store : List Instr}
      (hload : ctx.loadAddress src .rax = .ok load)
      (hstore : ctx.storeAddress dst .rax = .ok store) :
    Codes (.addrOf src dst) (load ++ store)
  | goto {l : Bytes} : Codes (.goto (some l)) [.jump l]
  | ifZero {cond : Operand} {l : Bytes} {load : List Instr}
      (hload : ctx.loadValue cond .rax = .ok load) :
    Codes (.ifZero cond (some l)) (load ++ [.arithConst .cmp 0 .rax, .jumpIfEqual l])
  | nop : Codes .nop [.nop]
  | call {callee : Signature} : Codes (.call callee) (callCode callee)
  | enter {proc : Signature} {moves : List Instr}
      (hmoves : ctx.receive proc.formals.length 1 proc.formals = .ok moves) :
    Codes (.enter proc) ([.push .rbp, .move .rsp .rbp, .arithConst .add 8 .rbp]
      ++ ctx.adjustStack .sub ++ moves)
  | leave {proc : Signature} : Codes (.leave proc) ctx.leaveCode
  /-- An argument that travels in a register. -/
  | setArg {index : Int} {opd : Operand} {reg : Register} {load : List Instr} (hindex : 1 ≤ index)
      (hreg : Register.ofArgument? index = some reg) (hload : ctx.loadValue opd reg = .ok load) :
    Codes (.setArg index opd) load
  /-- An argument that travels on the stack. -/
  | pushArg {index : Int} {opd : Operand} {load : List Instr} (hindex : 1 ≤ index)
      (hreg : Register.ofArgument? index = none)
      (hload : ctx.loadValue opd .scratch = .ok load) :
    Codes (.setArg index opd) (load ++ [.push .scratch])
  | getArg {index : Int} {opd : Operand} : Codes (.getArg index opd) []
  | setRet {opd : Operand} {load : List Instr} (hload : ctx.loadValue opd .result = .ok load) :
    Codes (.setRet opd) load
  | getRet {opd : Operand} {store : List Instr} (hstore : ctx.storeValue opd .result = .ok store) :
    Codes (.getRet opd) store
  | output {opd : Operand} {load : List Instr} (hload : ctx.loadValue opd .rdi = .ok load) :
    Codes (.output opd) (load ++ [.call (Service.print opd.channel).name])
  | input {opd : Operand} {store : List Instr} (hstore : ctx.storeValue opd .result = .ok store) :
    Codes (.input opd) (.call (Service.read opd.channel).name :: store)

end

/-- There is no other code for a quad. -/
theorem codes_of_codeOf {ctx : Context} {op : Op Signature} {block : List Instr}
    (h : ctx.codeOf op = .ok block) : ctx.Codes op block := by
  cases op with
  | binary op src1 src2 dst =>
    obtain ⟨left, hleft, h⟩ := bind_eq_ok.1 (liftM_rejection_eq_ok.1 h)
    obtain ⟨right, hright, h⟩ := bind_eq_ok.1 h
    obtain ⟨⟨work, result⟩, hwork, h⟩ := bind_eq_ok.1 h
    obtain ⟨store, hstore, h⟩ := bind_eq_ok.1 h
    cases pure_eq_ok.1 h
    exact .binary hleft hright hwork hstore
  | unary op src dst =>
    obtain ⟨load, hload, h⟩ := bind_eq_ok.1 (liftM_rejection_eq_ok.1 h)
    obtain ⟨work, hwork, h⟩ := bind_eq_ok.1 h
    obtain ⟨store, hstore, h⟩ := bind_eq_ok.1 h
    cases pure_eq_ok.1 h
    exact .unary hload hwork hstore
  | assign src dst =>
    obtain ⟨load, hload, h⟩ := bind_eq_ok.1 (liftM_rejection_eq_ok.1 h)
    obtain ⟨store, hstore, h⟩ := bind_eq_ok.1 h
    cases pure_eq_ok.1 h
    exact .assign hload hstore
  | addrOf src dst =>
    obtain ⟨load, hload, h⟩ := bind_eq_ok.1 (liftM_rejection_eq_ok.1 h)
    obtain ⟨store, hstore, h⟩ := bind_eq_ok.1 h
    cases pure_eq_ok.1 h
    exact .addrOf hload hstore
  | goto target =>
    obtain ⟨l, hl, h⟩ := bind_eq_ok.1 h
    cases pure_eq_ok.1 h
    obtain rfl := jumpTarget_eq_ok.1 (liftM_crash_eq_ok.1 hl)
    exact .goto
  | ifZero cond target =>
    obtain ⟨load, hload, h⟩ := bind_eq_ok.1 h
    obtain ⟨l, hl, h⟩ := bind_eq_ok.1 h
    cases pure_eq_ok.1 h
    obtain rfl := jumpTarget_eq_ok.1 (liftM_crash_eq_ok.1 hl)
    exact .ifZero (liftM_rejection_eq_ok.1 hload)
  | nop =>
    cases h
    exact .nop
  | call callee =>
    cases h
    exact .call
  | enter proc =>
    obtain ⟨moves, hmoves, rfl⟩ := exists_of_enterCode (liftM_rejection_eq_ok.1 h)
    exact .enter hmoves
  | leave proc =>
    cases h
    exact .leave
  | setArg index opd =>
    have h := liftM_rejection_eq_ok.1 h
    unfold passArgument at h
    split at h
    · cases h
    · next hindex =>
      split at h
      · next reg hreg => exact .setArg (by omega) hreg h
      · next hreg =>
        obtain ⟨load, hload, h⟩ := bind_eq_ok.1 h
        cases pure_eq_ok.1 h
        exact .pushArg (by omega) hreg hload
  | getArg index opd =>
    cases h
    exact .getArg
  | setRet opd => exact .setRet (liftM_rejection_eq_ok.1 h)
  | getRet opd => exact .getRet (liftM_rejection_eq_ok.1 h)
  | output opd =>
    obtain ⟨load, hload, h⟩ := bind_eq_ok.1 h
    obtain ⟨routine, hroutine, h⟩ := bind_eq_ok.1 h
    cases pure_eq_ok.1 h
    obtain rfl := outputRoutine_eq (liftM_crash_eq_ok.1 hroutine)
    exact .output (liftM_rejection_eq_ok.1 hload)
  | input opd =>
    obtain ⟨routine, hroutine, h⟩ := bind_eq_ok.1 h
    obtain ⟨store, hstore, h⟩ := bind_eq_ok.1 h
    cases pure_eq_ok.1 h
    obtain rfl := inputRoutine_eq (liftM_crash_eq_ok.1 hroutine)
    exact .input (liftM_rejection_eq_ok.1 hstore)
  | mayhem opd => cases h

end Context

end QuadAsm.Emit
