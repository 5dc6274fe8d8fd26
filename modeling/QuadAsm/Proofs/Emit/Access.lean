import QuadAsm.Proofs.Emit.Code
import QuadAsm.Proofs.Layout

/-!
# What access to operands does

Between quads a variable is a stretch of memory: its slot, or the bytes at its label
(`Context.address`). An operand stands for an address (`Context.target`) and for a value
(`Context.valueOf`), which are read off memory. Main results: what the code of each of the four
accesses does to the processor (`loadValue_exec` and its siblings), whatever the operand is, and
that the variables a context knows do not overlap in memory (`Context.InMemory.apart`,
`Context.Knows.apart`).
-/

namespace QuadAsm

open Layout Machine

/-- The size of what a variable holds: a pointer holds an address. -/
def Variable.holds (v : Variable) : Size := if v.form = .pointer then .word else v.size

/-- The address of a place, given the addresses of labels and the frame pointer. -/
def Layout.Location.address (data : Bytes → Word) (frame : Word) : Location → Word
  | .data label => data label
  | .frame offset => frame + BitVec.ofInt 64 offset

namespace Emit.Context

variable (ctx : Context) (data : Bytes → Word) (frame : Word)

/-! ## Addresses and values -/

/-- The variables that code in this context can reach. -/
def Knows (v : Variable) : Prop :=
  ∃ place, locate (some ctx.globals) (some ctx.frame) (.var v) = .ok place

/-- The address of a variable. -/
def address (v : Variable) : Word :=
  match locate (some ctx.globals) (some ctx.frame) (.var v) with
  | .ok place => place.address data frame
  | .error _ => 0

/-- The address of a string constant. -/
def textAddress (text : Bytes) : Word :=
  match ctx.globals.stringLabel text with
  | .ok label => data label
  | .error _ => 0

/-- The address that an operand stands for; for a pointer the one it holds. -/
def target (ram : Ram) : Operand → Word
  | .var v =>
    match v.form with
    | .symbol | .temporary => ctx.address data frame v
    | .pointer => ram.read (ctx.address data frame v) .word
  | .lit (.string text) => ctx.textAddress data text
  | .lit _ | .absent => 0

/-- The value that an operand stands for. -/
def valueOf (ram : Ram) : Operand → Word
  | .var v => ram.read (ctx.target data frame ram v) v.size
  | .lit (.string text) => ctx.textAddress data text
  | .lit l => l.number.toBitVec
  | .absent => 0

variable {ctx data frame}

/-- What is not a pointer stands for its own memory. -/
theorem target_of_ne {v : Variable} (h : v.form ≠ .pointer) (ram : Ram) :
    ctx.target data frame ram v = ctx.address data frame v := by
  cases hf : v.form with
  | symbol | temporary => simp [target, hf]
  | pointer => exact absurd hf h

/-- Code that names the memory of a variable can reach the variable. -/
theorem knows_of_storage {v : Variable} {m : Memory} (h : ctx.storage v = .ok m) :
    ctx.Knows v := by
  obtain ⟨place, hp, -⟩ := bind_eq_ok.1 h
  exact ⟨place, hp⟩

/-- The same for code that reads a variable or takes its address. -/
theorem knows_of_loadValue {v : Variable} {reg : Register} {code : List Instr}
    (h : ctx.loadValue v reg = .ok code) : ctx.Knows v := by
  cases loadsValue_of_loadValue h with
  | plain _ hm | through _ hm => exact knows_of_storage hm

/-- An address is loaded only of a variable that has a place. -/
theorem knows_of_loadAddress {v : Variable} {reg : Register} {code : List Instr}
    (h : ctx.loadAddress v reg = .ok code) : ctx.Knows v := by
  cases loadsAddress_of_loadAddress h with
  | plain _ hm | held _ hm => exact knows_of_storage hm

/-- The memory argument of a variable means its address. -/
theorem address_of_storage (data : Bytes → Word) {v : Variable} {m : Memory}
    (h : ctx.storage v = .ok m) (regs : Register → Word) :
    m.address data regs = ctx.address data (regs .rbp) v := by
  obtain ⟨place, hp, hm⟩ := bind_eq_ok.1 h
  unfold address
  rw [hp]
  cases place with
  | data label => cases hm; rfl
  | frame offset => cases hm; rfl

/-- The memory of a variable is its slot, or what is at its label if it has none. -/
theorem storage_cases {v : Variable} {m : Memory} (h : ctx.storage v = .ok m) :
    (∃ o, ctx.frame.offset? v = some o ∧ m = .base .rbp o) ∨
      v ∈ ctx.globals.vars ∧ m = .data (globalLabel v.name) := by
  obtain ⟨place, hp, h⟩ := bind_eq_ok.1 h
  rcases locate_var_cases hp with ⟨o, ho, rfl⟩ | ⟨-, hv, rfl⟩
  · exact .inl ⟨o, ho, (pure_eq_ok.1 h).symm⟩
  · exact .inr ⟨hv, (pure_eq_ok.1 h).symm⟩

/-- The label of a string constant means its address. -/
theorem textAddress_of_stringLabel (data : Bytes → Word) {text label : Bytes}
    (h : ctx.globals.stringLabel text = .ok label) : ctx.textAddress data text = data label := by
  rw [textAddress, h]

/-- Loading a value only changes the register, which then holds the value. -/
theorem loadValue_exec (data : Bytes → Word) {opd : Operand} {reg : Register}
    {code : List Instr} (h : ctx.loadValue opd reg = .ok code) (c : Cpu) :
    execAll data code c = some (c.set reg (ctx.valueOf data (c.regs .rbp) c.ram opd)) := by
  cases loadsValue_of_loadValue h with
  | plain hform hm => simp [Instr.exec, address_of_storage data hm, valueOf, target_of_ne hform]
  | through hform hm => simp [Instr.exec, address_of_storage data hm, valueOf, target, hform]
  | string hlabel =>
    simp [Instr.exec, Memory.address, valueOf, textAddress_of_stringLabel data hlabel]
  | @number l hl =>
    cases l with
    | string text => exact absurd rfl (hl text)
    | int | bool | char | malformed => simp [Instr.exec, valueOf]

/-- Storing a value writes the register to what the operand stands for; a store through a pointer
also changes the scratch register. -/
theorem storeValue_exec (data : Bytes → Word) {opd : Operand} {reg : Register}
    {code : List Instr} (h : ctx.storeValue opd reg = .ok code) (c : Cpu) :
    ∃ v c', opd = .var v ∧ ctx.Knows v ∧ execAll data code c = some c' ∧
      c'.ram = c.ram.write (ctx.target data (c.regs .rbp) c.ram v) v.size (c.regs reg) ∧
      (∀ r, r ≠ .r11 → c'.regs r = c.regs r) ∧ c'.kept = c.kept := by
  cases storesValue_of_storeValue h with
  | @plain v m hform hm =>
    refine ⟨v, _, rfl, knows_of_storage hm, rfl, ?_, fun r _ => rfl, rfl⟩
    simp [address_of_storage data hm, target_of_ne hform]
  | @through v m hform hreg hm =>
    refine ⟨v, _, rfl, knows_of_storage hm, rfl, ?_, fun r hr => ?_, rfl⟩
    · simp [address_of_storage data hm, target, hform, hreg]
    · exact Cpu.set_regs_of_ne _ hr _

/-- Loading an address only changes the register, which then holds the address. -/
theorem loadAddress_exec (data : Bytes → Word) {opd : Operand} {reg : Register}
    {code : List Instr} (h : ctx.loadAddress opd reg = .ok code) (c : Cpu) :
    execAll data code c = some (c.set reg (ctx.target data (c.regs .rbp) c.ram opd)) := by
  cases loadsAddress_of_loadAddress h with
  | plain hform hm => simp [Instr.exec, address_of_storage data hm, target_of_ne hform]
  | held hform hm => simp [Instr.exec, address_of_storage data hm, target, hform]
  | string hlabel =>
    simp [Instr.exec, Memory.address, target, textAddress_of_stringLabel data hlabel]

/-- Storing an address writes the register to the pointer itself. -/
theorem storeAddress_exec (data : Bytes → Word) {opd : Operand} {reg : Register}
    {code : List Instr} (h : ctx.storeAddress opd reg = .ok code) (c : Cpu) :
    ∃ v, opd = .var v ∧ v.form = .pointer ∧ ctx.Knows v ∧
      execAll data code c
        = some (c.poke (ctx.address data (c.regs .rbp) v) .word (c.regs reg)) := by
  obtain ⟨v, m, rfl, hform, hm, rfl⟩ := exists_of_storeAddress h
  exact ⟨v, rfl, hform, knows_of_storage hm, by simp [Instr.exec, address_of_storage data hm]⟩

end Emit.Context

/-! ## Variables do not overlap -/

/-- The data section in memory: its variables lie apart from each other, and no byte of them lies in
the memory from `lo` up to `hi`, which is for the stack. -/
structure Layout.Globals.Loaded (g : Globals) (data : Bytes → Word) (lo hi : Nat) : Prop where
  apart : ∀ v ∈ g.vars, ∀ w ∈ g.vars, globalLabel v.name ≠ globalLabel w.name →
    Apart (data (globalLabel v.name)) v.size.bytes (data (globalLabel w.name)) w.size.bytes
  stack : ∀ v ∈ g.vars, ∀ x, Within x (data (globalLabel v.name)) v.size.bytes →
    ¬ (lo ≤ x.toNat ∧ x.toNat < hi)

/-- The address of a slot as a number. -/
theorem toNat_slot {frame : Word} {i : Nat} (h : 16 + 8 * i ≤ frame.toNat) :
    (frame + BitVec.ofInt 64 (-16 - 8 * (i : Int))).toNat = frame.toNat - (16 + 8 * i) := by
  have hlt := frame.isLt
  have hsum := toNat_add_ofInt (a := frame) (z := -16 - 8 * (i : Int)) (by omega) (by omega)
  omega

namespace Emit.Context

variable {ctx : Context} {data : Bytes → Word} {frame : Word} {lo hi : Nat}

/-- A variable that code can reach lies in the frame or in the data section. -/
theorem Knows.cases {q : Procedure} (hf : Frame.assign q = .ok ctx.frame) {v : Variable}
    (h : ctx.Knows v) :
    (∃ i < ctx.frame.slots.length, ((ownedVariables q).map (·.1))[i]? = some v ∧
      ctx.address data frame v = frame + BitVec.ofInt 64 (-16 - 8 * (i : Int))) ∨
    (v ∈ ctx.globals.vars ∧ ctx.address data frame v = data (globalLabel v.name)) := by
  obtain ⟨place, hp⟩ := h
  rcases locate_var_cases hp with ⟨o, ho, rfl⟩ | ⟨-, hv, rfl⟩
  · obtain ⟨i, hi, hiv, rfl⟩ := Frame.offset?_eq_some hf ho
    exact .inl ⟨i, hi, hiv, by simp [address, hp, Location.address]⟩
  · exact .inr ⟨hv, by simp [address, hp, Location.address]⟩

/-- The bytes of a slot, as numbers. -/
theorem within_slot {i : Nat} (hfit : 16 + 8 * i ≤ frame.toNat) {x : Word} {n : Nat} (hn : n ≤ 8)
    (hx : Within x (frame + BitVec.ofInt 64 (-16 - 8 * (i : Int))) n) :
    frame.toNat - (16 + 8 * i) ≤ x.toNat ∧ x.toNat < frame.toNat - (8 + 8 * i) := by
  have hlt := frame.isLt
  have haddr : (frame + BitVec.ofInt 64 (-16 - 8 * (i : Int))).toNat
      = frame.toNat - (16 + 8 * i) := toNat_slot hfit
  rw [within_iff (by rw [haddr]; omega), haddr] at hx
  omega

/-- No variable that code can reach lies in the free part of the stack, which ends where the frame
begins or lower. -/
theorem Knows.outside {q : Procedure} (hf : Frame.assign q = .ok ctx.frame)
    (hsym : ∀ v ∈ ctx.globals.vars, v.form ≠ .pointer) (hl : ctx.globals.Loaded data lo hi)
    {stack : Nat} (hfit : stack + reach ctx.frame.slots.length ≤ frame.toNat) (hhi : stack ≤ hi)
    {v : Variable} (hv : ctx.Knows v) {x : Word}
    (hx : Within x (ctx.address data frame v) v.holds.bytes) :
    ¬ (lo ≤ x.toNat ∧ x.toNat < stack) := by
  unfold reach at hfit
  rcases Knows.cases hf hv with ⟨i, hi, -, ha⟩ | ⟨hvg, ha⟩
  · rw [ha] at hx
    have hslot := within_slot (by omega) v.holds.bytes_le_eight hx
    omega
  · rw [ha, Variable.holds, if_neg (hsym v hvg)] at hx
    have hfree := hl.stack v hvg x hx
    omega

/-- The variables of a context in memory: those of the data section lie apart from each other and
from the slots of the frame, and memory is large enough for the slots. -/
structure InMemory (ctx : Context) (data : Bytes → Word) (frame : Word) : Prop where
  fits : 8 * ctx.frame.slots.length ≤ 2 ^ 64
  globals : ∀ v ∈ ctx.globals.vars, ∀ w ∈ ctx.globals.vars,
    globalLabel v.name ≠ globalLabel w.name →
    Apart (data (globalLabel v.name)) v.size.bytes (data (globalLabel w.name)) w.size.bytes
  slots : ∀ slot ∈ ctx.frame.slots, ∀ v ∈ ctx.globals.vars,
    Apart (frame + BitVec.ofInt 64 slot.offset) 8 (data (globalLabel v.name)) v.size.bytes

/-- The slots of a frame do not overlap, wherever the frame is. -/
theorem apart_slots {i j n : Nat} (hn : 8 * n ≤ 2 ^ 64) (hi : i < n) (hj : j < n) (hij : i ≠ j) :
    Apart (frame + BitVec.ofInt 64 (-16 - 8 * (i : Int))) 8
      (frame + BitVec.ofInt 64 (-16 - 8 * (j : Int))) 8 := by
  intro x hx hy
  unfold Within at hx hy
  rw [BitVec.toNat_sub, BitVec.toNat_add, BitVec.toNat_ofInt] at hx hy
  omega

/-- The variables that code can reach do not overlap in memory. -/
theorem InMemory.apart {p : Program} {q : Procedure} (hm : ctx.InMemory data frame)
    (hf : Frame.assign q = .ok ctx.frame) (hg : Globals.assign p = .ok ctx.globals)
    (hsym : ∀ v ∈ ctx.globals.vars, v.form ≠ .pointer) {v w : Variable} (hv : ctx.Knows v)
    (hw : ctx.Knows w) (hvw : v ≠ w) :
    Apart (ctx.address data frame v) v.holds.bytes (ctx.address data frame w) w.holds.bytes := by
  -- a slot against a variable of the data section, whichever comes first
  have mixed : ∀ {i : Nat} {u : Variable}, i < ctx.frame.slots.length → u ∈ ctx.globals.vars →
      Apart (frame + BitVec.ofInt 64 (-16 - 8 * (i : Int))) 8 (data (globalLabel u.name))
        u.holds.bytes := by
    intro i u hi hu
    rw [Variable.holds, if_neg (hsym u hu)]
    obtain ⟨slot, hslot, ho⟩ := Frame.exists_slot hf hi
    exact ho ▸ hm.slots slot hslot u hu
  rcases Knows.cases hf hv with ⟨i, hi, hiv, ha⟩ | ⟨hvg, ha⟩ <;>
    rcases Knows.cases hf hw with ⟨j, hj, hjw, hb⟩ | ⟨hwg, hb⟩ <;> rw [ha, hb]
  · have hij : i ≠ j := by
      rintro rfl
      rw [hiv] at hjw
      exact hvw (Option.some.inj hjw)
    exact (apart_slots hm.fits hi hj hij).mono v.holds.bytes_le_eight w.holds.bytes_le_eight
  · exact (mixed hi hwg).mono v.holds.bytes_le_eight (Nat.le_refl _)
  · exact ((mixed hj hvg).mono w.holds.bytes_le_eight (Nat.le_refl _)).symm
  · rw [Variable.holds, if_neg (hsym v hvg), Variable.holds, if_neg (hsym w hwg)]
    exact hm.globals v hvg w hwg (Globals.label_inj hg hvg hwg hvw)

/-- A frame in the part of memory that the data section leaves free. -/
theorem inMemory_of_loaded {q : Procedure} (hf : Frame.assign q = .ok ctx.frame)
    (hl : ctx.globals.Loaded data lo hi) (hlo : lo + reach ctx.frame.slots.length ≤ frame.toNat)
    (hhi : frame.toNat ≤ hi + 8) : ctx.InMemory data frame := by
  have hlt := frame.isLt
  unfold reach at hlo
  refine ⟨by omega, hl.apart, fun slot hslot v hv x hx hxv => ?_⟩
  obtain ⟨i, hi, -, ho⟩ := Frame.of_mem_slots hf hslot
  rw [ho] at hx
  have hslot := within_slot (by omega) (Nat.le_refl 8) hx
  exact hl.stack v hv x hxv ⟨by omega, by omega⟩

/-- The variables that code can reach do not overlap, when the frame lies in the part of memory that
the data section leaves free. -/
theorem Knows.apart {p : Program} {q : Procedure} (hf : Frame.assign q = .ok ctx.frame)
    (hg : Globals.assign p = .ok ctx.globals) (hsym : ∀ v ∈ ctx.globals.vars, v.form ≠ .pointer)
    (hl : ctx.globals.Loaded data lo hi) (hlo : lo + reach ctx.frame.slots.length ≤ frame.toNat)
    (hhi : frame.toNat ≤ hi + 8) {v w : Variable} (hv : ctx.Knows v) (hw : ctx.Knows w)
    (hvw : v ≠ w) :
    Apart (ctx.address data frame v) v.holds.bytes (ctx.address data frame w) w.holds.bytes :=
  (inMemory_of_loaded hf hl hlo hhi).apart hf hg hsym hv hw hvw

end Emit.Context

end QuadAsm
