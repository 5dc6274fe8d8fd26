import QuadAsm.Proofs.Emit.Refusal
import QuadAsm.Proofs.Preservation.Memory

/-!
# Variables in memory are independent of each other

The code that stores a register to an operand and the code that loads an operand again, seen as the
operations of a memory of variables. What is loaded after a store is the value of the operand in the
memory that the store left (`Context.store_load_exec`). Main result: in a context of a program and a
procedure that were laid out, the four accesses exist for every variable and behave as if each
variable had a memory of its own, with pointers that stand for what they point to
(`storage_is_independent`).
-/

namespace QuadAsm

open Emit Layout Machine

/-- Cutting off what a variable has no room for, as arithmetic. -/
theorem Variable.toNat_clip {v : Variable} (h : isSupportedWidth v.width = true) (w : Word) :
    (v.size.clip w).toNat = w.toNat % 2 ^ (8 * v.width.toNat) := by
  have hcases : v.width = 1 ∨ v.width = 8 := by
    simpa [isSupportedWidth, byteWidth, wordWidth] using h
  rcases hcases with h1 | h8
  · rw [Variable.size, h1]
    show ((w.setWidth 8).setWidth 64).toNat = _
    rw [BitVec.toNat_setWidth, BitVec.toNat_setWidth]
    exact Nat.mod_eq_of_lt (Nat.lt_of_lt_of_le (Nat.mod_lt _ (by decide)) (by decide))
  · rw [Variable.size, h8]
    exact (Nat.mod_eq_of_lt w.isLt).symm

namespace Emit.Context

variable {ctx : Context} {p : Program} {q : Procedure} {data : Bytes → Word} {frame : Word}
  {ram : Ram} {r s : Register} {store load : List Instr}

/-! ## The accesses exist -/

/-- What a program and a procedure declare has its place in their context. -/
theorem covers (hg : Globals.assign p = .ok ctx.globals) (hf : Frame.assign q = .ok ctx.frame) :
    ctx.Covers ((ownedVariables q).map (·.1) ++ p.globals) p.strings := by
  obtain ⟨globals, frame, arity⟩ := ctx
  obtain ⟨hvars, hstrings, -⟩ := Globals.of_assign hg
  obtain ⟨vars, strings⟩ := globals
  cases hvars
  cases hstrings
  exact covers_of_assign hf p arity

/-- The value of a variable that has a place can be loaded. -/
theorem exists_loadValue {v : Variable} (h : ctx.Knows v) (reg : Register) :
    ∃ code, ctx.loadValue v reg = .ok code := by
  obtain ⟨m, hm⟩ := exists_storage h
  simp only [loadValue, hm]
  cases v.form <;> exact ⟨_, rfl⟩

/-- Every variable can be stored to; only a pointer needs the scratch register for itself. -/
theorem exists_storeValue {v : Variable} (h : ctx.Knows v) (reg : Register)
    (hreg : v.form = .pointer → reg ≠ .scratch) : ∃ code, ctx.storeValue v reg = .ok code := by
  obtain ⟨m, hm⟩ := exists_storage h
  cases hf : v.form with
  | symbol | temporary =>
    simp only [storeValue, hf, hm]
    exact ⟨_, rfl⟩
  | pointer =>
    simp only [storeValue, hf, hm, if_neg (hreg hf)]
    exact ⟨_, rfl⟩

/-- So can its address. -/
theorem exists_loadAddress {v : Variable} (h : ctx.Knows v) (reg : Register) :
    ∃ code, ctx.loadAddress v reg = .ok code := by
  obtain ⟨m, hm⟩ := exists_storage h
  simp only [loadAddress, hm]
  cases v.form <;> exact ⟨_, rfl⟩

/-- If it is a pointer, an address can be stored in it. -/
theorem exists_storeAddress {v : Variable} (h : ctx.Knows v) (hform : v.form = .pointer)
    (reg : Register) : ∃ code, ctx.storeAddress v reg = .ok code := by
  obtain ⟨m, hm⟩ := exists_storage h
  simp only [storeAddress, hform, hm]
  exact ⟨_, rfl⟩

/-! ## Memory after a write -/

/-- In memory the variables of a context are separate. -/
theorem InMemory.separate (hm : ctx.InMemory data frame)
    (hg : Globals.assign p = .ok ctx.globals) (hf : Frame.assign q = .ok ctx.frame)
    (hplain : ∀ v ∈ p.globals, v.form ≠ .pointer) : ctx.Separate data frame := by
  rw [← (Globals.of_assign hg).1] at hplain
  exact fun v w hv hw hvw => hm.apart hf hg hplain hv hw hvw

/-- What was written to the memory that an operand stands for is its value, as long as the operand
stands for the same memory. -/
theorem valueOf_write_target {v : Variable} {w : Word}
    (h : ctx.target data frame (ram.write (ctx.target data frame ram v) v.size w) v
      = ctx.target data frame ram v) :
    ctx.valueOf data frame (ram.write (ctx.target data frame ram v) v.size w) v
      = v.size.clip w := by
  rw [valueOf, h]
  exact Ram.read_write_self ..

/-- A write to one variable does not change what another one holds. -/
theorem read_write_of_ne (hs : ctx.Separate data frame) {x y : Variable} (hx : ctx.Knows x)
    (hy : ctx.Knows y) (hyx : y ≠ x) (ram : Ram) (w : Word) :
    (ram.write (ctx.address data frame x) x.holds w).read (ctx.address data frame y) y.holds
      = ram.read (ctx.address data frame y) y.holds :=
  Ram.read_write_apart (hs y x hy hx hyx)

/-- A write to one variable does not change what another one stands for. -/
theorem target_write_of_ne (hs : ctx.Separate data frame) {x y : Variable} (hx : ctx.Knows x)
    (hy : ctx.Knows y) (hyx : y ≠ x) (ram : Ram) (w : Word) :
    ctx.target data frame (ram.write (ctx.address data frame x) x.holds w) y
      = ctx.target data frame ram y := by
  cases hform : y.form with
  | symbol | temporary => simp [target, hform]
  | pointer =>
    have hread := read_write_of_ne hs hx hy hyx ram w
    rw [holds_of_eq hform] at hread
    simpa [target, hform] using hread

/-- A pointer stands for the address that was written to it. -/
theorem target_write_pointer {y : Variable} (hform : y.form = .pointer) (a : Word) :
    ctx.target data frame (ram.write (ctx.address data frame y) .word a) y = a := by
  simp [target, hform]

/-! ## Pairs of accesses -/

/-- A load after a store sees the memory that the store left. -/
theorem store_load_exec (data : Bytes → Word) {x y : Variable}
    (hstore : ctx.storeValue x r = .ok store) (hload : ctx.loadValue y s = .ok load) (c : Cpu) :
    ∃ c', execAll data (store ++ load) c = some c' ∧
      c'.regs s = ctx.valueOf data (c.regs .rbp)
        (c.ram.write (ctx.target data (c.regs .rbp) c.ram x) x.size (c.regs r)) y := by
  obtain ⟨v, c₁, hv, -, e₁, hram, hregs, -⟩ := storeValue_exec data hstore c
  cases hv
  refine ⟨_, execAll_append_of e₁ (loadValue_exec data hload c₁), ?_⟩
  rw [Cpu.set_regs_self, hregs .rbp (by decide), hram]

/-- A variable holds what was stored to it, as far as it has room. -/
theorem store_load_self (data : Bytes → Word) {x : Variable} (hplain : x.form ≠ .pointer)
    (hstore : ctx.storeValue x r = .ok store) (hload : ctx.loadValue x s = .ok load) (c : Cpu) :
    ∃ c', execAll data (store ++ load) c = some c' ∧ c'.regs s = x.size.clip (c.regs r) := by
  obtain ⟨c', he, hval⟩ := store_load_exec data hstore hload c
  refine ⟨c', he, ?_⟩
  rw [hval, valueOf_write_target]
  rw [target_of_ne hplain, target_of_ne hplain]

/-- A variable is loaded as it was, when another one was stored to in the meantime. -/
theorem store_load_of_ne {x y : Variable} {c : Cpu} (hs : ctx.Separate data (c.regs .rbp))
    (hx : ctx.Knows x) (hy : ctx.Knows y) (hxy : x ≠ y) (hxplain : x.form ≠ .pointer)
    (hyplain : y.form ≠ .pointer) (hstore : ctx.storeValue x r = .ok store)
    (hload : ctx.loadValue y s = .ok load) :
    ∃ c₁ c₂, execAll data load c = some c₁ ∧ execAll data (store ++ load) c = some c₂ ∧
      c₂.regs s = c₁.regs s := by
  obtain ⟨c₂, he, hval⟩ := store_load_exec data hstore hload c
  refine ⟨_, c₂, loadValue_exec data hload c, he, ?_⟩
  have hread := read_write_of_ne hs hx hy hxy.symm c.ram (c.regs r)
  rw [holds_of_ne hxplain, holds_of_ne hyplain] at hread
  rw [hval, Cpu.set_regs_self, valueOf, valueOf, target_of_ne hxplain, target_of_ne hyplain,
    target_of_ne hyplain, hread]

/-- A pointer holds the address that was stored to it, and nothing else changes. -/
theorem storeAddress_loadAddress {x : Variable} {c : Cpu} (hs : ctx.Separate data (c.regs .rbp))
    (hstore : ctx.storeAddress x r = .ok store) (hload : ctx.loadAddress x s = .ok load) :
    ∃ c', execAll data (store ++ load) c = some c' ∧ c'.regs s = c.regs r ∧
      ∀ y, ctx.Knows y → y ≠ x → ∀ a,
        Within a (ctx.address data (c.regs .rbp) y) y.holds.bytes → c'.ram a = c.ram a := by
  obtain ⟨v, hv, hform, hx, e₁⟩ := storeAddress_exec data hstore c
  cases hv
  refine ⟨_, execAll_append_of e₁ (loadAddress_exec data hload _), ?_, fun y hy hyx a ha => ?_⟩
  · simp [target, hform]
  · refine Ram.write_of_not_within fun hin => hs y x hy hx hyx a ha ?_
    rwa [holds_of_eq hform]

/-- A store through a pointer is a store to what it was made to point to. -/
theorem store_through {x y : Variable} {c : Cpu} {point through direct : List Instr}
    (hs : ctx.Separate data (c.regs .rbp)) (hx : ctx.Knows x) (hwidth : x.width = y.width)
    (hr : r ≠ .rbp) (hload : ctx.loadAddress x r = .ok load)
    (hpoint : ctx.storeAddress y r = .ok point) (hthrough : ctx.storeValue y s = .ok through)
    (hdirect : ctx.storeValue x s = .ok direct) :
    ∃ c₁ c₂ c₃, execAll data (load ++ point) c = some c₁ ∧ execAll data through c₁ = some c₂ ∧
      execAll data direct c₁ = some c₃ ∧ c₂.ram = c₃.ram := by
  obtain ⟨v, hv, hform, hy, e₁⟩ := storeAddress_exec data hpoint
    (c.set r (ctx.target data (c.regs .rbp) c.ram x))
  cases hv
  obtain ⟨v, c₂, hv, -, e₂, hram₂, -⟩ := storeValue_exec data hthrough _
  cases hv
  obtain ⟨v, c₃, hv, -, e₃, hram₃, -⟩ := storeValue_exec data hdirect _
  cases hv
  refine ⟨_, c₂, c₃, execAll_append_of (loadAddress_exec data hload c) e₁, e₂, e₃, ?_⟩
  rw [hram₂, hram₃]
  simp only [Cpu.poke_ram, Cpu.poke_regs, Cpu.set_ram, Cpu.set_regs_self,
    Cpu.set_regs_of_ne _ hr.symm]
  rw [target_write_pointer hform, Variable.size, Variable.size, hwidth]
  -- the pointer may have been made to point to where it points already
  rcases eq_or_ne x y with rfl | hxy
  · rw [target_write_pointer hform]
  · have htarget := target_write_of_ne hs hy hx hxy c.ram
      (ctx.target data (c.regs .rbp) c.ram x)
    rw [holds_of_eq hform] at htarget
    rw [htarget]

end Emit.Context

/-! ## Independence -/

/-- The variables that the code of a procedure can refer to. -/
def declaredVariables (p : Program) (q : Procedure) : List Variable :=
  (ownedVariables q).map (·.1) ++ p.globals

/-- Variables have widths there is code for, once they were laid out. -/
theorem isSupportedWidth_of_declared {p : Program} {q : Procedure} {g : Globals} {f : Frame}
    (hg : Globals.assign p = .ok g) (hf : Frame.assign q = .ok f) {v : Variable}
    (hv : v ∈ declaredVariables p q) : isSupportedWidth v.width = true := by
  obtain ⟨hvars, -, -, hwidth⟩ := Globals.of_assign hg
  rcases List.mem_append.1 hv with hv | hv
  · exact (Frame.slots_of_assign hf).2.2.1 v hv
  · exact hwidth v (hvars ▸ hv)

/-- In memory that was laid out, variables are independent of each other. A value that is stored to
a variable is loaded from it again, cut to the width of the variable and filled with zeros; another
variable is loaded as before. A pointer holds the address that is stored to it, and no other
variable changes. A store through a pointer that was made to point to a variable of the width it was
declared for is a store to that variable. -/
theorem storage_is_independent {p : Program} {q : Procedure} {ctx : Context}
    (hg : Globals.assign p = .ok ctx.globals) (hf : Frame.assign q = .ok ctx.frame)
    (hplain : ∀ v ∈ p.globals, v.form ≠ .pointer) {data : Bytes → Word} {c : Cpu}
    (hm : ctx.InMemory data (c.regs .rbp)) {r s : Register} (hr : r ∈ Register.working) :
    (∀ x ∈ declaredVariables p q, x.form ≠ .pointer →
      ∃ store load c', ctx.storeValue x r = .ok store ∧ ctx.loadValue x s = .ok load ∧
        execAll data (store ++ load) c = some c' ∧
        (c'.regs s).toNat = (c.regs r).toNat % 2 ^ (8 * x.width.toNat)) ∧
    (∀ x ∈ declaredVariables p q, ∀ y ∈ declaredVariables p q, x ≠ y →
      x.form ≠ .pointer → y.form ≠ .pointer →
      ∃ store load c₁ c₂, ctx.storeValue x r = .ok store ∧ ctx.loadValue y s = .ok load ∧
        execAll data load c = some c₁ ∧ execAll data (store ++ load) c = some c₂ ∧
        c₂.regs s = c₁.regs s) ∧
    (∀ x ∈ declaredVariables p q, x.form = .pointer →
      ∃ store load c', ctx.storeAddress x r = .ok store ∧ ctx.loadAddress x s = .ok load ∧
        execAll data (store ++ load) c = some c' ∧ c'.regs s = c.regs r ∧
        ∀ y ∈ declaredVariables p q, y ≠ x → ∀ a,
          Within a (ctx.address data (c.regs .rbp) y) y.holds.bytes → c'.ram a = c.ram a) ∧
    (∀ x ∈ declaredVariables p q, ∀ y ∈ declaredVariables p q, y.form = .pointer →
      x.width = y.width → s ≠ .scratch →
      ∃ load point through direct c₁ c₂ c₃, ctx.loadAddress x r = .ok load ∧
        ctx.storeAddress y r = .ok point ∧ ctx.storeValue y s = .ok through ∧
        ctx.storeValue x s = .ok direct ∧ execAll data (load ++ point) c = some c₁ ∧
        execAll data through c₁ = some c₂ ∧ execAll data direct c₁ = some c₃ ∧
        c₂.ram = c₃.ram) := by
  have hknows : ∀ v ∈ declaredVariables p q, ctx.Knows v := (Context.covers hg hf).knows
  have hs : ctx.Separate data (c.regs .rbp) := hm.separate hg hf hplain
  refine ⟨fun x hx hxplain => ?_, fun x hx y hy hxy hxplain hyplain => ?_, fun x hx hform => ?_,
    fun x hx y hy hform hwidth hscratch => ?_⟩
  · obtain ⟨store, hstore⟩ := Context.exists_storeValue (hknows x hx) r (absurd · hxplain)
    obtain ⟨load, hload⟩ := Context.exists_loadValue (hknows x hx) s
    obtain ⟨c', he, hval⟩ := Context.store_load_self data hxplain hstore hload c
    refine ⟨store, load, c', hstore, hload, he, ?_⟩
    rw [hval, Variable.toNat_clip (isSupportedWidth_of_declared hg hf hx)]
  · obtain ⟨store, hstore⟩ := Context.exists_storeValue (hknows x hx) r (absurd · hxplain)
    obtain ⟨load, hload⟩ := Context.exists_loadValue (hknows y hy) s
    obtain ⟨c₁, c₂, e₁, e₂, hsame⟩ := Context.store_load_of_ne hs (hknows x hx) (hknows y hy) hxy
      hxplain hyplain hstore hload
    exact ⟨store, load, c₁, c₂, hstore, hload, e₁, e₂, hsame⟩
  · obtain ⟨store, hstore⟩ := Context.exists_storeAddress (hknows x hx) hform r
    obtain ⟨load, hload⟩ := Context.exists_loadAddress (hknows x hx) s
    obtain ⟨c', he, hval, hrest⟩ := Context.storeAddress_loadAddress hs hstore hload
    exact ⟨store, load, c', hstore, hload, he, hval, fun y hy => hrest y (hknows y hy)⟩
  · have hne : r ≠ .rbp := by
      rintro rfl
      exact absurd hr (by decide)
    obtain ⟨load, hload⟩ := Context.exists_loadAddress (hknows x hx) r
    obtain ⟨point, hpoint⟩ := Context.exists_storeAddress (hknows y hy) hform r
    obtain ⟨through, hthrough⟩ := Context.exists_storeValue (hknows y hy) s fun _ => hscratch
    obtain ⟨direct, hdirect⟩ := Context.exists_storeValue (hknows x hx) s fun _ => hscratch
    obtain ⟨c₁, c₂, c₃, e₁, e₂, e₃, hram⟩ := Context.store_through hs (hknows x hx) hwidth hne hload
      hpoint hthrough hdirect
    exact ⟨load, point, through, direct, c₁, c₂, c₃, hload, hpoint, hthrough, hdirect, e₁, e₂, e₃,
      hram⟩

namespace MixedFrame

def g : Variable := ⟨0, .symbol, "g", 8, .int⟩
def t : Variable := ⟨1, .temporary, "t", 1, .bool⟩
def x : Variable := ⟨2, .symbol, "x", 8, .int⟩
def b : Variable := ⟨3, .symbol, "b", 1, .bool⟩
def a : Variable := ⟨4, .pointer, "a", 1, .bool⟩

/-- A procedure with bytes, a word and a pointer to a byte. -/
def main : Procedure where
  name := "main"
  temps := [t]
  locals := [x, b]
  addrs := [a]

/-- A program with one word besides. -/
def program : Program := ⟨[g], [], [main]⟩

/-- The layout of the program and the procedure. -/
def context : Context where
  globals := ⟨[g], []⟩
  frame := ⟨"main", [⟨t, .temp, -16⟩, ⟨x, .local, -24⟩, ⟨b, .local, -32⟩,
    ⟨a, .addr, -40⟩], 48⟩
  arity := 0

/-- A machine whose registers hold 511, with the data section at the bottom of the memory and the
frame above it. -/
def cpu : Cpu where
  regs r := if r = .rbp then 8192 else 511
  kept _ := 0
  ram _ := 0
  compared := none

/-- Frame and globals have room. -/
theorem inMemory : context.InMemory (fun _ => 0) 8192 := by
  have hloaded : context.globals.Loaded (fun _ => 0) 4096 8192 := by
    refine ⟨fun v hv w hw hne => ?_, fun v hv y hy hin => ?_⟩
    · cases List.mem_singleton.1 hv
      cases List.mem_singleton.1 hw
      exact absurd rfl hne
    · have hlt : Within y 0#64 8 := hy.mono v.size.bytes_le_eight
      rw [within_iff (by decide), BitVec.toNat_zero] at hlt
      omega
  exact Context.inMemory_of_loaded (q := main) rfl hloaded (by decide) (by decide)

end MixedFrame

open MixedFrame in
/-- A byte keeps 255 of the 511 that is stored to it, and nothing else of the frame is touched, also
when the store is made through the pointer. -/
theorem mixedFrame_independent :
    (∃ store load c', context.storeValue t .rax = .ok store ∧
      context.loadValue t .r10 = .ok load ∧
      execAll (fun _ => 0) (store ++ load) cpu = some c' ∧ (c'.regs .r10).toNat = 255) ∧
    (∃ store load c₁ c₂, context.storeValue t .rax = .ok store ∧
      context.loadValue x .r10 = .ok load ∧ execAll (fun _ => 0) load cpu = some c₁ ∧
      execAll (fun _ => 0) (store ++ load) cpu = some c₂ ∧ c₂.regs .r10 = c₁.regs .r10) ∧
    ∃ load point through direct c₁ c₂ c₃, context.loadAddress b .rax = .ok load ∧
      context.storeAddress a .rax = .ok point ∧ context.storeValue a .r10 = .ok through ∧
      context.storeValue b .r10 = .ok direct ∧
      execAll (fun _ => 0) (load ++ point) cpu = some c₁ ∧
      execAll (fun _ => 0) through c₁ = some c₂ ∧ execAll (fun _ => 0) direct c₁ = some c₃ ∧
      c₂.ram = c₃.ram := by
  have hglobals : Globals.assign program = .ok context.globals := rfl
  have hframe : Frame.assign main = .ok context.frame := rfl
  have hm : context.InMemory (fun _ => 0) (cpu.regs .rbp) := inMemory
  obtain ⟨hself, hother, -, hthrough⟩ := storage_is_independent hglobals hframe (by decide) hm
    (r := .rax) (s := .r10) (by decide)
  exact ⟨hself t (by decide) (by decide), hother t (by decide) x (by decide) (by decide) (by decide)
    (by decide), hthrough b (by decide) a (by decide) rfl rfl (by decide)⟩

end QuadAsm
