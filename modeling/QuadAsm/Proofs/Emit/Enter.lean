import QuadAsm.Proofs.Arguments.Pass
import QuadAsm.Proofs.Preservation.Memory

/-!
# What entering a procedure does

Entering saves the frame pointer of the caller, sets up the own frame and moves the arguments from
where they arrive into the slots of the formals. Main result: `Context.enterCode_exec`, which says
where the frame is and what the slots of the formals hold.
-/

namespace QuadAsm.Emit.Context

open Layout Machine

variable (ctx : Context) (data : Bytes → Word)

/-- What the stack pointer is moved by. -/
def span : Word := if 0 < ctx.activationSize then BitVec.ofInt 64 ctx.activationSize else 0

/-- Where the argument at a position is on the stack, if it is there: the last of `count` arguments
is the nearest to the frame. -/
def stackSlot (count position : Nat) (frame : Word) : Word :=
  frame + BitVec.ofInt 64 (8 * ((count : Int) - position + 1))

/-- The value that arrives as the argument at a position. -/
def arrived (count : Nat) (frame : Word) (c : Cpu) (position : Nat) : Word :=
  match Register.ofArgument? position with
  | some reg => c.regs reg
  | none => c.ram.read (stackSlot count position frame) .word

variable {ctx}

/-- Moving the stack pointer by the size of the activation. -/
theorem adjustStack_exec (ctx : Context) (c : Cpu) {op : Arith} (hop : op = .add ∨ op = .sub) :
    ∃ c', execAll data (ctx.adjustStack op) c = some c' ∧ c'.ram = c.ram ∧ c'.kept = c.kept ∧
      c'.regs .rsp = op.result ctx.span (c.regs .rsp) ∧
      ∀ r, r ≠ .rsp → c'.regs r = c.regs r := by
  unfold adjustStack span
  by_cases hpos : 0 < ctx.activationSize
  · rw [if_pos hpos, if_pos hpos]
    exact ⟨_, rfl, c.arith_ram .., c.arith_kept .., c.arith_regs_self ..,
      fun r hr => c.arith_regs _ _ hr⟩
  · rw [if_neg hpos, if_neg hpos]
    rcases hop with rfl | rfl
    · exact ⟨c, rfl, rfl, rfl, (BitVec.add_zero _).symm, fun _ _ => rfl⟩
    · exact ⟨c, rfl, rfl, rfl, (BitVec.sub_zero _).symm, fun _ _ => rfl⟩

/-- The frame is set up: the frame pointer is where the stack pointer was, and the word below it
holds the one of the caller. -/
theorem prologue_exec (ctx : Context) (c : Cpu) :
    ∃ c', execAll data
        ([.push .rbp, .move .rsp .rbp, .arithConst .add 8 .rbp] ++ ctx.adjustStack .sub) c
        = some c' ∧
      c'.regs .rbp = c.regs .rsp ∧ c'.regs .rsp = c.regs .rsp - 8 - ctx.span ∧
      c'.ram = c.ram.write (c.regs .rsp - 8) .word (c.regs .rbp) ∧ c'.kept = c.kept ∧
      ∀ r, r ≠ .rsp → r ≠ .rbp → c'.regs r = c.regs r := by
  obtain ⟨c', he, hram, hkept, hrsp, hregs⟩ := adjustStack_exec data ctx
    ((((c.push (c.regs .rbp)).set .rbp (c.regs .rsp - 8)).set .rbp
      (c.regs .rsp - 8 + 8)).unflag) (.inr rfl)
  refine ⟨c', execAll_append_of ?_ he, ?_, ?_, hram, hkept, fun r hr hr' => ?_⟩
  · simp [Instr.exec, Cpu.arith, Arith.result]
  · rw [hregs _ (by decide)]
    simp
  · rw [hrsp]
    simp [Arith.result]
  · rw [hregs r hr]
    simp [hr, hr']

/-- What arrives stays the same as long as the registers and the words on the stack do. -/
theorem arrived_congr {count position : Nat} {frame : Word} {c c' : Cpu}
    (hregs : ∀ r, Register.ofArgument? position = some r → c'.regs r = c.regs r)
    (hram : Register.ofArgument? position = none → ∀ x,
      Within x (stackSlot count position frame) 8 → c'.ram x = c.ram x) :
    arrived count frame c' position = arrived count frame c position := by
  unfold arrived
  split
  · next r hr => exact hregs r hr
  · next hnone => exact Ram.read_congr fun x hx => hram hnone x hx

/-- Moving one argument into the slot of its formal. -/
theorem receive_one {count position : Nat} {v : Variable} (hv : v.form ≠ .pointer)
    {store : List Instr} (hstore : ctx.storeValue v (incoming count position).2 = .ok store)
    (c : Cpu) :
    ∃ c', execAll data ((incoming count position).1 ++ store) c = some c' ∧ ctx.Knows v ∧
      c'.ram = c.ram.write (ctx.address data (c.regs .rbp) v) v.size
        (arrived count (c.regs .rbp) c position) ∧
      c'.kept = c.kept ∧ ∀ r, r ≠ .scratch → c'.regs r = c.regs r := by
  cases hreg : Register.ofArgument? position with
  | some reg =>
    simp only [incoming, hreg] at hstore
    simp only [incoming, arrived, hreg]
    obtain ⟨u, c', hu, hk, he, hram, hregs, hkept⟩ := storeValue_exec data hstore c
    cases hu
    rw [target_of_ne hv] at hram
    exact ⟨c', he, hk, hram, hkept, hregs⟩
  | none =>
    simp only [incoming, hreg] at hstore
    simp only [incoming, arrived, hreg]
    obtain ⟨u, c', hu, hk, he, hram, hregs, hkept⟩ := storeValue_exec data hstore
      (c.set .scratch (c.ram.read (stackSlot count position (c.regs .rbp)) .word))
    cases hu
    rw [target_of_ne hv, Cpu.set_regs_self, Cpu.set_regs_of_ne _ (by decide)] at hram
    refine ⟨c', execAll_append_of rfl he, hk, hram, hkept, fun r hr => ?_⟩
    rw [hregs r hr, Cpu.set_regs_of_ne _ hr]

/-- Moving the arguments into the slots of the formals. The words on the stack lie apart from the
slots, so that no argument is overwritten before it is moved. -/
theorem receive_exec {count position : Nat} {formals : List Variable} {code : List Instr}
    (h : ctx.receive count position formals = .ok code)
    (hsym : ∀ v ∈ formals, v.form ≠ .pointer) (hnodup : formals.Nodup) (c : Cpu)
    (hsep : ctx.Separate data (c.regs .rbp))
    (hstack : ∀ i, Register.ofArgument? (i : Nat) = none → position ≤ i →
      i < position + formals.length →
      ∀ v ∈ formals, Apart (stackSlot count i (c.regs .rbp)) 8
        (ctx.address data (c.regs .rbp) v) v.size.bytes) :
    ∃ c', execAll data code c = some c' ∧ c'.kept = c.kept ∧
      (∀ r, r ≠ .scratch → c'.regs r = c.regs r) ∧
      (∀ x, (∀ v ∈ formals, ¬ Within x (ctx.address data (c.regs .rbp) v) v.size.bytes) →
        c'.ram x = c.ram x) ∧
      ∀ j v, formals[j]? = some v → ctx.Knows v ∧
        c'.ram.read (ctx.address data (c.regs .rbp) v) v.size
          = v.size.clip (arrived count (c.regs .rbp) c (position + j)) := by
  induction formals generalizing position code c with
  | nil =>
    cases h
    exact ⟨c, rfl, rfl, fun _ _ => rfl, fun _ _ => rfl, nofun⟩
  | cons v rest ih =>
    obtain ⟨store, others, hstore, hothers, rfl⟩ := exists_of_receive_cons h
    obtain ⟨hv, hrest⟩ := List.forall_mem_cons.1 hsym
    obtain ⟨hvrest, hnodup⟩ := List.nodup_cons.1 hnodup
    obtain ⟨c₁, he₁, hk, hram₁, hkept₁, hregs₁⟩ := receive_one data hv hstore c
    have hrbp : c₁.regs .rbp = c.regs .rbp := hregs₁ .rbp (by decide)
    obtain ⟨c₂, he₂, hkept₂, hregs₂, hother₂, hslots₂⟩ := ih hothers hrest hnodup c₁
      (by rw [hrbp]; exact hsep) (fun i hi hle hlt u hu => by
        rw [hrbp]
        exact hstack i hi (by omega) (by rw [List.length_cons]; omega) u
          (List.mem_cons_of_mem _ hu))
    rw [hrbp] at hother₂ hslots₂
    refine ⟨c₂, execAll_append_of he₁ he₂, hkept₂.trans hkept₁,
      fun r hr => (hregs₂ r hr).trans (hregs₁ r hr), fun x hx => ?_, fun j u hj => ?_⟩
    · obtain ⟨hxv, hxrest⟩ := List.forall_mem_cons.1 hx
      rw [hother₂ x hxrest, hram₁, Ram.write_of_not_within hxv]
    · cases j with
      | zero =>
        cases hj
        refine ⟨hk, ?_⟩
        rw [Nat.add_zero, ← Ram.read_write_self c.ram, ← hram₁]
        -- the slots of the other formals are elsewhere
        refine Ram.read_congr fun x hx => hother₂ x fun u hu hxu => ?_
        obtain ⟨j, hj⟩ := List.mem_iff_getElem?.1 hu
        have huv : v ≠ u := fun h => hvrest (h ▸ hu)
        have hap := hsep v u hk (hslots₂ j u hj).1 huv
        rw [holds_of_ne hv, holds_of_ne (hrest u hu)] at hap
        exact hap x hx hxu
      | succ j =>
        rw [List.getElem?_cons_succ] at hj
        obtain ⟨hku, hread⟩ := hslots₂ j u hj
        refine ⟨hku, ?_⟩
        have hlt : j < rest.length := (List.getElem?_eq_some_iff.1 hj).1
        rw [hread, Nat.add_right_comm, Nat.add_assoc, arrived_congr
          (fun r hr => hregs₁ r (Register.ofArgument?_ne hr).2.2) fun hnone x hx => ?_]
        rw [hram₁, Ram.write_of_not_within]
        exact hstack _ hnone (by omega) (by rw [List.length_cons]; omega) v
          (List.mem_cons_self ..) x hx

/-- Entering a procedure: the frame is where the stack pointer was, its formals hold the arguments,
and only the word below the frame pointer and the slots of the formals were written. -/
theorem enterCode_exec {formals : List Variable} {code : List Instr}
    (h : ctx.enterCode formals = .ok code) (hsym : ∀ v ∈ formals, v.form ≠ .pointer)
    (hnodup : formals.Nodup) (c : Cpu) (hsep : ctx.Separate data (c.regs .rsp))
    (hstack : ∀ i, Register.ofArgument? (i : Nat) = none → 1 ≤ i → i ≤ formals.length →
      Apart (stackSlot formals.length i (c.regs .rsp)) 8 (c.regs .rsp - 8) 8 ∧
      ∀ v ∈ formals, Apart (stackSlot formals.length i (c.regs .rsp)) 8
        (ctx.address data (c.regs .rsp) v) v.size.bytes) :
    ∃ c', execAll data code c = some c' ∧ c'.kept = c.kept ∧
      c'.regs .rbp = c.regs .rsp ∧ c'.regs .rsp = c.regs .rsp - 8 - ctx.span ∧
      (∀ x, ¬ Within x (c.regs .rsp - 8) 8 →
        (∀ v ∈ formals, ¬ Within x (ctx.address data (c.regs .rsp) v) v.size.bytes) →
        c'.ram x = c.ram x) ∧
      ∀ j v, formals[j]? = some v →
        c'.ram.read (ctx.address data (c.regs .rsp) v) v.size
          = v.size.clip (arrived formals.length (c.regs .rsp) c (1 + j)) := by
  obtain ⟨moves, hmoves, rfl⟩ := exists_of_enterCode h
  obtain ⟨c₁, he₁, hrbp, hrsp, hram, hkept, hregs⟩ := prologue_exec data ctx c
  obtain ⟨c₂, he₂, hkept₂, hregs₂, hother, hslots⟩ := receive_exec data hmoves hsym hnodup c₁
    (by rw [hrbp]; exact hsep) (fun i hi hle hlt => by
      rw [hrbp]
      exact (hstack i hi hle (by omega)).2)
  rw [hrbp] at hother hslots
  refine ⟨c₂, execAll_append_of he₁ he₂, hkept₂.trans hkept, (hregs₂ .rbp (by decide)).trans hrbp,
    (hregs₂ .rsp (by decide)).trans hrsp, fun x hx hxv => ?_, fun j v hj => ?_⟩
  · rw [hother x hxv, hram, Ram.write_of_not_within hx]
  · have hlt : j < formals.length := (List.getElem?_eq_some_iff.1 hj).1
    rw [(hslots j v hj).2]
    congr 1
    refine arrived_congr (fun r hr => ?_) fun hnone x hx => ?_
    · obtain ⟨hne, hne', -⟩ := Register.ofArgument?_ne hr
      exact hregs r hne hne'
    · rw [hram, Ram.write_of_not_within]
      exact (hstack _ hnone (by omega) (by omega)).1 x hx

end QuadAsm.Emit.Context
