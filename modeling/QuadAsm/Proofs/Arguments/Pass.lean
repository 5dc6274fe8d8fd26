import QuadAsm.Proofs.Emit.Step

/-!
# Passing arguments

What the code does that passes arguments to the next call. The first six travel in registers of
their own, the others are pushed; in the end every argument that was passed is where it belongs,
with the value that its operand had before the first of them was passed (`passed_all`). That holds
because pushing only writes below the stack pointer, where nothing is that operands are read from.
-/

namespace QuadAsm

open Layout Machine

/-! ## Registers of arguments -/

namespace Machine.Register

/-- The first six positions have registers. -/
theorem ofArgument?_eq_none {i : Nat} (hi : 1 ≤ i) :
    ofArgument? i = none ↔ Emit.registerArguments < i := by
  have hlen : arguments.length = 6 := rfl
  have hcast : ((i : Int) - 1).toNat = i - 1 := by omega
  rw [ofArgument?, if_pos (by omega), hcast, List.getElem?_eq_none_iff, Emit.registerArguments,
    hlen]
  omega

/-- Different positions have different registers. -/
theorem ofArgument?_inj {i j : Int} {r : Register} (hi : ofArgument? i = some r)
    (hj : ofArgument? j = some r) : i = j := by
  unfold ofArgument? at hi hj
  split at hi
  · next hi1 =>
    split at hj
    · next hj1 =>
      have hnodup : arguments.Nodup := by decide
      obtain ⟨hlt, hget⟩ := List.getElem?_eq_some_iff.1 hi
      obtain ⟨hlt', hget'⟩ := List.getElem?_eq_some_iff.1 hj
      have hij : (i - 1).toNat = (j - 1).toNat :=
        hnodup.getElem_inj_iff.1 (hget.trans hget'.symm)
      omega
    · cases hj
  · cases hi

/-- Arguments travel in their registers only. -/
theorem mem_arguments {i : Int} {r : Register} (h : ofArgument? i = some r) : r ∈ arguments := by
  unfold ofArgument? at h
  split at h
  · exact List.mem_of_getElem? h
  · cases h

/-- Arguments travel neither in the registers of the stack nor in the scratch register. -/
theorem ofArgument?_ne {i : Int} {r : Register} (h : ofArgument? i = some r) :
    r ≠ .rsp ∧ r ≠ .rbp ∧ r ≠ .scratch := by
  have hall : ∀ r ∈ arguments, r ≠ .rsp ∧ r ≠ .rbp ∧ r ≠ .scratch := by decide
  exact hall r (mem_arguments h)

end Machine.Register

namespace Emit

/-! ## What operands are read from -/

namespace Context

variable (ctx : Context) (data : Bytes → Word) (frame : Word)

/-- The value of an operand is read from the address `x`. -/
def Reads (ram : Ram) (opd : Operand) (x : Word) : Prop :=
  ∃ v, opd = .var v ∧ (Within x (ctx.address data frame v) v.holds.bytes ∨
    Within x (ctx.target data frame ram v) v.size.bytes)

variable {ctx data frame}

/-- Only what is read counts for a value. -/
theorem valueOf_congr {ram ram' : Ram} {opd : Operand}
    (h : ∀ x, ctx.Reads data frame ram opd x → ram' x = ram x) :
    ctx.valueOf data frame ram' opd = ctx.valueOf data frame ram opd := by
  cases opd with
  | var v =>
    have htarget : ctx.target data frame ram' v = ctx.target data frame ram v := by
      cases hf : v.form with
      | symbol | temporary => simp [target, hf]
      | pointer =>
        simp only [target, hf]
        refine Ram.read_congr fun x hx => h x ⟨v, rfl, .inl ?_⟩
        rwa [Variable.holds, if_pos hf]
    rw [valueOf, valueOf, htarget]
    exact Ram.read_congr fun x hx => h x ⟨v, rfl, .inr hx⟩
  | lit l => cases l <;> rfl
  | absent => rfl

end Context

/-! ## Passing -/

/-- Passing an argument puts the value into its register, or else on the stack. -/
theorem Context.setArg_exec {ctx : Context} (data : Bytes → Word) {index : Int} {opd : Operand}
    {code : List Instr} (h : ctx.codeOf (.setArg index opd) = .ok code) (c : Cpu) :
    1 ≤ index ∧ execAll data code c = some (match Register.ofArgument? index with
      | some reg => c.set reg (ctx.valueOf data (c.regs .rbp) c.ram opd)
      | none => (c.set .scratch (ctx.valueOf data (c.regs .rbp) c.ram opd)).push
          (ctx.valueOf data (c.regs .rbp) c.ram opd)) := by
  cases codes_of_codeOf h with
  | setArg hindex hreg hload =>
    rw [hreg]
    exact ⟨hindex, loadValue_exec data hload c⟩
  | pushArg hindex hreg hload =>
    rw [hreg, execAll_append, loadValue_exec data hload]
    exact ⟨hindex, by simp [Instr.exec]⟩

/-- A call of a procedure starts with the instruction that calls it. -/
theorem callCode_eq (callee : Signature) :
    ∃ rest, callCode callee = .call callee.name :: rest := by
  unfold callCode
  split
  · exact ⟨[], rfl⟩
  · exact ⟨_, rfl⟩

/-- The positions that are pushed, in the order of pushing. -/
def pushed (positions : List Nat) : List Nat := positions.filter (registerArguments < ·)

/-- All positions above the sixth are pushed. -/
theorem pushed_range (n : Nat) : pushed (List.range' 1 n) = List.range' 7 (n - 6) := by
  induction n with
  | zero => rfl
  | succ n ih =>
    have hsix : registerArguments = 6 := rfl
    rw [List.range'_concat, pushed, List.filter_append, ← pushed, ih, Nat.one_mul,
      List.filter_singleton, hsix]
    rcases Nat.lt_or_ge n 6 with h | h
    · rw [show n + 1 - 6 = n - 6 by omega]
      simp [show ¬ 6 < 1 + n by omega]
    · rw [show n + 1 - 6 = n - 6 + 1 by omega, List.range'_concat]
      simp [show 6 < 1 + n by omega]
      omega

/-- When the positions above the sixth come in increasing order, they are pushed one by one. -/
theorem pushed_eq {positions : List Nat} {n : Nat} (h : positions.Perm (List.range' 1 n))
    (hinc : (pushed positions).Pairwise (· < ·)) : pushed positions = List.range' 7 (n - 6) := by
  rw [← pushed_range]
  refine List.Perm.eq_of_pairwise (fun a b _ _ hab hba => ?_) hinc ?_ (h.filter _)
  · exact absurd hab (Nat.lt_asymm hba)
  · rw [pushed_range]
    exact List.pairwise_lt_range'

/-- The arguments at these positions were passed, from `c₀` on: those of the first positions are in
registers, the others on the stack, each below the one before. -/
structure Passed (value : Nat → Word) (c₀ : Cpu) (positions : List Nat) (c : Cpu) : Prop where
  rbp : c.regs .rbp = c₀.regs .rbp
  kept : c.kept = c₀.kept
  rsp : c.regs .rsp = c₀.regs .rsp - BitVec.ofNat 64 (8 * (pushed positions).length)
  reg : ∀ i ∈ positions, ∀ r, Register.ofArgument? i = some r → c.regs r = value i
  word : ∀ t i, (pushed positions)[t]? = some i →
    c.ram.read (c₀.regs .rsp - BitVec.ofNat 64 (8 * (t + 1))) .word = value i
  ram : ∀ x, ¬ ((c₀.regs .rsp).toNat - 8 * (pushed positions).length ≤ x.toNat ∧
    x.toNat < (c₀.regs .rsp).toNat) → c.ram x = c₀.ram x

/-- No argument was passed yet. -/
theorem Passed.nil (value : Nat → Word) (c : Cpu) : Passed value c [] c :=
  ⟨rfl, rfl, by simp [pushed], nofun, nofun, fun _ _ => rfl⟩

section
variable {value : Nat → Word} {c₀ c : Cpu} {done : List Nat} {i : Nat}

/-- One more argument in its register. -/
theorem Passed.set (h : Passed value c₀ done c) {r : Register}
    (hr : Register.ofArgument? i = some r) :
    Passed value c₀ (done ++ [i]) (c.set r (value i)) := by
  obtain ⟨hrsp, hrbp, -⟩ := Register.ofArgument?_ne hr
  have hpushed : pushed (done ++ [i]) = pushed done := by
    have hnot : ¬ registerArguments < i := by
      by_cases hi : 1 ≤ i
      · rw [← Register.ofArgument?_eq_none hi, hr]
        exact nofun
      · omega
    simp [pushed, hnot]
  refine ⟨?_, h.kept, ?_, fun j hj s hs => ?_, ?_, ?_⟩
  · rw [Cpu.set_regs_of_ne _ hrbp.symm, h.rbp]
  · rw [Cpu.set_regs_of_ne _ hrsp.symm, h.rsp, hpushed]
  · by_cases hsr : s = r
    · subst hsr
      have hij : (i : Int) = j := Register.ofArgument?_inj hr hs
      rw [Cpu.set_regs_self, Int.ofNat_inj.1 hij]
    · rw [Cpu.set_regs_of_ne _ hsr]
      rcases List.mem_append.1 hj with hj | hj
      · exact h.reg j hj s hs
      · cases List.mem_singleton.1 hj
        exact absurd (Option.some.inj (hs.symm.trans hr)) hsr
  · rw [hpushed]
    exact h.word
  · rw [hpushed]
    exact h.ram

/-- One more argument on the stack. -/
theorem Passed.push (h : Passed value c₀ done c) (hi : registerArguments < i)
    (hroom : 8 * (pushed (done ++ [i])).length ≤ (c₀.regs .rsp).toNat) :
    Passed value c₀ (done ++ [i]) ((c.set .scratch (value i)).push (value i)) := by
  have hpushed : pushed (done ++ [i]) = pushed done ++ [i] := by simp [pushed, hi]
  rw [hpushed, List.length_append, List.length_singleton] at hroom
  have hlt := (c₀.regs .rsp).isLt
  -- where the word goes
  have htop : (c.set .scratch (value i)).regs .rsp - 8
      = c₀.regs .rsp - BitVec.ofNat 64 (8 * ((pushed done).length + 1)) := by
    rw [Cpu.set_regs_of_ne _ (by decide), h.rsp, Nat.mul_succ, BitVec.ofNat_add,
      sub_add_eq_sub_sub]
    rfl
  have hnone : Register.ofArgument? i = none :=
    (Register.ofArgument?_eq_none (by omega)).2 hi
  refine ⟨?_, h.kept, ?_, fun j hj s hs => ?_, fun t j hj => ?_, fun x hx => ?_⟩
  · rw [Cpu.push_regs_of_ne _ (by decide), Cpu.set_regs_of_ne _ (by decide), h.rbp]
  · rw [Cpu.push_rsp, htop, hpushed, List.length_append, List.length_singleton]
  · obtain ⟨hrsp, -, hscratch⟩ := Register.ofArgument?_ne hs
    rw [Cpu.push_regs_of_ne _ hrsp, Cpu.set_regs_of_ne _ hscratch]
    rcases List.mem_append.1 hj with hj | hj
    · exact h.reg j hj s hs
    · cases List.mem_singleton.1 hj
      rw [hnone] at hs
      cases hs
  · rw [Cpu.push_ram, htop]
    rw [hpushed] at hj
    rcases Nat.lt_or_ge t (pushed done).length with ht | ht
    · rw [List.getElem?_append_left ht] at hj
      rw [Ram.read_write_apart, Cpu.set_ram, h.word t j hj]
      refine (apart_of_le ?_ ?_).symm <;> rw [toNat_sub_ofNat (by omega)]
      · rw [toNat_sub_ofNat (by omega)]
        simp only [Size.bytes_word]
        omega
      · simp only [Size.bytes_word]
        omega
    · rw [List.getElem?_append_right ht] at hj
      obtain ⟨hlast, rfl⟩ := List.getElem?_eq_some_iff.1 hj
      rw [List.length_singleton] at hlast
      rw [List.getElem_singleton, show t = (pushed done).length by omega, Ram.read_write_self,
        Size.clip_word]
  · rw [hpushed, List.length_append, List.length_singleton] at hx
    rw [Cpu.push_ram, htop, Ram.write_of_not_within, Cpu.set_ram]
    · exact h.ram x (by omega)
    · rw [within_iff (by rw [toNat_sub_ofNat (by omega)]; simp only [Size.bytes_word]; omega),
        toNat_sub_ofNat (by omega)]
      simp only [Size.bytes_word]
      omega

/-- The code that passes an argument passes the value of its operand. -/
theorem Passed.step {ctx : Context} {data : Bytes → Word} {opd : Operand} {block : List Instr}
    (h : Passed value c₀ done c) (hcode : ctx.codeOf (.setArg i opd) = .ok block)
    (hvalue : ctx.valueOf data (c.regs .rbp) c.ram opd = value i)
    (hroom : 8 * (pushed (done ++ [i])).length ≤ (c₀.regs .rsp).toNat) :
    ∃ c', execAll data block c = some c' ∧ Passed value c₀ (done ++ [i]) c' := by
  obtain ⟨hpos, he⟩ := Context.setArg_exec data hcode c
  rw [hvalue] at he
  refine ⟨_, he, ?_⟩
  split
  · next r hr => exact h.set hr
  · next hnone => exact h.push ((Register.ofArgument?_eq_none (by omega)).1 hnone) hroom

/-- All arguments are passed, one after the other. -/
theorem passed_all {ctx : Context} {data : Bytes → Word} {opd : Nat → Operand}
    {positions : List Nat} {blocks : List (List Instr)}
    (h : Passed value c₀ done c)
    (hcode : List.Forall₂ (fun (i : Nat) block => ctx.codeOf (.setArg i (opd i)) = .ok block)
      positions blocks)
    (hvalue : ∀ ram : Ram,
      (∀ x, ¬ ((c₀.regs .rsp).toNat - 8 * (pushed (done ++ positions)).length ≤ x.toNat ∧
        x.toNat < (c₀.regs .rsp).toNat) → ram x = c₀.ram x) →
      ∀ i ∈ positions, ctx.valueOf data (c₀.regs .rbp) ram (opd i) = value i)
    (hroom : 8 * (pushed (done ++ positions)).length ≤ (c₀.regs .rsp).toNat) :
    ∃ c', execAll data blocks.flatten c = some c' ∧ Passed value c₀ (done ++ positions) c' := by
  induction hcode generalizing done c with
  | nil => exact ⟨c, rfl, by rwa [List.append_nil]⟩
  | @cons i block positions blocks hblock hrest ih =>
    have hsplit : done ++ i :: positions = (done ++ [i]) ++ positions := by simp
    have hlen : (pushed done).length ≤ (pushed (done ++ i :: positions)).length ∧
        (pushed (done ++ [i])).length ≤ (pushed (done ++ i :: positions)).length := by
      rw [hsplit]
      simp only [pushed, List.filter_append, List.length_append]
      omega
    have hi : ctx.valueOf data (c.regs .rbp) c.ram (opd i) = value i := by
      rw [h.rbp]
      exact hvalue c.ram (fun x hx => h.ram x (by omega)) i (List.mem_cons_self ..)
    obtain ⟨c₁, he₁, h₁⟩ := h.step hblock hi (by omega)
    rw [hsplit] at hvalue hroom ⊢
    obtain ⟨c₂, he₂, h₂⟩ := ih h₁ (fun ram hram j hj => hvalue ram hram j
      (List.mem_cons_of_mem _ hj)) hroom
    exact ⟨c₂, execAll_append_of he₁ he₂, h₂⟩

end

end Emit

end QuadAsm
