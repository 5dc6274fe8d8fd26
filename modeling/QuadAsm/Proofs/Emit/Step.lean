import QuadAsm.Proofs.Emit.Access

/-!
# What the code of quads does

The code of a quad that computes something runs to its end whenever the quad has a meaning, and the
effect is the one that the operator prescribes: one write to memory, while the stack and the
registers that calls keep stay as they are (`Cpu.Becomes`). Main results: `Context.binary_exec`,
`Context.unary_exec`, `Context.assign_exec` and `Context.addrOf_exec`.
-/

namespace QuadAsm

open Layout Machine

namespace Machine

/-- The processor after a block that ends with this memory and with the stack where it was. -/
structure Cpu.Becomes (c c' : Cpu) (ram : Ram) : Prop where
  ram : c'.ram = ram
  rbp : c'.regs .rbp = c.regs .rbp
  rsp : c'.regs .rsp = c.regs .rsp
  kept : c'.kept = c.kept

/-- The sign of a word above the word itself makes a number of 128 bits that is the same number. -/
theorem toInt_signWord_append (a : Word) : (signWord a ++ a : BitVec 128).toInt = a.toInt := by
  have hsign := BitVec.toInt_eq_msb_cond a
  rw [BitVec.toInt_append, signWord]
  split at hsign
  · next hm =>
    simp only [hm, if_true, hsign]
    simp
    omega
  · next hm => simp [hm, hsign]

/-- A flag in the lowest byte of a register, cleared of the rest, is a truth value. -/
theorem clip_flag (high : BitVec 56) (b : Bool) :
    Size.byte.clip (high ++ if b then 1#8 else 0#8) = truth b := by
  rw [Size.clip, BitVec.setWidth_append_eq_right]
  cases b <;> rfl

/-- A quotient of two words is a word, unless it is the one that is too large by one. -/
theorem Cpu.divide_word {c : Cpu} {a b : Word} (hd : c.dividend = a.toInt) (hb : b ≠ 0)
    (hq : a.toInt.tdiv b.toInt ≠ 2 ^ 63) :
    ∃ c', c.divide b = some c' ∧ c'.regs .rax = BitVec.ofInt 64 (a.toInt.tdiv b.toInt) ∧
      c.Becomes c' c.ram := by
  have hle := Int.natAbs_tdiv_le_natAbs a.toInt b.toInt
  have hlow : -2 ^ 63 ≤ a.toInt := BitVec.le_toInt a
  have hhigh : a.toInt < 2 ^ 63 := BitVec.toInt_lt
  refine ⟨_, if_neg ?_, by simp [hd], ⟨rfl, rfl, rfl, rfl⟩⟩
  rw [hd]
  rintro (h | h | h)
  · exact hb h
  · omega
  · omega

end Machine

namespace Emit

variable (data : Bytes → Word)

/-- The code of a comparison leaves its outcome in `r10`. -/
theorem compare_exec (cond : Condition) (c : Cpu) :
    ∃ c', execAll data [.arith .cmp .r10 .rax, .set cond .r10, .widen .r10] c = some c' ∧
      c'.regs .r10 = truth (cond.holds (c.regs .rax) (c.regs .r10)) ∧ c.Becomes c' c.ram := by
  refine ⟨_, rfl, ?_, ⟨rfl, rfl, rfl, rfl⟩⟩
  rw [Cpu.set_regs_self, Cpu.set_regs_self]
  exact clip_flag _ _

/-- The code of an operator computes what the operator means, in registers alone. -/
theorem combine_exec {op : BinOp} {work : List Instr} {result : Register}
    (h : combine op = .ok (work, result)) (c : Cpu) {w : Word}
    (hw : op.compute? (c.regs .rax) (c.regs .r10) = some w) :
    ∃ c', execAll data work c = some c' ∧ c'.regs result = w ∧ c.Becomes c' c.ram := by
  cases op with
  | add | and | or =>
    cases h
    cases hw
    refine ⟨_, rfl, ?_, ⟨rfl, rfl, rfl, rfl⟩⟩
    simp [Cpu.arith, Arith.result, BitVec.add_comm, BitVec.and_comm, BitVec.or_comm]
  | sub | mult =>
    cases h
    cases hw
    refine ⟨_, rfl, ?_, ⟨rfl, rfl, rfl, rfl⟩⟩
    simp [Cpu.arith, Arith.result]
  | div =>
    cases h
    simp only [BinOp.compute?] at hw
    split at hw
    · cases hw
    · next hdef =>
      cases hw
      obtain ⟨hb, hq⟩ := not_or.1 hdef
      have hd : (c.set .rdx (signWord (c.regs .rax))).dividend = (c.regs .rax).toInt := by
        simp [Cpu.dividend, toInt_signWord_append]
      obtain ⟨c', he, hres, hc'⟩ := Cpu.divide_word hd hb hq
      refine ⟨c', ?_, hres, ⟨hc'.ram, hc'.rbp, hc'.rsp, hc'.kept⟩⟩
      simp [Instr.exec, he]
  | eq | neq | lt | gt | lte | gte =>
    cases h
    cases hw
    exact compare_exec data _ c
  | unknown code => cases h

/-- The same for an operator with one source. -/
theorem change_exec {op : UnOp} {work : List Instr} (h : change op = .ok work) (c : Cpu) {w : Word}
    (hw : op.compute? (c.regs .rax) = some w) :
    ∃ c', execAll data work c = some c' ∧ c'.regs .rax = w ∧ c.Becomes c' c.ram := by
  cases op with
  | copy =>
    cases h
    cases hw
    exact ⟨c, rfl, rfl, ⟨rfl, rfl, rfl, rfl⟩⟩
  | neg =>
    cases h
    cases hw
    exact ⟨_, rfl, by simp, ⟨rfl, rfl, rfl, rfl⟩⟩
  | not =>
    cases h
    simp only [UnOp.compute?] at hw
    split at hw
    · next hbit =>
      cases hw
      refine ⟨_, rfl, ?_, ⟨rfl, rfl, rfl, rfl⟩⟩
      rcases hbit with hbit | hbit <;> simp [Cpu.arith, Arith.result, hbit]
    · cases hw
  | unknown code => cases h

namespace Context

variable {ctx : Context} {code : List Instr} {src dst : Operand}

/-- Storing a register that was not changed since writes its value to the destination. -/
theorem storeValue_becomes {reg : Register} (h : ctx.storeValue dst reg = .ok code) {c c₁ : Cpu}
    (h₁ : c.Becomes c₁ c.ram) :
    ∃ v c', dst = .var v ∧ ctx.Knows v ∧ execAll data code c₁ = some c' ∧
      c.Becomes c' (c.ram.write (ctx.target data (c.regs .rbp) c.ram v) v.size (c₁.regs reg)) := by
  obtain ⟨v, c', rfl, hk, he, hram, hregs, hkept⟩ := storeValue_exec data h c₁
  refine ⟨v, c', rfl, hk, he, ⟨?_, ?_, ?_, hkept.trans h₁.kept⟩⟩
  · rw [hram, h₁.rbp, h₁.ram]
  · rw [hregs _ (by decide), h₁.rbp]
  · rw [hregs _ (by decide), h₁.rsp]

/-- The code of a binary operator writes its result to the destination. -/
theorem binary_exec {op : BinOp} {src2 : Operand}
    (h : ctx.codeOf (.binary op src src2 dst) = .ok code) (c : Cpu) {w : Word}
    (hw : op.compute? (ctx.valueOf data (c.regs .rbp) c.ram src)
      (ctx.valueOf data (c.regs .rbp) c.ram src2) = some w) :
    ∃ v c', dst = .var v ∧ ctx.Knows v ∧ execAll data code c = some c' ∧
      c.Becomes c' (c.ram.write (ctx.target data (c.regs .rbp) c.ram v) v.size w) := by
  cases codes_of_codeOf h with
  | binary hleft hright hwork hstore =>
    have e₁ := loadValue_exec data hleft c
    have e₂ := loadValue_exec data hright (c.set .rax (ctx.valueOf data (c.regs .rbp) c.ram src))
    obtain ⟨c₃, e₃, rfl, h₃⟩ := combine_exec data hwork
      ((c.set .rax (ctx.valueOf data (c.regs .rbp) c.ram src)).set .r10
        (ctx.valueOf data (c.regs .rbp) c.ram src2)) (by simpa using hw)
    obtain ⟨v, c', rfl, hk, e₄, h₄⟩ := storeValue_becomes data hstore (c := c)
      ⟨h₃.ram, h₃.rbp, h₃.rsp, h₃.kept⟩
    exact ⟨v, c', rfl, hk,
      execAll_append_of (execAll_append_of (execAll_append_of e₁ e₂) e₃) e₄, h₄⟩

/-- The code of a unary operator writes its result to the destination. -/
theorem unary_exec {op : UnOp} (h : ctx.codeOf (.unary op src dst) = .ok code) (c : Cpu) {w : Word}
    (hw : op.compute? (ctx.valueOf data (c.regs .rbp) c.ram src) = some w) :
    ∃ v c', dst = .var v ∧ ctx.Knows v ∧ execAll data code c = some c' ∧
      c.Becomes c' (c.ram.write (ctx.target data (c.regs .rbp) c.ram v) v.size w) := by
  cases codes_of_codeOf h with
  | unary hload hwork hstore =>
    have e₁ := loadValue_exec data hload c
    obtain ⟨c₂, e₂, rfl, h₂⟩ := change_exec data hwork
      (c.set .rax (ctx.valueOf data (c.regs .rbp) c.ram src)) (by simpa using hw)
    obtain ⟨v, c', rfl, hk, e₃, h₃⟩ := storeValue_becomes data hstore (c := c)
      ⟨h₂.ram, h₂.rbp, h₂.rsp, h₂.kept⟩
    exact ⟨v, c', rfl, hk, execAll_append_of (execAll_append_of e₁ e₂) e₃, h₃⟩

/-- The code of a copy writes the value to the destination. -/
theorem assign_exec (h : ctx.codeOf (.assign src dst) = .ok code) (c : Cpu) :
    ∃ v c', dst = .var v ∧ ctx.Knows v ∧ execAll data code c = some c' ∧
      c.Becomes c' (c.ram.write (ctx.target data (c.regs .rbp) c.ram v) v.size
        (ctx.valueOf data (c.regs .rbp) c.ram src)) := by
  cases codes_of_codeOf h with
  | assign hload hstore =>
    have e₁ := loadValue_exec data hload c
    have h₁ : c.Becomes (c.set .rax (ctx.valueOf data (c.regs .rbp) c.ram src)) c.ram :=
      ⟨rfl, rfl, rfl, rfl⟩
    obtain ⟨v, c', rfl, hk, e₂, h₂⟩ := storeValue_becomes data hstore h₁
    rw [Cpu.set_regs_self] at h₂
    exact ⟨v, c', rfl, hk, execAll_append_of e₁ e₂, h₂⟩

/-- The code that sets a pointer writes the address of the source to it. -/
theorem addrOf_exec (h : ctx.codeOf (.addrOf src dst) = .ok code) (c : Cpu) :
    ∃ v c', dst = .var v ∧ v.form = .pointer ∧ ctx.Knows v ∧ execAll data code c = some c' ∧
      c.Becomes c' (c.ram.write (ctx.address data (c.regs .rbp) v) .word
        (ctx.target data (c.regs .rbp) c.ram src)) := by
  cases codes_of_codeOf h with
  | addrOf hload hstore =>
    have e₁ := loadAddress_exec data hload c
    obtain ⟨v, rfl, hf, hk, e₂⟩ := storeAddress_exec data hstore
      (c.set .rax (ctx.target data (c.regs .rbp) c.ram src))
    refine ⟨v, _, rfl, hf, hk, execAll_append_of e₁ e₂, ⟨?_, rfl, rfl, rfl⟩⟩
    simp

end Context

end Emit

end QuadAsm
