import QuadAsm.Proofs.Stack.Run

/-!
# The stack pointer in a chain of activations

How far the stack pointer is below the place where the running procedure was entered can be told
from the stage alone (`Stage.taken`): no instruction computes it from memory. So in a chain of
activations, where every return goes back to the call, the stack pointer is known at every moment,
whatever happens to memory. In particular it can be told whether it is a multiple of 16, if callers
push the arguments of their callees and nothing else (`Image.Aligns`). Main results: every step
keeps the activations level (`Leveled.step`), hence every run does (`Leveled.run`).
-/

namespace QuadAsm.Machine

open Layout

/-- The number of bytes from the stack pointer up to where it was when the procedure was entered. -/
def Stage.taken : Stage → Nat
  | outside _ => 0
  | saved _ | linked _ => 8
  | inside _ n => 8 + n

/-- A chain of activations goes on properly: a return goes to the line after the last call that has
not returned. -/
def Process.Chained (P : Process) (calls : List State) (s : State) : Prop :=
  P.image.code[s.pc]? = some .ret → ∀ s', P.step s = some s' →
    ∃ t rest, calls = t :: rest ∧ s'.pc = t.pc + 1

/-- An image whose positions belong to functions, of which `args` tells how many words of arguments
they find on the stack. When a function is called, the words that its caller needs to be aligned are
the words of its arguments. -/
structure Image.Aligns (img : Image) (stage : Nat → Stage) (args : Nat → Nat) : Prop where
  next : ∀ n i, img.code[n]? = some i → i ≠ .ret → args (n + 1) = args n
  jump : ∀ n m l, img.code[n]? = some (.jump l) ∨ img.code[n]? = some (.jumpIfEqual l) →
    img.label l = some m → args m = args n
  call : ∀ n m l, img.code[n]? = some (.call l) → img.symbol l = some m →
    (stage n).taken + 8 + 8 * args n ≡ 8 * args m [MOD 16]

section
variable (P : Process) (stage : Nat → Stage) (args : Nat → Nat) (first : Cpu)

/-- The stack pointer is where the stage says, in a procedure that was entered with the stack
pointer `opened`, after its caller had pushed the arguments from a multiple of 16. -/
structure Level (opened : Word) (s : State) : Prop where
  rsp : s.cpu.regs .rsp + BitVec.ofNat 64 (stage s.pc).taken = opened
  pushed : opened.toNat + 8 + 8 * args s.pc ≡ 0 [MOD 16]

/-- All callers were level when they made their calls. -/
def Waiting : List State → Prop
  | [] => True
  | t :: rest => (∃ l, P.image.code[t.pc]? = some (.call l)) ∧
      Level stage args ((P.opening first rest).regs .rsp) t ∧ Waiting rest

/-- The running procedure is level, and so were all callers. -/
structure Leveled (calls : List State) (s : State) : Prop where
  level : Level stage args ((P.opening first calls).regs .rsp) s
  waiting : Waiting P stage args first calls

end

variable {P : Process} {g : Globals} {need : Bytes → Nat} {label : Bytes → Stage → Prop}
  {stage : Nat → Stage} {args : Nat → Nat} {first : Cpu} {calls : List State} {s s' : State}

/-- Adding bytes to an address, as far as it matters for alignment. -/
theorem toNat_add_ofNat_modEq (a : Word) (n : Nat) :
    (a + BitVec.ofNat 64 n).toNat ≡ a.toNat + n [MOD 16] := by
  rw [BitVec.toNat_add, BitVec.toNat_ofNat]
  unfold Nat.ModEq
  omega

/-- An instruction takes from the stack what its stages say. -/
theorem Instr.Fits.rsp_add {i : Instr} {st st' : Stage} {data : Bytes → Word} {c c' : Cpu}
    (hf : i.Fits g label st st') (he : i.exec data c = some c') :
    c'.regs .rsp + BitVec.ofNat 64 st'.taken = c.regs .rsp + BitVec.ofNat 64 st.taken := by
  cases hf with
  | save =>
    cases he
    rw [Cpu.push_rsp]
    exact (BitVec.sub_add_cancel ..).trans (BitVec.add_zero _).symm
  | link =>
    cases he
    rw [Cpu.set_regs_of_ne _ (by decide)]
    rfl
  | frame =>
    cases he
    rw [Cpu.arith_regs _ _ _ (by decide)]
    rfl
  | @lower r n m v hv hm =>
    cases he
    rw [Cpu.arith_regs_self, hv]
    show c.regs .rsp - BitVec.ofNat 64 m + BitVec.ofNat 64 (8 + (n + m))
      = c.regs .rsp + BitVec.ofNat 64 (8 + n)
    rw [← Nat.add_assoc, BitVec.ofNat_add (8 + n)]
    abel
  | @raise r n m v hv =>
    cases he
    rw [Cpu.arith_regs_self, hv]
    show c.regs .rsp + BitVec.ofNat 64 m + BitVec.ofNat 64 (8 + n)
      = c.regs .rsp + BitVec.ofNat 64 (8 + (n + m))
    rw [← Nat.add_assoc, BitVec.ofNat_add (8 + n)]
    abel
  | @push r n reg =>
    cases he
    rw [Cpu.push_rsp]
    show c.regs .rsp - BitVec.ofNat 64 8 + BitVec.ofNat 64 (8 + (n + 8))
      = c.regs .rsp + BitVec.ofNat 64 (8 + n)
    rw [← Nat.add_assoc, BitVec.ofNat_add (8 + n)]
    abel
  | restore =>
    cases he
    rw [Cpu.set_regs_of_ne _ (by decide), Cpu.drop_rsp]
    exact BitVec.add_zero _
  | quiet hq => rw [Instr.exec_regs he hq.rsp]
  | call | jump | jumpIfEqual | ret => cases he

/-- An instruction that changes neither the stack pointer nor the frame pointer and leads to the
next line keeps the stage. -/
theorem Instr.Fits.eq_of_quiet {i : Instr} {st st' : Stage} (hf : i.Fits g label st st')
    (hcontrol : i.isControl = false) (hrsp : .rsp ∉ i.writes) (hrbp : .rbp ∉ i.writes) :
    st' = st := by
  cases hf with
  | quiet => rfl
  | save | push | lower | raise => exact absurd (by simp [Instr.writes]) hrsp
  | link | frame | restore => exact absurd (by simp [Instr.writes]) hrbp
  | call | jump | jumpIfEqual | ret => cases hcontrol

/-- Code of such instructions keeps the stage. -/
theorem Image.HasStages.eq_of_footprint {img : Image} (h : img.HasStages g need stage)
    {block : List Instr} {n room : Nat} {rs : List Register} (hblock : img.Holds n block)
    (hfoot : Footprint g room rs block) (hrsp : .rsp ∉ rs) (hrbp : .rbp ∉ rs) :
    stage (n + block.length) = stage n := by
  induction block generalizing n with
  | nil => rfl
  | cons i rest ih =>
    obtain ⟨hi, hrest⟩ := List.forall_mem_cons.1 hfoot
    have hquiet := hi.quiet hrsp hrbp
    rw [List.length_cons, Nat.add_comm rest.length, ← Nat.add_assoc, ih hblock.tail hrest]
    exact (h.staged n i hblock.head).eq_of_quiet hquiet.control hquiet.rsp hquiet.rbp

/-- Nothing is left on the stack at a return. -/
theorem Instr.Fits.taken_of_ret {st st' : Stage} (hf : Instr.ret.Fits g label st st') :
    st.taken = 0 := by
  cases hf with
  | ret => rfl
  | quiet hq => cases hq.control

/-- How far the stack pointer is below a multiple of 16. -/
theorem Level.modEq {opened : Word} (h : Level stage args opened s) :
    (s.cpu.regs .rsp).toNat + ((stage s.pc).taken + 8 + 8 * args s.pc) ≡ 0 [MOD 16] := by
  have hopened := toNat_add_ofNat_modEq (s.cpu.regs .rsp) (stage s.pc).taken
  rw [h.rsp] at hopened
  have hpushed := h.pushed
  unfold Nat.ModEq at *
  omega

/-! ## Steps -/

/-- The machine goes on in the same procedure, at a position of the same stage. -/
theorem Level.goto {opened : Word} (h : Level stage args opened s) {n : Nat} {c : Cpu}
    {trace : List Event} (hrsp : c.regs .rsp = s.cpu.regs .rsp) (hstage : stage n = stage s.pc)
    (hargs : args n = args s.pc) : Level stage args opened ⟨c, n, trace⟩ := by
  refine ⟨?_, ?_⟩
  · show c.regs .rsp + BitVec.ofNat 64 (stage n).taken = opened
    rw [hrsp, hstage]
    exact h.rsp
  · show opened.toNat + 8 + 8 * args n ≡ 0 [MOD 16]
    rw [hargs]
    exact h.pushed

namespace Leveled

/-- A function is called: its caller waits. -/
theorem call (h : Leveled P stage args first calls s) (himg : P.image.HasStages g need stage)
    (halign : P.image.Aligns stage args) {l : Bytes} {n : Nat}
    (hcode : P.image.code[s.pc]? = some (.call l)) (hn : P.image.symbol l = some n) :
    Leveled P stage args first (s :: calls) ⟨P.entered s, n, s.trace⟩ := by
  refine ⟨⟨?_, ?_⟩, ⟨l, hcode⟩, h.level, h.waiting⟩
  · show (P.entered s).regs .rsp + BitVec.ofNat 64 (stage n).taken = (P.entered s).regs .rsp
    rw [himg.entry l n (himg.call _ _ hcode ▸ hn)]
    exact BitVec.add_zero _
  · have hrsp : (P.entered s).regs .rsp + BitVec.ofNat 64 8 = s.cpu.regs .rsp := by
      rw [Process.entered, Cpu.push_rsp]
      exact BitVec.sub_add_cancel ..
    have hback := toNat_add_ofNat_modEq ((P.entered s).regs .rsp) 8
    rw [hrsp] at hback
    have hlevel := h.level.modEq
    have hcall := halign.call s.pc n l hcode hn
    show ((P.entered s).regs .rsp).toNat + 8 + 8 * args n ≡ 0 [MOD 16]
    unfold Nat.ModEq at *
    omega

/-- A function returns: its caller goes on with the stack pointer where it was at the call. -/
theorem ret {t : State} (h : Leveled P stage args first (t :: calls) s)
    (himg : P.image.HasStages g need stage) (halign : P.image.Aligns stage args)
    (hcode : P.image.code[s.pc]? = some .ret) :
    Leveled P stage args first calls ⟨s.cpu.drop, t.pc + 1, s.trace⟩ := by
  obtain ⟨⟨l, hcall⟩, hlevel, hwaiting⟩ := h.waiting
  refine ⟨hlevel.goto ?_ (himg.staged _ _ hcall).of_call.1
    (halign.next _ _ hcall (by simp)), hwaiting⟩
  have hrsp := h.level.rsp
  rw [(himg.staged _ _ hcode).taken_of_ret, BitVec.add_zero,
    Process.opening, Process.entered, Cpu.push_rsp] at hrsp
  rw [Cpu.drop_rsp, hrsp, BitVec.sub_add_cancel]

/-- Every step keeps the activations level. -/
theorem step (h : Leveled P stage args first calls s) (himg : P.image.HasStages g need stage)
    (halign : P.image.Aligns stage args)
    (hserve : ∀ v trace c, (P.serve v trace c).regs .rsp = c.regs .rsp)
    (hchain : P.Chained calls s) (hstep : P.step s = some s') :
    Leveled P stage args first (P.track s calls) s' := by
  cases Process.moves_of_step hstep with
  | @exec i c hcode he =>
    have htrack : P.track s calls = calls := by
      unfold Process.track
      rw [hcode]
      cases i with
      | call | ret => cases he
      | _ => rfl
    have hargs : args (s.pc + 1) = args s.pc := by
      refine halign.next _ _ hcode ?_
      rintro rfl
      cases he
    rw [htrack]
    refine ⟨⟨?_, ?_⟩, h.waiting⟩
    · exact ((himg.staged _ _ hcode).rsp_add he).trans h.level.rsp
    · show _ + 8 + 8 * args (s.pc + 1) ≡ 0 [MOD 16]
      rw [hargs]
      exact h.level.pushed
  | jump hcode hn =>
    rw [Process.track, hcode]
    exact ⟨h.level.goto rfl ((himg.staged _ _ hcode).of_jump _ hn)
      (halign.jump _ _ _ (.inl hcode) hn), h.waiting⟩
  | taken hcode hn =>
    rw [Process.track, hcode]
    exact ⟨h.level.goto rfl ((himg.staged _ _ hcode).of_jumpIfEqual.1 _ hn)
      (halign.jump _ _ _ (.inr hcode) hn), h.waiting⟩
  | passed hcode =>
    rw [Process.track, hcode]
    exact ⟨h.level.goto rfl (himg.staged _ _ hcode).of_jumpIfEqual.2
      (halign.next _ _ hcode (by simp)), h.waiting⟩
  | @call l n hcode hn =>
    have htrack : P.track s calls = s :: calls := by simp [Process.track, hcode, hn]
    rw [htrack]
    exact h.call himg halign hcode hn
  | service v hcode hn =>
    have htrack : P.track s calls = calls := by simp [Process.track, hcode, hn]
    rw [htrack]
    exact ⟨h.level.goto (hserve ..) (himg.staged _ _ hcode).of_call.1
      (halign.next _ _ hcode (by simp)), h.waiting⟩
  | ret hcode hn =>
    obtain ⟨t, rest, rfl, hpc⟩ := hchain hcode _ hstep
    have htrack : P.track s (t :: rest) = rest := by simp [Process.track, hcode]
    rw [htrack]
    cases hpc
    exact h.ret himg halign hcode

/-- Every run keeps the activations level, as long as it is a chain of them. -/
theorem run (himg : P.image.HasStages g need stage) (halign : P.image.Aligns stage args)
    (hserve : ∀ v trace c, (P.serve v trace c).regs .rsp = c.regs .rsp) {l : Bytes}
    (hl : P.image.entry l = some s.pc)
    (hpushed : (s.cpu.regs .rsp).toNat + 8 + 8 * args s.pc ≡ 0 [MOD 16]) {n : Nat}
    (hrun : P.run n s = some s')
    (hchain : ∀ m t, m < n → P.run m s = some t → P.Chained (P.pending s m) t) :
    Leveled P stage args s.cpu (P.pending s n) s' := by
  refine Process.pending_induct ⟨⟨?_, hpushed⟩, trivial⟩ ?_ hrun
  · rw [himg.entry l _ hl]
    exact BitVec.add_zero _
  · intro m t t' hm ht _ hstep h
    exact h.step himg halign hserve (hchain m t hm ht) hstep

end Leveled

end QuadAsm.Machine
