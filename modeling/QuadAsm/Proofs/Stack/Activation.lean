import QuadAsm.Proofs.Stack.Stage

/-!
# Activations

An activation is a procedure that was entered and has not returned. What returning from it takes is
on the stack: the return address where the stack pointer was when the procedure was entered, and the
frame pointer of the caller in the word below. An activation is `Active` at a stage when the
registers and these two words are as the stage says. Main result: every instruction that leads to
the next line keeps an activation active, at the stage it leads to (`Active.exec`).
-/

namespace QuadAsm.Machine

open Layout

/-- What the stack pointer and the frame pointer are at a stage, for a procedure that was entered
with the processor `c`. -/
def Stage.Holds (c cur : Cpu) : Stage → Prop
  | outside _ => cur.regs .rsp = c.regs .rsp ∧ cur.regs .rbp = c.regs .rbp
  | saved _ =>
    (cur.regs .rsp).toNat + 8 = (c.regs .rsp).toNat ∧ cur.regs .rbp = c.regs .rbp
  | linked _ =>
    (cur.regs .rsp).toNat + 8 = (c.regs .rsp).toNat ∧ cur.regs .rbp = cur.regs .rsp
  | inside _ taken =>
    (cur.regs .rsp).toNat + 8 + taken = (c.regs .rsp).toNat ∧ cur.regs .rbp = c.regs .rsp

/-- A byte of the return address or of the saved frame pointer of a procedure that was entered with
the processor `c`. -/
def Cpu.Vital (c : Cpu) (x : Word) : Prop :=
  Within x (c.regs .rsp) 8 ∨ Within x (c.regs .rsp - 8) 8

/-- The stack pointer is in the memory from `lo` up to `hi`. -/
def Cpu.On (lo hi : Nat) (c : Cpu) : Prop :=
  lo ≤ (c.regs .rsp).toNat ∧ (c.regs .rsp).toNat + 8 ≤ hi

/-- The memory from `lo` up to `hi` is for the stack alone: it is less than half of the memory, and
no global variable lies there. -/
structure StackArea (g : Globals) (data : Bytes → Word) (lo hi : Nat) : Prop where
  half : hi < lo + 2 ^ 63
  top : hi ≤ 2 ^ 64
  data : ∀ v ∈ g.vars, ∀ x, Within x (data (globalLabel v.name)) v.size.bytes →
    ¬ (lo ≤ x.toNat ∧ x.toNat < hi)

/-- An instruction does not store through a pointer to `x`. -/
def Instr.Spares (i : Instr) (cur : Cpu) (x : Word) : Prop :=
  ∀ size reg, i = .store size reg (.base .scratch 0) →
    ¬ Within x (cur.regs .scratch) size.bytes

/-- A procedure that was entered with the processor `c` and is at a stage now. -/
structure Active (lo hi : Nat) (c cur : Cpu) (st : Stage) : Prop where
  regs : st.Holds c cur
  kept : cur.kept = c.kept
  room : lo + st.room ≤ (c.regs .rsp).toNat
  top : (c.regs .rsp).toNat + 8 ≤ hi
  back : cur.ram.read (c.regs .rsp) .word = c.top
  saved : st.HasSaved → cur.ram.read (c.regs .rsp - 8) .word = c.regs .rbp

/-! ## Numbers -/

/-- Going down inside of the stack does not wrap. -/
theorem toNat_sub_of_on {a : Word} {m lo hi : Nat} (half : hi < lo + 2 ^ 63)
    (hm : m < 2 ^ 63 + 8) (ha : lo ≤ a.toNat) (hhigh : (a - BitVec.ofNat 64 m).toNat + 8 ≤ hi) :
    (a - BitVec.ofNat 64 m).toNat + m = a.toNat := by
  rcases Nat.lt_or_ge a.toNat m with hlt | hge
  · rw [BitVec.toNat_sub, BitVec.toNat_ofNat, Nat.mod_eq_of_lt (a := m) (by omega),
      Nat.mod_eq_of_lt (by omega)] at hhigh
    omega
  · rw [toNat_sub_ofNat hge]
    omega

/-- A push inside of the stack does not wrap. -/
theorem Cpu.On.toNat_push {c : Cpu} {w : Word} {lo hi : Nat} (hnow : c.On lo hi)
    (hthen : (c.push w).On lo hi) (half : hi < lo + 2 ^ 63) :
    (c.regs .rsp - 8).toNat + 8 = (c.regs .rsp).toNat := by
  have hhigh := hthen.2
  rw [Cpu.push_rsp] at hhigh
  exact toNat_sub_of_on (m := 8) half (by decide) hnow.1 hhigh

/-- Once the frame pointer of the caller is saved, the stack pointer is below the return address. -/
theorem Stage.Holds.le {c cur : Cpu} {st : Stage} (h : st.Holds c cur) (hs : st.HasSaved) :
    (cur.regs .rsp).toNat + 8 ≤ (c.regs .rsp).toNat := by
  cases st with
  | outside r => exact hs.elim
  | saved r => exact Nat.le_of_eq h.1
  | linked r => exact Nat.le_of_eq h.1
  | inside r n => exact Nat.le_trans (Nat.le_add_right _ n) (Nat.le_of_eq h.1)

/-- The vital bytes as numbers. -/
theorem Cpu.vital_iff {c : Cpu} {x : Word} (hlow : 8 ≤ (c.regs .rsp).toNat)
    (htop : (c.regs .rsp).toNat + 8 ≤ 2 ^ 64) :
    c.Vital x ↔ (c.regs .rsp).toNat ≤ x.toNat + 8 ∧ x.toNat < (c.regs .rsp).toNat + 8 := by
  have hsub : (c.regs .rsp - 8).toNat = (c.regs .rsp).toNat - 8 := toNat_sub_ofNat (n := 8) hlow
  unfold Vital
  rw [within_iff htop, within_iff (by omega), hsub]
  omega

/-! ## Steps -/

variable {g : Globals} {label : Bytes → Stage → Prop} {data : Bytes → Word} {lo hi : Nat}
  {i : Instr} {c cur cur' : Cpu} {st st' : Stage}

/-- What an instruction makes of stack pointer and frame pointer. -/
theorem Instr.Fits.holds (hf : i.Fits g label st st') (he : i.exec data cur = some cur')
    (half : hi < lo + 2 ^ 63) (hnow : cur.On lo hi) (hthen : cur'.On lo hi)
    (h : Active lo hi c cur st) : st'.Holds c cur' := by
  have hregs := h.regs
  have hlt := (c.regs .rsp).isLt
  cases hf with
  | save =>
    cases he
    obtain ⟨hrsp, hrbp⟩ := hregs
    refine ⟨?_, ?_⟩
    · rw [Cpu.push_rsp, hnow.toNat_push hthen half, hrsp]
    · rw [Cpu.push_regs_of_ne _ (by decide), hrbp]
  | link =>
    cases he
    refine ⟨?_, ?_⟩
    · rw [Cpu.set_regs_of_ne _ (by decide)]
      exact hregs.1
    · rw [Cpu.set_regs_self, Cpu.set_regs_of_ne _ (by decide)]
  | frame =>
    cases he
    obtain ⟨hrsp, hrbp⟩ := hregs
    refine ⟨?_, ?_⟩
    · rw [Cpu.arith_regs _ _ _ (by decide)]
      exact hrsp
    · rw [Cpu.arith_regs_self, hrbp]
      refine BitVec.eq_of_toNat_eq ?_
      have hsum := toNat_add_ofNat (a := cur.regs .rsp) (n := 8) (by omega)
      exact hsum.trans hrsp
  | @lower r n m v hv hm =>
    cases he
    obtain ⟨hrsp, hrbp⟩ := hregs
    have hhigh := hthen.2
    rw [Cpu.arith_regs_self, hv] at hhigh
    have hnum := toNat_sub_of_on half hm hnow.1 hhigh
    refine ⟨?_, ?_⟩
    · rw [Cpu.arith_regs_self, hv]
      show (cur.regs .rsp - BitVec.ofNat 64 m).toNat + 8 + (n + m) = _
      omega
    · rw [Cpu.arith_regs _ _ _ (by decide), hrbp]
  | @raise r n m v hv =>
    cases he
    obtain ⟨hrsp, hrbp⟩ := hregs
    have hsum := toNat_add_ofNat (a := cur.regs .rsp) (n := m) (by omega)
    refine ⟨?_, ?_⟩
    · rw [Cpu.arith_regs_self, hv]
      show (cur.regs .rsp + BitVec.ofNat 64 m).toNat + 8 + n = _
      omega
    · rw [Cpu.arith_regs _ _ _ (by decide), hrbp]
  | push =>
    cases he
    obtain ⟨hrsp, hrbp⟩ := hregs
    have hpush := hnow.toNat_push hthen half
    refine ⟨?_, ?_⟩
    · rw [Cpu.push_rsp]
      omega
    · rw [Cpu.push_regs_of_ne _ (by decide), hrbp]
  | restore =>
    cases he
    obtain ⟨hrsp, hrbp⟩ := hregs
    have hsum := toNat_add_ofNat (a := cur.regs .rsp) (n := 8) (by omega)
    have hrsp' : cur.regs .rsp + 8 = c.regs .rsp :=
      BitVec.eq_of_toNat_eq (hsum.trans hrsp)
    refine ⟨?_, ?_⟩
    · rw [Cpu.set_regs_of_ne _ (by decide), Cpu.drop_rsp, hrsp']
    · rw [Cpu.set_regs_self, ← h.saved trivial, ← hrsp', Cpu.top, BitVec.add_sub_cancel]
  | quiet hq =>
    obtain ⟨hrsp, hrbp⟩ := hregs
    refine ⟨?_, ?_⟩
    · rw [Instr.exec_regs he hq.rsp]
      exact hrsp
    · rw [Instr.exec_regs he hq.rbp, hrbp]
  | call | jump | jumpIfEqual | ret => cases he

/-- The room stays the same. -/
theorem Instr.Fits.room_eq (hf : i.Fits g label st st') (he : i.exec data cur = some cur') :
    st'.room = st.room := by
  cases hf with
  | call | jump | jumpIfEqual | ret => cases he
  | _ => rfl

/-- A store that has nothing to do with the frame leaves the stack above the slots as it is. -/
theorem Instr.Quiet.ram {r : Nat} (hq : i.Quiet g r) (he : i.exec data cur = some cur')
    (harea : StackArea g data lo hi) {frame : Word} (hrbp : cur.regs .rbp = frame)
    (hroom : lo + r ≤ frame.toNat) {x : Word} (hx : frame.toNat ≤ x.toNat + 8)
    (hlow : lo ≤ x.toNat) (hhi : x.toNat < hi) (hspare : i.Spares cur x) :
    cur'.ram x = cur.ram x := by
  by_cases hstore : ∃ size src dst, i = .store size src dst
  · obtain ⟨size, src, dst, rfl⟩ := hstore
    cases he
    have haims := hq.aims
    refine Ram.write_of_not_within fun hin => ?_
    cases dst with
    | data l =>
      obtain ⟨v, hv, rfl, rfl⟩ := haims
      exact harea.data v hv x hin ⟨hlow, hhi⟩
    | base reg offset =>
      by_cases hreg : reg = .rbp
      · -- a slot of the frame
        subst hreg
        obtain ⟨hle, hge⟩ := haims
        have hlt := frame.isLt
        have haddr := toNat_add_ofInt (a := frame) (z := offset) (by omega) (by omega)
        have hsize := size.bytes_le_eight
        rw [Memory.address, hrbp, within_iff (by omega)] at hin
        omega
      · -- what a pointer points to
        obtain ⟨rfl, rfl⟩ : reg = .scratch ∧ offset = 0 := by
          cases reg <;> first | exact absurd rfl hreg | exact haims
        rw [Memory.address_base_zero] at hin
        exact hspare size src rfl hin
  · rw [Instr.exec_ram he (fun size src dst h => hstore ⟨size, src, dst, h⟩)]
    rintro reg rfl
    exact hq.rsp (List.mem_singleton_self _)

/-- What an instruction leaves of the stack: everything from the return address on, and the saved
frame pointer too once it is there. -/
theorem Instr.Fits.ram (hf : i.Fits g label st st') (he : i.exec data cur = some cur')
    (harea : StackArea g data lo hi) (hnow : cur.On lo hi) (hthen : cur'.On lo hi)
    (h : Active lo hi c cur st) {x : Word} (hx : (c.regs .rsp).toNat ≤ x.toNat + 8)
    (hlow : lo ≤ x.toNat) (hhi : x.toNat < hi)
    (hown : st.HasSaved ∨ (c.regs .rsp).toNat ≤ x.toNat) (hspare : i.Spares cur x) :
    cur'.ram x = cur.ram x := by
  have hregs := h.regs
  have htop := h.top
  have hend := harea.top
  cases hf with
  | save =>
    cases he
    have hpush := hnow.toNat_push hthen harea.half
    have hle := hown.resolve_left id
    refine Ram.write_of_not_within fun hin => ?_
    rw [Size.bytes_word, within_iff (by omega), hpush, hregs.1] at hin
    omega
  | push =>
    cases he
    have hpush := hnow.toNat_push hthen harea.half
    have hrsp := hregs.1
    refine Ram.write_of_not_within fun hin => ?_
    rw [Size.bytes_word, within_iff (by omega)] at hin
    omega
  | quiet hq => exact hq.ram he harea hregs.2 h.room hx hlow hhi hspare
  | call | jump | jumpIfEqual | ret => cases he
  | link | frame | lower | raise | restore =>
    exact congrFun (Instr.exec_ram he (by simp) (by simp)) x

/-- Every instruction that leads to the next line keeps the activation. -/
theorem Active.exec (h : Active lo hi c cur st) (hf : i.Fits g label st st')
    (he : i.exec data cur = some cur') (harea : StackArea g data lo hi) (hnow : cur.On lo hi)
    (hthen : cur'.On lo hi) (hspare : ∀ x, c.Vital x → i.Spares cur x) :
    Active lo hi c cur' st' := by
  have htop := h.top
  have hend := harea.top
  have hroom := h.room
  have hholds := hf.holds he harea.half hnow hthen h
  refine ⟨hholds, (Instr.exec_kept he).trans h.kept, ?_, htop, ?_, fun hsaved => ?_⟩
  · rw [hf.room_eq he]
    exact hroom
  · rw [← h.back]
    refine Ram.read_congr fun x hx => ?_
    have hvital : c.Vital x := .inl hx
    rw [Size.bytes_word, within_iff (by omega)] at hx
    exact hf.ram he harea hnow hthen h (by omega) (by omega) (by omega) (.inr hx.1)
      (hspare x hvital)
  · by_cases hs : st.HasSaved
    · have hle := h.regs.le hs
      have hlow := hnow.1
      rw [← h.saved hs]
      refine Ram.read_congr fun x hx => ?_
      have hvital : c.Vital x := .inr hx
      have hnum := (c.vital_iff (by omega) (by omega)).1 hvital
      exact hf.ram he harea hnow hthen h hnum.1 (by omega) (by omega) (.inl hs)
        (hspare x hvital)
    · cases hf with
      | save =>
        cases he
        rw [Cpu.push_ram, h.regs.1, Ram.read_write_self, Size.clip_word, h.regs.2]
      | ret => cases he
      | _ => exact absurd trivial hs

end QuadAsm.Machine
