import QuadAsm.Proofs.Stack.Activation

/-!
# Runs keep calls in order

A run is followed along with the calls that have not returned (`Process.pending`). As long as the
code has stages, the stack pointer stays in the memory of the stack, and no store through a pointer
hits what a return needs, the machine stays `Orderly`: the running procedure is active, and so is
every caller it will return to. Main results: every step keeps this (`Orderly.step`), hence every
run does (`Orderly.run`), and a return leads back to the call (`Orderly.returns`).
-/

namespace QuadAsm.Machine

open Layout

/-! ## Calls that have not returned -/

namespace Process

variable (P : Process) (first : Cpu)

/-- The calls that have not returned after one more step. -/
def track (s : State) (calls : List State) : List State :=
  match P.image.code[s.pc]? with
  | some (.call l) => if (P.image.symbol l).isSome then s :: calls else calls
  | some .ret => calls.tail
  | _ => calls

/-- The calls that have not returned after some steps, the last one first. A call is given by the
state in which the machine came to it. -/
def pending (s : State) : Nat → List State
  | 0 => []
  | n + 1 =>
    match P.run n s with
    | some t => P.track t (pending s n)
    | none => []

/-- The calls that have not returned, by the last step. -/
theorem pending_succ {P : Process} {s t : State} {n : Nat} (h : P.run n s = some t) :
    P.pending s (n + 1) = P.track t (P.pending s n) := by
  simp [pending, h]

/-- What holds at the start and is kept by every step of a run holds after the run. -/
theorem pending_induct {P : Process} {s s' : State} {Inv : List State → State → Prop} {n : Nat}
    (hstart : Inv [] s)
    (hstep : ∀ m t t', m < n → P.run m s = some t → P.run (m + 1) s = some t' →
      P.step t = some t' → Inv (P.pending s m) t → Inv (P.track t (P.pending s m)) t')
    (hrun : P.run n s = some s') : Inv (P.pending s n) s' := by
  induction n generalizing s' with
  | zero =>
    cases hrun
    exact hstart
  | succ n ih =>
    have hlast := hrun
    rw [run_add, Option.bind_eq_some_iff] at hlast
    obtain ⟨t, ht, ht'⟩ := hlast
    rw [run_one] at ht'
    rw [pending_succ ht]
    exact hstep n t s' (Nat.lt_succ_self n) ht hrun ht'
      (ih (fun m u u' hm => hstep m u u' (Nat.lt_succ_of_lt hm)) ht)

/-- The processor right after a call. -/
def entered (t : State) : Cpu := t.cpu.push (P.place (t.pc + 1))

/-- The processor with which the running procedure was entered. The first one was entered with
`first`. -/
def opening : List State → Cpu
  | [] => first
  | t :: _ => P.entered t

/-- The processors with which the procedures were entered that the running one will return to. -/
def outer : List State → List Cpu
  | [] => []
  | _ :: rest => P.opening first rest :: outer rest

/-- What code on a stack relies on. The runtime keeps the stack, instructions have different
addresses, and there is memory for the stack alone. -/
structure Hosts (g : Globals) (lo hi : Nat) : Prop where
  keeps : P.KeepsStack
  place : ∀ m n, m < P.image.code.length → n < P.image.code.length → P.place m = P.place n → m = n
  area : StackArea g P.data lo hi

/-- The machine does not leave the stack. The stack pointer is in its memory, a procedure that was
entered just now has room there for what it needs, and a store through a pointer hits no return
address and no saved frame pointer. -/
structure OnStack (need : Bytes → Nat) (lo hi : Nat) (calls : List State) (s : State) : Prop where
  on : s.cpu.On lo hi
  room : ∀ l, P.image.entry l = some s.pc → lo + need l ≤ (s.cpu.regs .rsp).toNat
  pointer : ∀ i, P.image.code[s.pc]? = some i →
    ∀ c ∈ P.opening first calls :: P.outer first calls, ∀ x, c.Vital x → i.Spares s.cpu x

/-- The instruction at an address is found. -/
theorem position?_place {P : Process}
    (hplace : ∀ m n, m < P.image.code.length → n < P.image.code.length →
      P.place m = P.place n → m = n) {n : Nat} (hn : n < P.image.code.length) :
    P.position? (P.place n) = some n := by
  unfold position?
  rw [List.find?_range_eq_some]
  refine ⟨by simp, List.mem_range.2 hn, fun m hm => ?_⟩
  have hne : P.place m ≠ P.place n := fun he => Nat.ne_of_lt hm (hplace m n (by omega) hn he)
  simp [hne]

end Process

/-- An image whose positions have stages. A procedure is entered without a frame and with the room
that it needs, nothing but procedures is entered by calls, and the code ends after a return. -/
structure Image.HasStages (img : Image) (g : Globals) (need : Bytes → Nat) (stage : Nat → Stage) :
    Prop where
  staged : Staged g (fun l st => ∀ n, img.label l = some n → stage n = st) img.code stage
  entry : ∀ l n, img.entry l = some n → stage n = .outside (need l)
  call : ∀ (n : Nat) (l : Bytes), img.code[n]? = some (.call l) → img.symbol l = img.entry l
  finish : ∃ room, stage img.code.length = .outside room

/-! ## The invariant -/

section
variable (P : Process) (stage : Nat → Stage) (first : Cpu) (lo hi : Nat)

/-- A caller that waits for a call to return, given the memory as it is now. -/
structure Suspended (c : Cpu) (ram : Ram) (t : State) : Prop where
  code : ∃ l, P.image.code[t.pc]? = some (.call l)
  low : 8 ≤ (t.cpu.regs .rsp).toNat
  active : Active lo hi c { t.cpu with ram } (stage t.pc)

/-- All callers wait. -/
def Nested (ram : Ram) : List State → Prop
  | [] => True
  | t :: rest => Suspended P stage lo hi (P.opening first rest) ram t ∧ Nested ram rest

/-- The running procedure is active and all callers wait. -/
structure Orderly (calls : List State) (s : State) : Prop where
  active : Active lo hi (P.opening first calls) s.cpu (stage s.pc)
  nested : Nested P stage first lo hi s.cpu.ram calls

end

variable {P : Process} {g : Globals} {need : Bytes → Nat} {stage : Nat → Stage} {first : Cpu}
  {lo hi : Nat} {calls : List State} {s s' : State}

/-- Before and after a call there is a frame, and it is the same. -/
theorem Instr.Fits.of_call {label : Bytes → Stage → Prop} {l : Bytes} {st st' : Stage}
    (h : (Instr.call l).Fits g label st st') : st' = st ∧ ∃ r n, st = .inside r n := by
  cases h with
  | call => exact ⟨rfl, _, _, rfl⟩
  | quiet hq => cases hq.control

/-- Where a jump goes, the stage is the same. -/
theorem Instr.Fits.of_jump {label : Bytes → Stage → Prop} {l : Bytes} {st st' : Stage}
    (h : (Instr.jump l).Fits g label st st') : label l st := by
  cases h with
  | jump hl => exact hl
  | quiet hq => cases hq.control

/-- Where a jump goes that depends on a comparison, the stage is the same, and so it is after it. -/
theorem Instr.Fits.of_jumpIfEqual {label : Bytes → Stage → Prop} {l : Bytes} {st st' : Stage}
    (h : (Instr.jumpIfEqual l).Fits g label st st') : label l st ∧ st' = st := by
  cases h with
  | jumpIfEqual hl => exact ⟨hl, rfl⟩
  | quiet hq => cases hq.control

/-- An activation depends on no other registers and no other bytes of memory than those it is about.
-/
theorem Active.congr {c cur cur' : Cpu} {st : Stage} (h : Active lo hi c cur st)
    (hrsp : cur'.regs .rsp = cur.regs .rsp) (hrbp : cur'.regs .rbp = cur.regs .rbp)
    (hkept : cur'.kept = cur.kept) (hram : ∀ x, c.Vital x → cur'.ram x = cur.ram x) :
    Active lo hi c cur' st := by
  refine ⟨?_, hkept.trans h.kept, h.room, h.top, ?_, fun hs => ?_⟩
  · have hregs := h.regs
    cases st <;> simpa only [Stage.Holds, hrsp, hrbp] using hregs
  · rw [← h.back]
    exact Ram.read_congr fun x hx => hram x (.inl hx)
  · rw [← h.saved hs]
    exact Ram.read_congr fun x hx => hram x (.inr hx)

/-- The callers only depend on their vital bytes of memory. -/
theorem Nested.congr {ram ram' : Ram} (h : Nested P stage first lo hi ram calls)
    (hsame : ∀ c ∈ P.outer first calls, ∀ x, c.Vital x → ram' x = ram x) :
    Nested P stage first lo hi ram' calls := by
  induction calls with
  | nil => trivial
  | cons t rest ih =>
    obtain ⟨ht, hrest⟩ := h
    obtain ⟨hown, hothers⟩ := List.forall_mem_cons.1 hsame
    exact ⟨⟨ht.code, ht.low, ht.active.congr rfl rfl rfl hown⟩, ih hrest hothers⟩

/-- What callers need lies above what the running procedure needs. -/
theorem Nested.above (himg : P.image.HasStages g need stage) (harea : StackArea g P.data lo hi)
    {ram : Ram} (h : Nested P stage first lo hi ram calls) :
    ∀ c ∈ P.outer first calls, ∀ x, c.Vital x →
      ((P.opening first calls).regs .rsp).toNat + 8 ≤ x.toNat ∧ x.toNat < hi := by
  induction calls with
  | nil => nofun
  | cons t rest ih =>
    obtain ⟨ht, hrest⟩ := h
    obtain ⟨l, hcall⟩ := ht.code
    obtain ⟨-, r, n, hstage⟩ := (himg.staged _ _ hcall).of_call
    have hregs := ht.active.regs
    rw [hstage] at hregs
    have hrsp : (t.cpu.regs .rsp).toNat + 8 + n = ((P.opening first rest).regs .rsp).toNat :=
      hregs.1
    have htop := ht.active.top
    have hend := harea.top
    have hopen : ((P.opening first (t :: rest)).regs .rsp).toNat + 8
        = (t.cpu.regs .rsp).toNat := by
      have hsub : (t.cpu.regs .rsp - 8).toNat = (t.cpu.regs .rsp).toNat - 8 :=
        toNat_sub_ofNat (n := 8) ht.low
      have hlow := ht.low
      rw [Process.opening, Process.entered, Cpu.push_rsp]
      omega
    intro c hc x hx
    rcases List.mem_cons.1 hc with rfl | hc
    · have hnum := (Cpu.vital_iff (by omega) (by omega)).1 hx
      omega
    · have hnum := ih hrest c hc x hx
      omega

/-! ## Steps -/

namespace Orderly

/-- An instruction that leads to the next line. -/
theorem exec (h : Orderly P stage first lo hi calls s) (himg : P.image.HasStages g need stage)
    (hP : P.Hosts g lo hi) (hs : P.OnStack first need lo hi calls s) {i : Instr} {c : Cpu}
    (hcode : P.image.code[s.pc]? = some i) (he : i.exec P.data s.cpu = some c)
    (hthen : c.On lo hi) :
    Orderly P stage first lo hi calls ⟨c, s.pc + 1, s.trace⟩ := by
  have hfits := himg.staged _ _ hcode
  obtain ⟨hown, houter⟩ := List.forall_mem_cons.1 (hs.pointer i hcode)
  refine ⟨h.active.exec hfits he hP.area hs.on hthen hown, h.nested.congr fun c' hc' x hx => ?_⟩
  have habove := h.nested.above himg hP.area c' hc' x hx
  have hroom := h.active.room
  exact hfits.ram he hP.area hs.on hthen h.active (by omega) (by omega) habove.2
    (.inr (by omega)) (houter c' hc' x hx)

/-- The machine goes on at a position of the same stage. -/
theorem jump (h : Orderly P stage first lo hi calls s) {n : Nat} (hn : stage n = stage s.pc) :
    Orderly P stage first lo hi calls { s with pc := n } := by
  refine ⟨?_, h.nested⟩
  show Active lo hi _ _ (stage n)
  rw [hn]
  exact h.active

/-- A procedure is called: its caller waits. -/
theorem call (h : Orderly P stage first lo hi calls s) (himg : P.image.HasStages g need stage)
    (hP : P.Hosts g lo hi) (hs : P.OnStack first need lo hi calls s) {l : Bytes} {n : Nat}
    (hcode : P.image.code[s.pc]? = some (.call l)) (hn : P.image.entry l = some n)
    (hs' : P.OnStack first need lo hi (s :: calls) ⟨P.entered s, n, s.trace⟩) :
    Orderly P stage first lo hi (s :: calls) ⟨P.entered s, n, s.trace⟩ := by
  have hpush := hs.on.toNat_push hs'.on hP.area.half
  have hend := hP.area.top
  have hhigh := hs.on.2
  have htop := h.active.top
  obtain ⟨-, r, k, hstage⟩ := (himg.staged _ _ hcode).of_call
  have hregs := h.active.regs
  rw [hstage] at hregs
  have hrsp := hregs.1
  -- only the word below the stack pointer has changed
  have hram : ∀ x : Word, (s.cpu.regs .rsp).toNat ≤ x.toNat →
      (P.entered s).ram x = s.cpu.ram x := by
    intro x hx
    refine Ram.write_of_not_within fun hin => ?_
    rw [Size.bytes_word, within_iff (by omega)] at hin
    omega
  refine ⟨⟨?_, rfl, ?_, hs'.on.2, rfl, ?_⟩, ⟨⟨l, hcode⟩, by omega, ?_⟩, ?_⟩
  · show (stage n).Holds _ _
    rw [himg.entry l n hn]
    exact ⟨rfl, rfl⟩
  · show lo + (stage n).room ≤ _
    rw [himg.entry l n hn]
    exact hs'.room l hn
  · show (stage n).HasSaved → _
    rw [himg.entry l n hn]
    exact fun hfalse => hfalse.elim
  · refine h.active.congr rfl rfl rfl fun x hx => hram x ?_
    have hnum := (Cpu.vital_iff (by omega) (by omega)).1 hx
    omega
  · refine h.nested.congr fun c hc x hx => hram x ?_
    have habove := h.nested.above himg hP.area c hc x hx
    omega

/-- A routine of the runtime is called. -/
theorem service (h : Orderly P stage first lo hi calls s) (himg : P.image.HasStages g need stage)
    (hP : P.Hosts g lo hi) {l : Bytes} (hcode : P.image.code[s.pc]? = some (.call l))
    (v : Service) :
    Orderly P stage first lo hi calls (P.service v s) := by
  have hend := hP.area.top
  have htop := h.active.top
  obtain ⟨hnext, r, k, hstage⟩ := (himg.staged _ _ hcode).of_call
  have hregs := h.active.regs
  rw [hstage] at hregs
  obtain ⟨hrsp, hrbp⟩ := hregs
  have hram := hP.keeps.ram v s.trace s.cpu
  refine ⟨?_, h.nested.congr fun c hc x hx => hram x ?_⟩
  · show Active lo hi _ _ (stage (s.pc + 1))
    rw [hnext]
    refine h.active.congr (hP.keeps.rsp ..) (hP.keeps.rbp ..) (hP.keeps.kept ..) fun x hx => ?_
    have hnum := (Cpu.vital_iff (by omega) (by omega)).1 hx
    exact hram x (by omega)
  · have habove := h.nested.above himg hP.area c hc x hx
    omega

/-- At a return the registers are what they were when the procedure was entered, and the return
address is on top of the stack. -/
theorem at_ret (h : Orderly P stage first lo hi calls s) (himg : P.image.HasStages g need stage)
    (hcode : P.image.code[s.pc]? = some .ret) :
    s.cpu.regs .rsp = (P.opening first calls).regs .rsp ∧
      s.cpu.regs .rbp = (P.opening first calls).regs .rbp ∧
      s.cpu.kept = (P.opening first calls).kept ∧ s.cpu.top = (P.opening first calls).top := by
  have hregs := h.active.regs
  have hfits := himg.staged _ _ hcode
  generalize stage s.pc = st at hregs hfits
  generalize stage (s.pc + 1) = st' at hfits
  cases hfits with
  | ret =>
    refine ⟨hregs.1, hregs.2, h.active.kept, ?_⟩
    rw [Cpu.top, hregs.1]
    exact h.active.back
  | quiet hq => cases hq.control

/-- A return goes back to the line after the call, with the stack pointer, the frame pointer and the
registers that no instruction names as they were at the call. -/
theorem returns {t : State} (h : Orderly P stage first lo hi (t :: calls) s)
    (himg : P.image.HasStages g need stage) (hP : P.Hosts g lo hi)
    (hcode : P.image.code[s.pc]? = some .ret) :
    ∃ s', P.step s = some s' ∧ s'.pc = t.pc + 1 ∧ s'.cpu.regs .rsp = t.cpu.regs .rsp ∧
      s'.cpu.regs .rbp = t.cpu.regs .rbp ∧ s'.cpu.kept = t.cpu.kept ∧ s'.cpu.ram = s.cpu.ram := by
  obtain ⟨hrsp, hrbp, hkept, htop⟩ := h.at_ret himg hcode
  obtain ⟨l, hcall⟩ := h.nested.1.code
  obtain ⟨hnext, r, n, hstage⟩ := (himg.staged _ _ hcall).of_call
  have hlt : t.pc + 1 < P.image.code.length := by
    obtain ⟨hpc, -⟩ := List.getElem?_eq_some_iff.1 hcall
    obtain ⟨room, hroom⟩ := himg.finish
    refine Nat.lt_of_le_of_ne hpc fun heq => ?_
    rw [heq, hroom, hstage] at hnext
    cases hnext
  have haddr : s.cpu.top = P.place (t.pc + 1) := by
    rw [htop, Process.opening, Process.entered, Cpu.top, Cpu.push_rsp, Cpu.push_ram,
      Ram.read_write_self, Size.clip_word]
  refine ⟨⟨s.cpu.drop, t.pc + 1, s.trace⟩, ?_, rfl, ?_, ?_, hkept, rfl⟩
  · simp [Process.step, hcode, haddr, Process.position?_place hP.place hlt]
  · show s.cpu.drop.regs .rsp = _
    rw [Cpu.drop_rsp, hrsp, Process.opening, Process.entered, Cpu.push_rsp, BitVec.sub_add_cancel]
  · show s.cpu.drop.regs .rbp = _
    rw [Cpu.drop_regs_of_ne _ (by decide), hrbp, Process.opening, Process.entered,
      Cpu.push_regs_of_ne _ (by decide)]

/-- Every step keeps the order. -/
theorem step (h : Orderly P stage first lo hi calls s) (himg : P.image.HasStages g need stage)
    (hP : P.Hosts g lo hi) (hfirst : P.position? first.top = none)
    (hs : P.OnStack first need lo hi calls s) (hstep : P.step s = some s')
    (hs' : P.OnStack first need lo hi (P.track s calls) s') :
    Orderly P stage first lo hi (P.track s calls) s' := by
  cases Process.moves_of_step hstep with
  | @exec i c hcode he =>
    have htrack : P.track s calls = calls := by
      unfold Process.track
      rw [hcode]
      cases i with
      | call | ret => cases he
      | _ => rfl
    rw [htrack]
    exact h.exec himg hP hs hcode he hs'.on
  | jump hcode hn =>
    rw [Process.track, hcode]
    exact h.jump ((himg.staged _ _ hcode).of_jump _ hn)
  | taken hcode hn =>
    rw [Process.track, hcode]
    exact h.jump ((himg.staged _ _ hcode).of_jumpIfEqual.1 _ hn)
  | passed hcode =>
    rw [Process.track, hcode]
    exact h.jump (himg.staged _ _ hcode).of_jumpIfEqual.2
  | call hcode hn =>
    have htrack : P.track s calls = s :: calls := by simp [Process.track, hcode, hn]
    rw [htrack] at hs' ⊢
    exact h.call himg hP hs hcode (himg.call _ _ hcode ▸ hn) hs'
  | service v hcode hn =>
    have htrack : P.track s calls = calls := by simp [Process.track, hcode, hn]
    rw [htrack]
    exact h.service himg hP hcode v
  | ret hcode hn =>
    cases calls with
    | nil =>
      obtain ⟨-, -, -, htop⟩ := h.at_ret himg hcode
      rw [htop] at hn
      exact nomatch hfirst.symm.trans hn
    | cons t rest =>
      have htrack : P.track s (t :: rest) = rest := by simp [Process.track, hcode]
      rw [htrack]
      obtain ⟨s'', hs'', hpc, hrsp, hrbp, hkept, hram⟩ := h.returns himg hP hcode
      obtain rfl := Option.some.inj (hs''.symm.trans hstep)
      obtain ⟨⟨⟨l, hcall⟩, -, hactive⟩, hnested⟩ := h.nested
      have hnext := (himg.staged _ _ hcall).of_call.1
      refine ⟨?_, hnested⟩
      rw [hpc, hnext]
      exact hactive.congr hrsp hrbp hkept fun x _ => rfl

end Orderly

/-- A procedure that was entered just now. -/
theorem Orderly.start (himg : P.image.HasStages g need stage) {l : Bytes}
    (hl : P.image.entry l = some s.pc) (hs : P.OnStack s.cpu need lo hi [] s) :
    Orderly P stage s.cpu lo hi [] s := by
  refine ⟨⟨?_, rfl, ?_, hs.on.2, rfl, ?_⟩, trivial⟩
  · rw [himg.entry l _ hl]
    exact ⟨rfl, rfl⟩
  · rw [himg.entry l _ hl]
    exact hs.room l hl
  · rw [himg.entry l _ hl]
    exact fun hfalse => hfalse.elim

/-- Every run keeps the order, whatever calls it makes, as long as it does not leave the stack. -/
theorem Orderly.run (himg : P.image.HasStages g need stage) (hP : P.Hosts g lo hi) {l : Bytes}
    (hl : P.image.entry l = some s.pc) (hfirst : P.position? s.cpu.top = none) {n : Nat}
    (hrun : P.run n s = some s')
    (hstack : ∀ m t, m ≤ n → P.run m s = some t →
      P.OnStack s.cpu need lo hi (P.pending s m) t) :
    Orderly P stage s.cpu lo hi (P.pending s n) s' := by
  refine Process.pending_induct (.start himg hl (hstack 0 s (Nat.zero_le n) rfl)) ?_ hrun
  intro m t t' hm ht ht' hstep h
  have hthen := hstack (m + 1) t' hm ht'
  rw [Process.pending_succ ht] at hthen
  exact h.step himg hP hfirst (hstack m t (Nat.le_of_lt hm) ht) hstep hthen

end QuadAsm.Machine
