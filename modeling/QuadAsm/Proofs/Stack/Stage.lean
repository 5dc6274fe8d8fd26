import QuadAsm.Proofs.Emit.Footprint
import QuadAsm.Proofs.Emit.Program

/-!
# Stages of a procedure

How the running procedure uses the stack can be told from the position of the code. A `Stage` says
how far the procedure has come with its frame and how many bytes it has taken below it, and
`Instr.Fits` says to which stage an instruction leads. Code is `Staged` by a function from positions
to stages when each of its instructions leads to the stage of the next position. Main result: blocks
that lead from stage to stage are staged as a whole (`exists_staged_of_blocks`).
-/

namespace QuadAsm.Machine

open Layout

/-- What the running procedure has done with the stack. The room is the number of bytes that its
variables reach below the frame pointer. -/
inductive Stage where
  /-- It has no frame: it was called just now, or it is about to return. -/
  | outside (room : Nat)
  /-- It has saved the frame pointer of its caller. -/
  | saved (room : Nat)
  /-- Its frame pointer points to the saved one. -/
  | linked (room : Nat)
  /-- It has a frame and has taken `taken` bytes below the saved frame pointer. -/
  | inside (room taken : Nat)
  deriving DecidableEq, Repr

namespace Stage

/-- The room that the variables take. -/
def room : Stage → Nat
  | outside r | saved r | linked r | inside r _ => r

/-- Whether the frame pointer of the caller is on the stack. -/
def HasSaved : Stage → Prop
  | outside _ => False
  | saved _ | linked _ | inside _ _ => True

end Stage

namespace Instr

/-- An instruction that has nothing to do with the frame. -/
structure Quiet (g : Globals) (room : Nat) (i : Instr) : Prop where
  control : i.isControl = false
  rsp : .rsp ∉ i.writes
  rbp : .rbp ∉ i.writes
  aims : i.Aims g room

/-- An instruction that writes neither the stack pointer nor the frame pointer keeps the stage. -/
theorem Works.quiet {g : Globals} {room : Nat} {rs : List Register} {i : Instr}
    (h : i.Works g room rs) (hrsp : .rsp ∉ rs) (hrbp : .rbp ∉ rs) : i.Quiet g room :=
  ⟨h.control, fun hmem => hrsp (h.writes _ hmem), fun hmem => hrbp (h.writes _ hmem), h.aims⟩

/-- The stage that an instruction leads to, given the stages of the labels. What stands after a jump
or a return may have any stage. -/
inductive Fits (g : Globals) (label : Bytes → Stage → Prop) : Instr → Stage → Stage → Prop where
  | save {r : Nat} : Fits g label (.push .rbp) (.outside r) (.saved r)
  | link {r : Nat} : Fits g label (.move .rsp .rbp) (.saved r) (.linked r)
  | frame {r : Nat} : Fits g label (.arithConst .add 8 .rbp) (.linked r) (.inside r 0)
  | lower {r n m : Nat} {v : Int64} : v.toBitVec = BitVec.ofNat 64 m → m < 2 ^ 63 + 8 →
      Fits g label (.arithConst .sub v .rsp) (.inside r n) (.inside r (n + m))
  | raise {r n m : Nat} {v : Int64} : v.toBitVec = BitVec.ofNat 64 m →
      Fits g label (.arithConst .add v .rsp) (.inside r (n + m)) (.inside r n)
  | push {r n : Nat} {reg : Register} :
      Fits g label (.push reg) (.inside r n) (.inside r (n + 8))
  | restore {r : Nat} : Fits g label (.pop .rbp) (.inside r 0) (.outside r)
  | quiet {r n : Nat} {i : Instr} : i.Quiet g r → Fits g label i (.inside r n) (.inside r n)
  | call {r n : Nat} {l : Bytes} : Fits g label (.call l) (.inside r n) (.inside r n)
  | jump {r n : Nat} {l : Bytes} {st : Stage} : label l (.inside r n) →
      Fits g label (.jump l) (.inside r n) st
  | jumpIfEqual {r n : Nat} {l : Bytes} : label l (.inside r n) →
      Fits g label (.jumpIfEqual l) (.inside r n) (.inside r n)
  | ret {r : Nat} {st : Stage} : Fits g label .ret (.outside r) st

end Instr

variable {g : Globals} {label : Bytes → Stage → Prop}

/-- Every instruction leads to the stage of the next position. -/
def Staged (g : Globals) (label : Bytes → Stage → Prop) (code : List Instr) (stage : Nat → Stage) :
    Prop :=
  ∀ (n : Nat) (i : Instr), code[n]? = some i → i.Fits g label (stage n) (stage (n + 1))

/-- More can be said about the labels. -/
theorem Staged.mono {label' : Bytes → Stage → Prop} {code : List Instr} {stage : Nat → Stage}
    (h : Staged g label code stage) (hlabel : ∀ l st, label l st → label' l st) :
    Staged g label' code stage := by
  intro n i hi
  have hfits := h n i hi
  generalize stage n = st, stage (n + 1) = st' at hfits
  cases hfits with
  | save => exact .save
  | link => exact .link
  | frame => exact .frame
  | lower hv hm => exact .lower hv hm
  | raise hv => exact .raise hv
  | push => exact .push
  | restore => exact .restore
  | quiet hq => exact .quiet hq
  | call => exact .call
  | jump hl => exact .jump (hlabel _ _ hl)
  | jumpIfEqual hl => exact .jumpIfEqual (hlabel _ _ hl)
  | ret => exact .ret

/-- Code that leads from one stage to another. -/
def Flows (g : Globals) (label : Bytes → Stage → Prop) (st : Stage) (code : List Instr)
    (st' : Stage) : Prop :=
  ∃ stage, stage 0 = st ∧ stage code.length = st' ∧ Staged g label code stage

/-- The stages of `len` positions, and then those of others. -/
def glue (len : Nat) (σ τ : Nat → Stage) (n : Nat) : Stage := if n < len then σ n else τ (n - len)

/-- Up to the seam the stages are those of the first part. -/
theorem glue_of_le {len n : Nat} {σ τ : Nat → Stage} (h : σ len = τ 0) (hn : n ≤ len) :
    glue len σ τ n = σ n := by
  unfold glue
  split
  · rfl
  · obtain rfl : n = len := by omega
    rw [Nat.sub_self, h]

@[simp] theorem glue_add (len n : Nat) (σ τ : Nat → Stage) : glue len σ τ (len + n) = τ n := by
  unfold glue
  rw [if_neg (by omega), Nat.add_sub_cancel_left]

/-- No code has any stages. -/
theorem Staged.nil (σ : Nat → Stage) : Staged g label [] σ := by
  intro n i hi
  simp at hi

/-- Code after code. -/
theorem Staged.append {a b : List Instr} {σ τ : Nat → Stage} (ha : Staged g label a σ)
    (hb : Staged g label b τ) (h : σ a.length = τ 0) :
    Staged g label (a ++ b) (glue a.length σ τ) := by
  intro n i hi
  rcases Nat.lt_or_ge n a.length with hn | hn
  · rw [List.getElem?_append_left hn] at hi
    rw [glue_of_le h (Nat.le_of_lt hn), glue_of_le h hn]
    exact ha n i hi
  · obtain ⟨k, rfl⟩ := Nat.exists_eq_add_of_le hn
    rw [List.getElem?_append_right hn, Nat.add_sub_cancel_left] at hi
    rw [Nat.add_assoc, glue_add, glue_add]
    exact hb k i hi

namespace Flows

/-- No code leads from a stage to itself. -/
theorem nil (st : Stage) : Flows g label st [] st :=
  ⟨fun _ => st, rfl, rfl, .nil _⟩

/-- One instruction. -/
theorem single {i : Instr} {st st' : Stage} (h : i.Fits g label st st') :
    Flows g label st [i] st' := by
  refine ⟨fun n => if n = 0 then st else st', rfl, rfl, fun n j hj => ?_⟩
  cases n with
  | zero => cases hj; exact h
  | succ n => cases hj

/-- Code after code. -/
theorem append {a b : List Instr} {st st₁ st₂ : Stage} (ha : Flows g label st a st₁)
    (hb : Flows g label st₁ b st₂) : Flows g label st (a ++ b) st₂ := by
  obtain ⟨σ, hσ, hσ', hstaged⟩ := ha
  obtain ⟨τ, hτ, hτ', hstaged'⟩ := hb
  have h : σ a.length = τ 0 := hσ'.trans hτ.symm
  refine ⟨glue a.length σ τ, ?_, ?_, hstaged.append hstaged' h⟩
  · rw [glue_of_le h (Nat.zero_le _), hσ]
  · rw [List.length_append, glue_add, hτ']

/-- An instruction leads to the stage where the rest begins. -/
theorem cons {i : Instr} {rest : List Instr} {st st₁ st₂ : Stage} (hi : i.Fits g label st st₁)
    (h : Flows g label st₁ rest st₂) : Flows g label st (i :: rest) st₂ :=
  (single hi).append h

/-- Code that changes neither the stack pointer nor the frame pointer. -/
theorem footprint {code : List Instr} {r : Nat} {rs : List Register} (h : Footprint g r rs code)
    (hrsp : .rsp ∉ rs) (hrbp : .rbp ∉ rs) (n : Nat) :
    Flows g label (.inside r n) code (.inside r n) := by
  induction code with
  | nil => exact nil _
  | cons i rest ih =>
    obtain ⟨hi, hrest⟩ := List.forall_mem_cons.1 h
    exact cons (.quiet (hi.quiet hrsp hrbp)) (ih hrest)

end Flows

/-- Blocks that lead from mark to mark: their code is staged, and each block starts at its mark. -/
theorem exists_staged_of_blocks {blocks : List (List Instr)} {mark : Nat → Stage}
    (h : ∀ k block, blocks[k]? = some block → Flows g label (mark k) block (mark (k + 1))) :
    ∃ stage, (∀ k ≤ blocks.length, stage (start blocks k) = mark k) ∧
      Staged g label blocks.flatten stage := by
  induction blocks generalizing mark with
  | nil =>
    refine ⟨fun _ => mark 0, fun k hk => ?_, .nil _⟩
    rw [Nat.le_zero.1 hk]
  | cons block rest ih =>
    obtain ⟨σ, hσ, hσ', hstaged⟩ := h 0 block rfl
    obtain ⟨τ, hτ, hstaged'⟩ := ih fun k b hb => h (k + 1) b hb
    have hglue : σ block.length = τ 0 := by
      rw [hσ']
      exact (hτ 0 (Nat.zero_le _)).symm
    refine ⟨glue block.length σ τ, fun k hk => ?_, hstaged.append hstaged' hglue⟩
    cases k with
    | zero => exact (glue_of_le hglue (Nat.zero_le _)).trans hσ
    | succ k =>
      have hstart : start (block :: rest) (k + 1) = block.length + start rest k := by
        simp [start]
      rw [hstart, glue_add]
      exact hτ k (Nat.le_of_succ_le_succ hk)

end QuadAsm.Machine
