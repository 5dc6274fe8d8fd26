import QuadAsm.Proofs.Emit.Step

/-!
# Stores in memory

When a store is in memory: every variable that code can reach holds its value, and every pointer
that was set holds the address of what it points to (`Context.Matches`). Then operands have in
memory the values they have in the store (`Matches.valueOf`), and writing to the variable an operand
stands for is assigning to the operand (`Matches.assign`), because the variables are separate from
each other.
-/

namespace QuadAsm.Emit.Context

open Machine

variable (ctx : Context) (data : Bytes → Word) (frame : Word)

/-- The variables that code can reach do not overlap. -/
def Separate : Prop :=
  ∀ v w, ctx.Knows v → ctx.Knows w → v ≠ w →
    Apart (ctx.address data frame v) v.holds.bytes (ctx.address data frame w) w.holds.bytes

/-- The address `x` belongs to a variable that code can reach. -/
def Owns (x : Word) : Prop :=
  ∃ v, ctx.Knows v ∧ Within x (ctx.address data frame v) v.holds.bytes

/-- A store is in memory. -/
structure Matches (σ : Store) (ram : Ram) : Prop where
  value : ∀ v, ctx.Knows v → v.form ≠ .pointer →
    ram.read (ctx.address data frame v) v.size = σ.read v
  pointee : ∀ p v, ctx.Knows p → p.form = .pointer → σ.pointee p = some v →
    ctx.Knows v ∧ v.form ≠ .pointer ∧
      ram.read (ctx.address data frame p) .word = ctx.address data frame v

variable {ctx data frame} {σ : Store} {ram : Ram}

/-- What is not a pointer has the size of its value. -/
theorem holds_of_ne {v : Variable} (h : v.form ≠ .pointer) : v.holds = v.size := if_neg h

/-- Pointers hold words. -/
theorem holds_of_eq {v : Variable} (h : v.form = .pointer) : v.holds = .word := if_pos h

/-- Writing to a variable leaves alone what belongs to no variable. -/
theorem write_of_not_owns {v : Variable} (hv : ctx.Knows v) {w : Word} {size : Size}
    (hsize : size = v.holds) {x : Word} (hx : ¬ ctx.Owns data frame x) :
    ram.write (ctx.address data frame v) size w x = ram x :=
  Ram.write_of_not_within fun h => hx ⟨v, hv, hsize ▸ h⟩

namespace Matches

/-- What an operand stands for, in the store and in memory. -/
theorem referent (hm : ctx.Matches data frame σ ram) {v u : Variable} (hv : ctx.Knows v)
    (h : σ.referent? v = some u) :
    ctx.Knows u ∧ u.form ≠ .pointer ∧ u.size = v.size ∧
      ctx.target data frame ram v = ctx.address data frame u := by
  unfold Store.referent? at h
  cases hf : v.form with
  | symbol | temporary =>
    simp only [hf] at h
    cases h
    exact ⟨hv, by simp [hf], rfl, by simp [target, hf]⟩
  | pointer =>
    simp only [hf, Option.filter_eq_some_iff, decide_eq_true_eq] at h
    obtain ⟨hp, hw⟩ := h
    obtain ⟨hu, huf, hread⟩ := hm.pointee v u hv hf hp
    exact ⟨hu, huf, by rw [Variable.size, hw, Variable.size], by simp [target, hf, hread]⟩

/-- An operand has in memory the value that it has in the store. -/
theorem valueOf (hm : ctx.Matches data frame σ ram) {opd : Operand} {reg : Register}
    {code : List Instr} (hl : ctx.loadValue opd reg = .ok code) {w : Word}
    (h : σ.eval? (ctx.textAddress data) opd = some w) : ctx.valueOf data frame ram opd = w := by
  cases opd with
  | var v =>
    obtain ⟨u, hu, rfl⟩ := Option.map_eq_some_iff.1 h
    obtain ⟨hk, hf, hsize, htarget⟩ := hm.referent (knows_of_loadValue hl) hu
    rw [Context.valueOf, htarget, ← hsize, hm.value u hk hf]
  | lit l =>
    cases l with
    | string text => cases h; rfl
    | int | bool | char | malformed => cases h; rfl
  | absent => cases h

/-- Only the memory of the variables counts. -/
theorem congr (hm : ctx.Matches data frame σ ram) {ram' : Ram}
    (h : ∀ x, ctx.Owns data frame x → ram' x = ram x) : ctx.Matches data frame σ ram' := by
  refine ⟨fun v hv hvf => ?_, fun p v hp hpf hv => ?_⟩
  · rw [← hm.value v hv hvf]
    exact Ram.read_congr fun x hx => h x ⟨v, hv, by rwa [holds_of_ne hvf]⟩
  · obtain ⟨hk, hf, hread⟩ := hm.pointee p v hp hpf hv
    rw [← hread]
    exact ⟨hk, hf, Ram.read_congr fun x hx => h x ⟨p, hp, by rwa [holds_of_eq hpf]⟩⟩

/-- Writing to a variable gives it the value. -/
theorem put (hm : ctx.Matches data frame σ ram) (hs : ctx.Separate data frame) {u : Variable}
    (hu : ctx.Knows u) (huf : u.form ≠ .pointer) (w : Word) :
    ctx.Matches data frame (σ.put u w) (ram.write (ctx.address data frame u) u.size w) := by
  refine ⟨fun v hv hvf => ?_, fun p v hp hpf hv => ?_⟩
  · by_cases hvu : v = u
    · subst hvu
      simp
    · have hap := hs v u hv hu hvu
      rw [holds_of_ne hvf, holds_of_ne huf] at hap
      rw [Ram.read_write_apart hap, hm.value v hv hvf, Store.read_put_of_ne hvu]
  · obtain ⟨hk, hf, hread⟩ := hm.pointee p v hp hpf hv
    have hpu : p ≠ u := by
      rintro rfl
      exact huf hpf
    have hap := hs p u hp hu hpu
    rw [holds_of_eq hpf, holds_of_ne huf] at hap
    exact ⟨hk, hf, by rw [Ram.read_write_apart hap, hread]⟩

/-- Writing to a pointer lets it point elsewhere. -/
theorem point (hm : ctx.Matches data frame σ ram) (hs : ctx.Separate data frame) {p : Variable}
    (hp : ctx.Knows p) (hpf : p.form = .pointer) {referent : Option Variable} {w : Word}
    (hr : ∀ v, referent = some v →
      ctx.Knows v ∧ v.form ≠ .pointer ∧ w = ctx.address data frame v) :
    ctx.Matches data frame (σ.point p referent)
      (ram.write (ctx.address data frame p) .word w) := by
  refine ⟨fun v hv hvf => ?_, fun p' v hp' hpf' hv => ?_⟩
  · have hvp : v ≠ p := by
      rintro rfl
      exact hvf hpf
    have hap := hs v p hv hp hvp
    rw [holds_of_ne hvf, holds_of_eq hpf] at hap
    rw [Ram.read_write_apart hap, hm.value v hv hvf, Store.read_point]
  · by_cases hpp : p' = p
    · subst hpp
      rw [Store.pointee_point_self] at hv
      obtain ⟨hk, hf, rfl⟩ := hr v hv
      exact ⟨hk, hf, by simp⟩
    · rw [Store.pointee_point_of_ne hpp] at hv
      obtain ⟨hk, hf, hread⟩ := hm.pointee p' v hp' hpf' hv
      have hap := hs p' p hp' hp hpp
      rw [holds_of_eq hpf', holds_of_eq hpf] at hap
      exact ⟨hk, hf, by rw [Ram.read_write_apart hap, hread]⟩

/-- Writing to what an operand stands for is assigning to the operand, and nothing else changes. -/
theorem assign (hm : ctx.Matches data frame σ ram) (hs : ctx.Separate data frame) {v : Variable}
    (hv : ctx.Knows v) {w : Word} {σ' : Store} (h : σ.assign? v w = some σ') :
    ctx.Matches data frame σ' (ram.write (ctx.target data frame ram v) v.size w) ∧
      ∀ x, ¬ ctx.Owns data frame x →
        ram.write (ctx.target data frame ram v) v.size w x = ram x := by
  obtain ⟨u, hu, rfl⟩ := Option.map_eq_some_iff.1 h
  obtain ⟨hk, hf, hsize, htarget⟩ := hm.referent hv hu
  rw [htarget, ← hsize]
  exact ⟨hm.put hs hk hf w, fun x hx => write_of_not_owns hk (holds_of_ne hf).symm hx⟩

/-- Writing the address of an operand to a pointer lets it point to the operand. -/
theorem pointTo (hm : ctx.Matches data frame σ ram) (hs : ctx.Separate data frame) {p : Variable}
    (hp : ctx.Knows p) (hpf : p.form = .pointer) {src : Operand} {reg : Register}
    {code : List Instr} (hl : ctx.loadAddress src reg = .ok code) {σ' : Store}
    (h : σ.pointTo? src p = some σ') :
    ctx.Matches data frame σ'
      (ram.write (ctx.address data frame p) .word (ctx.target data frame ram src)) := by
  unfold Store.pointTo? at h
  simp only [hpf] at h
  cases src with
  | var v =>
    have hv := knows_of_loadAddress hl
    cases hf : v.form with
    | symbol | temporary =>
      simp only [hf] at h
      cases h
      refine hm.point hs hp hpf fun u hu => ?_
      cases hu
      exact ⟨hv, by simp [hf], by simp [target, hf]⟩
    | pointer =>
      simp only [hf] at h
      cases h
      refine hm.point hs hp hpf fun u hu => ?_
      obtain ⟨hk, huf, hread⟩ := hm.pointee v u hv hf hu
      exact ⟨hk, huf, by simp [target, hf, hread]⟩
  | lit l =>
    cases l with
    | string text =>
      cases h
      exact hm.point hs hp hpf fun u hu => by cases hu
    | int | bool | char | malformed => cases h
  | absent => cases h

end Matches

end QuadAsm.Emit.Context
