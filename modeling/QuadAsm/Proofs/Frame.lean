import QuadAsm.Proofs.Layout
import QuadAsm.Proofs.Outcome

/-!
# When a procedure has a frame, and which

A frame is laid out variable by variable. The work stops at the first variable that cannot have a
slot, because of its width or because it has one already, and the rejection is about that variable
(`Frame.assignSlots_eq_error`). Otherwise the frame is determined by the order of the variables: the
place of a variable in this order gives its offset (`Frame.offset?_eq_some_iff`), and their number
gives the size. Main result: `frame_is_exact`.
-/

namespace QuadAsm

open Layout

/-- The variables of a procedure in the order of their slots. -/
def Procedure.variables (p : Procedure) : List Variable :=
  p.temps ++ p.locals ++ p.formals ++ p.addrs

namespace Layout

/-- Variables that can all have slots in one frame. -/
structure Fitting (vs : List Variable) : Prop where
  width : ∀ v ∈ vs, v.width = 1 ∨ v.width = 8
  nodup : vs.Nodup

/-- What is wrong with a variable when those of `taken` have slots: the rejection and its category.
The width is looked at first. -/
inductive SlotFault (procedure : Bytes) (taken : List Variable) (v : Variable) (role : Role) :
    Rejection → Category → Prop where
  | width : v.width ≠ 1 → v.width ≠ 8 →
      SlotFault procedure taken v role (.slotWidth role v procedure) .unimplemented
  | taken : v.width = 1 ∨ v.width = 8 → v ∈ taken →
      SlotFault procedure taken v role (.slotTaken role v procedure) .duplicateSymbol

/-- Variables are bytes or words. -/
theorem isSupportedWidth_iff {width : Int} :
    isSupportedWidth width = true ↔ width = 1 ∨ width = 8 := by
  simp [isSupportedWidth, byteWidth, wordWidth]

/-- A fault depends on which variables have slots, not on their order. -/
theorem SlotFault.congr {procedure : Bytes} {taken taken' : List Variable} {v : Variable}
    {role : Role} {e : Rejection} {c : Category} (h : v ∈ taken ↔ v ∈ taken') :
    SlotFault procedure taken v role e c ↔ SlotFault procedure taken' v role e c := by
  constructor
  · rintro (⟨h1, h8⟩ | ⟨hw, hmem⟩)
    · exact .width h1 h8
    · exact .taken hw (h.1 hmem)
  · rintro (⟨h1, h8⟩ | ⟨hw, hmem⟩)
    · exact .width h1 h8
    · exact .taken hw (h.2 hmem)

namespace Frame

variable {name : Bytes} {taken : List Variable} {offset : Int} {v : Variable} {role : Role}
  {rest : List (Variable × Role)} {e : Rejection}

/-- The first variable has a slot, and the others have theirs below it. -/
theorem assignSlots_cons (hwidth : v.width = 1 ∨ v.width = 8) (hv : v ∉ taken) :
    assignSlots name taken offset ((v, role) :: rest) =
      (do
        let slots ← assignSlots name (v :: taken) (offset - slotSize) rest
        pure (⟨v, role, offset⟩ :: slots)) := by
  rw [assignSlots, if_neg (by simpa using isSupportedWidth_iff.2 hwidth), if_neg hv]

/-- The first variable cannot have a slot. -/
theorem assignSlots_of_fault {c : Category} (h : SlotFault name taken v role e c) :
    assignSlots name taken offset ((v, role) :: rest) = .error e := by
  cases h with
  | width h1 h8 =>
    have hnot : isSupportedWidth v.width = false := by
      rw [Bool.eq_false_iff, Ne, isSupportedWidth_iff]
      exact not_or.2 ⟨h1, h8⟩
    rw [assignSlots, if_pos (by simp [hnot])]
  | taken hwidth hmem =>
    rw [assignSlots, if_neg (by simpa using isSupportedWidth_iff.2 hwidth), if_pos hmem]

/-- A variable can have a slot, or there is something wrong with it. -/
theorem fits_or_fault (name : Bytes) (taken : List Variable) (v : Variable) (role : Role) :
    ((v.width = 1 ∨ v.width = 8) ∧ v ∉ taken) ∨ ∃ e c, SlotFault name taken v role e c := by
  by_cases hwidth : v.width = 1 ∨ v.width = 8
  · by_cases hv : v ∈ taken
    · exact .inr ⟨_, _, .taken hwidth hv⟩
    · exact .inl ⟨hwidth, hv⟩
  · obtain ⟨h1, h8⟩ := not_or.1 hwidth
    exact .inr ⟨_, _, .width h1 h8⟩

/-- Slots are refused for the first variable that something is wrong with, given that those before
it have theirs. -/
theorem assignSlots_eq_error {vs : List (Variable × Role)} :
    assignSlots name taken offset vs = .error e ↔
      ∃ before v role after, vs = before ++ (v, role) :: after ∧
        (∃ slots, assignSlots name taken offset before = .ok slots) ∧
        SlotFault name (before.map (·.1) ++ taken) v role e e.category := by
  induction vs generalizing taken offset with
  | nil =>
    constructor
    · intro h
      cases h
    · rintro ⟨before, v, role, after, hsplit, -⟩
      simp at hsplit
  | cons head rest ih =>
    obtain ⟨v, role⟩ := head
    rcases fits_or_fault name taken v role with ⟨hwidth, hv⟩ | ⟨e', c, hfault⟩
    · rw [assignSlots_cons hwidth hv, ← error?_eq_some, error?_bind_pure, error?_eq_some, ih]
      constructor
      · rintro ⟨before, u, role', after, rfl, ⟨slots, hslots⟩, hfault⟩
        refine ⟨(v, role) :: before, u, role', after, rfl, ?_, (SlotFault.congr ?_).1 hfault⟩
        · rw [assignSlots_cons hwidth hv, hslots]
          exact ⟨_, rfl⟩
        · simp only [List.mem_append, List.mem_cons, List.map_cons]
          tauto
      · rintro ⟨before, u, role', after, hsplit, ⟨slots, hslots⟩, hfault⟩
        cases before with
        | nil =>
          -- the first variable itself, with which nothing is wrong
          cases hsplit
          cases hfault with
          | width h1 h8 => exact absurd hwidth (not_or.2 ⟨h1, h8⟩)
          | taken _ hmem => exact absurd hmem hv
        | cons first before =>
          cases hsplit
          rw [assignSlots_cons hwidth hv] at hslots
          obtain ⟨others, hothers, -⟩ := bind_eq_ok.1 hslots
          refine ⟨before, u, role', after, rfl, ⟨others, hothers⟩, (SlotFault.congr ?_).1 hfault⟩
          simp only [List.mem_append, List.mem_cons, List.map_cons]
          tauto
    · rw [assignSlots_of_fault hfault]
      have hcategory : e'.category = c := by cases hfault <;> rfl
      constructor
      · intro h
        cases h
        exact ⟨[], v, role, rest, rfl, ⟨[], rfl⟩, hcategory ▸ hfault⟩
      · rintro ⟨before, u, role', after, hsplit, ⟨slots, hslots⟩, hfault'⟩
        cases before with
        | nil =>
          cases hsplit
          have hsame : assignSlots name taken offset ((v, role) :: rest) = .error e :=
            assignSlots_of_fault hfault'
          rwa [assignSlots_of_fault hfault] at hsame
        | cons first before =>
          cases hsplit
          rw [assignSlots_of_fault hfault] at hslots
          cases hslots

/-! ## Procedures -/

section
variable {p : Procedure}

/-- Some of the variables of a procedure, from the first one on, have slots when they fit. -/
theorem exists_assignSlots_iff (name : Bytes) (offset : Int) {vs : List (Variable × Role)} :
    (∃ slots, assignSlots name [] offset vs = .ok slots) ↔ Fitting (vs.map (·.1)) := by
  constructor
  · rintro ⟨slots, hslots⟩
    obtain ⟨-, hnodup, hall⟩ := assignSlots_ok hslots
    exact ⟨fun v hv => isSupportedWidth_iff.1 (hall v hv).2, hnodup⟩
  · intro h
    exact exists_assignSlots name offset h.nodup fun v hv =>
      ⟨List.not_mem_nil, isSupportedWidth_iff.2 (h.width v hv)⟩

/-- A procedure has a frame when its variables fit. -/
theorem exists_assign_iff : (∃ f, Frame.assign p = .ok f) ↔ Fitting p.variables := by
  rw [Procedure.variables, ← map_fst_ownedVariables, ← exists_assignSlots_iff p.name frameBase]
  constructor
  · rintro ⟨f, hf⟩
    obtain ⟨slots, hslots, -⟩ := bind_eq_ok.1 hf
    exact ⟨slots, hslots⟩
  · rintro ⟨slots, hslots⟩
    exact ⟨_, bind_eq_ok.2 ⟨slots, hslots, rfl⟩⟩

/-- A procedure is refused when its variables do not fit. -/
theorem exists_error_iff : (∃ e, Frame.assign p = .error e) ↔
    (∃ v ∈ p.variables, v.width ≠ 1 ∧ v.width ≠ 8) ∨ ¬ p.variables.Nodup := by
  have hnot : (∃ e, Frame.assign p = .error e) ↔ ¬ Fitting p.variables := by
    rw [← exists_assign_iff]
    cases Frame.assign p <;> simp
  rw [hnot]
  constructor
  · intro h
    by_contra hall
    obtain ⟨hwidth, hnodup⟩ := not_or.1 hall
    refine h ⟨fun v hv => ?_, not_not.1 hnodup⟩
    by_contra hv'
    exact hwidth ⟨v, hv, not_or.1 hv'⟩
  · rintro (⟨v, hv, h1, h8⟩ | hdup) hfit
    · exact (hfit.width v hv).elim h1 h8
    · exact hdup hfit.nodup

/-- A procedure is refused for the first of its variables that something is wrong with. -/
theorem assign_eq_error : Frame.assign p = .error e ↔
    ∃ before v role after, ownedVariables p = before ++ (v, role) :: after ∧
      Fitting (before.map (·.1)) ∧
      SlotFault p.name (before.map (·.1)) v role e e.category := by
  rw [Frame.assign, ← error?_eq_some, error?_bind_pure, error?_eq_some, assignSlots_eq_error]
  simp only [exists_assignSlots_iff, List.append_nil]

variable {f : Frame}

/-- The offset of a variable tells its place among the variables of the procedure. -/
theorem offset?_eq_some_iff (h : Frame.assign p = .ok f) {v : Variable} {o : Int} :
    f.offset? v = some o ↔ ∃ i : Nat, p.variables[i]? = some v ∧ o = -16 - 8 * (i : Int) := by
  rw [Procedure.variables, ← map_fst_ownedVariables]
  constructor
  · intro ho
    obtain ⟨i, -, hi, rfl⟩ := offset?_eq_some h ho
    exact ⟨i, hi, rfl⟩
  · rintro ⟨i, hi, rfl⟩
    obtain ⟨o, ho⟩ := offset?_of_mem h (List.mem_of_getElem? hi)
    obtain ⟨j, -, hj, rfl⟩ := offset?_eq_some h ho
    -- a variable has only one place, since no variable is listed twice
    have hlt : i < ((ownedVariables p).map (·.1)).length := (List.getElem?_eq_some_iff.1 hi).1
    obtain rfl := (List.getElem?_inj hlt (slots_of_assign h).2.1).1 (hi.trans hj.symm)
    exact ho

end

end Frame

/-- Rounding up gives the least multiple of 16 that covers the slots. -/
theorem isLeast_roundUp (n : Nat) :
    IsLeast {m : Int | 16 ∣ m ∧ (reach n : Int) ≤ m} ((reach n + 15) / 16 * 16 : Nat) := by
  constructor
  · constructor <;> omega
  · rintro m ⟨hm, hle⟩
    omega

end Layout

/-- Frames are laid out exactly. A procedure has none if and only if one of its variables is neither
one nor eight bytes wide or is listed twice. The first such variable is the one that is reported.
Otherwise the slots are those of the variables, in their order and with their roles, the first at
-16 and each next one 8 bytes lower; a variable has an offset exactly if it is among them. A frame
without slots has size 0, and otherwise the size is the least multiple of 16 that covers the slots
and the word above them, as long as it fits in a machine word: sizes are computed in machine words,
which wrap. -/
theorem frame_is_exact (p : Procedure) :
    ((∃ e, Frame.assign p = .error e) ↔
      (∃ v ∈ p.variables, v.width ≠ 1 ∧ v.width ≠ 8) ∨ ¬ p.variables.Nodup) ∧
    (∀ e, Frame.assign p = .error e ↔
      ∃ before v role after, ownedVariables p = before ++ (v, role) :: after ∧
        Fitting (before.map (·.1)) ∧
        SlotFault p.name (before.map (·.1)) v role e e.category) ∧
    ∀ f, Frame.assign p = .ok f →
      f.slots.map (fun s => (s.var, s.role)) = p.temps.map (·, .temp) ++ p.locals.map (·, .local)
        ++ p.formals.map (·, .formal) ++ p.addrs.map (·, .addr) ∧
      (∀ (i : Nat) s, f.slots[i]? = some s → s.offset = -16 - 8 * (i : Int)) ∧
      (∀ v o, f.offset? v = some o ↔
        ∃ i : Nat, p.variables[i]? = some v ∧ o = -16 - 8 * (i : Int)) ∧
      (f.slots = [] → f.size = 0) ∧
      (f.slots ≠ [] → ∃ m : Int,
        IsLeast {m : Int | 16 ∣ m ∧ 16 + 8 * ((f.slots.length : Int) - 1) ≤ m} m ∧
        f.size = m.bmod (2 ^ 64) ∧ (m < 2 ^ 63 → f.size = m)) := by
  refine ⟨Frame.exists_error_iff, fun e => Frame.assign_eq_error, fun f hf => ?_⟩
  obtain ⟨hslots, -, -, hsize⟩ := Frame.slots_of_assign hf
  refine ⟨?_, fun i s hs => ?_, fun v o => Frame.offset?_eq_some_iff hf, fun hnil => ?_,
    fun hne => ?_⟩
  · show _ = ownedVariables p
    rw [hslots]
    refine List.ext_getElem? fun i => ?_
    rw [List.getElem?_map, List.getElem?_mapIdx, Option.map_map]
    exact congrFun Option.map_id_fun _
  · rw [hslots, List.getElem?_mapIdx, Option.map_eq_some_iff] at hs
    obtain ⟨x, -, rfl⟩ := hs
    rfl
  · rw [hsize, hnil]
    rfl
  · have hpos : 0 < f.slots.length := List.length_pos_iff.2 hne
    have hreach : 16 + 8 * ((f.slots.length : Int) - 1) = (reach f.slots.length : Nat) := by
      unfold reach
      omega
    refine ⟨_, hreach ▸ isLeast_roundUp _, hsize.trans (frameSize_toInt_bmod hpos), fun hlt => ?_⟩
    rw [hsize, frameSize_toInt_bmod hpos]
    exact Int.bmod_eq_of_le (by omega) (by omega)

end QuadAsm
