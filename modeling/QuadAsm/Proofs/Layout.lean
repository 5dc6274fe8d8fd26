import Mathlib
import QuadAsm.Layout.Frame

/-!
# What the layouts promise

A frame that was laid out has one slot of eight bytes for every variable of its procedure, the first
16 bytes below the frame pointer and each next one 8 bytes lower (`Frame.slots_of_assign`), and its
size covers them (`frameSize_toInt`). In a data section that was laid out, labels tell the variables
apart (`Globals.label_inj`), and they differ from the labels of strings. The place of a variable is
its slot or else its label (`locate_var_cases`).
-/

namespace QuadAsm.Layout

/-! ## Frames -/

/-- The variables of a procedure in the order of their slots. -/
theorem map_fst_ownedVariables (p : Procedure) :
    (ownedVariables p).map (·.1) = p.temps ++ p.locals ++ p.formals ++ p.addrs := by
  simp [ownedVariables, Function.comp_def]

/-- The number of bytes that `n` slots reach below the frame pointer: the two words above them
count as one, because the frame pointer points between these words. -/
def reach (n : Nat) : Nat := 8 + 8 * n

/-- The slots of variables that were accepted: falling offsets in the order of the variables,
which are distinct and have widths there is code for. -/
theorem Frame.assignSlots_ok {name : Bytes} {taken : List Variable} {offset : Int}
    {vs : List (Variable × Role)} {slots : List Slot}
    (h : assignSlots name taken offset vs = .ok slots) :
    slots = vs.mapIdx (fun i v => ⟨v.1, v.2, offset - slotSize * i⟩) ∧
      (vs.map (·.1)).Nodup ∧ (∀ v ∈ vs.map (·.1), v ∉ taken ∧ isSupportedWidth v.width) := by
  induction vs generalizing taken offset slots with
  | nil => cases h; simp
  | cons head rest ih =>
    obtain ⟨v, role⟩ := head
    rw [assignSlots] at h
    split at h
    · cases h
    · next hw =>
      split at h
      · cases h
      · next ht =>
        cases hr : assignSlots name (v :: taken) (offset - slotSize) rest with
        | error e => rw [hr] at h; cases h
        | ok others =>
          rw [hr] at h
          cases h
          obtain ⟨hs, hn, hv⟩ := ih hr
          refine ⟨?_, ?_, ?_⟩
          · rw [List.mapIdx_cons, hs]
            simp only [Nat.cast_zero, mul_zero, sub_zero, Nat.cast_add, Nat.cast_one]
            congr 2
            funext i w
            congr 1
            ring
          · rw [List.map_cons, List.nodup_cons]
            exact ⟨fun hmem => (hv v hmem).1 (List.mem_cons_self ..), hn⟩
          · intro w hw'
            rcases List.mem_cons.1 hw' with rfl | hw'
            · exact ⟨ht, by simpa using hw⟩
            · exact ⟨fun hm => (hv w hw').1 (List.mem_cons_of_mem _ hm), (hv w hw').2⟩

/-- Distinct variables with widths there is code for are accepted. -/
theorem Frame.exists_assignSlots (name : Bytes) {taken : List Variable} (offset : Int)
    {vs : List (Variable × Role)} (hnodup : (vs.map (·.1)).Nodup)
    (hvs : ∀ v ∈ vs.map (·.1), v ∉ taken ∧ isSupportedWidth v.width) :
    ∃ slots, assignSlots name taken offset vs = .ok slots := by
  induction vs generalizing taken offset with
  | nil => exact ⟨[], rfl⟩
  | cons head rest ih =>
    obtain ⟨v, role⟩ := head
    obtain ⟨hv, hrest⟩ := List.nodup_cons.1 hnodup
    obtain ⟨⟨htaken, hwidth⟩, hothers⟩ := List.forall_mem_cons.1 hvs
    have hfree : ∀ w ∈ rest.map (·.1), w ∉ v :: taken ∧ isSupportedWidth w.width := by
      intro w hw
      refine ⟨fun hmem => ?_, (hothers w hw).2⟩
      rcases List.mem_cons.1 hmem with rfl | hmem
      · exact hv hw
      · exact (hothers w hw).1 hmem
    obtain ⟨slots, hslots⟩ := ih (offset - slotSize) hrest hfree
    refine ⟨⟨v, role, offset⟩ :: slots, ?_⟩
    rw [assignSlots, if_neg (by simpa using hwidth), if_neg htaken, hslots]
    rfl

/-- A procedure has a frame when its variables are distinct and of widths there is code for. -/
theorem Frame.exists_assign {p : Procedure} (hnodup : ((ownedVariables p).map (·.1)).Nodup)
    (hwidth : ∀ v ∈ (ownedVariables p).map (·.1), isSupportedWidth v.width) :
    ∃ f, Frame.assign p = .ok f := by
  obtain ⟨slots, hslots⟩ := exists_assignSlots p.name frameBase hnodup
    fun v hv => ⟨List.not_mem_nil, hwidth v hv⟩
  refine ⟨⟨p.name, slots, (frameSize slots.length).toInt⟩, ?_⟩
  rw [Frame.assign, hslots]
  rfl

section
variable {p : Procedure} {f : Frame}

/-- The slots of a frame. -/
theorem Frame.slots_of_assign (h : Frame.assign p = .ok f) :
    f.slots = (ownedVariables p).mapIdx (fun i v => ⟨v.1, v.2, frameBase - slotSize * i⟩) ∧
      ((ownedVariables p).map (·.1)).Nodup ∧
      (∀ v ∈ (ownedVariables p).map (·.1), isSupportedWidth v.width) ∧
      f.size = (frameSize f.slots.length).toInt := by
  unfold Frame.assign at h
  cases hs : assignSlots p.name [] frameBase (ownedVariables p) with
  | error e => rw [hs] at h; cases h
  | ok slots =>
    rw [hs] at h
    cases h
    obtain ⟨h1, h2, h3⟩ := assignSlots_ok hs
    exact ⟨h1, h2, fun v hv => (h3 v hv).2, rfl⟩

/-- A frame has as many slots as its procedure has variables. -/
theorem Frame.length_slots (h : Frame.assign p = .ok f) :
    f.slots.length = (ownedVariables p).length := by
  rw [(slots_of_assign h).1, List.length_mapIdx]

/-- A slot belongs to the variable at its position, which gives the offset. -/
theorem Frame.of_mem_slots (h : Frame.assign p = .ok f) {slot : Slot} (hs : slot ∈ f.slots) :
    ∃ i, i < f.slots.length ∧ ((ownedVariables p).map (·.1))[i]? = some slot.var ∧
      slot.offset = -16 - 8 * (i : Int) := by
  rw [(slots_of_assign h).1, List.mem_mapIdx] at hs
  obtain ⟨i, hi, rfl⟩ := hs
  refine ⟨i, by rw [length_slots h]; exact hi, ?_, by simp [frameBase, slotSize]⟩
  rw [List.getElem?_map, List.getElem?_eq_getElem hi]
  rfl

/-- The slot at a position. -/
theorem Frame.exists_slot (h : Frame.assign p = .ok f) {i : Nat} (hi : i < f.slots.length) :
    ∃ slot ∈ f.slots, slot.offset = -16 - 8 * (i : Int) := by
  refine ⟨f.slots[i], List.getElem_mem hi, ?_⟩
  simp [(slots_of_assign h).1, frameBase, slotSize]

/-- The offset of a variable comes from its position among the variables. -/
theorem Frame.offset?_eq_some (h : Frame.assign p = .ok f) {v : Variable} {o : Int}
    (ho : f.offset? v = some o) :
    ∃ i, i < f.slots.length ∧ ((ownedVariables p).map (·.1))[i]? = some v ∧
      o = -16 - 8 * (i : Int) := by
  unfold offset? at ho
  rw [Option.map_eq_some_iff] at ho
  obtain ⟨slot, hfind, rfl⟩ := ho
  have hvar : slot.var = v := by simpa using List.find?_some hfind
  subst hvar
  exact of_mem_slots h (List.mem_of_find?_eq_some hfind)

/-- Every variable of a procedure has a slot in its frame. -/
theorem Frame.offset?_of_mem (h : Frame.assign p = .ok f) {v : Variable}
    (hv : v ∈ (ownedVariables p).map (·.1)) : ∃ o, f.offset? v = some o := by
  obtain ⟨⟨w, role⟩, hmem, rfl⟩ := List.mem_map.1 hv
  obtain ⟨i, hi, he⟩ := List.getElem_of_mem hmem
  have hfind : (f.slots.find? (·.var = w)).isSome := by
    rw [(slots_of_assign h).1, List.find?_isSome]
    refine ⟨_, List.mem_mapIdx.2 ⟨i, hi, rfl⟩, ?_⟩
    simp [he]
  obtain ⟨slot, hs⟩ := Option.isSome_iff_exists.1 hfind
  exact ⟨slot.offset, by simp [offset?, hs]⟩

/-- The formals of a procedure with a frame are distinct, and they are among its variables. -/
theorem Frame.formals_of_assign (h : Frame.assign p = .ok f) :
    p.formals.Nodup ∧ ∀ v ∈ p.formals, v ∈ (ownedVariables p).map (·.1) := by
  have hnodup := (slots_of_assign h).2.1
  rw [map_fst_ownedVariables] at hnodup ⊢
  refine ⟨hnodup.sublist ?_, fun v hv => ?_⟩
  · exact (List.sublist_append_right _ _).trans (List.sublist_append_left _ _)
  · exact List.mem_append_left _ (List.mem_append_right _ hv)

end

/-! ## Sizes -/

/-- Clearing the lowest `k` bits of a word rounds down to a multiple of `2 ^ k`. -/
theorem toNat_and_not_mask (x : BitVec 64) (k : Nat) :
    (x &&& ~~~BitVec.ofNat 64 (2 ^ k - 1)).toNat = x.toNat / 2 ^ k * 2 ^ k := by
  apply Nat.eq_of_testBit_eq
  intro i
  rw [BitVec.testBit_toNat, BitVec.getLsbD_and, BitVec.getLsbD_not, BitVec.getLsbD_ofNat,
    Nat.testBit_two_pow_sub_one, Nat.testBit_mul_two_pow, Nat.testBit_div_two_pow]
  by_cases hik : k ≤ i
  · rw [Nat.sub_add_cancel hik, BitVec.testBit_toNat]
    by_cases hi : i < 64
    · simp [hik, hi, Nat.not_lt.2 hik]
    · simp [hi, BitVec.getLsbD_of_ge x i (Nat.not_lt.1 hi)]
  · simp [hik, Nat.lt_of_not_le hik]

/-- The size of a frame with slots, in machine words. -/
theorem frameSize_toInt_bmod {n : Nat} (hn : 0 < n) :
    (frameSize n).toInt = (((reach n + 15) / 16 * 16 : Nat) : Int).bmod (2 ^ 64) := by
  have hlowest : (-(Int64.ofInt frameBase - (Int64.ofNat n - 1) * Int64.ofInt slotSize)
      + frameAlignment - 1).toBitVec = BitVec.ofNat 64 (reach n + 15) := by
    have hb : (Int64.ofInt frameBase).toBitVec = -16#64 := by decide
    have hs : (Int64.ofInt slotSize).toBitVec = 8#64 := by decide
    have ha : frameAlignment.toBitVec = 16#64 := by decide
    have hc : (Int64.ofNat n).toBitVec = BitVec.ofNat 64 n := rfl
    have h1 : (1 : Int64).toBitVec = 1#64 := rfl
    simp only [Int64.toBitVec_sub, Int64.toBitVec_add, Int64.toBitVec_neg, Int64.toBitVec_mul,
      hb, hs, ha, hc, h1, reach, BitVec.ofNat_add, BitVec.ofNat_mul]
    grind
  have hmask : (frameAlignment - 1).toBitVec = BitVec.ofNat 64 (2 ^ 4 - 1) := by decide
  -- rounding down commutes with wrapping, because 16 divides the number of words
  have hround : (BitVec.ofNat 64 (reach n + 15) &&& ~~~BitVec.ofNat 64 (2 ^ 4 - 1)).toNat
      = (reach n + 15) / 16 * 16 % 2 ^ 64 := by
    rw [toNat_and_not_mask, BitVec.toNat_ofNat]
    omega
  simp only [frameSize, Nat.ne_of_gt hn, if_false, align]
  rw [← Int64.toInt_toBitVec, Int64.toBitVec_and, hlowest, Int64.toBitVec_not, hmask,
    BitVec.toInt_eq_toNat_bmod, hround, Int.natCast_emod]
  exact Int.emod_bmod _ _

/-- The size of a frame with slots, as long as it fits in a machine word. -/
theorem frameSize_toInt {n : Nat} (hn : 0 < n) (h : reach n + 16 ≤ 2 ^ 63) :
    (frameSize n).toInt = ((reach n + 15) / 16 * 16 : Nat) := by
  rw [frameSize_toInt_bmod hn]
  exact Int.bmod_eq_of_le (by omega) (by omega)

/-- A frame is large enough for its slots, and not much larger. -/
theorem Frame.size_bounds {p : Procedure} {f : Frame} (h : Frame.assign p = .ok f)
    (hfit : reach f.slots.length + 16 ≤ 2 ^ 63) :
    0 ≤ f.size ∧ (0 < f.slots.length → (reach f.slots.length : Int) ≤ f.size) ∧
      f.size ≤ 8 * f.slots.length + 16 ∧ f.size % 16 = 0 := by
  rw [(slots_of_assign h).2.2.2]
  rcases Nat.eq_zero_or_pos f.slots.length with h0 | hpos
  · rw [h0]
    decide
  · rw [frameSize_toInt hpos hfit]
    unfold reach
    omega

/-! ## The data section -/

/-- The labels of variables tell their names apart. -/
theorem globalLabel_inj {a b : Bytes} : globalLabel a = globalLabel b ↔ a = b := by
  unfold globalLabel
  rw [List.append_cancel_left_eq]

/-- A number can be read off its digits. -/
theorem digits_inj {m n : Nat} : Bytes.ofNat m = Bytes.ofNat n ↔ m = n := by
  refine ⟨fun h => ?_, fun h => by rw [h]⟩
  -- a digit is a character of one byte, so the byte gives the digit back
  have hdigit : ∀ c : Char, c.isDigit = true → Char.ofNat (Bytes.code c).toNat = c := by
    intro c hc
    have hle : c.toNat ≤ 57 := by
      simp only [Char.isDigit, Bool.and_eq_true, decide_eq_true_eq] at hc
      exact hc.2
    have hcode : (Bytes.code c).toNat = c.toNat :=
      Nat.mod_eq_of_lt (Nat.lt_of_le_of_lt hle (by decide))
    rw [hcode, Char.ofNat_toNat]
  have hdigits : ∀ k, (Bytes.ofNat k).map (fun b => Char.ofNat b.toNat) = Nat.toDigits 10 k := by
    intro k
    rw [Bytes.ofNat, List.map_map]
    refine (List.map_congr_left fun c hc => ?_).trans (List.map_id _)
    exact hdigit c (Nat.isDigit_of_mem_toDigits (by decide) (by decide) hc)
  calc m = Nat.ofDigitChars 10 (Nat.toDigits 10 m) 0 := Nat.ofDigitChars_ten_toDigits.symm
    _ = Nat.ofDigitChars 10 (Nat.toDigits 10 n) 0 := by rw [← hdigits m, h, hdigits n]
    _ = n := Nat.ofDigitChars_ten_toDigits

/-- Strings have different labels. -/
theorem stringLabel_inj {m n : Nat} : stringLabel m = stringLabel n ↔ m = n := by
  unfold stringLabel
  rw [List.append_cancel_left_eq]
  exact digits_inj

/-- The label of a string is never the label of a global. -/
theorem stringLabel_ne_globalLabel (i : Int) (name : Bytes) : stringLabel i ≠ globalLabel name := by
  intro h
  have hfirst : some (Bytes.code 's') = some (Bytes.code 'g') := congrArg List.head? h
  cases hfirst

/-- If no name is repeated, all are different. -/
theorem nodup_of_repeatedName? {vs : List Variable} (h : repeatedName? vs = none) :
    (vs.map (·.name)).Nodup := by
  induction vs with
  | nil => simp
  | cons v rest ih =>
    rw [repeatedName?] at h
    split at h
    · cases h
    · next hany =>
      rw [List.map_cons, List.nodup_cons]
      refine ⟨fun hmem => hany ?_, ih h⟩
      obtain ⟨w, hw, he⟩ := List.mem_map.1 hmem
      exact List.any_eq_true.2 ⟨w, hw, by simp [he]⟩

/-- If all names are different, none is repeated. -/
theorem repeatedName?_of_nodup {vs : List Variable} (h : (vs.map (·.name)).Nodup) :
    repeatedName? vs = none := by
  induction vs with
  | nil => rfl
  | cons v rest ih =>
    obtain ⟨hv, hrest⟩ := List.nodup_cons.1 h
    rw [repeatedName?, if_neg, ih hrest]
    intro hany
    obtain ⟨w, hw, he⟩ := List.any_eq_true.1 hany
    exact hv (List.mem_map.2 ⟨w, hw, by simpa using he⟩)

/-- The variables and the distinct strings of a program. -/
def Globals.ofProgram (p : Program) : Globals := ⟨p.globals, distinct p.strings⟩

/-- Globals with distinct names and widths there is code for have a data section. -/
theorem Globals.assign_of_nodup {p : Program} (hnodup : (p.globals.map (·.name)).Nodup)
    (hwidth : ∀ v ∈ p.globals, isSupportedWidth v.width) :
    Globals.assign p = .ok (.ofProgram p) := by
  have hfind : p.globals.find? (!isSupportedWidth ·.width) = none :=
    List.find?_eq_none.2 fun v hv => by simp [hwidth v hv]
  rw [Globals.assign, repeatedName?_of_nodup hnodup, hfind]
  rfl

section
variable {p : Program} {g : Globals}

/-- A data section that was laid out. -/
theorem Globals.of_assign (h : Globals.assign p = .ok g) :
    g.vars = p.globals ∧ g.strings = distinct p.strings ∧ (g.vars.map (·.name)).Nodup ∧
      ∀ v ∈ g.vars, isSupportedWidth v.width = true := by
  unfold Globals.assign at h
  split at h
  · cases h
  · next hn =>
    split at h
    · cases h
    · next hw =>
      cases h
      refine ⟨rfl, rfl, nodup_of_repeatedName? hn, fun v hv => ?_⟩
      simpa using List.find?_eq_none.1 hw v hv

/-- Different variables have different labels. -/
theorem Globals.label_inj (h : Globals.assign p = .ok g) {v w : Variable} (hv : v ∈ g.vars)
    (hw : w ∈ g.vars) (hvw : v ≠ w) : globalLabel v.name ≠ globalLabel w.name := by
  rw [Ne, globalLabel_inj]
  intro he
  exact hvw (List.inj_on_of_nodup_map (of_assign h).2.2.1 hv hw he)

end

/-! ## Places -/

/-- Where a variable is found: in its slot, or at its label if it has none. -/
theorem locate_var_cases {g : Globals} {f : Frame} {v : Variable} {place : Location}
    (h : locate (some g) (some f) (.var v) = .ok place) :
    (∃ o, f.offset? v = some o ∧ place = .frame o) ∨
      (f.offset? v = none ∧ v ∈ g.vars ∧ place = .data (globalLabel v.name)) := by
  simp only [locate, Option.bind_some] at h
  cases ho : f.offset? v with
  | some o => rw [ho] at h; cases h; exact .inl ⟨o, rfl, rfl⟩
  | none =>
    rw [ho] at h
    simp only [Globals.location?] at h
    split at h
    · next place' hp =>
      split at hp
      · next hmem => cases hp; cases h; exact .inr ⟨rfl, hmem, rfl⟩
      · cases hp
    · cases h

/-- The label of a string constant is the one for its place on the list. -/
theorem Globals.exists_of_stringLabel {g : Globals} {text label : Bytes}
    (h : g.stringLabel text = .ok label) :
    ∃ i : Nat, g.strings[i]? = some text ∧ label = Layout.stringLabel i := by
  unfold Globals.stringLabel at h
  split at h
  · next i hi =>
    obtain ⟨hlt, hget, -⟩ := List.idxOf?_eq_some_iff.1 hi
    cases h
    exact ⟨i, List.getElem?_eq_some_iff.2 ⟨hlt, hget⟩, rfl⟩
  · cases h

end QuadAsm.Layout
