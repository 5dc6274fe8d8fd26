import QuadAsm.Proofs.Frame

/-!
# When a program has a data section, and which

Names of globals have to be unique. If some are not, the first global that shares its name is
reported, and otherwise the first one with a width there is no code for (`Globals.assign_eq_error`).
A data section that was laid out lists the globals in their order, and each string once, where it
first occurs. The label of a string comes from its position in this list, so a label leads back to
one string (`Globals.stringLabel_eq_ok`). Main result: `data_section_is_exact`.
-/

namespace QuadAsm

open Layout

/-- The first element of a list with some property. -/
def IsFirst {α : Type} (P : α → Prop) (l : List α) (a : α) : Prop :=
  ∃ before after, l = before ++ a :: after ∧ P a ∧ ∀ b ∈ before, ¬ P b

/-- A search finds the first element that it accepts. -/
theorem find?_eq_some_iff_isFirst {α : Type} {P : α → Prop} [DecidablePred P] {l : List α} {a : α} :
    l.find? (fun b => decide (P b)) = some a ↔ IsFirst P l a := by
  rw [List.find?_eq_some_iff_append]
  constructor
  · rintro ⟨ha, before, after, hl, hbefore⟩
    exact ⟨before, after, hl, of_decide_eq_true ha, fun b hb => by simpa using hbefore b hb⟩
  · rintro ⟨before, after, hl, ha, hbefore⟩
    exact ⟨decide_eq_true ha, before, after, hl, fun b hb => by simpa using hbefore b hb⟩

/-- Some element is the first with a property just if any has it. -/
theorem exists_isFirst_iff {α : Type} {P : α → Prop} {l : List α} :
    (∃ a, IsFirst P l a) ↔ ∃ a ∈ l, P a := by
  classical
  simp only [← find?_eq_some_iff_isFirst, ← Option.isSome_iff_exists, List.find?_isSome,
    decide_eq_true_eq]

namespace Layout

/-- How many variables have a name. -/
def nameCount (vs : List Variable) (name : Bytes) : Nat := (vs.map (·.name)).count name

/-- What is wrong with the globals of a program: the rejection and its category. Names are looked at
first. -/
inductive GlobalFault (p : Program) : Rejection → Category → Prop where
  | shared {v : Variable} : IsFirst (fun v => 1 < nameCount p.globals v.name) p.globals v →
      GlobalFault p (.repeatedGlobal v.name) .duplicateSymbol
  | width {v : Variable} : (p.globals.map (·.name)).Nodup →
      IsFirst (fun v => v.width ≠ 1 ∧ v.width ≠ 8) p.globals v →
      GlobalFault p (.globalWidth v.name v.width) .unimplemented

/-! ## Names -/

/-- The search for a name that occurs again may skip variables that have theirs for themselves. -/
theorem repeatedName?_eq_find? {done vs : List Variable}
    (h : ∀ u ∈ done, nameCount (done ++ vs) u.name = 1) :
    repeatedName? vs = vs.find? fun v => 1 < nameCount (done ++ vs) v.name := by
  induction vs generalizing done with
  | nil => rfl
  | cons v rest ih =>
    have hsplit : nameCount (done ++ v :: rest) v.name
        = nameCount done v.name + (nameCount rest v.name + 1) := by
      simp [nameCount]
    have hdone : nameCount done v.name = 0 := by
      refine List.count_eq_zero.2 fun hmem => ?_
      obtain ⟨u, hu, he⟩ := List.mem_map.1 hmem
      have hone := h u hu
      have hpos : 0 < nameCount done v.name := List.count_pos_iff.2 hmem
      rw [he, hsplit] at hone
      omega
    have hany : rest.any (·.name == v.name) = true ↔ 0 < nameCount rest v.name := by
      rw [nameCount, List.count_pos_iff, List.any_eq_true, List.mem_map]
      simp
    rw [repeatedName?, List.find?_cons, hsplit, hdone]
    by_cases hrest : 0 < nameCount rest v.name
    · rw [if_pos (hany.2 hrest), decide_eq_true (by omega)]
    · rw [if_neg (mt hany.1 hrest), decide_eq_false (by omega)]
      have hassoc : done ++ v :: rest = (done ++ [v]) ++ rest := by simp
      rw [hassoc]
      refine ih fun u hu => ?_
      rw [← hassoc]
      rcases List.mem_append.1 hu with hu | hu
      · exact h u hu
      · rw [List.mem_singleton.1 hu, hsplit]
        omega

/-- The search for a name that occurs again finds the first variable that shares its name. -/
theorem repeatedName?_eq_some_iff {vs : List Variable} {v : Variable} :
    repeatedName? vs = some v ↔ IsFirst (fun v => 1 < nameCount vs v.name) vs v := by
  rw [← find?_eq_some_iff_isFirst, repeatedName?_eq_find? (List.forall_mem_nil _), List.nil_append]

/-- No name is repeated just if all are different. -/
theorem repeatedName?_eq_none_iff {vs : List Variable} :
    repeatedName? vs = none ↔ (vs.map (·.name)).Nodup :=
  ⟨nodup_of_repeatedName?, repeatedName?_of_nodup⟩

namespace Globals

variable {p : Program} {g : Globals}

/-! ## Refusals -/

/-- The global found is the first with a width that is not supported. -/
theorem find?_width_eq_some_iff {v : Variable} :
    p.globals.find? (!isSupportedWidth ·.width) = some v ↔
      IsFirst (fun v => v.width ≠ 1 ∧ v.width ≠ 8) p.globals v := by
  have hwidth : (fun v : Variable => !isSupportedWidth v.width)
      = fun v => decide (v.width ≠ 1 ∧ v.width ≠ 8) := by
    funext v
    rw [Bool.eq_iff_iff, Bool.not_eq_true', Bool.eq_false_iff, Ne, isSupportedWidth_iff, not_or,
      decide_eq_true_eq]
  rw [hwidth]
  exact find?_eq_some_iff_isFirst

/-- A data section is refused for the first global that something is wrong with. -/
theorem assign_eq_error {e : Rejection} :
    assign p = .error e ↔ GlobalFault p e e.category := by
  constructor
  · intro h
    unfold assign at h
    split at h
    · next v hv =>
      cases h
      exact .shared (repeatedName?_eq_some_iff.1 hv)
    · next hnone =>
      split at h
      · next v hv =>
        cases h
        exact .width (repeatedName?_eq_none_iff.1 hnone) (find?_width_eq_some_iff.1 hv)
      · cases h
  · generalize e.category = c
    rintro (⟨hv⟩ | ⟨hnodup, hv⟩)
    · rw [assign, repeatedName?_eq_some_iff.2 hv]
    · rw [assign, repeatedName?_eq_none_iff.2 hnodup, find?_width_eq_some_iff.2 hv]

/-- Globals are refused as duplicates just if two have one name. -/
theorem exists_duplicateSymbol_iff :
    (∃ e, assign p = .error e ∧ e.category = .duplicateSymbol) ↔
      ¬ (p.globals.map (·.name)).Nodup := by
  simp only [assign_eq_error]
  constructor
  · rintro ⟨e, hfault, hcategory⟩ hnodup
    rw [hcategory] at hfault
    obtain ⟨hv⟩ := hfault
    have hnone := repeatedName?_eq_none_iff.2 hnodup
    rw [repeatedName?_eq_some_iff.2 hv] at hnone
    cases hnone
  · intro hdup
    cases hv : repeatedName? p.globals with
    | none => exact absurd (repeatedName?_eq_none_iff.1 hv) hdup
    | some v => exact ⟨_, .shared (repeatedName?_eq_some_iff.1 hv), rfl⟩

/-- They are refused for a width just if the names are different and some width is not supported. -/
theorem exists_unimplemented_iff :
    (∃ e, assign p = .error e ∧ e.category = .unimplemented) ↔
      (p.globals.map (·.name)).Nodup ∧ ∃ v ∈ p.globals, v.width ≠ 1 ∧ v.width ≠ 8 := by
  simp only [assign_eq_error]
  rw [← exists_isFirst_iff]
  constructor
  · rintro ⟨e, hfault, hcategory⟩
    rw [hcategory] at hfault
    obtain _ | ⟨hnodup, hv⟩ := hfault
    exact ⟨hnodup, _, hv⟩
  · rintro ⟨hnodup, v, hv⟩
    exact ⟨_, .width hnodup hv, rfl⟩

/-! ## Strings -/

/-- The label of a string is made of its position. -/
theorem mem_labelledStrings {l t : Bytes} :
    (l, t) ∈ g.labelledStrings ↔
      ∃ i : Nat, g.strings[i]? = some t ∧ l = Layout.stringLabel i := by
  unfold labelledStrings
  constructor
  · intro h
    obtain ⟨⟨s, i⟩, hmem, he⟩ := List.mem_map.1 h
    cases he
    exact ⟨i, List.mem_zipIdx_iff_getElem?.1 hmem, rfl⟩
  · rintro ⟨i, hi, rfl⟩
    exact List.mem_map.2 ⟨(t, i), List.mem_zipIdx_iff_getElem?.2 hi, rfl⟩

/-- The label of a string is the one it is listed under. -/
theorem stringLabel_eq_ok (hnodup : g.strings.Nodup) {t l : Bytes} :
    g.stringLabel t = .ok l ↔ (l, t) ∈ g.labelledStrings := by
  rw [mem_labelledStrings]
  refine ⟨exists_of_stringLabel, ?_⟩
  rintro ⟨i, hi, rfl⟩
  cases hj : g.strings.idxOf? t with
  | none => exact absurd (List.mem_of_getElem? hi) (List.idxOf?_eq_none_iff.1 hj)
  | some j =>
    obtain ⟨hlt, hget, -⟩ := List.idxOf?_eq_some_iff.1 hj
    have ht : g.strings[j]? = some t := List.getElem?_eq_some_iff.2 ⟨hlt, hget⟩
    -- a string has only one position, since no string is listed twice
    rw [stringLabel, hj, (List.getElem?_inj hlt hnodup).1 (ht.trans hi.symm)]

/-- A label leads back to its string. -/
theorem eq_of_mem_labelledStrings {l t u : Bytes} (ht : (l, t) ∈ g.labelledStrings)
    (hu : (l, u) ∈ g.labelledStrings) : t = u := by
  obtain ⟨i, hi, rfl⟩ := mem_labelledStrings.1 ht
  obtain ⟨j, hj, he⟩ := mem_labelledStrings.1 hu
  obtain rfl := stringLabel_inj.1 he
  exact Option.some.inj (hi.symm.trans hj)

/-- The labels are numbered in order. -/
theorem map_fst_labelledStrings :
    g.labelledStrings.map (·.1)
      = (List.range g.strings.length).map fun i : Nat => Layout.stringLabel i := by
  rw [labelledStrings, List.map_map, List.range_eq_range', ← List.zipIdx_map_snd 0 g.strings,
    List.map_map]
  rfl

/-- The labels in a data section are distinct. -/
theorem nodup_labels (hnames : (g.vars.map (·.name)).Nodup) :
    (g.vars.map (fun v => globalLabel v.name) ++ g.labelledStrings.map (·.1)).Nodup := by
  rw [map_fst_labelledStrings, List.nodup_append']
  refine ⟨?_, List.nodup_range.map fun _ _ => stringLabel_inj.1, ?_⟩
  · rw [← Function.comp_def globalLabel, ← List.map_map]
    exact hnames.map fun _ _ => globalLabel_inj.1
  · intro l hglobal hstring
    obtain ⟨v, -, rfl⟩ := List.mem_map.1 hglobal
    obtain ⟨i, -, hi⟩ := List.mem_map.1 hstring
    exact stringLabel_ne_globalLabel i v.name hi

end Globals

end Layout

/-- Data sections are laid out exactly. A program has none if and only if two of its globals share a
name, or one of them is neither one nor eight bytes wide; the first of those that share a name is
reported, and otherwise the first that has the wrong width. In a data section that was laid out, the
globals are those of the program, in their order, and their labels are made from their names. The
strings are those of the program where they first occur, and their labels are made from their
positions. Exactly the strings of the program have a label, a string has the one that it is listed
under, and a label belongs to one string. All labels are distinct. -/
theorem data_section_is_exact (p : Program) :
    ((∃ e, Globals.assign p = .error e ∧ e.category = .duplicateSymbol) ↔
      ¬ (p.globals.map (·.name)).Nodup) ∧
    ((∃ e, Globals.assign p = .error e ∧ e.category = .unimplemented) ↔
      (p.globals.map (·.name)).Nodup ∧ ∃ v ∈ p.globals, v.width ≠ 1 ∧ v.width ≠ 8) ∧
    (∀ e, Globals.assign p = .error e ↔ GlobalFault p e e.category) ∧
    ∀ g, Globals.assign p = .ok g →
      g.vars = p.globals ∧
      (∀ v ∈ g.vars, g.location? v = some (.data ("glb_" ++ v.name))) ∧
      g.labelledStrings.map (·.2) = p.strings.eraseDups ∧
      (∀ (i : Nat) l t, g.labelledStrings[i]? = some (l, t) → l = "str_" ++ Bytes.ofNat i) ∧
      (∀ t, (∃ l, g.stringLabel t = .ok l) ↔ t ∈ p.strings) ∧
      (∀ t l, g.stringLabel t = .ok l ↔ (l, t) ∈ g.labelledStrings) ∧
      (∀ t u l, g.stringLabel t = .ok l → g.stringLabel u = .ok l → t = u) ∧
      (g.vars.map (fun v => globalLabel v.name) ++ g.labelledStrings.map (·.1)).Nodup := by
  refine ⟨Globals.exists_duplicateSymbol_iff, Globals.exists_unimplemented_iff,
    fun e => Globals.assign_eq_error, fun g hg => ?_⟩
  obtain ⟨hvars, hstrings, hnames, -⟩ := Globals.of_assign hg
  have hlabel : ∀ {t l}, g.stringLabel t = .ok l ↔ (l, t) ∈ g.labelledStrings :=
    Globals.stringLabel_eq_ok (hstrings ▸ nodup_distinct p.strings)
  have htexts : g.labelledStrings.map (·.2) = g.strings := by
    rw [Globals.labelledStrings, List.map_map]
    exact List.zipIdx_map_fst 0 g.strings
  refine ⟨hvars, fun v hv => if_pos hv, ?_, fun i l t hi => ?_, fun t => ?_, fun t l => hlabel,
    fun t u l ht hu => ?_, Globals.nodup_labels hnames⟩
  · rw [htexts, hstrings, distinct_eq_eraseDups]
  · rw [Globals.labelledStrings, List.getElem?_map, List.getElem?_zipIdx] at hi
    obtain ⟨⟨s, j⟩, hs, he⟩ := Option.map_eq_some_iff.1 hi
    obtain ⟨_, -, hj⟩ := Option.map_eq_some_iff.1 hs
    cases hj
    cases he
    rw [Nat.zero_add]
    rfl
  · rw [← mem_distinct, ← hstrings, ← htexts, List.mem_map]
    constructor
    · rintro ⟨l, hl⟩
      exact ⟨(l, t), hlabel.1 hl, rfl⟩
    · rintro ⟨⟨l, t⟩, hmem, rfl⟩
      exact ⟨l, hlabel.2 hmem⟩
  · exact Globals.eq_of_mem_labelledStrings (hlabel.1 ht) (hlabel.1 hu)

end QuadAsm
