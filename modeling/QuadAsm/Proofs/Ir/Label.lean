import Mathlib
import QuadAsm.Ir.Label

/-!
# Who owns a label

Ownership is kept by the label and by the quad, and an attachment writes one side after the other.
What holds the sides together is that both can be read off one list of attachments, in which no
label occurs twice (`Labelling.ofPairs`). One call adds to this list when its label is new
(`Labelling.attach_ofPairs_of_not_mem`) and is refused otherwise, so that after a run of calls the
list is that of the calls which succeeded (`Labelling.foldl_call_ofPairs`). Main result:
`Labelling.ownership_is_consistent`.
-/

namespace QuadAsm.Labelling

variable {Label Quad : Type} [DecidableEq Label] [DecidableEq Quad]

/-! ## The attachments behind a labelling -/

/-- Both sides, read off a list of attachments. -/
def ofPairs (pairs : List (Label × Quad)) : Labelling Label Quad where
  quad? l := pairs.lookup l
  labels q := (pairs.filter (·.2 = q)).map (·.1)

section
variable {pairs : List (Label × Quad)} {l : Label} {q : Quad}

/-- A label marks nothing as long as it was not attached. -/
theorem quad?_ofPairs_eq_none : (ofPairs pairs).quad? l = none ↔ l ∉ pairs.map (·.1) := by
  rw [ofPairs, List.lookup_eq_none_iff, List.mem_map]
  constructor
  · rintro h ⟨⟨l, q⟩, hmem, rfl⟩
    simpa using h _ hmem
  · intro h x hx
    simpa using fun he => h ⟨x, hx, Eq.symm he⟩

/-- A label leads to a quad only if it was set on it. -/
theorem mem_of_quad?_ofPairs (h : (ofPairs pairs).quad? l = some q) : (l, q) ∈ pairs := by
  obtain ⟨before, after, rfl, -⟩ := List.lookup_eq_some_iff.1 h
  simp

/-- The label's side: a label that was attached once marks that quad. -/
theorem quad?_ofPairs_eq_some (hnodup : (pairs.map (·.1)).Nodup) :
    (ofPairs pairs).quad? l = some q ↔ (l, q) ∈ pairs := by
  refine ⟨mem_of_quad?_ofPairs, fun hmem => ?_⟩
  cases hl : (ofPairs pairs).quad? l with
  | none => exact (quad?_ofPairs_eq_none.1 hl (List.mem_map_of_mem hmem)).elim
  | some q' =>
    cases List.inj_on_of_nodup_map hnodup (mem_of_quad?_ofPairs hl) hmem rfl
    rfl

theorem labels_ofPairs (pairs : List (Label × Quad)) (q : Quad) :
    (ofPairs pairs).labels q = (pairs.filter (·.2 = q)).map (·.1) := rfl

/-- The quad's side. -/
theorem mem_labels_ofPairs : l ∈ (ofPairs pairs).labels q ↔ (l, q) ∈ pairs := by
  simp [labels_ofPairs]

/-- The labels of a quad are among those that were attached, in the same order. -/
theorem labels_ofPairs_sublist (pairs : List (Label × Quad)) (q : Quad) :
    ((ofPairs pairs).labels q).Sublist (pairs.map (·.1)) :=
  List.filter_sublist.map _

/-- The label's side of one more attachment. -/
theorem quad?_ofPairs_concat (hl : l ∉ pairs.map (·.1)) (q : Quad) (l' : Label) :
    (ofPairs (pairs ++ [(l, q)])).quad? l' =
      if l' = l then some q else (ofPairs pairs).quad? l' := by
  have hlookup : (ofPairs (pairs ++ [(l, q)])).quad? l' =
      ((ofPairs pairs).quad? l').or ([(l, q)].lookup l') := List.lookup_append
  rw [hlookup]
  split
  · next he =>
    rw [he, quad?_ofPairs_eq_none.2 hl, List.lookup_cons_self]
    rfl
  · next hne =>
    rw [List.lookup_cons, beq_false_of_ne hne]
    exact Option.or_none

/-- The quad's side of one more attachment. -/
theorem labels_ofPairs_concat (pairs : List (Label × Quad)) (l : Label) (q q' : Quad) :
    (ofPairs (pairs ++ [(l, q)])).labels q' =
      if q' = q then (ofPairs pairs).labels q ++ [l] else (ofPairs pairs).labels q' := by
  split
  · next he => simp [labels_ofPairs, he]
  · next hne => simp [labels_ofPairs, Ne.symm hne]

/-- A label that was not attached before can be attached: this adds to the list. -/
theorem attach_ofPairs_of_not_mem (hl : l ∉ pairs.map (·.1)) (q : Quad) :
    (ofPairs pairs).attach l q = .ok (ofPairs (pairs ++ [(l, q)])) := by
  rw [attach, quad?_ofPairs_eq_none.2 hl]
  refine congrArg Except.ok (Labelling.ext ?_ ?_)
  · funext l'
    exact (quad?_ofPairs_concat hl q l').symm
  · funext q'
    exact (labels_ofPairs_concat pairs l q q').symm

/-- A label is refused for the quad that it marks already. -/
theorem quad?_of_attach_eq_error {s : Labelling Label Quad} {owner : Quad}
    (h : s.attach l q = .error owner) : s.quad? l = some owner := by
  rw [attach] at h
  cases hl : s.quad? l with
  | none =>
    rw [hl] at h
    cases h
  | some q' =>
    rw [hl] at h
    cases h
    rfl

/-- A label that was attached before cannot be attached again. -/
theorem attach_ofPairs_of_mem (hl : l ∈ pairs.map (·.1)) (q : Quad) :
    ∃ owner, (ofPairs pairs).attach l q = .error owner := by
  cases hquad : (ofPairs pairs).quad? l with
  | none => exact (quad?_ofPairs_eq_none.1 hquad hl).elim
  | some owner => exact ⟨owner, by rw [attach, hquad]⟩

end

/-! ## Runs -/

/-- What a call leaves behind. When it fails, that is what was there before. -/
def call (s : Labelling Label Quad) (x : Label × Quad) : Labelling Label Quad :=
  match s.attach x.1 x.2 with
  | .ok s' => s'
  | .error _ => s

/-- The labelling after a sequence of calls, when at first no label marks a quad. -/
def after (calls : List (Label × Quad)) : Labelling Label Quad := calls.foldl call {}

/-- The calls that succeed when they are made one after the other. -/
def successes (s : Labelling Label Quad) : List (Label × Quad) → List (Label × Quad)
  | [] => []
  | x :: rest =>
    match s.attach x.1 x.2 with
    | .ok s' => x :: s'.successes rest
    | .error _ => s.successes rest

/-- After a run, the attachments are those from before and the calls that succeeded. No label is
attached twice, and every label that was called for is attached. -/
theorem foldl_call_ofPairs (pairs : List (Label × Quad)) (hnodup : (pairs.map (·.1)).Nodup)
    (calls : List (Label × Quad)) :
    calls.foldl call (ofPairs pairs) = ofPairs (pairs ++ (ofPairs pairs).successes calls) ∧
      ((pairs ++ (ofPairs pairs).successes calls).map (·.1)).Nodup ∧
      ∀ l, l ∈ (pairs ++ (ofPairs pairs).successes calls).map (·.1) ↔
        l ∈ pairs.map (·.1) ∨ l ∈ calls.map (·.1) := by
  induction calls generalizing pairs with
  | nil => simpa [successes] using hnodup
  | cons x rest ih =>
    obtain ⟨l, q⟩ := x
    rw [List.foldl_cons, call, successes]
    by_cases hl : l ∈ pairs.map (·.1)
    · obtain ⟨owner, herror⟩ := attach_ofPairs_of_mem hl q
      obtain ⟨hrun, hnodup', hmem⟩ := ih pairs hnodup
      simp only [herror]
      refine ⟨hrun, hnodup', fun l' => (hmem l').trans ?_⟩
      -- the label of this call is there already
      rw [List.map_cons, List.mem_cons]
      constructor
      · rintro (h | h)
        · exact .inl h
        · exact .inr (.inr h)
      · rintro (h | rfl | h)
        · exact .inl h
        · exact .inl hl
        · exact .inr h
    · have hnodup' : ((pairs ++ [(l, q)]).map (·.1)).Nodup := by
        rw [List.map_append]
        exact hnodup.append (List.nodup_singleton l) (List.disjoint_singleton.2 hl)
      obtain ⟨hrun, hnodup', hmem⟩ := ih (pairs ++ [(l, q)]) hnodup'
      simp only [attach_ofPairs_of_not_mem hl q]
      rw [List.append_assoc, List.singleton_append] at hrun hnodup' hmem
      refine ⟨hrun, hnodup', fun l' => (hmem l').trans ?_⟩
      simp [or_assoc]

/-- After a run, both sides can be read off the list of the calls that succeeded. -/
theorem after_eq_ofPairs (calls : List (Label × Quad)) :
    after calls = ofPairs (successes {} calls) :=
  (foldl_call_ofPairs [] List.nodup_nil calls).1

/-- No label is set twice. -/
theorem nodup_successes (calls : List (Label × Quad)) :
    ((successes {} calls).map (·.1)).Nodup :=
  (foldl_call_ofPairs [] List.nodup_nil calls).2.1

/-- Every label that was called for is attached by one of the calls. -/
theorem mem_successes (calls : List (Label × Quad)) (l : Label) :
    l ∈ (successes {} calls).map (·.1) ↔ l ∈ calls.map (·.1) :=
  ((foldl_call_ofPairs [] List.nodup_nil calls).2.2 l).trans (by simp)

/-- A call fails if and only if its label was attached before. -/
theorem attach_after_eq_error {calls : List (Label × Quad)} {l : Label} (q : Quad) :
    (∃ owner, (after calls).attach l q = .error owner) ↔ l ∈ (successes {} calls).map (·.1) := by
  rw [after_eq_ofPairs]
  constructor
  · rintro ⟨owner, herror⟩
    by_contra hl
    rw [attach_ofPairs_of_not_mem hl q] at herror
    cases herror
  · intro hl
    exact attach_ofPairs_of_mem hl q

/-- A call that fails changes nothing. -/
theorem after_concat_of_error {calls : List (Label × Quad)} {l : Label} {q owner : Quad}
    (h : (after calls).attach l q = .error owner) : after (calls ++ [(l, q)]) = after calls := by
  rw [after, List.foldl_concat, ← after, call, h]

/-- Ownership of labels is consistent after every run of calls, successful or not. A quad has a
label if and only if the label marks this quad; no label is on two quads or twice on one; and the
labels of a quad are in the order in which they were attached. A call fails if and only if its label
was attached before, that is, if and only if there was a call for this label before. It then tells
the quad that the label marks, and every label and every quad is as it was. -/
theorem ownership_is_consistent (calls : List (Label × Quad)) :
    (∀ l q, l ∈ (after calls).labels q ↔ (after calls).quad? l = some q) ∧
    (∀ q, ((after calls).labels q).Nodup) ∧
    (∀ l q q', l ∈ (after calls).labels q → l ∈ (after calls).labels q' → q = q') ∧
    (∀ q, (after calls).labels q = ((successes {} calls).filter (·.2 = q)).map (·.1)) ∧
    (∀ l q, (∃ owner, (after calls).attach l q = .error owner) ↔
      l ∈ (successes {} calls).map (·.1)) ∧
    (∀ l, l ∈ (successes {} calls).map (·.1) ↔ l ∈ calls.map (·.1)) ∧
    ∀ l q owner, (after calls).attach l q = .error owner →
      (after calls).quad? l = some owner ∧
      (∀ q', (after (calls ++ [(l, q)])).labels q' = (after calls).labels q') ∧
      ∀ l', (after (calls ++ [(l, q)])).quad? l' = (after calls).quad? l' := by
  have hsides (l : Label) (q : Quad) :
      l ∈ (after calls).labels q ↔ (after calls).quad? l = some q := by
    rw [after_eq_ofPairs, mem_labels_ofPairs, quad?_ofPairs_eq_some (nodup_successes calls)]
  refine ⟨hsides, fun q => ?_, fun l q q' hq hq' => ?_, fun q => ?_,
    fun l q => attach_after_eq_error q, mem_successes calls, fun l q owner herror => ?_⟩
  · rw [after_eq_ofPairs]
    exact (nodup_successes calls).sublist (labels_ofPairs_sublist _ q)
  · exact Option.some.inj (((hsides l q).1 hq).symm.trans ((hsides l q').1 hq'))
  · rw [after_eq_ofPairs, labels_ofPairs]
  · rw [after_concat_of_error herror]
    exact ⟨quad?_of_attach_eq_error herror, fun _ => rfl, fun _ => rfl⟩

/-- A label that was attached to the first of two quads is refused for the second. -/
theorem secondQuad_refused :
    (after [(1, 10), (2, 10)]).attach 1 20 = .error 10 ∧
      (after [(1, 10), (2, 10), (1, 20)]).labels 10 = [1, 2] ∧
      (after [(1, 10), (2, 10), (1, 20)]).labels 20 = [] := by
  have hfails : (after [(1, 10), (2, 10)]).attach 1 20 = .error 10 := rfl
  obtain ⟨-, -, -, -, -, -, hkept⟩ := ownership_is_consistent [(1, 10), (2, 10)]
  obtain ⟨-, hlabels, -⟩ := hkept 1 20 10 hfails
  exact ⟨hfails, hlabels 10, hlabels 20⟩

end QuadAsm.Labelling
