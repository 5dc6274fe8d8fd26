/-!
# First occurrences

The elements of a list, each where it first occurs.
-/

namespace QuadAsm

variable {α : Type} [DecidableEq α]

/-- The list without later occurrences and without the elements of `seen`. -/
def distinctFrom (seen : List α) : List α → List α
  | [] => []
  | a :: rest => if a ∈ seen then distinctFrom seen rest else a :: distinctFrom (a :: seen) rest

/-- The first occurrences in a list. -/
def distinct (l : List α) : List α := distinctFrom [] l

/-- The elements that are kept are those that have not been seen. -/
theorem mem_distinctFrom {seen l : List α} {a : α} :
    a ∈ distinctFrom seen l ↔ a ∈ l ∧ a ∉ seen := by
  induction l generalizing seen with
  | nil => simp [distinctFrom]
  | cons b rest ih =>
    rw [distinctFrom]
    split
    · next hb =>
      rw [ih, List.mem_cons]
      constructor
      · exact fun ⟨ha, hseen⟩ => ⟨.inr ha, hseen⟩
      · rintro ⟨rfl | ha, hseen⟩
        · exact absurd hb hseen
        · exact ⟨ha, hseen⟩
    · next hb =>
      simp only [List.mem_cons, ih, not_or]
      by_cases hab : a = b
      · subst hab
        simp [hb]
      · simp [hab]

@[simp] theorem mem_distinct {l : List α} {a : α} : a ∈ distinct l ↔ a ∈ l := by
  simp [distinct, mem_distinctFrom]

/-- Each of them is kept once. -/
theorem nodup_distinctFrom (seen l : List α) : (distinctFrom seen l).Nodup := by
  induction l generalizing seen with
  | nil => exact List.nodup_nil
  | cons a rest ih =>
    rw [distinctFrom]
    split
    · exact ih seen
    · exact List.nodup_cons.2 ⟨fun h => (mem_distinctFrom.1 h).2 (List.mem_cons_self ..), ih _⟩

/-- No element of `distinct l` is repeated. -/
theorem nodup_distinct (l : List α) : (distinct l).Nodup := nodup_distinctFrom [] l

/-- A list without repetitions is its first occurrences. -/
theorem distinctFrom_of_nodup {seen l : List α} (hl : l.Nodup) (hseen : ∀ a ∈ l, a ∉ seen) :
    distinctFrom seen l = l := by
  induction l generalizing seen with
  | nil => rfl
  | cons a rest ih =>
    obtain ⟨ha, hrest⟩ := List.nodup_cons.1 hl
    rw [distinctFrom, if_neg (hseen a (List.mem_cons_self ..)), ih hrest]
    intro b hb hmem
    rcases List.mem_cons.1 hmem with rfl | hmem
    · exact ha hb
    · exact hseen b (List.mem_cons_of_mem _ hb) hmem

/-- Without repetitions nothing is left out. -/
theorem distinct_of_nodup {l : List α} (hl : l.Nodup) : distinct l = l :=
  distinctFrom_of_nodup hl fun _ _ => List.not_mem_nil

/-- The first occurrences in a list, as the library computes them. -/
theorem distinct_eq_eraseDups [BEq α] [LawfulBEq α] (l : List α) :
    distinct l = l.eraseDups := by
  have hfrom : ∀ (seen l : List α),
      distinctFrom seen l = (l.filter fun a => decide (a ∉ seen)).eraseDups := by
    intro seen l
    induction l generalizing seen with
    | nil => rfl
    | cons a rest ih =>
      rw [distinctFrom]
      by_cases ha : a ∈ seen
      · rw [if_pos ha, ih, List.filter_cons_of_neg (by simpa using ha)]
      · rw [if_neg ha, ih, List.filter_cons_of_pos (by simpa using ha), List.eraseDups_cons,
          List.filter_filter]
        congr 2
        refine List.filter_congr fun b _ => ?_
        by_cases hb : b = a <;> simp [hb]
  rw [distinct, hfrom, List.filter_eq_self.2 (by simp)]

/-- What is added at the end of a list comes after its first occurrences. -/
theorem distinctFrom_prefix_append (seen l more : List α) :
    distinctFrom seen l <+: distinctFrom seen (l ++ more) := by
  induction l generalizing seen with
  | nil => exact List.nil_prefix
  | cons a rest ih =>
    rw [List.cons_append, distinctFrom, distinctFrom]
    split
    · exact ih seen
    · exact (List.prefix_cons_inj a).2 (ih _)

/-- What follows does not change what was kept before it. -/
theorem distinct_prefix_append (l more : List α) : distinct l <+: distinct (l ++ more) :=
  distinctFrom_prefix_append [] l more

end QuadAsm
