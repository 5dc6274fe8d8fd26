import Mathlib
import QuadAsm.Emit.Step

/-!
# Results and errors

What can be said of the parts of a computation when the whole of it gives a result, and with which
error a computation fails (`error?`): the first one that any of its parts has.
-/

namespace QuadAsm

section
variable {ε ε' α β γ : Type}

/-- A sequence of two computations succeeds when both do. -/
theorem bind_eq_ok {x : Except ε α} {f : α → Except ε β} {b : β} :
    x >>= f = .ok b ↔ ∃ a, x = .ok a ∧ f a = .ok b := by
  cases x with
  | error e => exact ⟨(nomatch ·), fun ⟨_, h, _⟩ => nomatch h⟩
  | ok a => exact ⟨fun h => ⟨a, rfl, h⟩, fun ⟨_, h, hf⟩ => by cases h; exact hf⟩

@[simp] theorem ok_bind (a : α) (f : α → Except ε β) : (.ok a : Except ε α) >>= f = f a := rfl

@[simp] theorem error_bind (e : ε) (f : α → Except ε β) :
    (.error e : Except ε α) >>= f = .error e := rfl

theorem pure_eq_ok {a b : α} : (pure a : Except ε α) = .ok b ↔ a = b :=
  ⟨fun h => by cases h; rfl, fun h => by cases h; rfl⟩

/-- Another wording of errors does not change results. -/
theorem mapError_eq_ok {f : ε → ε'} {x : Except ε α} {a : α} :
    x.mapError f = .ok a ↔ x = .ok a := by
  cases x with
  | error e => exact ⟨(nomatch ·), (nomatch ·)⟩
  | ok b => exact ⟨fun h => by cases h; rfl, fun h => by cases h; rfl⟩

/-- Another wording of errors keeps them apart from results. -/
theorem mapError_eq_error {f : ε → ε'} {x : Except ε α} {e : ε'} :
    x.mapError f = .error e ↔ ∃ cause, x = .error cause ∧ e = f cause := by
  cases x with
  | error cause =>
    constructor
    · intro h
      cases h
      exact ⟨cause, rfl, rfl⟩
    · rintro ⟨_, h, rfl⟩
      cases h
      rfl
  | ok a => exact ⟨(nomatch ·), fun ⟨_, h, _⟩ => nomatch h⟩

/-- A computation over a list succeeds when it does on every element. -/
theorem mapM_eq_ok {f : α → Except ε β} {l : List α} {r : List β} :
    l.mapM f = .ok r ↔ List.Forall₂ (fun a b => f a = .ok b) l r := by
  induction l generalizing r with
  | nil =>
    rw [List.mapM_nil, pure_eq_ok]
    exact ⟨fun h => by cases h; exact .nil, fun h => by cases h; rfl⟩
  | cons a rest ih =>
    rw [List.mapM_cons, bind_eq_ok]
    constructor
    · rintro ⟨b, hb, h⟩
      obtain ⟨bs, hbs, h⟩ := bind_eq_ok.1 h
      cases pure_eq_ok.1 h
      exact .cons hb (ih.1 hbs)
    · intro h
      cases h with
      | cons hb hbs => exact ⟨_, hb, bind_eq_ok.2 ⟨_, ih.2 hbs, rfl⟩⟩

/-- What is on one of two lists that belong together has a partner on the other. -/
theorem exists_of_forall₂ {R : α → β → Prop} {l : List α} {r : List β} (h : List.Forall₂ R l r)
    {a : α} (ha : a ∈ l) : ∃ b ∈ r, R a b := by
  obtain ⟨i, hi, rfl⟩ := List.getElem_of_mem ha
  obtain ⟨hlen, hget⟩ := List.forall₂_iff_get.1 h
  have hi' : i < r.length := hlen ▸ hi
  exact ⟨r[i], List.getElem_mem hi', hget i hi hi'⟩

/-- A list has a list of partners if each of its elements has a partner. -/
theorem exists_forall₂ {R : α → β → Prop} {l : List α} (h : ∀ a ∈ l, ∃ b, R a b) :
    ∃ r, List.Forall₂ R l r := by
  induction l with
  | nil => exact ⟨[], .nil⟩
  | cons a l ih =>
    obtain ⟨⟨b, hb⟩, hl⟩ := List.forall_mem_cons.1 h
    obtain ⟨r, hr⟩ := ih hl
    exact ⟨b :: r, .cons hb hr⟩

/-- Partners have the same position. -/
theorem getElem?_of_forall₂ {R : α → β → Prop} {l : List α} {r : List β} (h : List.Forall₂ R l r)
    {i : Nat} {b : β} (hb : r[i]? = some b) : ∃ a, l[i]? = some a ∧ R a b := by
  obtain ⟨hi, rfl⟩ := List.getElem?_eq_some_iff.1 hb
  obtain ⟨hlen, hget⟩ := List.forall₂_iff_get.1 h
  have hi' : i < l.length := hlen ▸ hi
  exact ⟨l[i], List.getElem?_eq_getElem hi', hget i hi' hi⟩

/-- Lists belong together when they have the same length and elements at the same position do. -/
theorem forall₂_of_getElem? {R : α → β → Prop} {l : List α} {r : List β}
    (hlen : l.length = r.length)
    (h : ∀ (i : Nat) a b, l[i]? = some a → r[i]? = some b → R a b) : List.Forall₂ R l r := by
  refine List.forall₂_iff_get.2 ⟨hlen, fun i hi hi' => ?_⟩
  exact h i _ _ (List.getElem?_eq_getElem hi) (List.getElem?_eq_getElem hi')

/-- Partners that look alike make lists that look alike. -/
theorem map_eq_map_of_forall₂ {f : α → γ} {g : β → γ} {l : List α} {r : List β}
    (h : List.Forall₂ (fun a b => f a = g b) l r) : l.map f = r.map g := by
  rwa [← List.forall₂_eq_eq_eq, List.forall₂_map_left_iff, List.forall₂_map_right_iff]

/-- Where the left side falls into two parts, so does the right side. -/
theorem append_of_forall₂ {R : α → β → Prop} {l l' : List α} {r : List β}
    (h : List.Forall₂ R (l ++ l') r) :
    ∃ a b, r = a ++ b ∧ List.Forall₂ R l a ∧ List.Forall₂ R l' b := by
  refine ⟨r.take l.length, r.drop l.length, (List.take_append_drop ..).symm, ?_, ?_⟩
  · have htake := List.forall₂_take l.length h
    rwa [List.take_left] at htake
  · have hdrop := List.forall₂_drop l.length h
    rwa [List.drop_left] at hdrop

/-- The first result is that of the first element, or of the rest. -/
theorem findSome?_cons_or (f : α → Option β) (a : α) (l : List α) :
    (a :: l).findSome? f = (f a).or (l.findSome? f) := by
  rw [List.findSome?_cons]
  cases f a <;> rfl

/-- A search finds the same when the elements are looked at in the same way. -/
theorem findSome?_congr {l : List α} {f g : α → Option β} (h : ∀ a ∈ l, f a = g a) :
    l.findSome? f = l.findSome? g := by
  induction l with
  | nil => rfl
  | cons a rest ih =>
    obtain ⟨ha, hrest⟩ := List.forall_mem_cons.1 h
    rw [findSome?_cons_or, findSome?_cons_or, ha, ih hrest]

/-! ## Errors -/

/-- The error of a computation, if it fails. -/
def error? : Except ε α → Option ε
  | .ok _ => none
  | .error e => some e

@[simp] theorem error?_ok (a : α) : error? (.ok a : Except ε α) = none := rfl

@[simp] theorem error?_pure (a : α) : error? (pure a : Except ε α) = none := rfl

@[simp] theorem error?_error (e : ε) : error? (.error e : Except ε α) = some e := rfl

/-- The failure of a computation. -/
theorem error?_eq_some {x : Except ε α} {e : ε} : error? x = some e ↔ x = .error e := by
  cases x <;> simp

/-- A computation without a failure has a result. -/
theorem error?_eq_none {x : Except ε α} : error? x = none ↔ ∃ a, x = .ok a := by
  cases x <;> simp

@[simp] theorem error?_mapError (f : ε → ε') (x : Except ε α) :
    error? (x.mapError f) = (error? x).map f := by
  cases x <;> rfl

/-- A sequence of two computations fails with the first, or else with the second. -/
theorem error?_bind {x : Except ε α} {f : α → Except ε β} {r : Option ε}
    (h : ∀ a, x = .ok a → error? (f a) = r) : error? (x >>= f) = (error? x).or r := by
  cases x with
  | error e => rfl
  | ok a => exact h a rfl

/-- Working on with a result adds no error. -/
@[simp] theorem error?_bind_pure (x : Except ε α) (f : α → β) :
    error? (x >>= fun a => pure (f a)) = error? x := by
  cases x <;> rfl

/-- A computation over a list fails with the first element that it fails on. -/
theorem error?_mapM (f : α → Except ε β) (l : List α) :
    error? (l.mapM f) = l.findSome? fun a => error? (f a) := by
  induction l with
  | nil => rfl
  | cons a rest ih =>
    have hrest (b : β) : error? (rest.mapM f >>= fun bs => pure (b :: bs))
        = rest.findSome? fun a => error? (f a) := by
      rw [error?_bind_pure, ih]
    rw [List.mapM_cons, error?_bind fun b _ => hrest b, findSome?_cons_or]

end

namespace Emit

variable {α : Type} {a : α}

/-- A part that is refused in its own words, inside of a computation that can also crash. -/
theorem liftM_rejection_eq_ok {x : Except Rejection α} :
    (liftM x : Except Failure α) = .ok a ↔ x = .ok a :=
  mapError_eq_ok

@[simp] theorem error?_liftM_rejection (x : Except Rejection α) :
    error? (liftM x : Except Failure α) = (error? x).map .rejected :=
  error?_mapError ..

/-- A computation that may crash keeps its results among the failures. -/
theorem liftM_crash_eq_ok {x : Except Crash α} :
    (liftM x : Except Failure α) = .ok a ↔ x = .ok a :=
  mapError_eq_ok

end Emit

end QuadAsm
