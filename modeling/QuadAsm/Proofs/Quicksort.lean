import Mathlib
import QuadAsm.Quicksort

/-!
# Sorting keeps the elements

Every measure of the sort exchanges elements of the array and does nothing else, so the result has
the elements of the input (`sort_perm`), whatever the comparison is.
-/

namespace QuadAsm.Quicksort

variable {α : Type}

/-- An exchange keeps the elements, also one that is out of bounds and does nothing. -/
theorem swapIfInBounds_perm (a : Array α) (i j : Nat) : (a.swapIfInBounds i j).Perm a := by
  unfold Array.swapIfInBounds
  split
  · split
    · exact Array.swap_perm ..
    · exact .refl a
  · exact .refl a

/-- Two ways to go on that keep the elements. -/
theorem ite_perm {c : Prop} [Decidable c] {a b d : Array α} (ha : a.Perm d) (hb : b.Perm d) :
    (if c then a else b).Perm d := by
  split
  · exact ha
  · exact hb

section
variable (lt : α → α → Bool)

/-! ## Insertion -/

/-- Letting an element sink to its place keeps the elements. -/
theorem sink_perm (lo j : Nat) (a : Array α) : (sink lt lo j a).Perm a := by
  induction j generalizing a with
  | zero => exact .refl a
  | succ j ih =>
    rw [sink]
    split
    · exact (ih _).trans (swapIfInBounds_perm ..)
    · exact .refl a

/-- So does letting it rise. -/
theorem rise_perm (hi steps j : Nat) (a : Array α) : (rise lt hi steps j a).Perm a := by
  induction steps generalizing j a with
  | zero => exact .refl a
  | succ steps ih =>
    rw [rise]
    split
    · exact (ih ..).trans (swapIfInBounds_perm ..)
    · exact .refl a

/-- Inserting elements one after the other keeps them. -/
theorem insertFrom_perm (lo count i : Nat) (a : Array α) : (insertFrom lt lo count i a).Perm a := by
  induction count generalizing i a with
  | zero => exact .refl a
  | succ count ih => exact (ih ..).trans (sink_perm ..)

/-- Sorting by insertion keeps the elements. -/
theorem insertionSort_perm (lo hi : Nat) (a : Array α) : (insertionSort lt lo hi a).Perm a :=
  insertFrom_perm ..

/-- So does the attempt to finish a range that is almost sorted, even if it is given up. -/
theorem tryInsertion_perm (lo hi moves i : Nat) (a : Array α) :
    (tryInsertion lt lo hi moves i a).1.Perm a := by
  induction moves generalizing i a with
  | zero => exact .refl a
  | succ moves ih =>
    rw [tryInsertion]
    split
    · exact .refl a
    · split
      · exact .refl a
      · have hsunk (i : Nat) : (if i - lo ≥ 2 then sink lt 0 (i - 1) (a.swapIfInBounds i (i - 1))
            else a.swapIfInBounds i (i - 1)).Perm a :=
          ite_perm ((sink_perm ..).trans (swapIfInBounds_perm ..)) (swapIfInBounds_perm ..)
        exact (ih ..).trans (ite_perm ((rise_perm ..).trans (hsunk _)) (hsunk _))

/-! ## Heaps -/

/-- Restoring the heap below a root keeps the elements. -/
theorem siftDown_perm (first size steps root : Nat) (a : Array α) :
    (siftDown lt first size steps root a).Perm a := by
  induction steps generalizing root a with
  | zero => exact .refl a
  | succ steps ih =>
    rw [siftDown]
    split
    · exact .refl a
    · exact ite_perm ((ih ..).trans (swapIfInBounds_perm ..)) (.refl a)

/-- Building a heap keeps the elements. -/
theorem buildHeap_perm (first size count : Nat) (a : Array α) :
    (buildHeap lt first size count a).Perm a := by
  induction count generalizing a with
  | zero => exact .refl a
  | succ count ih => exact (ih _).trans (siftDown_perm ..)

/-- Taking the largest elements off a heap one by one keeps them. -/
theorem drainHeap_perm (first count : Nat) (a : Array α) :
    (drainHeap lt first count a).Perm a := by
  induction count generalizing a with
  | zero => exact .refl a
  | succ count ih => exact (ih _).trans ((siftDown_perm ..).trans (swapIfInBounds_perm ..))

/-- Sorting by a heap keeps the elements. -/
theorem heapSort_perm (lo hi : Nat) (a : Array α) : (heapSort lt lo hi a).Perm a :=
  (drainHeap_perm ..).trans (buildHeap_perm ..)

/-! ## Partitions -/

/-- The exchanges from both ends keep the elements, for any two tests. -/
theorem exchange_perm (left right : Array α → Nat → Bool) (fresh : Bool) (steps i j : Nat)
    (a : Array α) : (exchange left right fresh steps i j a).1.Perm a := by
  induction steps generalizing fresh i j a with
  | zero => exact .refl a
  | succ steps ih =>
    rw [exchange]
    split
    · exact .refl a
    · exact (ih ..).trans (swapIfInBounds_perm ..)

/-- A partition keeps the elements. -/
theorem partition_perm (lo hi pivot : Nat) (a : Array α) :
    (partition lt lo hi pivot a).1.Perm a :=
  (swapIfInBounds_perm ..).trans ((exchange_perm ..).trans (swapIfInBounds_perm ..))

/-- So does one that sets the elements apart that equal the pivot. -/
theorem partitionEqual_perm (lo hi pivot : Nat) (a : Array α) :
    (partitionEqual lt lo hi pivot a).1.Perm a :=
  (exchange_perm ..).trans (swapIfInBounds_perm ..)

/-- Reversing a range keeps the elements. -/
theorem reverse_perm (steps i j : Nat) (a : Array α) : (reverse steps i j a).Perm a := by
  induction steps generalizing i j a with
  | zero => exact .refl a
  | succ steps ih =>
    rw [reverse]
    split
    · exact (ih ..).trans (swapIfInBounds_perm ..)
    · exact .refl a

/-- Breaking up patterns keeps the elements. -/
theorem shuffle_perm (lo hi : Nat) (a : Array α) : (shuffle lo hi a).Perm a := by
  unfold shuffle
  exact ite_perm (.refl a)
    ((swapIfInBounds_perm ..).trans ((swapIfInBounds_perm ..).trans (swapIfInBounds_perm ..)))

/-! ## The sort -/

/-- Sorting a range keeps the elements, whichever of the measures are taken. -/
theorem sortRange_perm (steps limit : Nat) (balanced partitioned : Bool) (lo hi : Nat)
    (a : Array α) : (sortRange lt steps limit balanced partitioned lo hi a).Perm a := by
  induction steps generalizing limit balanced partitioned lo hi a with
  | zero => exact insertionSort_perm ..
  | succ steps ih =>
    rw [sortRange]
    split
    · exact insertionSort_perm ..
    · split
      · exact heapSort_perm ..
      · dsimp only
        -- The array is shuffled, turned round and partly sorted, one after the other.
        have hshuffled : (if balanced = true then a else shuffle lo hi a).Perm a :=
          ite_perm (.refl a) (shuffle_perm lo hi a)
        generalize (if balanced = true then a else shuffle lo hi a) = shuffled at hshuffled ⊢
        generalize choosePivot lt lo hi shuffled = chosen
        have hturned : (if chosen.2 = .decreasing then reverse (hi - lo) lo (hi - 1) shuffled
            else shuffled).Perm a := ite_perm ((reverse_perm ..).trans hshuffled) hshuffled
        generalize (if chosen.2 = .decreasing then reverse (hi - lo) lo (hi - 1) shuffled
          else shuffled) = turned at hturned ⊢
        have htried : (if (balanced && partitioned && chosen.2 != .mixed) = true then
            tryInsertion lt lo hi 5 (lo + 1) turned else (turned, false)).1.Perm a := by
          split
          · exact (tryInsertion_perm ..).trans hturned
          · exact hturned
        generalize (if (balanced && partitioned && chosen.2 != .mixed) = true then
          tryInsertion lt lo hi 5 (lo + 1) turned else (turned, false)) = tried at htried ⊢
        refine ite_perm htried (ite_perm ?_ (ite_perm ?_ ?_))
        · exact (ih ..).trans ((partitionEqual_perm ..).trans htried)
        · exact (ih ..).trans ((ih ..).trans ((partition_perm ..).trans htried))
        · exact (ih ..).trans ((ih ..).trans ((partition_perm ..).trans htried))

/-- A sorted list has the elements of the list. -/
theorem sort_perm (items : List α) : (sort lt items).Perm items :=
  Array.perm_iff_toList_perm.1 (sortRange_perm ..)

end

end QuadAsm.Quicksort
