/-!
# Quicksort that adapts to patterns

Sorting in place by partitioning, with a few extra measures: short ranges are sorted by insertion, a
range that looks sorted is tried by insertion first, one that looks reversed is turned round, ranges
with many equal elements are split off in one go, unbalanced partitions lead to some shuffling, and
after too many of them a range is sorted as a heap. The sort is not stable: where elements that
compare as equal end up depends on all of these measures, but only on the input. Main definition:
`Quicksort.sort`.
-/

namespace QuadAsm.Quicksort

variable {α : Type}

/-- Ranges up to this length are sorted by insertion. -/
def shortRange : Nat := 12

/-- From this length on the pivot is taken from nine elements, and single elements may be moved in a
range that looks sorted. -/
def longRange : Nat := 50

section
variable (lt : α → α → Bool)

/-- Whether element `i` comes before element `j`. -/
def less (a : Array α) (i j : Nat) : Bool :=
  match a[i]?, a[j]? with
  | some x, some y => lt x y
  | _, _ => false

/-- Moves element `j` down to its place, not below `lo`. -/
def sink (lo : Nat) : Nat → Array α → Array α
  | 0, a => a
  | j + 1, a =>
    if lo < j + 1 ∧ less lt a (j + 1) j then sink lo j (a.swapIfInBounds (j + 1) j) else a

/-- Moves element `j` up to its place below `hi`, in at most `steps` steps. -/
def rise (hi : Nat) : Nat → Nat → Array α → Array α
  | 0, _, a => a
  | steps + 1, j, a =>
    if j < hi ∧ less lt a j (j - 1) then rise hi steps (j + 1) (a.swapIfInBounds j (j - 1)) else a

/-- Sorts the elements from `lo` on by insertion, where `count` of them are left and `i` is next. -/
def insertFrom (lo : Nat) : Nat → Nat → Array α → Array α
  | 0, _, a => a
  | count + 1, i, a => insertFrom lo count (i + 1) (sink lt lo i a)

/-- Sorts the range from `lo` up to `hi` by insertion. -/
def insertionSort (lo hi : Nat) (a : Array α) : Array α :=
  insertFrom lt lo (hi - (lo + 1)) (lo + 1) a

/-- Lets the element at `root` of the heap that starts at `first` and has `size` elements sink to
its place, in at most `steps` steps. -/
def siftDown (first size : Nat) : Nat → Nat → Array α → Array α
  | 0, _, a => a
  | steps + 1, root, a =>
    let child := 2 * root + 1
    if child ≥ size then a
    else
      let child :=
        if child + 1 < size ∧ less lt a (first + child) (first + child + 1) then child + 1
        else child
      if less lt a (first + root) (first + child) then
        siftDown first size steps child (a.swapIfInBounds (first + root) (first + child))
      else a

/-- Makes a heap of the range, from the node before `count` down to the first. -/
def buildHeap (first size : Nat) : Nat → Array α → Array α
  | 0, a => a
  | count + 1, a => buildHeap first size count (siftDown lt first size size count a)

/-- Takes the largest elements off a heap of `count` elements, one after the other. -/
def drainHeap (first : Nat) : Nat → Array α → Array α
  | 0, a => a
  | count + 1, a =>
    drainHeap first count (siftDown lt first count count 0 (a.swapIfInBounds first (first + count)))

/-- Sorts the range from `lo` up to `hi` as a heap. -/
def heapSort (lo hi : Nat) (a : Array α) : Array α :=
  let size := hi - lo
  drainHeap lt lo size (buildHeap lt lo size ((size - 1) / 2 + 1) a)

/-- The first place from `i` up to `j` whose element does not satisfy `p`, else the place behind. -/
def skipUp (p : Nat → Bool) (i j : Nat) : Nat :=
  i + ((List.range' i (j + 1 - i)).takeWhile p).length

/-- The last place from `i` up to `j` whose element does not satisfy `p`, else the place before. -/
def skipDown (p : Nat → Bool) (i j : Nat) : Nat :=
  j - ((List.range' i (j + 1 - i)).reverse.takeWhile p).length

/-- Exchanges elements from both ends, those that fail `left` with those that fail `right`, until
the ends meet. Gives the ends, and whether nothing had to be exchanged. -/
def exchange (left right : Array α → Nat → Bool) (fresh : Bool) :
    Nat → Nat → Nat → Array α → Array α × Nat × Nat × Bool
  | 0, i, j, a => (a, i, j, fresh)
  | steps + 1, i, j, a =>
    let i := skipUp (left a) i j
    let j := skipDown (right a) i j
    if i > j then (a, i, j, fresh)
    else exchange left right false steps (i + 1) (j - 1) (a.swapIfInBounds i j)

/-- Partitions the range: elements before the pivot first, then the pivot, then the others. Gives
the place of the pivot and whether the range was partitioned already. -/
def partition (lo hi pivot : Nat) (a : Array α) : Array α × Nat × Bool :=
  let a := a.swapIfInBounds lo pivot
  let (a, _, j, fresh) :=
    exchange (fun a i => less lt a i lo) (fun a j => !less lt a j lo) true
      (hi - lo) (lo + 1) (hi - 1) a
  (a.swapIfInBounds j lo, j, fresh)

/-- Partitions a range without elements before the pivot into those that equal it and the others.
Gives the start of the others. -/
def partitionEqual (lo hi pivot : Nat) (a : Array α) : Array α × Nat :=
  let a := a.swapIfInBounds lo pivot
  let (a, i, _, _) :=
    exchange (fun a i => !less lt a lo i) (fun a j => less lt a lo j) true
      (hi - lo) (lo + 1) (hi - 1) a
  (a, i)

/-- Tries to sort a range that looks sorted, with at most `moves` misplaced elements. Only long
ranges are changed. Gives whether it is sorted now. -/
def tryInsertion (lo hi : Nat) : Nat → Nat → Array α → Array α × Bool
  | 0, _, a => (a, false)
  | moves + 1, i, a =>
    let i := i + ((List.range' i (hi - i)).takeWhile fun k => !less lt a k (k - 1)).length
    if i = hi then (a, true)
    else if hi - lo < longRange then (a, false)
    else
      let a := a.swapIfInBounds i (i - 1)
      let a := if i - lo ≥ 2 then sink lt 0 (i - 1) a else a
      let a := if hi - i ≥ 2 then rise lt hi (hi - i) (i + 1) a else a
      tryInsertion lo hi moves i a

/-- Two places in the order of their elements, and how often places had to change so far. -/
def order (a : Array α) (i j swaps : Nat) : Nat × Nat × Nat :=
  if less lt a j i then (j, i, swaps + 1) else (i, j, swaps)

/-- The place of the middle one of three elements. -/
def median (a : Array α) (i j k swaps : Nat) : Nat × Nat :=
  let (i, j, swaps) := order lt a i j swaps
  let (j, _, swaps) := order lt a j k swaps
  let (_, j, swaps) := order lt a i j swaps
  (j, swaps)

/-- The place of the middle one of an element and its neighbours. -/
def medianNear (a : Array α) (i swaps : Nat) : Nat × Nat := median lt a (i - 1) i (i + 1) swaps

/-- How a range looks. -/
inductive Look where
  | increasing
  | decreasing
  | mixed
  deriving DecidableEq, Repr

/-- Chooses a pivot from elements at the quarters of the range, and tells how the range looks. -/
def choosePivot (lo hi : Nat) (a : Array α) : Nat × Look :=
  let quarter := (hi - lo) / 4
  let i := lo + quarter
  let j := lo + quarter * 2
  let k := lo + quarter * 3
  let (pivot, swaps) :=
    if hi - lo < 8 then (j, 0)
    else if hi - lo < longRange then median lt a i j k 0
    else
      let (i, swaps) := medianNear lt a i 0
      let (j, swaps) := medianNear lt a j swaps
      let (k, swaps) := medianNear lt a k swaps
      median lt a i j k swaps
  (pivot, if swaps = 0 then .increasing else if swaps = 12 then .decreasing else .mixed)

/-- Reverses the range from `i` to `j`, in at most `steps` steps. -/
def reverse : Nat → Nat → Nat → Array α → Array α
  | 0, _, _, a => a
  | steps + 1, i, j, a =>
    if i < j then reverse steps (i + 1) (j - 1) (a.swapIfInBounds i j) else a

/-- The number after `r` in the sequence that drives the shuffling. -/
def scramble (r : UInt64) : UInt64 :=
  let r := r ^^^ (r <<< 13)
  let r := r ^^^ (r >>> 7)
  r ^^^ (r <<< 17)

/-- Exchanges the three elements around the middle of a range with others. -/
def shuffle (lo hi : Nat) (a : Array α) : Array α :=
  let length := hi - lo
  let mask : UInt64 := UInt64.ofNat (2 * (1 <<< Nat.log2 length) - 1)
  let middle := lo + length / 4 * 2
  let step (state : Array α × UInt64) (i : Nat) : Array α × UInt64 :=
    let r := scramble state.2
    let other := (r &&& mask).toNat
    let other := if other ≥ length then other - length else other
    (state.1.swapIfInBounds (middle - 1 + i) (lo + other), r)
  if length < 8 then a else ([0, 1, 2].foldl step (a, UInt64.ofNat length)).1

/-- Sorts the range from `lo` up to `hi`. After `limit` unbalanced partitions it is sorted as a
heap. Every step makes the range shorter, so that `steps` need be no more than its length. -/
def sortRange : Nat → Nat → Bool → Bool → Nat → Nat → Array α → Array α
  | 0, _, _, _, lo, hi, a => insertionSort lt lo hi a
  | steps + 1, limit, balanced, partitioned, lo, hi, a =>
    let length := hi - lo
    if length ≤ shortRange then insertionSort lt lo hi a
    else if limit = 0 then heapSort lt lo hi a
    else
      let a := if balanced then a else shuffle lo hi a
      let limit := if balanced then limit else limit - 1
      let (pivot, look) := choosePivot lt lo hi a
      let a := if look = .decreasing then reverse length lo (hi - 1) a else a
      let pivot := if look = .decreasing then hi - 1 - (pivot - lo) else pivot
      let (a, done) :=
        if balanced && partitioned && look != .mixed then tryInsertion lt lo hi 5 (lo + 1) a
        else (a, false)
      if done then a
      else if lo > 0 ∧ !less lt a (lo - 1) pivot then
        let (a, start) := partitionEqual lt lo hi pivot a
        sortRange steps limit balanced partitioned start hi a
      else
        let (a, mid, fresh) := partition lt lo hi pivot a
        if mid - lo < hi - mid then
          let a := sortRange steps limit true true lo mid a
          sortRange steps limit (mid - lo ≥ length / 8) fresh (mid + 1) hi a
        else
          let a := sortRange steps limit true true (mid + 1) hi a
          sortRange steps limit (hi - mid ≥ length / 8) fresh lo mid a

/-- Sorts a list. -/
def sort (items : List α) : List α :=
  let n := items.length
  (sortRange lt n (if n = 0 then 0 else Nat.log2 n + 1) true true 0 n items.toArray).toList

end

end QuadAsm.Quicksort
