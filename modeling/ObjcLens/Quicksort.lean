/-!
# Quicksort

An order of a list by a test. Where the test tells two elements apart their places are fixed by it;
elements that it does not tell apart stand as a quicksort leaves them: short ranges are sorted by
insertion, longer ones are split at a median of samples, a range that looks sorted is mended in
place, and a range that keeps splitting badly is scattered and at last sorted as a heap.

Main statements: `sort_perm` says that nothing is lost or added, and `pairwise_sort` that the
result is in order.
-/

namespace ObjcLens.Quicksort

variable {α : Type}

/-! ## Places of an array -/

/-- The element at `i` comes before that at `j`. -/
def isBefore (lt : α → α → Bool) (a : Array α) (i j : Nat) : Bool :=
  match a[i]?, a[j]? with
  | some x, some y => lt x y
  | _, _ => false

/-- The first of `count` places from `i` on at which a test fails, or the place after them. -/
def scanUp (p : Nat → Bool) : Nat → Nat → Nat
  | 0, i => i
  | count + 1, i => if p i then scanUp p count (i + 1) else i

/-- The last of `count` places up to `j` at which a test fails, or the place before them. -/
def scanDown (p : Nat → Bool) : Nat → Nat → Nat
  | 0, j => j
  | count + 1, j => if p j then scanDown p count (j - 1) else j

/-- Moves the element at a place down, as far as it comes before its neighbour, but not below
`low`. -/
def carryDown (lt : α → α → Bool) (low : Nat) : Nat → Array α → Array α
  | 0, a => a
  | j + 1, a =>
    if low ≤ j && isBefore lt a (j + 1) j then carryDown lt low j (a.swapIfInBounds (j + 1) j)
    else a

/-- Moves the element below a place up, as far as its neighbour comes before it, by at most
`count` places. -/
def carryUp (lt : α → α → Bool) : Nat → Nat → Array α → Array α
  | 0, _, a => a
  | count + 1, j, a =>
    if isBefore lt a j (j - 1) then carryUp lt count (j + 1) (a.swapIfInBounds j (j - 1)) else a

/-- Sorts the places from `low` to before `high` by insertion. -/
def insertAll (lt : α → α → Bool) (low high : Nat) (a : Array α) : Array α :=
  (List.range' (low + 1) (high - (low + 1))).foldl (fun a i => carryDown lt low i a) a

/-- Turns the places from `low` to before `high` round. -/
def turn (low high : Nat) (a : Array α) : Array α :=
  (List.range ((high - low) / 2)).foldl
    (fun a i => a.swapIfInBounds (low + i) (high - 1 - i)) a

/-! ## Heaps -/

/-- Moves the element at `root` of the heap that starts at `first` and has `size` elements down to
where no child comes after it. -/
def siftDown (lt : α → α → Bool) (first size : Nat) : Nat → Nat → Array α → Array α
  | 0, _, a => a
  | fuel + 1, root, a =>
    let left := 2 * root + 1
    if size ≤ left then a
    else
      let child :=
        if left + 1 < size && isBefore lt a (first + left) (first + left + 1) then left + 1
        else left
      if isBefore lt a (first + root) (first + child) then
        siftDown lt first size fuel child (a.swapIfInBounds (first + root) (first + child))
      else a

/-- Sorts the places from `low` to before `high` as a heap. -/
def heapSort (lt : α → α → Bool) (low high : Nat) (a : Array α) : Array α :=
  let size := high - low
  let heap := (List.range ((size - 1) / 2 + 1)).reverse.foldl
    (fun a i => siftDown lt low size size i a) a
  (List.range size).reverse.foldl
    (fun a i => siftDown lt low i size 0 (a.swapIfInBounds low (low + i))) heap

/-! ## Pivots -/

/-- How a range looks by its samples. -/
inductive Trend where
  /-- All samples are in order. -/
  | rising
  /-- All samples are in the opposite order. -/
  | falling
  /-- Anything else. -/
  | mixed
deriving DecidableEq, Repr

/-- Two places in the order of their elements, counting the times that they had to change. -/
def order (lt : α → α → Bool) (a : Array α) (i j : Nat) : StateM Nat (Nat × Nat) := do
  if isBefore lt a j i then
    modify (· + 1)
    return (j, i)
  else return (i, j)

/-- The place of the median of three. -/
def median (lt : α → α → Bool) (a : Array α) (i j k : Nat) : StateM Nat Nat := do
  let (i, j) ← order lt a i j
  let (j, _) ← order lt a j k
  let (_, j) ← order lt a i j
  return j

/-- The place of a pivot for the range from `low` to before `high`, and how the range looks. A
range of fifty or more elements has nine samples and any other three. -/
def choosePivot (lt : α → α → Bool) (low high : Nat) (a : Array α) : Nat × Trend :=
  let quarter := (high - low) / 4
  let sample (i : Nat) : StateM Nat Nat :=
    if 50 ≤ high - low then median lt a (i - 1) i (i + 1) else pure i
  let chosen : StateM Nat Nat := do
    let i ← sample (low + quarter)
    let j ← sample (low + quarter * 2)
    let k ← sample (low + quarter * 3)
    median lt a i j k
  let (pivot, changes) := chosen.run 0
  (pivot, if changes = 0 then .rising else if changes = 12 then .falling else .mixed)

/-- Three numbers that follow a seed, each from the one before by shifts. -/
def scatterSeeds (seed : UInt64) : List UInt64 :=
  let next (r : UInt64) : UInt64 :=
    let r := r ^^^ (r <<< 13)
    let r := r ^^^ (r >>> 7)
    r ^^^ (r <<< 17)
  [next seed, next (next seed), next (next (next seed))]

/-- Exchanges the three elements in the middle of the range with elements elsewhere in it. -/
def scatter (low high : Nat) (a : Array α) : Array α :=
  let length := high - low
  let modulus := Nat.pow 2 (Nat.log2 length + 1)
  (scatterSeeds length.toUInt64).zipIdx.foldl
    (fun a (seed, i) =>
      let other := seed.toNat % modulus
      let other := if length ≤ other then other - length else other
      a.swapIfInBounds (low + length / 4 * 2 - 2 + i) (low + other)) a

/-! ## Splitting a range -/

/-- What is left of a range once its elements have been exchanged from both ends. -/
structure Sweep (α : Type) where
  /-- The elements. -/
  elements : Array α
  /-- The first place that does not belong to the left. -/
  left : Nat
  /-- The last place that does not belong to the right. -/
  right : Nat
  /-- No exchange was made. -/
  isClean : Bool

/-- Exchanges elements of the places from `i` to `j` until those that belong to the left stand
left of the others. -/
def sweep (isLeft : Array α → Nat → Bool) : Nat → Nat → Nat → Bool → Array α → Sweep α
  | 0, i, j, isClean, a => ⟨a, i, j, isClean⟩
  | fuel + 1, i, j, isClean, a =>
    let left := scanUp (isLeft a) (j + 1 - i) i
    let right := scanDown (fun k => !isLeft a k) (j + 1 - left) j
    if right < left then ⟨a, left, right, isClean⟩
    else sweep isLeft fuel (left + 1) (right - 1) false (a.swapIfInBounds left right)

/-- Puts what comes before the element at `pivot` to its left. -/
def splitBefore (lt : α → α → Bool) (low high pivot : Nat) (a : Array α) : Sweep α :=
  let s := sweep (fun a k => isBefore lt a k low) (high - low) (low + 1) (high - 1) true
    (a.swapIfInBounds low pivot)
  { s with elements := s.elements.swapIfInBounds s.right low }

/-- Puts what does not come after the element at `pivot` to the left. -/
def splitUpTo (lt : α → α → Bool) (low high pivot : Nat) (a : Array α) : Sweep α :=
  sweep (fun a k => !isBefore lt a low k) (high - low) (low + 1) (high - 1) true
    (a.swapIfInBounds low pivot)

/-- Mends at most `steps` faults of a range that is nearly sorted, from the place `i` on, and
tells whether it is sorted then. Only a range of fifty or more elements is mended. -/
def mend (lt : α → α → Bool) (low high : Nat) : Nat → Nat → Array α → Array α × Bool
  | 0, _, a => (a, false)
  | steps + 1, start, a =>
    let i := scanUp (fun k => !isBefore lt a k (k - 1)) (high - start) start
    if i = high then (a, true)
    else if high - low < 50 then (a, false)
    else
      let a := a.swapIfInBounds i (i - 1)
      let a := if 2 ≤ i - low then carryDown lt 0 (i - 1) a else a
      let a := if 2 ≤ high - i then carryUp lt (high - (i + 1)) (i + 1) a else a
      mend lt low high steps i a

/-! ## Sorting -/

/-- What sorting a range has learnt from the splits before. -/
structure Progress where
  /-- How many more bad splits are borne. -/
  limit : Nat
  /-- The last split was balanced. -/
  isBalanced : Bool := true
  /-- The last split found nothing to exchange. -/
  isClean : Bool := true

/-- A range that is ready to be split. -/
structure Prepared (α : Type) where
  /-- The elements. -/
  elements : Array α
  /-- The place to split at. -/
  pivot : Nat
  /-- How many more bad splits are borne. -/
  limit : Nat
  /-- Nothing is left to be done. -/
  isSorted : Bool

/-- Chooses a pivot for the places from `low` to before `high`. A range that was split badly is
scattered first, a falling one is turned round, and one that looks sorted is mended. -/
def prepare (lt : α → α → Bool) (progress : Progress) (low high : Nat) (a : Array α) :
    Prepared α :=
  let limit := if progress.isBalanced then progress.limit else progress.limit - 1
  let scattered := if progress.isBalanced then a else scatter low high a
  let (pivot, trend) := choosePivot lt low high scattered
  let isFalling := trend = .falling
  let turned := if isFalling then turn low high scattered else scattered
  let pivot := if isFalling then (high - 1) - (pivot - low) else pivot
  if progress.isBalanced && progress.isClean && trend ≠ .mixed then
    let (mended, isSorted) := mend lt low high 5 (low + 1) turned
    ⟨mended, pivot, limit, isSorted⟩
  else ⟨turned, pivot, limit, false⟩

/-- Sorts the places from `low` to before `high`. Elements that equal the one before the range are
set aside at once. -/
def sortRange (lt : α → α → Bool) : Nat → Progress → Nat → Nat → Array α → Array α
  | 0, _, _, _, a => a
  | fuel + 1, progress, low, high, a =>
    if high - low ≤ 12 then insertAll lt low high a
    else if progress.limit = 0 then heapSort lt low high a
    else
      let ready := prepare lt progress low high a
      let limit := ready.limit
      if ready.isSorted then ready.elements
      -- the pivot is no larger than what is in front of the range: all that equals it is in place
      else if 0 < low && !isBefore lt ready.elements (low - 1) ready.pivot then
        let s := splitUpTo lt low high ready.pivot ready.elements
        sortRange lt fuel { progress with limit } s.left high s.elements
      else
        let s := splitBefore lt low high ready.pivot ready.elements
        -- the smaller side is sorted first
        let below := s.right - low
        let above := high - s.right
        let isBalanced : Bool := (high - low) / 8 ≤ min below above
        if below < above then
          sortRange lt fuel ⟨limit, isBalanced, s.isClean⟩ (s.right + 1) high
            (sortRange lt fuel { limit } low s.right s.elements)
        else
          sortRange lt fuel ⟨limit, isBalanced, s.isClean⟩ low s.right
            (sortRange lt fuel { limit } (s.right + 1) high s.elements)

/-- The elements as quicksort arranges them. -/
def arrange (lt : α → α → Bool) (l : List α) : List α :=
  let n := l.length
  (sortRange lt (n + 1) { limit := if n = 0 then 0 else Nat.log2 n + 1 } 0 n l.toArray).toList

/-- The elements in the order of a test `le`. What the test does not tell apart stands as
quicksort arranges it; merging what is arranged moves nothing more. -/
def sort (le : α → α → Bool) (l : List α) : List α :=
  (arrange (fun x y => !le y x) l).mergeSort le

/-! ## Nothing is lost -/

theorem swapIfInBounds_perm (a : Array α) (i j : Nat) : (a.swapIfInBounds i j).Perm a := by
  unfold Array.swapIfInBounds
  split
  · split
    · exact Array.swap_perm _ _
    · exact .refl a
  · exact .refl a

theorem foldl_perm {β : Type} (f : Array α → β → Array α) (h : ∀ a b, (f a b).Perm a)
    (l : List β) (a : Array α) : (l.foldl f a).Perm a := by
  induction l generalizing a with
  | nil => exact .refl a
  | cons b l ih => exact (ih (f a b)).trans (h a b)

theorem carryDown_perm (lt : α → α → Bool) (low j : Nat) (a : Array α) :
    (carryDown lt low j a).Perm a := by
  induction j generalizing a with
  | zero => exact .refl a
  | succ j ih =>
    unfold carryDown
    split
    · exact (ih _).trans (swapIfInBounds_perm a _ _)
    · exact .refl a

theorem carryUp_perm (lt : α → α → Bool) (count j : Nat) (a : Array α) :
    (carryUp lt count j a).Perm a := by
  induction count generalizing j a with
  | zero => exact .refl a
  | succ count ih =>
    unfold carryUp
    split
    · exact (ih _ _).trans (swapIfInBounds_perm a _ _)
    · exact .refl a

theorem siftDown_perm (lt : α → α → Bool) (first size fuel root : Nat) (a : Array α) :
    (siftDown lt first size fuel root a).Perm a := by
  induction fuel generalizing root a with
  | zero => exact .refl a
  | succ fuel ih =>
    unfold siftDown
    extract_lets left child
    split
    · exact .refl a
    · split
      · exact (ih _ _).trans (swapIfInBounds_perm a _ _)
      · exact .refl a

theorem heapSort_perm (lt : α → α → Bool) (low high : Nat) (a : Array α) :
    (heapSort lt low high a).Perm a :=
  (foldl_perm _ (fun a _ => (siftDown_perm ..).trans (swapIfInBounds_perm a _ _)) _ _).trans
    (foldl_perm _ (fun _ _ => siftDown_perm ..) _ _)

theorem insertAll_perm (lt : α → α → Bool) (low high : Nat) (a : Array α) :
    (insertAll lt low high a).Perm a :=
  foldl_perm _ (fun a i => carryDown_perm lt low i a) _ _

theorem turn_perm (low high : Nat) (a : Array α) : (turn low high a).Perm a :=
  foldl_perm _ (fun a _ => swapIfInBounds_perm a _ _) _ _

theorem scatter_perm (low high : Nat) (a : Array α) : (scatter low high a).Perm a :=
  foldl_perm _ (fun a _ => swapIfInBounds_perm a _ _) _ _

theorem sweep_perm (isLeft : Array α → Nat → Bool) (fuel i j : Nat) (isClean : Bool)
    (a : Array α) : (sweep isLeft fuel i j isClean a).elements.Perm a := by
  induction fuel generalizing i j isClean a with
  | zero => exact .refl a
  | succ fuel ih =>
    unfold sweep
    dsimp only
    split
    · exact .refl a
    · exact (ih _ _ _ _).trans (swapIfInBounds_perm a _ _)

theorem splitBefore_perm (lt : α → α → Bool) (low high pivot : Nat) (a : Array α) :
    (splitBefore lt low high pivot a).elements.Perm a :=
  (swapIfInBounds_perm _ _ _).trans
    ((sweep_perm _ _ _ _ _ _).trans (swapIfInBounds_perm a _ _))

theorem splitUpTo_perm (lt : α → α → Bool) (low high pivot : Nat) (a : Array α) :
    (splitUpTo lt low high pivot a).elements.Perm a :=
  (sweep_perm _ _ _ _ _ _).trans (swapIfInBounds_perm a _ _)

theorem mend_perm (lt : α → α → Bool) (low high steps start : Nat) (a : Array α) :
    (mend lt low high steps start a).1.Perm a := by
  induction steps generalizing start a with
  | zero => exact .refl a
  | succ steps ih =>
    unfold mend
    extract_lets i swapped lowered raised
    have hswapped : swapped.Perm a := swapIfInBounds_perm a _ _
    have hlowered : lowered.Perm swapped := by
      unfold lowered
      -- the range is in order as it is, or it is too short to be worth mending
      split
      · exact carryDown_perm ..
      · exact .refl _
    have hraised : raised.Perm lowered := by
      unfold raised
      split
      · exact carryUp_perm ..
      · exact .refl _
    split
    · exact .refl a
    · split
      · exact .refl a
      · exact (ih i raised).trans (hraised.trans (hlowered.trans hswapped))

theorem prepare_perm (lt : α → α → Bool) (progress : Progress) (low high : Nat) (a : Array α) :
    (prepare lt progress low high a).elements.Perm a := by
  unfold prepare
  extract_lets limit scattered
  have hscattered : scattered.Perm a := by
    unfold scattered
    split
    · exact .refl a
    · exact scatter_perm ..
  split
  extract_lets isFalling turned pivot
  have hturned : turned.Perm scattered := by
    unfold turned
    split
    · exact turn_perm ..
    · exact .refl _
  split
  · exact (mend_perm ..).trans (hturned.trans hscattered)
  · exact hturned.trans hscattered

theorem sortRange_perm (lt : α → α → Bool) (fuel : Nat) (progress : Progress) (low high : Nat)
    (a : Array α) : (sortRange lt fuel progress low high a).Perm a := by
  induction fuel generalizing progress low high a with
  | zero => exact .refl a
  | succ fuel ih =>
    unfold sortRange
    split
    · exact insertAll_perm ..
    split
    · exact heapSort_perm ..
    have ready := prepare_perm lt progress low high a
    dsimp only
    split
    · exact ready
    split
    -- only the part above the pivot is sorted on
    · exact (ih ..).trans ((splitUpTo_perm ..).trans ready)
    -- both sides are sorted, the smaller one first
    · split
      · exact (ih ..).trans ((ih ..).trans ((splitBefore_perm ..).trans ready))
      · exact (ih ..).trans ((ih ..).trans ((splitBefore_perm ..).trans ready))

theorem arrange_perm (lt : α → α → Bool) (l : List α) : (arrange lt l).Perm l := by
  simpa [arrange] using (sortRange_perm lt _ _ _ _ l.toArray).toList

/-- Sorting neither loses nor adds an element. -/
theorem sort_perm (le : α → α → Bool) (l : List α) : (sort le l).Perm l :=
  (List.mergeSort_perm _ _).trans (arrange_perm _ l)

/-- A sorted list is in order. -/
theorem pairwise_sort {le : α → α → Bool}
    (trans : ∀ x y z, le x y = true → le y z = true → le x z = true)
    (total : ∀ x y, (le x y || le y x) = true) (l : List α) :
    (sort le l).Pairwise fun x y => le x y = true :=
  List.pairwise_mergeSort trans total _

end ObjcLens.Quicksort
