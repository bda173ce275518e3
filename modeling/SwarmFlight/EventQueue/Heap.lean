/-!
# Leftist heaps

A heap is a tree whose root comes first in some order; everything is done by `merge`, which
walks down the right spines of two heaps. Each node stores the length of its right spine
and keeps the longer spine on the left, so right spines stay short.

`toList` is the view : `toList_merge` says that merging keeps all elements, and
`size_merge` that it keeps their number, on which the loops over a heap end.
-/

namespace SwarmFlight

/-- A tree with an element at every node and the length of its right spine. -/
inductive Heap (α : Type) where
  | empty
  | node (spine : Nat) (top : α) (left right : Heap α)

namespace Heap

variable {α : Type}

/-- The length of the right spine. -/
def spine : Heap α → Nat
  | empty => 0
  | node n _ _ _ => n

/-- The number of elements. -/
def size : Heap α → Nat
  | empty => 0
  | node _ _ l r => l.size + r.size + 1

/-- The elements, in no particular order. -/
def toList : Heap α → List α
  | empty => []
  | node _ x l r => x :: (l.toList ++ r.toList)

/-- The root, if there is one. -/
def top? : Heap α → Option α
  | empty => none
  | node _ x _ _ => some x

/-- An element over two heaps, the longer spine on the left. -/
def joined (x : α) (a b : Heap α) : Heap α :=
  if b.spine ≤ a.spine then node (b.spine + 1) x a b else node (a.spine + 1) x b a

/-- One heap of the elements of two. -/
def merge (le : α → α → Bool) : Heap α → Heap α → Heap α
  | empty, b => b
  | a, empty => a
  | node n x l r, node m y l' r' =>
    if le x y then joined x l (merge le r (node m y l' r'))
    else joined y l' (merge le (node n x l r) r')
  termination_by a b => a.size + b.size
  decreasing_by all_goals simp only [size]; omega

/-- A heap with one more element. -/
def insert (le : α → α → Bool) (x : α) (h : Heap α) : Heap α :=
  merge le (node 1 x empty empty) h

/-! ## Views -/

@[simp] theorem size_joined (x : α) (a b : Heap α) : (joined x a b).size = a.size + b.size + 1 := by
  unfold joined
  split
  · rfl
  · simp only [size]; omega

@[simp] theorem size_merge (le : α → α → Bool) (a b : Heap α) :
    (merge le a b).size = a.size + b.size := by
  fun_induction merge le a b with
  | case1 => simp [size]
  | case2 => simp [size]
  | case3 n x l r m y l' r' _ ih => simp only [size_joined, ih, size]; omega
  | case4 n x l r m y l' r' _ ih => simp only [size_joined, ih, size]; omega

theorem toList_joined (x : α) (a b : Heap α) :
    (joined x a b).toList.Perm (x :: (a.toList ++ b.toList)) := by
  unfold joined
  split
  · exact .refl _
  · exact .cons _ List.perm_append_comm

theorem toList_merge (le : α → α → Bool) (a b : Heap α) :
    (merge le a b).toList.Perm (a.toList ++ b.toList) := by
  fun_induction merge le a b with
  | case1 => exact .refl _
  | case2 => simp [toList]
  | case3 n x l r m y l' r' _ ih =>
    refine (toList_joined _ _ _).trans ?_
    simp only [toList, List.cons_append, List.append_assoc] at ih ⊢
    exact .cons _ (.append_left _ ih)
  | case4 n x l r m y l' r' _ ih =>
    refine (toList_joined _ _ _).trans ?_
    refine .trans (.cons _ (.append_left _ ih)) ?_
    refine .trans ?_ List.perm_middle.symm
    refine .cons _ ?_
    refine (List.perm_append_comm_assoc _ _ _).trans ?_
    exact .refl _

end Heap

end SwarmFlight
