/-!
# Sets that remember the order of arrival

Knowledge bases, the two sides of a sequent and the literals of a clause are sets whose order can be
seen.  They are lists of pairwise different elements, where **different** is said by a Boolean
equivalence that the type carries: adding an element that is already there changes nothing, so the
first of two equivalent elements stays.
-/

namespace AnnealProver

variable {α : Type} {same : α → α → Bool}

/-- Elements in order of arrival, no two of them the same. -/
structure OrderedSet {α : Type} (same : α → α → Bool) where
  toList : List α
  distinct : toList.Pairwise fun a b => same a b = false

namespace OrderedSet

/-- The set without elements. -/
def empty : OrderedSet same := ⟨[], .nil⟩

instance : EmptyCollection (OrderedSet same) := ⟨empty⟩
instance : Inhabited (OrderedSet same) := ⟨empty⟩

/-- Whether an element of the set is the same as the given one. -/
def contains (s : OrderedSet same) (a : α) : Bool :=
  s.toList.any (same · a)

/-- Keeps the elements that pass the test. -/
def filter (p : α → Bool) (s : OrderedSet same) : OrderedSet same :=
  ⟨s.toList.filter p, s.distinct.filter p⟩

/-- Adds an element at the end unless it is there already. -/
def insert (s : OrderedSet same) (a : α) : OrderedSet same :=
  if h : s.contains a then s
  else ⟨s.toList ++ [a], by
    rw [List.pairwise_append]
    refine ⟨s.distinct, List.pairwise_singleton _ _, fun x hx y hy => ?_⟩
    obtain rfl := List.mem_singleton.1 hy
    simp only [contains, List.any_eq_true, not_exists, not_and, Bool.not_eq_true] at h
    exact h x hx⟩

/-- Adds elements one after the other. -/
def insertAll (s : OrderedSet same) (as : List α) : OrderedSet same :=
  as.foldl insert s

/-- The set of the elements of a list. -/
def ofList (as : List α) : OrderedSet same :=
  insertAll ∅ as

/-- Takes out what is the same as the given element. -/
def erase (s : OrderedSet same) (a : α) : OrderedSet same :=
  s.filter fun x => !same x a

/-- The elements of the first set, then the new ones of the second. -/
def union (s t : OrderedSet same) : OrderedSet same :=
  s.insertAll t.toList

/-- The elements of the first set that the second does not have. -/
def diff (s t : OrderedSet same) : OrderedSet same :=
  s.filter fun x => !t.contains x

/-- Whether the sets have an element in common. -/
def meets (s t : OrderedSet same) : Bool :=
  s.toList.any t.contains

/-- Whether every element of the first set is in the second. -/
def subset (s t : OrderedSet same) : Bool :=
  s.toList.all t.contains

/-- The number of elements. -/
def size (s : OrderedSet same) : Nat :=
  s.toList.length

/-- Whether there is no element. -/
def isEmpty (s : OrderedSet same) : Bool :=
  s.toList.isEmpty

/-! ## The list of elements -/

@[simp] theorem toList_empty : (∅ : OrderedSet same).toList = [] := rfl

theorem toList_insert (s : OrderedSet same) (a : α) :
    (s.insert a).toList = if s.contains a then s.toList else s.toList ++ [a] := by
  unfold insert
  split <;> rfl

@[simp] theorem toList_filter (p : α → Bool) (s : OrderedSet same) :
    (s.filter p).toList = s.toList.filter p := rfl

end OrderedSet

end AnnealProver
