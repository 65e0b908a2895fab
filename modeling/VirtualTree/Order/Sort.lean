import VirtualTree.Order.Compare

/-!
# Sorting

Sequences of nodes are put into document order and repeated nodes are dropped.  The sort may compare the
nodes in any order, and as comparisons enter tops into the table it makes a difference which are made
first; so a schedule says what is compared next.  Two nodes that cannot be compared count as equal; the
sort goes on, and the first such failure is the answer.
-/

namespace VirtualTree

/-- A way to sort `n` entries, which are named by their positions: two of them are compared, and what the
comparison tells decides how it goes on, until the entries are arranged. -/
inductive Schedule (n : Nat) where
  | arrange (order : List (Fin n))
  | compare (i j : Fin n) (next : Ordering → Schedule n)

namespace Schedule

variable {n : Nat}

/-- Moves an entry to the left into sorted ones, which are given from right to left, and goes on. -/
def insert (i : Fin n) (next : List (Fin n) → Schedule n) : List (Fin n) → Schedule n
  | [] => next [i]
  | j :: js =>
    .compare i j fun order =>
      if order = .lt then insert i (fun rest => next (j :: rest)) js else next (i :: j :: js)

/-- Sorts entries behind sorted ones, which are given from right to left. -/
def insertAll (sorted : List (Fin n)) : List (Fin n) → Schedule n
  | [] => .arrange sorted.reverse
  | i :: is => insert i (fun sorted => insertAll sorted is) sorted

/-- From left to right each entry moves to the left past the entries that stand after it. -/
def insertion (n : Nat) : Schedule n := insertAll [] (List.finRange n)

end Schedule

/-- The state of a sort: the table of tops and the first failure met. -/
structure Sorting where
  /-- The table of tops. -/
  roots : Roots
  /-- The first failure. -/
  fault? : Option Error

namespace Sorting

/-- What the sort is told of two nodes. -/
def compare (f : Forest) (a b : Pointer) : StateM Sorting Ordering := do
  let s ← get
  match f.compare a b s.roots with
  | .ok order roots =>
    set { s with roots := roots }
    return order
  | .error e roots =>
    set { s with roots := roots, fault? := s.fault?.or (some e) }
    return .eq

/-- Sorts the nodes as the schedule says. -/
def carryOut (f : Forest) (ps : List Pointer) : Schedule ps.length → StateM Sorting (List Pointer)
  | .arrange order => return order.map ps.get
  | .compare i j next => do
    carryOut f ps (next (← compare f (ps.get i) (ps.get j)))

end Sorting

/-- A list in which no entry equals the one before it. -/
def dropRepeated : List Pointer → List Pointer
  | a :: b :: rest => if a = b then dropRepeated (b :: rest) else a :: dropRepeated (b :: rest)
  | short => short

namespace Forest

/-- The nodes of a sequence in document order, each once; they are sorted by the schedule for their
number. -/
def sortAndDedupBy (f : Forest) (schedule : (n : Nat) → Schedule n) (pointers : List Pointer) :
    Comparison (List Pointer) :=
  fun roots =>
    match Sorting.carryOut f pointers (schedule pointers.length) ⟨roots, none⟩ with
    | (sorted, ⟨roots, none⟩) => .ok (dropRepeated sorted) roots
    | (_, ⟨roots, some e⟩) => .error e roots

/-- The nodes of a sequence in document order, each once.  Short sequences are sorted by insertion; here
longer ones are as well. -/
def sortAndDedup (f : Forest) (pointers : List Pointer) : Comparison (List Pointer) :=
  f.sortAndDedupBy Schedule.insertion pointers

end Forest

end VirtualTree
