import VirtualTree.Forest.Axes

/-!
# Document order

Any two pointers can be compared.  Nodes of one tree are ordered by their places in it: a node stands
before its attributes, these before its children, and these in order.  Nodes of different trees are
ordered by the positions of their tops in a table, `Roots`, that only grows; a top is entered when it
is first needed, so the order of two trees never changes.  `comparePositions` is this order, and
`compare` refines it for sequences: the attributes of one element are ordered by their names.
-/

namespace VirtualTree

/-- The tops of trees in the order in which they were first needed. -/
structure Roots where
  /-- The tops, the earliest first. -/
  tops : List Pointer
deriving DecidableEq

namespace Roots

/-- The table without entries. -/
def empty : Roots := ⟨[]⟩

instance : Inhabited Roots := ⟨empty⟩

/-- The number of entries. -/
def size (t : Roots) : Nat := t.tops.length

/-- The position of a top, which is entered at the end if it is new. -/
def ordinal (t : Roots) (top : Pointer) : Nat × Roots :=
  match t.tops.idxOf? top with
  | some i => (i, t)
  | none => (t.size, ⟨t.tops ++ [top]⟩)

end Roots

/-- A comparison: it may enter tops into the table and may find a pointer that fits nowhere. -/
abbrev Comparison := EStateM Error Roots

namespace Comparison

/-- The position of a top in the table. -/
def ordinal (top : Pointer) : Comparison Nat := modifyGet fun t => t.ordinal top

/-- An answer that does not need the table. -/
def ofExcept {α : Type} : Except Error α → Comparison α
  | .ok a => pure a
  | .error e => throw e

end Comparison

/-- The order of absent values before present ones, and of present ones by `compare`. -/
def compareOption {α : Type} (compare : α → α → Ordering) : Option α → Option α → Ordering
  | none, none => .eq
  | none, some _ => .lt
  | some _, none => .gt
  | some a, some b => compare a b

/-- The order of texts by the code points of their characters. -/
def compareText (a b : String) : Ordering := if a < b then .lt else if a = b then .eq else .gt

/-- The order of names: by local part, then by namespace, then by qualifier. -/
def Name.compare (a b : Name) : Ordering :=
  (compareText a.localPart b.localPart).then <|
    (compareOption compareText a.namespaceUri b.namespaceUri).then <|
      compareOption compareText a.qualifier b.qualifier

namespace Forest

variable (f : Forest)

/-- The node and the nodes above it up to its top, from the node upwards, with at most `n` steps.  A
document is always a top. -/
def upward : Nat → Pointer → Except Error (List Pointer)
  | 0, p => .ok [p]
  | n + 1, p =>
    if f.kind p.node = .document then .ok [p]
    else do
      match ← f.parent? p with
      | none => return [p]
      | some q => return p :: (← upward n q)

/-- The nodes from the top of the tree down to the node.  Each step upwards either leaves a graft
point behind or goes up in the document. -/
def path (p : Pointer) : Except Error (List Pointer) :=
  (f.upward (p.graft.length + f.document.size) p).map List.reverse

/-- The order of two different nodes with a common parent: attributes first, then children. -/
def compareSiblings (parent a b : Pointer) : Except Error Ordering :=
  match (f.attributes parent ++ f.children parent).find? fun s => s = a ∨ s = b with
  | some s => .ok (if s = a then .lt else .gt)
  | none => .error .unlistedSiblings

/-- The order of two nodes below a common one, given the rest of the paths to them.  A node stands
before all nodes below it. -/
def comparePaths (common : Pointer) : List Pointer → List Pointer → Except Error Ordering
  | [], [] => .ok .eq
  | [], _ :: _ => .ok .lt
  | _ :: _, [] => .ok .gt
  | a :: as, b :: bs => if a = b then comparePaths a as bs else f.compareSiblings common a b

/-- The order of two nodes by their places. -/
def comparePositions (a b : Pointer) : Comparison Ordering := do
  if a = b then
    return .eq
  let pathA ← .ofExcept (f.path a)
  let pathB ← .ofExcept (f.path b)
  match pathA, pathB with
  | topA :: restA, topB :: restB =>
    if topA = topB then
      .ofExcept (f.comparePaths topA restA restB)
    else
      let i ← Comparison.ordinal topA
      let j ← Comparison.ordinal topB
      return Ord.compare i j
  | _, _ => throw .unlistedSiblings

/-- The node that stands for another in comparisons: the owner for an attribute that has one. -/
def subject (p : Pointer) : Except Error Pointer :=
  if f.kind p.node = .attribute then do
    return (← f.parent? p).getD p
  else .ok p

/-- The order of the names of two nodes; a node without a name is not ordered by it. -/
def compareNames (a b : Pointer) : Ordering :=
  match f.name? a.node, f.name? b.node with
  | some n, some m => n.compare m
  | _, _ => .eq

/-- The order of two nodes in a sequence.  An attribute stands where its owner stands, but after it;
two attributes of one owner are ordered by their names and then by their places. -/
def compare (a b : Pointer) : Comparison Ordering := do
  if a = b then
    return .eq
  let attributeA : Bool := f.kind a.node = .attribute
  let attributeB : Bool := f.kind b.node = .attribute
  match attributeA, attributeB with
  | false, false => f.comparePositions a b
  | _, _ =>
    let subjectA ← .ofExcept (f.subject a)
    let subjectB ← .ofExcept (f.subject b)
    match ← f.comparePositions subjectA subjectB with
    | .eq =>
      match attributeA, attributeB with
      | true, false => return .gt
      | false, true => return .lt
      | _, _ =>
        match f.compareNames a b with
        | .eq => f.comparePositions a b
        | order => return order
    | order => return order

end Forest

end VirtualTree
