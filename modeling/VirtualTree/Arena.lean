import VirtualTree.Label
import VirtualTree.Pointer

/-!
# Silhouettes

A silhouette describes a node that was never built.  Its attributes and children are references, to
other silhouettes or to nodes of a document, so a node can be spliced under a virtual parent without
being copied.  An `Arena` owns the silhouettes of one evaluation.  Silhouettes never change, and each
refers only to silhouettes allocated before it; so no silhouette lies below itself.
-/

namespace VirtualTree

/-- The description of a node that was never built. -/
inductive Silhouette where
  | document (children : List NodeRef)
  | element (name : Name) (attributes children : List NodeRef)
  | attribute (name : Name) (value : String)
  | text (data : String)
  | comment (data : String)
  | processingInstruction (target data : String)
deriving DecidableEq

namespace Silhouette

instance : Inhabited Silhouette := ⟨.text ""⟩

/-- The label of the described node. -/
def label : Silhouette → Label
  | .document _ => .document
  | .element name _ _ => .element name
  | .attribute name value => .attribute name value
  | .text data => .text data
  | .comment data => .comment data
  | .processingInstruction target data => .processingInstruction target data

/-- The children of the described node, in order. -/
def children : Silhouette → List NodeRef
  | .document children => children
  | .element _ _ children => children
  | _ => []

/-- The attributes of the described node, in order. -/
def attributes : Silhouette → List NodeRef
  | .element _ attributes _ => attributes
  | _ => []

/-- Everything a silhouette refers to. -/
def references (s : Silhouette) : List NodeRef := s.attributes ++ s.children

/-- The silhouette with other children, if it is one that has children. -/
def withChildren? (children : List NodeRef) : Silhouette → Option Silhouette
  | .document _ => some (.document children)
  | .element name attributes _ => some (.element name attributes children)
  | _ => none

/-- The silhouette with other attributes, if it is one that has attributes. -/
def withAttributes? (attributes : List NodeRef) : Silhouette → Option Silhouette
  | .element name _ children => some (.element name attributes children)
  | _ => none

end Silhouette

/-- A reference to a node of a document, or to one of the first `n` silhouettes. -/
def NodeRef.Below (n : Nat) : NodeRef → Prop
  | .real _ => True
  | .silhouette id => id.index < n

instance (n : Nat) : (r : NodeRef) → Decidable (r.Below n)
  | .real _ => .isTrue trivial
  | .silhouette id => inferInstanceAs (Decidable (id.index < n))

/-- The silhouettes of one evaluation. -/
structure Arena where
  /-- The silhouettes, by the order of allocation. -/
  silhouettes : Array Silhouette
  /-- Silhouettes refer to earlier silhouettes only. -/
  below : ∀ (i : Nat) (h : i < silhouettes.size), ∀ r ∈ silhouettes[i].references, r.Below i

namespace Arena

/-- The arena without silhouettes. -/
def empty : Arena := ⟨#[], fun _ h => absurd h (Nat.not_lt_zero _)⟩

instance : Inhabited Arena := ⟨empty⟩

/-- The number of silhouettes. -/
def size (a : Arena) : Nat := a.silhouettes.size

/-- A silhouette by its position; one that is not in the arena looks like an empty text. -/
def get (a : Arena) (id : SilhouetteId) : Silhouette := a.silhouettes.getD id.index default

theorem below_of_mem_references {a : Arena} {id : SilhouetteId} {r : NodeRef}
    (h : r ∈ (a.get id).references) : r.Below id.index := by
  unfold get at h
  rw [Array.getD_eq_getD_getElem?] at h
  by_cases hi : id.index < a.silhouettes.size
  · rw [Array.getElem?_eq_getElem hi] at h
    exact a.below _ hi _ h
  · rw [Array.getElem?_eq_none (Nat.le_of_not_lt hi)] at h
    simp [Silhouette.references, Silhouette.attributes, Silhouette.children, default] at h

theorem lt_of_mem_references {a : Arena} {id s : SilhouetteId}
    (h : .silhouette s ∈ (a.get id).references) : s.index < id.index :=
  below_of_mem_references h

/-- Adds a silhouette that refers to silhouettes of the arena only. -/
def alloc (a : Arena) (s : Silhouette) (h : ∀ r ∈ s.references, r.Below a.size) :
    SilhouetteId × Arena :=
  (⟨a.size⟩, ⟨a.silhouettes.push s, fun i hi r hr => by
    rw [Array.getElem_push] at hr
    split at hr
    · exact a.below i _ r hr
    · obtain rfl : i = a.size := by
        rw [Array.size_push] at hi
        unfold size
        omega
      exact h r hr⟩)

/-- Adds a silhouette, unless it refers to a silhouette that is not in the arena. -/
def alloc? (a : Arena) (s : Silhouette) : Option (SilhouetteId × Arena) :=
  if h : ∀ r ∈ s.references, r.Below a.size then some (a.alloc s h) else none

/-- Adds a silhouette that differs from a given one in its children; the given one stays. -/
def withChildren? (a : Arena) (id : SilhouetteId) (children : List NodeRef) :
    Option (SilhouetteId × Arena) :=
  ((a.get id).withChildren? children).bind a.alloc?

/-- Adds a silhouette that differs from a given one in its attributes; the given one stays. -/
def withAttributes? (a : Arena) (id : SilhouetteId) (attributes : List NodeRef) :
    Option (SilhouetteId × Arena) :=
  ((a.get id).withAttributes? attributes).bind a.alloc?

theorem get_alloc (a : Arena) (s : Silhouette) (h : ∀ r ∈ s.references, r.Below a.size)
    (id : SilhouetteId) :
    (a.alloc s h).2.get id = if id.index = a.size then s else a.get id := by
  simp only [alloc, get, size, Array.getD_eq_getD_getElem?, Array.getElem?_push]
  split <;> rfl

@[simp] theorem size_alloc (a : Arena) (s : Silhouette) (h : ∀ r ∈ s.references, r.Below a.size) :
    (a.alloc s h).2.size = a.size + 1 := by
  simp [alloc, size]

end Arena

end VirtualTree
