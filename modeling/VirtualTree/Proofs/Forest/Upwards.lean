import VirtualTree.Proofs.Order.Path
import VirtualTree.Proofs.Update.Early

/-!
# Walks upwards end

No walk upwards goes on for ever, whatever pointer it starts from and however wrong its graft points are
(`upward_walks_end`): each step leaves a graft point behind, or keeps them all and goes up in the
document, so in the lexicographic order of both the pointers come nearer to a top (`Nearer`).  The bounds
on the steps in the definitions of `Forest.path` and `Forest.descent` are therefore never met.  Two
relations say so, as they give the results of these walks without any bound: `Climbs` for the way up
to the top of a tree, and `Unwinds` for the way up to the top of a virtual tree.
-/

namespace VirtualTree

open Document

namespace Forest

/-! ## Steps -/

/-- The pointer `q` has fewer graft points than `p`, or it has the same ones and its real node is the
parent of that of `p`. -/
def Nearer (f : Forest) (q p : Pointer) : Prop :=
  q.graft.length < p.graft.length ∨
    q.graft = p.graft ∧ ∃ c i, p.node = .real c ∧ q.node = .real i ∧ f.document.parent? c = some i

/-- How far a node stands from the top of its tree in the document. -/
def depth (f : Forest) : NodeRef → ℕ
  | .real id => (f.document.ancestorsOrSelf id).length
  | .silhouette _ => 0

variable {f : Forest}

theorem nearer_of_parent? {p q : Pointer} (h : f.parent? p = .ok (some q)) : f.Nearer q p := by
  obtain ⟨g, graft, -⟩ | climbed := cases_of_parent? h
  · left
    rw [graft, List.length_cons]
    exact Nat.lt_succ_self _
  · exact Or.inr climbed

/-- The number of graft points counts first, and then the place in the document. -/
theorem wellFounded_nearer (wf : f.document.WellFormed) : WellFounded f.Nearer := by
  have lexicographic : WellFounded
      (InvImage (Prod.Lex (· < ·) (· < ·)) fun p : Pointer => (p.graft.length, f.depth p.node)) :=
    InvImage.wf _ (WellFounded.prod_lex Nat.lt_wfRel.wf Nat.lt_wfRel.wf)
  refine Subrelation.wf (fun {q p} nearer => ?_) lexicographic
  obtain fewer | ⟨graft, c, i, nodeP, nodeQ, parent⟩ := nearer
  · exact Prod.lex_iff.2 (Or.inl fewer)
  · refine Prod.lex_iff.2 (Or.inr ⟨congrArg List.length graft, ?_⟩)
    show f.depth q.node < f.depth p.node
    rw [nodeP, nodeQ, depth, depth, wf.ancestorsOrSelf_of_parent parent]
    exact Nat.lt_succ_self _

/-! ## The way up to the top of a tree -/

/-- The way up from a pointer takes the given number of steps and has the given result: the pointers on
it from the top down, or the error of the step that fails. -/
inductive Climbs (f : Forest) : Pointer → ℕ → Except Error (List Pointer) → Prop
  | document {p : Pointer} (kind : f.kind p.node = .document) : Climbs f p 0 (.ok [p])
  | top {p : Pointer} (kind : f.kind p.node ≠ .document) (last : f.parent? p = .ok none) :
    Climbs f p 0 (.ok [p])
  | stuck {p : Pointer} {e : Error} (kind : f.kind p.node ≠ .document)
    (fails : f.parent? p = .error e) : Climbs f p 0 (.error e)
  | step {p q : Pointer} {n : ℕ} {r : Except Error (List Pointer)}
    (kind : f.kind p.node ≠ .document) (up : f.parent? p = .ok (some q)) (rest : Climbs f q n r) :
    Climbs f p (n + 1) (r.map (· ++ [p]))

/-- The way up ends after as many steps as the pointer has graft points and the document has nodes. -/
theorem exists_climbs (wf : f.document.WellFormed) (p : Pointer) :
    ∃ n ≤ f.height p, f.Climbs p n (f.path p) := by
  induction p using (wellFounded_nearer wf).induction with
  | _ p ih =>
    rw [path_eq wf]
    split_ifs with kind
    · exact ⟨0, Nat.zero_le _, .document kind⟩
    · cases up : f.parent? p with
      | error e => exact ⟨0, Nat.zero_le _, .stuck kind up⟩
      | ok q? =>
        cases q? with
        | none => exact ⟨0, Nat.zero_le _, .top kind up⟩
        | some q =>
          obtain ⟨n, le, climbs⟩ := ih q (nearer_of_parent? up)
          have lower := height_parent? wf up
          exact ⟨n + 1, by omega, .step kind up climbs⟩

theorem Climbs.emptySlot {p : Pointer} {n : ℕ} {r : Except Error (List Pointer)} (h : f.Climbs p n r)
    {e : Error} (failed : r = .error e) : ∃ id slot parent, e = .emptySlot id slot parent := by
  induction h with
  | document | top => cases failed
  | stuck _ fails =>
    cases failed
    exact emptySlot_of_parent? fails
  | @step p q n r _ _ _ ih =>
    cases r with
    | ok l => cases failed
    | error e' =>
      cases failed
      exact ih rfl

/-! ## The way up to the top of a virtual tree -/

/-- Leaving the graft points of a pointer behind, one after the other, has the given result: the
silhouette that is left and the slots that lead back, or the error of the step up that fails. -/
inductive Unwinds (f : Forest) : Pointer → Except Error (SilhouetteId × List Slot) → Prop
  | top (id : SilhouetteId) : Unwinds f (.silhouette id) (.ok (id, []))
  | stuck {node : NodeRef} {g : GraftPoint} {up : List GraftPoint} {e : Error}
    (fails : f.parent? ⟨node, g :: up⟩ = .error e) : Unwinds f ⟨node, g :: up⟩ (.error e)
  | step {node : NodeRef} {g : GraftPoint} {up : List GraftPoint} {q : Pointer}
    {r : Except Error (SilhouetteId × List Slot)} (leads : f.parent? ⟨node, g :: up⟩ = .ok (some q))
    (rest : Unwinds f q r) :
    Unwinds f ⟨node, g :: up⟩ (r.map fun found => (found.1, found.2 ++ [f.builtSlot g]))

/-- From a silhouette every step up leads to a silhouette, with one graft point less. -/
theorem unwinds_descent (id : SilhouetteId) (graft : List GraftPoint) :
    f.Unwinds ⟨.silhouette id, graft⟩ (f.descent graft.length ⟨.silhouette id, graft⟩) := by
  induction graft generalizing id with
  | nil => exact .top id
  | cons g up ih =>
    rw [List.length_cons, descent]
    by_cases occupies : f.Occupies (.silhouette id) g
    · have leads : f.parent? ⟨.silhouette id, g :: up⟩ = .ok (some ⟨.silhouette g.parent, up⟩) :=
        if_pos occupies
      rw [leads]
      exact .step leads (ih g.parent)
    · have fails : f.parent? ⟨.silhouette id, g :: up⟩ = .error (.emptySlot id g.slot g.parent) :=
        if_neg occupies
      rw [fails]
      exact .stuck fails

theorem Unwinds.emptySlot {p : Pointer} {r : Except Error (SilhouetteId × List Slot)}
    (h : f.Unwinds p r) {e : Error} (failed : r = .error e) :
    ∃ id slot parent, e = .emptySlot id slot parent := by
  induction h with
  | top => cases failed
  | stuck fails =>
    cases failed
    exact emptySlot_of_parent? fails
  | @step node g up q r _ _ ih =>
    cases r with
    | ok found => cases failed
    | error e' =>
      cases failed
      exact ih rfl

/-- Building a virtual node never finds that a grafted pointer has no parent or that a real node is at
the top. -/
theorem failsWith_materialize_of_unwinds (arena : Arena) (p : Pointer) :
    FailsWith (Construct.materialize arena p) fun e => e ≠ .parentlessGraft ∧ e ≠ .realTop := by
  refine Construct.failsWith_materialize_of arena p (fun e h => ?_) (fun slot => ⟨nofun, nofun⟩)
    fun f id virtual e failed => ?_
  · constructor <;> rintro rfl <;> exact h
  · obtain ⟨node, graft⟩ := p
    obtain rfl : node = .silhouette id := virtual
    obtain ⟨_, _, _, rfl⟩ := (unwinds_descent id graft).emptySlot failed
    exact ⟨nofun, nofun⟩

/-- Every step up from any pointer leaves a graft point behind or goes up in the document, and there is no
endless row of such steps.  So the way up to the top of a tree ends, with the pointers on it or with the
internal error, and the way up from a silhouette to the top of a virtual tree ends in a silhouette or with
the error of a step; what is left for other ends is never reached. -/
theorem upward_walks_end (wf : f.document.WellFormed) :
    WellFounded f.Nearer ∧
    (∀ p q, f.parent? p = .ok (some q) → f.Nearer q p) ∧
    (∀ p, (∃ n ≤ p.graft.length + f.document.size, f.Climbs p n (f.path p)) ∧
      ∀ e, f.path p = .error e → e.code = ErrorCode.int0000.name) ∧
    (∀ id graft, f.Unwinds ⟨.silhouette id, graft⟩ (f.descent graft.length ⟨.silhouette id, graft⟩)) ∧
    ∀ p, FailsWith (Construct.materialize f.arena p) fun e => e ≠ .parentlessGraft ∧ e ≠ .realTop := by
  refine ⟨wellFounded_nearer wf, fun _ _ => nearer_of_parent?, fun p => ?_, unwinds_descent,
    failsWith_materialize_of_unwinds f.arena⟩
  obtain ⟨n, le, climbs⟩ := exists_climbs wf p
  refine ⟨⟨n, le.trans (height_le p), climbs⟩, fun e failed => ?_⟩
  obtain ⟨_, _, _, rfl⟩ := climbs.emptySlot failed
  rfl

/-- The graft points of the first pointer repeat a silhouette, and the second has one too many.  Both ways
up fail where the silhouette is to stand below itself. -/
theorem upward_walks_end_of_repeated_silhouette :
    let d := holding (.node (.element (.unqualified "a")) []
      [.node (.element (.unqualified "b")) [] [.leaf (.text "t")]])
    let s := Arena.empty.alloc (.element (.unqualified "s") [] [.real ⟨1⟩]) (by decide)
    let f : Forest := ⟨d, s.2⟩
    let point : GraftPoint := ⟨s.1, .child 0⟩
    f.document.WellFormed ∧
      (∃ n ≤ 5, f.Climbs ⟨.real ⟨2⟩, [point, point]⟩ n (.error (.emptySlot s.1 (.child 0) s.1))) ∧
      f.Unwinds ⟨.silhouette s.1, [point]⟩ (.error (.emptySlot s.1 (.child 0) s.1)) := by
  intro d s f point
  have wf : d.WellFormed := wellFormed_holding _
  obtain ⟨-, -, climbs, unwinds, -⟩ := upward_walks_end (f := f) wf
  have path : f.path ⟨.real ⟨2⟩, [point, point]⟩ = .error (.emptySlot s.1 (.child 0) s.1) := by rfl
  obtain ⟨n, le, climbs⟩ := (climbs ⟨.real ⟨2⟩, [point, point]⟩).1
  exact ⟨wf, ⟨n, le, path ▸ climbs⟩, unwinds s.1 [point]⟩

end Forest

end VirtualTree
