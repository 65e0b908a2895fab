import VirtualTree.Proofs.Update.Prepare

/-!
# The content of prepared updates

When inserted nodes are copied and the memo was empty at the start, a prepared update list brings in
fresh nodes only, no node twice, and each of them is ready to be attached: it has no parent, or it is
a child of a fresh document that was opened for its children.  The invariant that carries this through
the preparation is `Stock`; it relates the nodes chosen so far to the nodes marked as used.
-/

namespace VirtualTree

open Document

variable {base : Document}

/-- The nodes chosen so far are fresh and different.  A chosen node is a used node or the child of one,
used nodes have no parent, and the memo holds fresh nodes. -/
structure Stock (base : Document) (chosen : List NodeId) (s : Construction) : Prop where
  kept : Construction.Extends base (fun n => ¬ base.Has n) s
  memo : ∀ entry ∈ s.memo.entries, s.document.Has entry.2
  used : ∀ n ∈ s.used, ¬ base.Has n ∧ s.document.Top n
  nodup : chosen.Nodup
  chosen : ∀ n ∈ chosen, ¬ base.Has n ∧ s.document.Has n ∧
    (n ∈ s.used ∨ ∃ m ∈ s.used, s.document.parent? n = some m)

namespace Stock

variable {chosen : List NodeId} {s : Construction}

theorem start (wf : base.WellFormed) : Stock base [] ⟨base, .empty, []⟩ where
  kept := ⟨wf.extends_self, fun entry h => by cases h⟩
  memo entry h := by cases h
  used n h := by cases h
  nodup := List.nodup_nil
  chosen n h := by cases h

/-- At the start of a list nothing is chosen; the memo may hold any nodes of the document. -/
theorem restart {d : Document} {memo : Memo} (wf : d.WellFormed)
    (has : ∀ entry ∈ memo.entries, d.Has entry.2) : Stock .empty [] ⟨d, memo, []⟩ where
  kept := ⟨extends_empty_iff.2 wf, fun _ _ => not_has_empty _⟩
  memo := has
  used n h := by cases h
  nodup := List.nodup_nil
  chosen n h := by cases h

variable (h : Stock base chosen s)

include h

/-- The parent of a chosen node is fresh as well. -/
theorem outside_parent {n p : NodeId} (hn : n ∈ chosen) (hp : s.document.parent? n = some p) :
    ¬ base.Has p :=
  h.kept.document.outside_parent (h.chosen n hn).1 hp

/-- Building more nodes changes nothing about the nodes chosen so far. -/
theorem grow {d : Document} (grown : s.document.Extends d) :
    Stock base chosen { s with document := d } where
  kept := ⟨h.kept.document.trans grown, h.kept.memo⟩
  memo entry mem := grown.has (h.memo entry mem)
  used n hn := ⟨(h.used n hn).1, grown.top (h.used n hn).2⟩
  nodup := h.nodup
  chosen n hn := by
    obtain ⟨fresh, has, source⟩ := h.chosen n hn
    refine ⟨fresh, grown.has has, source.imp_right ?_⟩
    rintro ⟨m, hm, hp⟩
    exact ⟨m, hm, (grown.parent?_eq has).trans hp⟩

theorem remember (top : SilhouetteId) {n : NodeId} (fresh : ¬ base.Has n)
    (has : s.document.Has n) : Stock base chosen { s with memo := s.memo.insert top n } where
  kept := ⟨h.kept.document, fun entry mem => by
    rcases List.mem_cons.1 mem with rfl | mem
    · exact fresh
    · exact h.kept.memo entry mem⟩
  memo entry mem := by
    rcases List.mem_cons.1 mem with rfl | mem
    · exact has
    · exact h.memo entry mem
  used := h.used
  nodup := h.nodup
  chosen := h.chosen

/-- A node marked as used is none of those chosen before, and no parent of one. -/
theorem use {n : NodeId} (fresh : ¬ base.Has n) (top : s.document.Top n) (unused : n ∉ s.used) :
    Stock base chosen { s with used := n :: s.used } ∧
      ∀ c ∈ chosen, c ≠ n ∧ s.document.parent? c ≠ some n := by
  constructor
  · refine ⟨⟨h.kept.document, h.kept.memo⟩, h.memo, fun m hm => ?_, h.nodup, fun c hc => ?_⟩
    · rcases List.mem_cons.1 hm with rfl | hm
      · exact ⟨fresh, top⟩
      · exact h.used m hm
    · obtain ⟨hc₁, hc₂, source⟩ := h.chosen c hc
      refine ⟨hc₁, hc₂, source.imp (List.mem_cons_of_mem n) ?_⟩
      rintro ⟨m, hm, hp⟩
      exact ⟨m, List.mem_cons_of_mem n hm, hp⟩
  · intro c hc
    rcases (h.chosen c hc).2.2 with hu | ⟨m, hm, hp⟩
    · exact ⟨fun e => unused (e ▸ hu), by rw [(h.used c hu).2.parent]; simp⟩
    · refine ⟨?_, by rw [hp]; exact fun e => unused (Option.some.inj e ▸ hm)⟩
      rintro rfl
      rw [top.parent] at hp
      cases hp

/-- A used node may be chosen itself. -/
theorem choose {n : NodeId} (hn : n ∈ s.used) (new : n ∉ chosen) : Stock base (chosen ++ [n]) s where
  kept := h.kept
  memo := h.memo
  used := h.used
  nodup := by
    rw [List.nodup_append]
    exact ⟨h.nodup, List.nodup_singleton n, fun a ha b hb e => by
      rw [List.mem_singleton] at hb
      exact new (hb ▸ e ▸ ha)⟩
  chosen c hc := by
    rcases List.mem_append.1 hc with hc | hc
    · exact h.chosen c hc
    · obtain rfl := List.mem_singleton.1 hc
      exact ⟨(h.used c hn).1, (h.used c hn).2.has, Or.inl hn⟩

/-- Children of a used node may be chosen instead of it. -/
theorem chooseChildren {m : NodeId} (hm : m ∈ s.used)
    (new : ∀ c ∈ chosen, s.document.parent? c ≠ some m) (q : NodeId → Bool) :
    Stock base (chosen ++ (s.document.children m).filter q) s where
  kept := h.kept
  memo := h.memo
  used := h.used
  nodup := by
    have wf := h.kept.document.wellFormed
    rw [List.nodup_append]
    refine ⟨h.nodup, (wf.nodup_children m).filter q, fun a ha b hb e => ?_⟩
    exact new a ha (e ▸ wf.parent_of_mem_children (List.mem_of_mem_filter hb))
  chosen c hc := by
    rcases List.mem_append.1 hc with hc | hc
    · exact h.chosen c hc
    · have mem := List.mem_of_mem_filter hc
      have parent := h.kept.document.wellFormed.parent_of_mem_children mem
      exact ⟨h.kept.document.outside_of_mem_children (h.used m hm).1 mem, has_of_parent parent,
        Or.inr ⟨m, hm, parent⟩⟩

end Stock

theorem Document.has_of_follow {d : Document} (wf : d.WellFormed) {slots : List Slot}
    {id n : NodeId} (has : d.Has id) (run : d.follow id slots = .ok n) : d.Has n := by
  rcases eq_or_parent_of_follow wf run with rfl | ⟨p, hp⟩
  · cases run
    exact has
  · exact has_of_parent hp

namespace Construct

variable {chosen : List NodeId} {s s' : Construction}

/-- Whatever keeps the nodes of every document keeps those of the document at hand. -/
theorem extends_of_ok {α : Type} {m : Construct α} {Q : α → Prop} {a : α}
    (wf : s.document.WellFormed)
    (h : Keeps (Construction.Extends s.document fun _ => True) m Q) (run : m s = .ok a s') :
    s.document.Extends s'.document :=
  (h.ok ⟨wf.extends_self, fun _ _ => trivial⟩ run).1.document

variable (h : Stock base chosen s)

include h

theorem deepClone_ok {id n : NodeId} (run : edit (Edit.deepClone id) s = .ok n s') :
    Stock base chosen s' ∧ s.document.Extends s'.document ∧ s'.document.Top n ∧
      ¬ base.Has n ∧ n ∉ s'.used := by
  have wf := h.kept.document.wellFormed
  obtain ⟨d, clone, rfl⟩ := edit_ok run
  have grown := (Edit.keeps_deepClone id).ok wf.extends_self clone
  refine ⟨h.grow grown.1, grown.1, Edit.top_of_deepClone wf clone, fun inside => ?_, fun used => ?_⟩
  · exact grown.2 (h.kept.document.has inside)
  · exact grown.2 (h.used n used).2.has

theorem builtTop_ok {arena : Arena} {top : SilhouetteId} {n : NodeId}
    (run : builtTop arena top s = .ok n s') :
    Stock base chosen s' ∧ s.document.Extends s'.document ∧ s'.used = s.used ∧
      s'.document.Has n ∧ ¬ base.Has n := by
  have wf := h.kept.document.wellFormed
  have grown := extends_of_ok wf (keeps_builtTop admits_all arena top) run
  have fresh := ((keeps_builtTop admits_outside arena top).ok h.kept run).2
  cases built : s.memo.built? top with
  | some node =>
    rw [builtTop_of_built built] at run
    cases run
    exact ⟨h, grown, rfl, h.memo _ (Memo.mem_of_built? built), fresh⟩
  | none =>
    rw [builtTop_of_new built] at run
    split at run
    · rename_i build
      cases run
      have has := (Tree.top_of_build wf build).has
      exact ⟨(h.grow ((Tree.keeps_build _).ok wf.extends_self build).1).remember top fresh has, grown,
        rfl, has, fresh⟩
    · cases run

omit h in
theorem require_bind_ok {α : Type} {condition : Bool} {e : Error} {f : Unit → Construct α} {a : α}
    (run : (require condition e >>= f) s = .ok a s') : condition = true ∧ f () s = .ok a s' := by
  unfold require at run
  split_ifs at run with holds
  · exact ⟨holds, run⟩
  · cases run

/-- What a virtual node becomes is fresh. -/
theorem materialize_ok {arena : Arena} {p : Pointer} {n : NodeId} (virtual : p.plainNode? = none)
    (run : materialize arena p s = .ok n s') :
    Stock base chosen s' ∧ s.document.Extends s'.document ∧ s'.document.Has n ∧ ¬ base.Has n := by
  have wf := h.kept.document.wellFormed
  have grown := extends_of_ok wf (keeps_materialize admits_all arena virtual) run
  have fresh := ((keeps_materialize admits_outside arena virtual).ok h.kept run).2
  obtain ⟨node, graft⟩ := p
  cases node with
  | real id =>
    cases graft with
    | nil => cases virtual
    | cons g up =>
      obtain ⟨stock, -, top, -⟩ := deepClone_ok h run
      exact ⟨stock, grown, top.has, fresh⟩
  | silhouette id =>
    obtain ⟨_, _, seen, run⟩ := bind_ok run
    cases seen
    obtain ⟨⟨top, slots⟩, s₁, descended, run⟩ := bind_ok run
    obtain ⟨-, rfl⟩ := ofExcept_ok descended
    obtain ⟨root, s₂, built, run⟩ := bind_ok run
    obtain ⟨stock, -, -, has, -⟩ := builtTop_ok h built
    obtain ⟨_, _, seen, run⟩ := bind_ok run
    cases seen
    obtain ⟨followed, rfl⟩ := ofExcept_ok run
    exact ⟨stock, grown, has_of_follow stock.kept.document.wellFormed has followed, fresh⟩

/-- A content node is fresh, has no parent, and was not used before. -/
theorem contentNode_ok {setting : Setting} (copy : setting.copyInserted = true) {p : Pointer}
    {n : NodeId} (run : contentNode setting p s = .ok n s') :
    Stock base chosen s' ∧ s.document.Extends s'.document ∧ n ∈ s'.used ∧
      ∀ c ∈ chosen, c ≠ n ∧ s'.document.parent? c ≠ some n := by
  have used : ∀ {m : NodeId} {s₁ : Construction}, Stock base chosen s₁ →
      s.document.Extends s₁.document → s₁.document.Top m → ¬ base.Has m → m ∉ s₁.used →
      (do modify fun s => { s with used := m :: s.used }; return m : Construct NodeId) s₁ =
        .ok n s' → Stock base chosen s' ∧ s.document.Extends s'.document ∧ n ∈ s'.used ∧
          ∀ c ∈ chosen, c ≠ n ∧ s'.document.parent? c ≠ some n := by
    intro m s₁ stock grown top fresh unused run
    cases run
    obtain ⟨stock, new⟩ := stock.use fresh top unused
    exact ⟨stock, grown, List.mem_cons_self, new⟩
  revert run
  unfold contentNode
  cases plain : p.plainNode? with
  | some id =>
    rw [copy]
    intro run
    obtain ⟨m, s₁, clone, run⟩ := bind_ok run
    obtain ⟨stock, grown, top, fresh, unused⟩ := deepClone_ok h clone
    exact used stock grown top fresh unused run
  | none =>
    intro run
    obtain ⟨built, s₁, materialized, run⟩ := bind_ok run
    obtain ⟨stock, grown, has, fresh⟩ := materialize_ok h plain materialized
    obtain ⟨_, _, got, run⟩ := bind_ok run
    cases got
    split_ifs at run with taken
    · obtain ⟨m, s₂, clone, run⟩ := bind_ok run
      obtain ⟨stock, grown', top, fresh, unused⟩ := deepClone_ok stock clone
      exact used stock (grown.trans grown') top fresh unused run
    · simp only [not_or, Option.not_isSome_iff_eq_none] at taken
      exact used stock grown ⟨has, taken.1⟩ fresh taken.2 run

end Construct

/-! ## Lists of content -/

/-- What a content node contributes: itself, or the children of a document. -/
def Document.opened (d : Document) (m : NodeId) : List NodeId :=
  if d.kind m = .document then (d.children m).filter d.isVisible else [m]

/-- The contributions are the same later on. -/
theorem Document.Extends.opened_eq {d : Document} (h : base.Extends d) {m : NodeId} (has : base.Has m) :
    d.opened m = base.opened m := by
  rw [opened, opened, h.kind_eq has, h.children_eq has]
  congr 1
  refine List.filter_congr fun c hc => ?_
  rw [isVisible, h.kind_eq (has_of_parent (h.origin.parent_of_mem_children hc)), isVisible]

namespace Construct

variable {chosen content : List NodeId} {s s' : Construction} {setting : Setting}
  {fits : Kind → Prop} {ps : List Pointer} {kind : UpdateKind}

/-- Pointers are turned into nodes of fitting kinds one after the other, which gives the content. -/
inductive Supplied (setting : Setting) (fits : Kind → Prop) :
    List Pointer → List NodeId → Construction → Construction → Prop
  | nil {s : Construction} : Supplied setting fits [] [] s s
  | cons {p : Pointer} {ps : List Pointer} {m : NodeId} {content : List NodeId}
      {s s₁ s' : Construction} (first : contentNode setting p s = .ok m s₁)
      (fit : fits (s₁.document.kind m)) (others : Supplied setting fits ps content s₁ s') :
      Supplied setting fits (p :: ps) (s₁.document.opened m ++ content) s s'

theorem childContent_supplied (run : childContent setting kind ps s = .ok content s') :
    Supplied setting (fun k => k ≠ .attribute ∧ k ≠ .documentType) ps content s s' := by
  induction ps generalizing s content with
  | nil =>
    cases run
    exact .nil
  | cons p ps ih =>
    obtain ⟨m, s₁, made, run⟩ := bind_ok run
    obtain ⟨_, _, got, run⟩ := bind_ok run
    cases got
    have opened : ∀ {first : List NodeId}, s₁.document.opened m = first →
        s₁.document.kind m ≠ .attribute ∧ s₁.document.kind m ≠ .documentType →
        (do return first ++ (← childContent setting kind ps) : Construct (List NodeId)) s₁ =
          .ok content s' →
        Supplied setting (fun k => k ≠ .attribute ∧ k ≠ .documentType) (p :: ps) content s s' := by
      rintro _ rfl fit run
      obtain ⟨rest, s₂, others, run⟩ := bind_ok run
      cases run
      exact .cons made fit (ih others)
    dsimp only at run
    cases hk : s₁.document.kind m with
    | «attribute» | documentType =>
      rw [hk] at run
      cases run
    | document =>
      rw [hk] at run
      exact opened (by rw [Document.opened, if_pos hk]) (by simp [hk]) run
    | element | text | comment | processingInstruction =>
      rw [hk] at run
      exact opened (by simp [Document.opened, hk]) (by simp [hk]) run

theorem attributeContent_supplied (run : attributeContent setting kind ps s = .ok content s') :
    Supplied setting (· = .attribute) ps content s s' := by
  induction ps generalizing s content with
  | nil =>
    cases run
    exact .nil
  | cons p ps ih =>
    obtain ⟨m, s₁, made, run⟩ := bind_ok run
    obtain ⟨_, _, got, run⟩ := bind_ok run
    cases got
    obtain ⟨isAttribute, run⟩ := require_bind_ok run
    obtain ⟨rest, s₂, others, run⟩ := bind_ok run
    cases run
    have alone : s₁.document.opened m = [m] := by
      rw [Document.opened, if_neg]
      simp_all
    show Supplied _ _ _ ([m] ++ rest) _ _
    rw [← alone]
    exact .cons made (of_decide_eq_true isAttribute) (ih others)

/-- What is supplied is chosen, and it consists of nodes of fitting kinds and of children of documents,
if documents fit. -/
theorem Supplied.stock (supplied : Supplied setting fits ps content s s')
    (copy : setting.copyInserted = true) (h : Stock base chosen s) :
    Stock base (chosen ++ content) s' ∧ s.document.Extends s'.document ∧ ∀ n ∈ content,
      fits (s'.document.kind n) ∧ s'.document.kind n ≠ .document ∨
        fits .document ∧ (s'.document.kind n).isChild := by
  induction supplied generalizing chosen with
  | nil =>
    rw [List.append_nil]
    exact ⟨h, h.kept.document.wellFormed.extends_self, List.forall_mem_nil _⟩
  | @cons p ps m content s s₁ s' first fit others ih =>
    obtain ⟨stock, grown, used, new⟩ := contentNode_ok h copy first
    obtain ⟨chosen_m, kinds⟩ : Stock base (chosen ++ s₁.document.opened m) s₁ ∧
        ∀ n ∈ s₁.document.opened m,
          fits (s₁.document.kind n) ∧ s₁.document.kind n ≠ .document ∨
            fits .document ∧ (s₁.document.kind n).isChild := by
      rw [Document.opened]
      split_ifs with document
      · refine ⟨stock.chooseChildren used (fun c hc => (new c hc).2) _, fun n hn => Or.inr ?_⟩
        obtain ⟨mem, visible⟩ := List.mem_filter.1 hn
        exact ⟨document ▸ fit, stock.kept.document.wellFormed.isChild_of_mem_children mem visible⟩
      · refine ⟨stock.choose used fun mem => (new m mem).1 rfl, fun n hn => Or.inl ?_⟩
        obtain rfl := List.mem_singleton.1 hn
        exact ⟨fit, document⟩
    obtain ⟨stock', grown', kinds'⟩ := ih chosen_m
    rw [List.append_assoc] at stock'
    refine ⟨stock', grown.trans grown', fun n hn => ?_⟩
    rcases List.mem_append.1 hn with hn | hn
    · rw [grown'.kind_eq (chosen_m.chosen n (List.mem_append_right _ hn)).2.1]
      exact kinds n hn
    · exact kinds' n hn

theorem Supplied.mono {fits' : Kind → Prop} (supplied : Supplied setting fits ps content s s')
    (h : ∀ k, fits k → fits' k) : Supplied setting fits' ps content s s' := by
  induction supplied with
  | nil => exact .nil
  | cons first fit _ ih => exact .cons first (h _ fit) ih

variable (copy : setting.copyInserted = true) (h : Stock base chosen s)

include copy h

/-- Content in child positions consists of children. -/
theorem childContent_ok (run : childContent setting kind ps s = .ok content s') :
    Stock base (chosen ++ content) s' ∧ s.document.Extends s'.document ∧
      ∀ n ∈ content, (s'.document.kind n).isChild := by
  obtain ⟨stock, grown, kinds⟩ := (childContent_supplied run).stock copy h
  refine ⟨stock, grown, fun n hn => ?_⟩
  rcases kinds n hn with ⟨⟨notAttribute, visible⟩, notDocument⟩ | ⟨-, isChild⟩
  · exact Kind.isChild_iff.2 ⟨notAttribute, notDocument, visible⟩
  · exact isChild

/-- Content in attribute positions consists of attributes. -/
theorem attributeContent_ok (run : attributeContent setting kind ps s = .ok content s') :
    Stock base (chosen ++ content) s' ∧ s.document.Extends s'.document ∧
      ∀ n ∈ content, s'.document.kind n = .attribute := by
  obtain ⟨stock, grown, kinds⟩ := (attributeContent_supplied run).stock copy h
  refine ⟨stock, grown, fun n hn => ?_⟩
  rcases kinds n hn with ⟨isAttribute, -⟩ | ⟨isAttribute, -⟩
  · exact isAttribute
  · cases isAttribute

end Construct

end VirtualTree
