import Mathlib.Data.List.TakeWhile
import VirtualTree.Proofs.Forest.Siblings
import VirtualTree.Proofs.Update.Phases
import VirtualTree.Proofs.Update.Step

/-!
# Content that is moved

Where inserted nodes are not copied, they are taken from where they stand, and that may be among the
children of the very node that receives them.  The position is found before the first node moves, and
then the nodes go there one by one.  A position that is one of the nodes itself stays, and all others
come to stand before it, also those behind it in the content.  So the content keeps its order exactly
if the position is not among it or is the last of it (`content_lines_up`); only insertions after a node
and before the first child can find their position among the content.
-/

namespace VirtualTree

open Document

/-! ## Lists with moved entries -/

section Lists

variable {nodes before after : List NodeId} {r : NodeId}

/-- A list with an entry moved before a reference or to the end.  Before itself an entry stays. -/
def moveEntry (reference? : Option NodeId) (l : List NodeId) (n : NodeId) : List NodeId :=
  if reference? = some n then l else insertEntry n reference? (l.filter (· ≠ n))

/-- The entries of a list with the reference, if it is one of them, behind all others. -/
def lineUp (reference? : Option NodeId) (nodes : List NodeId) : List NodeId :=
  nodes.filter (fun n => reference? ≠ some n) ++ nodes.filter fun n => reference? = some n

theorem filter_ne_of_not_mem {l : List NodeId} (h : r ∉ l) : l.filter (· ≠ r) = l :=
  List.filter_eq_self.2 fun c hc => by simpa using fun e : c = r => h (e ▸ hc)

/-- An entry of a list without repetitions stands at one place. -/
theorem exists_split (nodup : nodes.Nodup) (mem : r ∈ nodes) :
    ∃ front back, nodes = front ++ r :: back ∧ r ∉ front ∧ r ∉ back := by
  obtain ⟨front, back, rfl⟩ := List.append_of_mem mem
  have once := (List.nodup_cons.1 (List.nodup_middle.1 nodup)).1
  exact ⟨front, back, rfl, not_or.1 (List.mem_append.not.1 once)⟩

theorem takeWhile_ne_append {front back : List NodeId} (h : r ∉ front) :
    (front ++ r :: back).takeWhile (· ≠ r) = front := by
  rw [List.takeWhile_append_of_pos fun c hc => by simpa using fun e : c = r => h (e ▸ hc)]
  simp

theorem dropWhile_ne_append {front back : List NodeId} (h : r ∉ front) :
    (front ++ r :: back).dropWhile (· ≠ r) = r :: back := by
  rw [List.dropWhile_append_of_pos fun c hc => by simpa using fun e : c = r => h (e ▸ hc)]
  simp

theorem filter_filter_not_mem (n : NodeId) (l : List NodeId) :
    (l.filter (· ≠ n)).filter (· ∉ nodes) = l.filter (· ∉ n :: nodes) := by
  rw [List.filter_filter]
  congr 1
  funext c
  simp [Bool.and_comm]

theorem filter_not_mem_cons_of_absent {n : NodeId} {l : List NodeId} (h : n ∉ l) :
    l.filter (· ∉ n :: nodes) = l.filter (· ∉ nodes) := by
  rw [← filter_filter_not_mem, filter_ne_of_not_mem h]

theorem foldl_moveEntry_none (nodup : nodes.Nodup) (l : List NodeId) :
    nodes.foldl (moveEntry none) l = l.filter (· ∉ nodes) ++ nodes := by
  induction nodes generalizing l with
  | nil => simp
  | cons n ns ih =>
    obtain ⟨new, nodup⟩ := List.nodup_cons.1 nodup
    have moved : moveEntry none l n = l.filter (· ≠ n) ++ [n] := rfl
    rw [List.foldl_cons, moved, ih nodup, List.filter_append, filter_filter_not_mem]
    simp [new]

/-- The reference stays between what was before it and what was behind it. -/
theorem foldl_moveEntry_some (nodup : nodes.Nodup) (hb : r ∉ before) (ha : r ∉ after) :
    nodes.foldl (moveEntry (some r)) (before ++ r :: after) =
      before.filter (· ∉ nodes) ++ nodes.filter (· ≠ r) ++ r :: after.filter (· ∉ nodes) := by
  -- what moves lands just before the reference, so for the others it belongs to what is before it
  induction nodes generalizing before after with
  | nil => simp
  | cons n ns ih =>
    obtain ⟨new, nodup'⟩ := List.nodup_cons.1 nodup
    rw [List.foldl_cons]
    by_cases self : r = n
    · subst self
      rw [moveEntry, if_pos rfl, ih nodup' hb ha, filter_not_mem_cons_of_absent hb,
        filter_not_mem_cons_of_absent ha]
      simp
    · have moved : moveEntry (some r) (before ++ r :: after) n =
          before.filter (· ≠ n) ++ [n] ++ r :: after.filter (· ≠ n) := by
        have hb' : r ∉ before.filter (· ≠ n) := fun h => hb (List.mem_of_mem_filter h)
        rw [moveEntry, if_neg fun e => self (Option.some.inj e), insertEntry, List.filter_append,
          List.filter_cons_of_pos (by simpa using self), takeWhile_ne_append hb',
          dropWhile_ne_append hb', List.append_assoc]
        rfl
      have hb' : r ∉ before.filter (· ≠ n) ++ [n] := by
        simp [hb, self]
      have ha' : r ∉ after.filter (· ≠ n) := fun h => ha (List.mem_of_mem_filter h)
      rw [moved, ih nodup' hb' ha', List.filter_append, filter_filter_not_mem,
        filter_filter_not_mem]
      simp [new, Ne.symm self]

theorem lineUp_of_not_mem {reference? : Option NodeId} (h : ∀ n ∈ nodes, reference? ≠ some n) :
    lineUp reference? nodes = nodes := by
  rw [lineUp, List.filter_eq_self.2 fun n hn => by simpa using h n hn,
    List.filter_eq_nil_iff.2 fun n hn => by simpa using h n hn, List.append_nil]

theorem lineUp_some_of_not_mem (h : r ∉ nodes) : lineUp (some r) nodes = nodes :=
  lineUp_of_not_mem fun _ hn e => h ((Option.some.inj e).symm ▸ hn)

theorem lineUp_append {front back : List NodeId} (hf : r ∉ front) (hb : r ∉ back) :
    lineUp (some r) (front ++ r :: back) = front ++ back ++ [r] := by
  have others (l : List NodeId) (h : r ∉ l) : l.filter (fun n => some r ≠ some n) = l ∧
      l.filter (fun n => some r = some n) = [] :=
    ⟨List.filter_eq_self.2 fun c hc => by simpa using fun e : r = c => h (e ▸ hc),
      List.filter_eq_nil_iff.2 fun c hc => by simpa using fun e : r = c => h (e ▸ hc)⟩
  rw [lineUp, List.filter_append, List.filter_append, (others front hf).1, (others front hf).2,
    List.filter_cons_of_neg (by simp), List.filter_cons_of_pos (by simp), (others back hb).1,
    (others back hb).2, List.nil_append]

/-- Before the first of some entries, or at the end if there are none, all others line up. -/
theorem foldl_moveEntry_head? (nodup : nodes.Nodup) (distinct : (before ++ after).Nodup) :
    nodes.foldl (moveEntry after.head?) (before ++ after) = before.filter (· ∉ nodes) ++
      lineUp after.head? nodes ++ after.filter (· ∉ nodes) := by
  cases after with
  | nil =>
    rw [List.head?_nil, List.append_nil, foldl_moveEntry_none nodup,
      lineUp_of_not_mem (by simp), List.filter_nil, List.append_nil]
  | cons r after =>
    have hb : r ∉ before := fun h => by simpa using (List.nodup_append.1 distinct).2.2 r h r
    have ha : r ∉ after := (List.nodup_cons.1 (List.nodup_append.1 distinct).2.1).1
    rw [List.head?_cons, foldl_moveEntry_some nodup hb ha]
    by_cases mem : r ∈ nodes
    · obtain ⟨front, back, rfl, hf, hk⟩ := exists_split nodup mem
      rw [lineUp_append hf hk, List.filter_append, filter_ne_of_not_mem hf,
        List.filter_cons_of_neg (by simp), filter_ne_of_not_mem hk,
        List.filter_cons_of_neg (by simp)]
      simp
    · rw [lineUp_some_of_not_mem mem, List.filter_cons_of_pos (by simpa using mem),
        filter_ne_of_not_mem mem]

/-- All is in order if the reference is not among the nodes or is the last of them. -/
theorem lineUp_eq_self_iff (nodup : nodes.Nodup) {reference? : Option NodeId} :
    lineUp reference? nodes = nodes ↔ ∀ n ∈ nodes.dropLast, reference? ≠ some n := by
  by_cases mem : ∃ n ∈ nodes, reference? = some n
  · obtain ⟨r, mem, rfl⟩ := mem
    obtain ⟨front, back, rfl, hf, hb⟩ := exists_split nodup mem
    rw [lineUp_append hf hb]
    cases back with
    | nil =>
      rw [List.append_nil, List.dropLast_concat]
      exact iff_of_true rfl fun n hn e => hf (Option.some.inj e ▸ hn)
    | cons b back =>
      refine iff_of_false (fun same => ?_) fun apart => ?_
      · rw [List.append_assoc, List.append_cancel_left_eq, List.cons_append, List.cons.injEq] at same
        exact hb (same.1 ▸ List.mem_cons_self)
      · exact apart r (by simp) rfl
  · have apart : ∀ n ∈ nodes, reference? ≠ some n := fun n hn e => mem ⟨n, hn, e⟩
    exact iff_of_true (lineUp_of_not_mem apart) fun n hn => apart n (List.dropLast_subset _ hn)

end Lists

/-! ## Nodes moved to one place -/

/-- `d'` is `d` with nodes moved to a position among the children of a node, one after the other. -/
structure Document.Moved (d : Document) (parent : NodeId) (nodes : List NodeId)
    (reference? : Option NodeId) (d' : Document) : Prop where
  wellFormed : d'.WellFormed
  size_eq : d'.size = d.size
  label : ∀ i, d'.label i = d.label i
  parent? : ∀ i, d'.parent? i = if i ∈ nodes then some parent else d.parent? i
  children : d'.children parent = nodes.foldl (moveEntry reference?) (d.children parent)
  others : ∀ p, p ≠ parent → d'.children p = (d.children p).filter (· ∉ nodes)

/-- Nodes that may each be inserted are all moved, wherever they stand. -/
theorem Edit.insertAll_moved {d : Document} (wf : d.WellFormed) {parent : NodeId}
    {nodes : List NodeId} {reference? : Option NodeId}
    (insertable : ∀ n ∈ nodes, d.Insertable parent n none)
    (position : ∀ r, reference? = some r → r ∈ d.children parent) :
    ∃ d', insertAll parent nodes reference? d = .ok () d' ∧ d.Moved parent nodes reference? d' := by
  induction nodes generalizing d with
  | nil => exact ⟨d, rfl, wf, rfl, fun _ => rfl, fun i => by simp, rfl, fun p _ => by simp⟩
  | cons n ns ih =>
    have ok := insertable n List.mem_cons_self
    have ok' : d.Insertable parent n reference? :=
      { ok with position := fun r hr => .inr ((wf.mem_children r parent).1 (position r hr)) }
    have run := insertBefore_ok wf ok'
    -- a node that gives the position stands among the children already, and stays there
    by_cases self : reference? = some n
    · rw [if_pos self] at run
      obtain ⟨d', rest, moved⟩ := ih wf (fun m hm => insertable m (List.mem_cons_of_mem n hm)) position
      have stands := position n self
      refine ⟨d', (forM_cons_of_ok (f := fun n => insertBefore parent n reference?) run).trans rest,
        moved.wellFormed, moved.size_eq, moved.label, fun i => ?_, ?_, fun p hp => ?_⟩
      · rw [moved.parent?]
        by_cases hi : i = n
        · simp [hi, wf.parent_of_mem_children stands]
        · simp [hi]
      · rw [moved.children, List.foldl_cons, moveEntry, if_pos self]
      · rw [moved.others p hp, filter_not_mem_cons_of_absent fun mem => hp ?_]
        exact Option.some.inj ((wf.parent_of_mem_children mem).symm.trans
          (wf.parent_of_mem_children stands))
    · rw [if_neg self] at run
      have wf₁ := wf.insertChild reference? ok.hasParent ok.hasChild ok.isParent ok.notAttribute
        ok.notDocument ok.outside
      have position₁ : ∀ r, reference? = some r →
          r ∈ (d.insertChild parent n reference?).children parent := fun r hr => by
        rw [children_insertChild reference? wf ok.hasParent, if_pos rfl, mem_insertEntry,
          List.mem_filter]
        exact .inr ⟨position r hr, by simpa using fun e : r = n => self (e ▸ hr)⟩
      obtain ⟨d', rest, moved⟩ := ih wf₁
        (fun m hm => ok.insertChild (insertable m (List.mem_cons_of_mem n hm))) position₁
      refine ⟨d', (forM_cons_of_ok (f := fun n => insertBefore parent n reference?) run).trans rest,
        moved.wellFormed, ?_, fun i => ?_, fun i => ?_, ?_, fun p hp => ?_⟩
      · rw [moved.size_eq, size_insertChild]
      · rw [moved.label, label_insertChild]
      · rw [moved.parent?, parent?_insertChild reference? ok.hasChild]
        by_cases hi : i = n <;> simp [hi]
      · rw [moved.children, children_insertChild reference? wf ok.hasParent, if_pos rfl,
          List.foldl_cons, moveEntry, if_neg self]
      · rw [moved.others p hp, children_insertChild reference? wf ok.hasParent, if_neg hp,
          filter_filter_not_mem]

/-! ## Gaps -/

/-- Where an update puts nodes. -/
structure Gap where
  /-- The node that receives them. -/
  parent : NodeId
  /-- Its children before the place. -/
  before : List NodeId
  /-- The child that gives the position; without one the nodes come last. -/
  reference? : Option NodeId
  /-- Its children behind the place. -/
  after : List NodeId
deriving DecidableEq

namespace Document

/-- Where an action on a node puts the children that it brings in. -/
def gap? (d : Document) (target : NodeId) : Action NodeId → Option Gap
  | .insert .into _ | .insert .intoAsLast _ => some ⟨target, d.children target, none, []⟩
  | .insert .intoAsFirst _ =>
    let shown := (d.children target).dropWhile (!d.isVisible ·)
    some ⟨target, (d.children target).takeWhile (!d.isVisible ·), shown.head?, shown⟩
  | .insert .before _ => (d.parent? target).map fun p =>
    ⟨p, (d.children p).takeWhile (· ≠ target), some target, (d.children p).dropWhile (· ≠ target)⟩
  | .insert .after _ => (d.parent? target).map fun p =>
    let behind := ((d.children p).dropWhile (· ≠ target)).tail
    ⟨p, (d.children p).takeWhile (· ≠ target) ++ [target], behind.head?, behind⟩
  | .replaceNode _ => (d.parent? target).map fun p =>
    ⟨p, (d.children p).takeWhile (· ≠ target), some target,
      ((d.children p).dropWhile (· ≠ target)).tail⟩
  | _ => none

/-- An action on a node, which is no attribute, moves different nodes of the document into a gap. -/
structure Moves (d : Document) (target : NodeId) (action : Action NodeId) (g : Gap) : Prop where
  has : d.Has target
  notAttribute : d.kind target ≠ .attribute
  suits : action.Suits d (d.kind target)
  gap : d.gap? target action = some g
  nodup : action.content.Nodup
  hasContent : ∀ n ∈ action.content, d.Has n
  apart : target ∉ action.content
  /-- The receiving node is not below a node that moves. -/
  outside : ∀ n ∈ action.content, ¬ d.AtOrAbove g.parent n

/-- `d'` is `d` with nodes moved into a gap, where the position comes last if it is one of them. -/
structure Filled (d : Document) (g : Gap) (nodes : List NodeId) (d' : Document) : Prop where
  wellFormed : d'.WellFormed
  label : ∀ i, d'.label i = d.label i
  parent : ∀ n ∈ nodes, d'.parent? n = some g.parent
  children : d'.children g.parent = g.before.filter (· ∉ nodes) ++ lineUp g.reference? nodes ++
    g.after.filter (· ∉ nodes)
  others : ∀ p, p ≠ g.parent → d'.children p = (d.children p).filter (· ∉ nodes)

variable {d d' : Document} {target : NodeId} {action : Action NodeId} {g : Gap}

theorem Moved.filled_of_insert {nodes : List NodeId} (wf : d.WellFormed) (nodup : nodes.Nodup)
    (h : d.Moved g.parent nodes g.reference? d')
    (parts : d.children g.parent = g.before ++ g.after) (head : g.reference? = g.after.head?) :
    d.Filled g nodes d' where
  wellFormed := h.wellFormed
  label := h.label
  parent n hn := by rw [h.parent?, if_pos hn]
  children := by
    rw [h.children, head, parts]
    exact foldl_moveEntry_head? nodup (parts ▸ wf.nodup_children g.parent)
  others := h.others

theorem Moved.filled_of_replace {nodes front back : List NodeId} {p : NodeId} (wf : d.WellFormed)
    (nodup : nodes.Nodup) (apart : target ∉ nodes) (h : d.Moved p nodes (some target) d')
    (parts : d.children p = front ++ target :: back) (hf : target ∉ front) (hb : target ∉ back) :
    d.Filled ⟨p, front, some target, back⟩ nodes (d'.detach target) where
  wellFormed := h.wellFormed.detach target
  label i := by rw [label_detach, h.label]
  parent n hn := by
    have ne : n ≠ target := fun e => apart (e ▸ hn)
    rw [parent?_detach, if_neg ne, h.parent?, if_pos hn]
  children := by
    have others (l : List NodeId) : (l.filter (· ∉ nodes)).filter (· ≠ target) =
        (l.filter (· ≠ target)).filter (· ∉ nodes) := List.filter_comm ..
    rw [children_detach target h.wellFormed, h.children, parts, foldl_moveEntry_some nodup hf hb,
      List.filter_append, List.filter_append, List.filter_cons_of_neg (by simp), others, others,
      filter_ne_of_not_mem hf, filter_ne_of_not_mem hb, filter_ne_of_not_mem apart,
      filter_ne_of_not_mem apart, lineUp_some_of_not_mem apart]
  others q hq := by
    have mem : target ∈ d.children p := parts ▸ List.mem_append_right _ List.mem_cons_self
    have absent : target ∉ d.children q := fun mem' => hq <| Option.some.inj <|
      (wf.parent_of_mem_children mem').symm.trans (wf.parent_of_mem_children mem)
    rw [children_detach target h.wellFormed, h.others q hq,
      filter_ne_of_not_mem fun mem' => absent (List.mem_of_mem_filter mem')]

theorem Moves.isChild_content (h : d.Moves target action g) {n : NodeId} (hn : n ∈ action.content) :
    (d.kind n).isChild := by
  have suits := h.suits
  cases action with
  | insert place nodes => exact suits.2 n hn
  | replaceNode nodes => exact (suits.resolve_left fun h' => h.notAttribute h'.1).2 n hn
  | insertAttributes nodes => cases h.gap
  | delete | rename | replaceValue | replaceElementContent | put => cases hn

theorem Moves.receives (wf : d.WellFormed) (h : d.Moves target action g) :
    d.Has g.parent ∧ (d.kind g.parent).isParent := by
  have beside {p : NodeId} (hp : d.parent? target = some p) : d.Has p ∧ (d.kind p).isParent :=
    ⟨wf.has_parent _ _ hp, wf.isParent _ _ hp h.notAttribute⟩
  have gap := h.gap
  cases action with
  | insert place nodes =>
    cases place with
    | into | intoAsLast | intoAsFirst =>
      cases gap
      exact ⟨h.has, h.suits.1⟩
    | before | after =>
      obtain ⟨p, hp, rfl⟩ := Option.map_eq_some_iff.1 gap
      exact beside hp
  | replaceNode nodes =>
    obtain ⟨p, hp, rfl⟩ := Option.map_eq_some_iff.1 gap
    exact beside hp
  | delete | insertAttributes | rename | replaceValue | replaceElementContent | put => cases gap

theorem Moves.insertable (wf : d.WellFormed) (h : d.Moves target action g) :
    ∀ n ∈ action.content, d.Insertable g.parent n none := fun n hn =>
  have kind := Kind.isChild_iff.1 (h.isChild_content hn)
  have receives := h.receives wf
  ⟨receives.1, h.hasContent n hn, receives.2, kind.1, kind.2.1, h.outside n hn, fun r hr => by cases hr⟩

end Document

namespace Edit

theorem carryOut_moves {d : Document} {target : NodeId} {action : Action NodeId} {g : Gap}
    (wf : d.WellFormed) (h : d.Moves target action g) :
    ∃ d', carryOut ⟨target, action⟩ d = .ok () d' ∧ d.Filled g action.content d' := by
  have insertable := h.insertable wf
  have gap := h.gap
  have isChild {p : NodeId} (hp : d.parent? target = some p) : target ∈ d.children p :=
    (wf.mem_children target p).2 ⟨hp, h.notAttribute⟩
  have beside {p : NodeId} (hp : d.parent? target = some p) : ∃ front back,
      d.children p = front ++ target :: back ∧ target ∉ front ∧ target ∉ back :=
    exists_split (wf.nodup_children p) (isChild hp)
  have atTarget {p : NodeId} (hp : d.parent? target = some p) :
      ∀ r, some target = some r → r ∈ d.children p := fun r hr => Option.some.inj hr ▸ isChild hp
  cases action with
  | insert place nodes =>
    cases place with
    | into | intoAsLast =>
      cases gap
      have position : ∀ r, (none : Option NodeId) = some r → r ∈ d.children target := nofun
      obtain ⟨d', run, moved⟩ := insertAll_moved wf insertable position
      exact ⟨d', run, moved.filled_of_insert wf h.nodup (List.append_nil _).symm rfl⟩
    | intoAsFirst =>
      cases gap
      have position : ∀ r, (d.children target).find? d.isVisible = some r → r ∈ d.children target :=
        fun r hr => List.mem_of_find?_eq_some hr
      obtain ⟨d', run, moved⟩ := insertAll_moved wf insertable position
      rw [List.find?_eq_head?_dropWhile_not] at moved
      exact ⟨d', run, moved.filled_of_insert wf h.nodup List.takeWhile_append_dropWhile.symm rfl⟩
    | before =>
      obtain ⟨p, hp, rfl⟩ := Option.map_eq_some_iff.1 gap
      obtain ⟨front, back, parts, hf, hb⟩ := beside hp
      obtain ⟨d', run, moved⟩ := insertAll_moved wf insertable (atTarget hp)
      refine ⟨d', ?_, moved.filled_of_insert wf h.nodup ?_ ?_⟩
      · show (parentOf target >>= fun p => insertAll p nodes (some target)) d = _
        rw [bind_of_ok (parentOf_ok hp)]
        exact run
      · exact List.takeWhile_append_dropWhile.symm
      · simp only [parts, dropWhile_ne_append hf, List.head?_cons]
    | after =>
      obtain ⟨p, hp, rfl⟩ := Option.map_eq_some_iff.1 gap
      obtain ⟨front, back, parts, hf, hb⟩ := beside hp
      have next : d.nextSibling? target = back.head? := by
        rw [nextSibling?, siblings, if_neg h.notAttribute, hp]
        simp only [parts]
        exact entryAfter_append hf
      have position : ∀ r, back.head? = some r → r ∈ d.children p := fun r hr => by
        rw [parts]
        exact List.mem_append_right _ (List.mem_cons_of_mem _ (List.mem_of_head? hr))
      obtain ⟨d', run, moved⟩ := insertAll_moved wf insertable position
      simp only [parts, takeWhile_ne_append hf, dropWhile_ne_append hf, List.tail_cons]
      refine ⟨d', ?_, moved.filled_of_insert wf h.nodup ?_ rfl⟩
      · show (parentOf target >>= fun p => do insertAll p nodes ((← get).nextSibling? target)) d = _
        rw [bind_of_ok (parentOf_ok hp), get_bind, next]
        exact run
      · rw [parts, List.append_assoc]
        rfl
  | replaceNode nodes =>
    obtain ⟨p, hp, rfl⟩ := Option.map_eq_some_iff.1 gap
    obtain ⟨front, back, parts, hf, hb⟩ := beside hp
    obtain ⟨d', run, moved⟩ := insertAll_moved wf insertable (atTarget hp)
    simp only [parts, takeWhile_ne_append hf, dropWhile_ne_append hf, List.tail_cons]
    refine ⟨d'.detach target, ?_, moved.filled_of_replace wf h.nodup h.apart parts hf hb⟩
    have has : d'.Has target := by
      rw [Has, moved.size_eq]
      exact h.has
    show (parentOf target >>= _) d = _
    rw [bind_of_ok (parentOf_ok hp), get_bind, if_neg h.notAttribute]
    exact (bind_of_ok run).trans (remove_ok has)
  | delete | insertAttributes | rename | replaceValue | replaceElementContent | put => cases gap

end Edit

/-! ## Applications -/

namespace Construct

variable {setting : Setting} {s : Construction}

theorem require_of_true {condition : Bool} (h : condition) (e : Error) :
    require condition e s = .ok () s := by
  rw [require, if_pos h]
  rfl

theorem contentNode_real (move : setting.copyInserted = false) (n : NodeId) :
    contentNode setting (.real n) s = .ok n { s with used := n :: s.used } := by
  unfold contentNode
  show (if setting.copyInserted then _ else _ : Construct NodeId) s = _
  rw [move]
  rfl

/-- Children that are not copied are taken as they are. -/
theorem childContent_real (move : setting.copyInserted = false) (kind : UpdateKind)
    {nodes : List NodeId} (children : ∀ n ∈ nodes, (s.document.kind n).isChild) :
    ∃ used, childContent setting kind (nodes.map .real) s = .ok nodes { s with used := used } := by
  induction nodes generalizing s with
  | nil => exact ⟨s.used, rfl⟩
  | cons n ns ih =>
    obtain ⟨used, rest⟩ := @ih { s with used := n :: s.used } fun m hm =>
      children m (List.mem_cons_of_mem n hm)
    refine ⟨used, ?_⟩
    have isChild := children n List.mem_cons_self
    show (contentNode setting (.real n) >>= _) s = _
    rw [bind_of_ok (contentNode_real move n), get_bind]
    have whole : (childContent setting kind (ns.map .real) >>= fun more => pure ([n] ++ more))
        { s with used := n :: s.used } = .ok (n :: ns) { s with used := used } := by
      rw [bind_of_ok rest]
      rfl
    cases hk : s.document.kind n with
    | «attribute» | document | documentType =>
      rw [hk] at isChild
      cases isChild
    | element | text | comment | processingInstruction => exact whole

section Moves

variable (move : setting.copyInserted = false) {target : NodeId} {action : Action NodeId} {g : Gap}
  (h : s.document.Moves target action g)

include move h

theorem prepareAction_moves : ∃ used, prepareAction setting (s.document.kind target)
    (s.document.parent? target).isSome (action.withContent (action.content.map .real)) s =
      .ok action { s with used := used } := by
  have gap := h.gap
  cases action with
  | insert place nodes =>
    have children : ∀ n ∈ nodes, (s.document.kind n).isChild := fun n => h.isChild_content
    obtain ⟨used, made⟩ := childContent_real move place.kind children
    have placed : (childContent setting place.kind (nodes.map .real) >>= fun nodes =>
        pure (.insert place nodes)) s = .ok (Action.insert place nodes) { s with used := used } := by
      rw [bind_of_ok made]
      rfl
    have suits := h.suits.1
    refine ⟨used, ?_⟩
    simp only [Action.withContent, Action.content, prepareAction]
    by_cases beside : place = .before ∨ place = .after
    · have parent : (s.document.parent? target).isSome := by
        rcases beside with rfl | rfl <;> obtain ⟨p, hp, -⟩ := Option.map_eq_some_iff.1 gap <;>
          rw [hp] <;> rfl
      rw [if_pos beside] at suits ⊢
      rw [bind_of_ok (require_of_true suits _), bind_of_ok (require_of_true parent _)]
      exact placed
    · rw [if_neg beside] at suits ⊢
      rw [bind_of_ok (require_of_true suits _)]
      exact placed
  | replaceNode nodes =>
    have children : ∀ n ∈ nodes, (s.document.kind n).isChild := fun n => h.isChild_content
    obtain ⟨used, made⟩ := childContent_real move .replaceNode children
    obtain ⟨p, hp, -⟩ := Option.map_eq_some_iff.1 gap
    have isChild := (h.suits.resolve_left fun h' => h.notAttribute h'.1).1
    have parent : (s.document.parent? target).isSome := by
      rw [hp]
      rfl
    have replaced : replacementContent setting (s.document.kind target) (nodes.map .real) s =
        .ok nodes { s with used := used } := by
      rw [replacementContent, if_neg h.notAttribute, mapError, made]
    refine ⟨used, ?_⟩
    simp only [Action.withContent, Action.content, prepareAction]
    rw [bind_of_ok (require_of_true (by simp [isChild]) _), bind_of_ok (require_of_true parent _),
      bind_of_ok replaced]
    rfl
  | delete | insertAttributes | rename | replaceValue | replaceElementContent | put => cases gap

theorem prepare_moves : ∃ used,
    prepare setting ⟨.real target, action.withContent (action.content.map .real)⟩ s =
      .ok ⟨target, action⟩ { s with used := used } := by
  obtain ⟨used, prepared⟩ := prepareAction_moves move h
  have allowed : decide (Update.kind (⟨.real target,
      action.withContent (action.content.map .real)⟩ : Update Pointer) ≠ .put) := by
    have gap := h.gap
    cases action with
    | insert place nodes => cases place <;> rfl
    | replaceNode nodes => rfl
    | delete | insertAttributes | rename | replaceValue | replaceElementContent | put => cases gap
  refine ⟨used, ?_⟩
  unfold prepare
  rw [bind_of_ok (require_of_true allowed _)]
  show (get >>= fun s => _ : Construct (Update NodeId)) s = _
  rw [get_bind, bind_of_ok prepared]
  rfl

end Moves

end Construct

/-- A single update that forces no binding contradicts nothing. -/
theorem Forest.compatibility_singleton {f : Forest} {u : Update Pointer}
    (h : f.bindings u = .ok []) : f.compatibility [u] = .ok () := by
  have once (kind : UpdateKind) : firstRepeated [] (targetsOf kind [u]) = none := by
    rw [firstRepeated_eq_none_iff]
    refine ⟨?_, fun a _ => List.not_mem_nil⟩
    have short : (targetsOf kind [u]).Sublist [u.target] := (List.filter_sublist).map _
    exact short.nodup (List.nodup_singleton _)
  have stored : firstRepeated [] (storedUris [u]) = none := by
    rcases u with ⟨target, action⟩
    cases action <;> rfl
  have targets : f.targetConflict? [u] = none := by
    simp only [targetConflict?, once, stored, Option.map_none, Option.or_none]
  rw [compatibility, targets, List.mapM_cons, h]
  rfl

theorem Forest.bindings_moves {f : Forest} {target : NodeId} {action : Action NodeId} {g : Gap}
    (h : f.document.Moves target action g) (content : List Pointer) :
    f.bindings ⟨.real target, action.withContent content⟩ = .ok [] := by
  have gap := h.gap
  cases action with
  | insert place nodes => rfl
  | replaceNode nodes => exact if_neg h.notAttribute
  | delete | insertAttributes | rename | replaceValue | replaceElementContent | put => cases gap

namespace Evaluate

/-- An update whose content is moved succeeds.  Its content comes to stand together in the gap, and in
order exactly if the position of the gap is not among it or is the last of it; all other children keep
their order. -/
theorem content_lines_up {e : Evaluation} {o : Options} {target : NodeId} {action : Action NodeId}
    {g : Gap} (wf : e.document.WellFormed) (move : o.copyInsertedContent = false)
    (h : e.document.Moves target action g) :
    ∃ d', applyUpdates [⟨.real target, action.withContent (action.content.map .real)⟩] o e =
        .ok () { e with document := d' } ∧
      e.document.Filled g action.content d' ∧
      (lineUp g.reference? action.content = action.content ↔
        ∀ n ∈ action.content.dropLast, g.reference? ≠ some n) := by
  obtain ⟨d', run, filled⟩ := Edit.carryOut_moves wf h
  have setting : (e.setting o).copyInserted = false := move
  obtain ⟨used, prepare⟩ := Construct.prepare_moves (s := ⟨e.document, e.memo, []⟩) setting h
  refine ⟨d', ?_, filled, lineUp_eq_self_iff h.nodup⟩
  have prepareAll : e.prepareAll o [⟨.real target, action.withContent (action.content.map .real)⟩] =
      .ok [⟨target, action⟩] ⟨e.document, e.memo, used⟩ := by
    rw [Evaluation.prepareAll, List.mapM_cons, VirtualTree.bind_of_ok prepare]
    rfl
  have stages : inStages [(⟨target, action⟩ : Update NodeId)] = [⟨target, action⟩] :=
    List.perm_singleton.1 (inStages_perm _)
  have carried : Edit.carryOutAll [⟨target, action⟩] e.document = .ok () d' := by
    rw [Edit.carryOutAll_cons, VirtualTree.bind_of_ok run]
    rfl
  rw [applyUpdates_apply, Forest.compatibility_singleton (Forest.bindings_moves h _)]
  simp only [prepareAll, stages, carried]

/-- The position of the gap behind the first child is the last of the nodes that come there, so they
keep their order. -/
theorem content_lines_up_behind_first :
    let leaf := fun name => Tree.node (.element (.unqualified name)) [] []
    let t : Tree := .node (.element (.unqualified "p")) [] [leaf "a", leaf "b", leaf "c"]
    let e := Evaluation.start (holding t)
    let o : Options := { copyInsertedContent := false }
    ∃ d', applyUpdates [⟨.real ⟨1⟩, .insert .after [.real ⟨3⟩, .real ⟨2⟩]⟩] o e =
        .ok () { e with document := d' } ∧
      d'.children ⟨0⟩ = [⟨1⟩, ⟨3⟩, ⟨2⟩] := by
  intro leaf t e o
  have wf : e.document.WellFormed := wellFormed_holding t
  have above : ∀ n ∈ ([⟨3⟩, ⟨2⟩] : List NodeId), n ∉ e.document.ancestorsOrSelf ⟨0⟩ := by
    decide +kernel
  have moves : e.document.Moves ⟨1⟩ (.insert .after [⟨3⟩, ⟨2⟩])
      ⟨⟨0⟩, [⟨1⟩], some ⟨2⟩, [⟨2⟩, ⟨3⟩]⟩ :=
    { has := by decide +kernel
      notAttribute := by decide +kernel
      suits := ⟨by decide +kernel, by decide +kernel⟩
      gap := by decide +kernel
      nodup := by decide +kernel
      hasContent := by decide +kernel
      apart := by decide +kernel
      outside := fun n hn h =>
        above n hn ((wf.mem_ancestorsOrSelf (by decide +kernel)).2 h) }
  obtain ⟨d', run, filled, -⟩ := content_lines_up (o := o) wf rfl moves
  exact ⟨d', run, filled.children.trans (by decide +kernel)⟩

/-- The first child gives the position of the gap before it, and the second comes before the first. -/
theorem content_turned_round :
    let leaf := fun name => Tree.node (.element (.unqualified name)) [] []
    let t : Tree := .node (.element (.unqualified "p")) [] [leaf "a", leaf "b"]
    let e := Evaluation.start (holding t)
    ∃ e', applyUpdates [⟨.real ⟨0⟩, .insert .intoAsFirst [.real ⟨1⟩, .real ⟨2⟩]⟩]
        { copyInsertedContent := false } e = .ok () e' ∧
      e'.document.children ⟨0⟩ = [⟨2⟩, ⟨1⟩] ∧ e'.document.toXml ⟨0⟩ = "<p><b/><a/></p>" := by
  intro leaf t e
  have answer : (match applyUpdates [⟨.real ⟨0⟩, .insert .intoAsFirst [.real ⟨1⟩, .real ⟨2⟩]⟩]
        { copyInsertedContent := false } e with
    | .ok _ e' => decide (e'.document.children ⟨0⟩ = [⟨2⟩, ⟨1⟩] ∧
        e'.document.toXml ⟨0⟩ = "<p><b/><a/></p>")
    | .error _ _ => false) = true := by decide +kernel
  split at answer
  · rename_i run
    exact ⟨_, run, of_decide_eq_true answer⟩
  · cases answer

end Evaluate

end VirtualTree
