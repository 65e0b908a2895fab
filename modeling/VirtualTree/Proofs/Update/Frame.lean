import VirtualTree.Proofs.Update.Phases
import VirtualTree.Proofs.Update.Stages

/-!
# What carrying out updates stays away from

An update changes the label and the lists of its target, or the list that its target stands in, and
besides that it only moves nodes: what it brings in, and what it takes away.  A `Frame` is an invariant
of documents together with the nodes that may be changed and the nodes that may be moved without harm to
it.  The elementary edits are asked to keep the invariant; then every update that stays within the frame
keeps it (`Frame.keeps_carryOut`), and so does a whole list of them (`Frame.keeps_carryOutAll`).  A
`LinkFrame` says nothing about new labels; it is a frame for the updates that change links only.  A
`ChildFrame` says nothing about attributes that are set either.
-/

namespace VirtualTree

open Document

/-- The action changes the list that the target stands in, and not the target itself. -/
def Action.ChangesParent {α : Type} : Action α → Prop
  | .delete => True
  | .insert place _ => place = .before ∨ place = .after
  | .replaceNode _ => True
  | _ => False

/-- The update changes and moves only what it may. -/
structure Update.Within (changes moves : NodeId → Prop) (u : Update NodeId) : Prop where
  moved : u.action.ChangesParent → moves u.target
  changed : ¬ u.action.ChangesParent → changes u.target
  content : ∀ n ∈ u.content, moves n

namespace Edit

/-- An invariant of documents that is kept as long as no attribute is set, only certain nodes are changed,
that is get other lists, and only certain nodes are moved. -/
structure ChildFrame (I : Document → Prop) (changes moves : NodeId → Prop) : Prop where
  /-- What may be moved may be taken away from where it stands. -/
  parent : ∀ d, I d → ∀ i p, moves i → d.parent? i = some p → changes p
  child : ∀ d, I d → ∀ p c, changes p → c ∈ d.children p → moves c
  createText : ∀ data, Keeps I (create (.text data)) moves
  insertBefore : ∀ parent child reference?, changes parent → moves child →
    Keeps I (insertBefore parent child reference?) fun _ => True
  remove : ∀ id, moves id → Keeps I (remove id) fun _ => True

/-- An invariant of documents that is kept as long as only certain nodes are changed, that is get other
lists, and only certain nodes are moved. -/
structure LinkFrame (I : Document → Prop) (changes moves : NodeId → Prop) : Prop where
  /-- What may be moved may be taken away from where it stands. -/
  parent : ∀ d, I d → ∀ i p, moves i → d.parent? i = some p → changes p
  child : ∀ d, I d → ∀ p c, changes p → c ∈ d.children p → moves c
  create : ∀ label, Keeps I (create label) moves
  insertBefore : ∀ parent child reference?, changes parent → moves child →
    Keeps I (insertBefore parent child reference?) fun _ => True
  setAttribute : ∀ owner attr, changes owner → moves attr →
    Keeps I (setAttribute owner attr) fun _ => True
  remove : ∀ id, moves id → Keeps I (remove id) fun _ => True

/-- An invariant of documents that is kept as long as only certain nodes are changed, that is get other
labels or lists, and only certain nodes are moved. -/
structure Frame (I : Document → Prop) (changes moves : NodeId → Prop) : Prop
    extends LinkFrame I changes moves where
  relabel : ∀ id change fault, changes id → (∀ l m, change l = some m → m.kind = l.kind) →
    Keeps I (relabel id change fault) fun _ => True

namespace ChildFrame

variable {I : Document → Prop} {changes moves : NodeId → Prop} (frame : ChildFrame I changes moves)

include frame

theorem keeps_insertAll {parent : NodeId} {nodes : List NodeId} (reference? : Option NodeId)
    (hp : changes parent) (hn : ∀ n ∈ nodes, moves n) :
    Keeps I (insertAll parent nodes reference?) fun _ => True :=
  keeps_forM fun n h => frame.insertBefore parent n reference? hp (hn n h)

theorem keeps_parentOf {id : NodeId} (hid : moves id) : Keeps I (parentOf id) changes := by
  apply keeps_get_bind
  intro d h
  cases hp : d.parent? id with
  | none => exact h
  | some p => exact ⟨h, frame.parent d h id p hid hp⟩

theorem keeps_insertAt (place : Place) {target : NodeId} {nodes : List NodeId}
    (moved : place = .before ∨ place = .after → moves target)
    (changed : ¬ (place = .before ∨ place = .after) → changes target)
    (hn : ∀ n ∈ nodes, moves n) : Keeps I (insertAt place target nodes) fun _ => True := by
  cases place with
  | into | intoAsLast => exact frame.keeps_insertAll none (changed (by decide)) hn
  | intoAsFirst =>
    exact keeps_get_bind fun d h => frame.keeps_insertAll _ (changed (by decide)) hn d h
  | before =>
    exact (frame.keeps_parentOf (moved (Or.inl rfl))).bind fun parent hp =>
      frame.keeps_insertAll (some target) hp hn
  | after =>
    exact (frame.keeps_parentOf (moved (Or.inr rfl))).bind fun parent hp =>
      keeps_get_bind fun d h => frame.keeps_insertAll _ hp hn d h

/-- A node makes room for others.  How attributes are set matters only if it is an attribute. -/
theorem keeps_replace {target : NodeId} {nodes : List NodeId} (ht : moves target)
    (hn : ∀ n ∈ nodes, moves n) (setAttributes : ∀ d, I d → d.kind target = .attribute →
      ∀ owner, changes owner → Keeps I (setAttributes owner nodes) fun _ => True) :
    Keeps I (replace target nodes) fun _ => True := by
  apply (frame.keeps_parentOf ht).bind
  intro parent hp
  apply keeps_get_bind
  intro d h
  split_ifs with isAttribute
  · exact ((frame.remove target ht).bind fun _ _ => setAttributes d h isAttribute parent hp) d h
  · exact ((frame.keeps_insertAll (some target) hp hn).bind fun _ _ => frame.remove target ht) d h

theorem keeps_replaceContent {target : NodeId} (ht : changes target) (text : Option String) :
    Keeps I (replaceContent target text) fun _ => True := by
  apply keeps_get_bind
  intro d h
  have children : ∀ c ∈ d.children target, moves c := fun c => frame.child d h target c ht
  refine ((keeps_forM fun c hc => frame.remove c (children c hc)).bind fun _ _ => ?_) d h
  cases text.filter (· ≠ "") with
  | none => exact keeps_pure trivial
  | some data =>
    exact (frame.createText data).bind fun n hn => frame.insertBefore target n none ht hn

/-- An update within the frame keeps the invariant, whether it succeeds or fails halfway, if setting
attributes and changing labels does where the update comes to it. -/
theorem keeps_carryOut {u : Update NodeId} (within : u.Within changes moves)
    (insertAttributes : ∀ nodes, u.action = .insertAttributes nodes →
      Keeps I (setAttributes u.target nodes) fun _ => True)
    (replaceAttribute : ∀ nodes, u.action = .replaceNode nodes → ∀ d, I d →
      d.kind u.target = .attribute → ∀ owner, changes owner →
        Keeps I (setAttributes owner nodes) fun _ => True)
    (rename : ∀ name, u.action = .rename name → Keeps I (rename u.target name) fun _ => True)
    (setValue : ∀ value, u.action = .replaceValue value →
      Keeps I (setValue u.target value) fun _ => True) : Keeps I (carryOut u) fun _ => True := by
  obtain ⟨target, action⟩ := u
  obtain ⟨moved, changed, content⟩ := within
  cases action with
  | delete => exact frame.remove target (moved trivial)
  | insert place nodes => exact frame.keeps_insertAt place moved changed content
  | insertAttributes nodes => exact insertAttributes nodes rfl
  | rename name => exact rename name rfl
  | replaceNode nodes =>
    exact frame.keeps_replace (moved trivial) content (replaceAttribute nodes rfl)
  | replaceValue value => exact setValue value rfl
  | replaceElementContent text => exact frame.keeps_replaceContent (changed id) text
  | put uri => exact keeps_pure trivial

end ChildFrame

namespace LinkFrame

variable {I : Document → Prop} {changes moves : NodeId → Prop} (frame : LinkFrame I changes moves)

include frame

theorem childFrame : ChildFrame I changes moves where
  parent := frame.parent
  child := frame.child
  createText data := frame.create (.text data)
  insertBefore := frame.insertBefore
  remove := frame.remove

theorem keeps_setAttributes {owner : NodeId} {nodes : List NodeId} (ho : changes owner)
    (hn : ∀ n ∈ nodes, moves n) : Keeps I (setAttributes owner nodes) fun _ => True :=
  keeps_forM fun n h => frame.setAttribute owner n ho (hn n h)

/-- An update within the frame keeps the invariant, whether it succeeds or fails halfway, if the change
of a label does. -/
theorem keeps_carryOut {u : Update NodeId} (within : u.Within changes moves)
    (rename : ∀ name, u.action = .rename name → Keeps I (rename u.target name) fun _ => True)
    (setValue : ∀ value, u.action = .replaceValue value →
      Keeps I (setValue u.target value) fun _ => True) : Keeps I (carryOut u) fun _ => True := by
  refine frame.childFrame.keeps_carryOut within (fun nodes action => ?_)
    (fun nodes action _ _ _ owner ho => ?_) rename setValue
  · refine frame.keeps_setAttributes (within.changed (by rw [action]; exact id)) fun n hn =>
      within.content n ?_
    rwa [Update.content, action]
  · refine frame.keeps_setAttributes ho fun n hn => within.content n ?_
    rwa [Update.content, action]

end LinkFrame

namespace Frame

variable {I : Document → Prop} {changes moves : NodeId → Prop} (frame : Frame I changes moves)

include frame

/-- An update within the frame keeps the invariant, whether it succeeds or fails halfway. -/
theorem keeps_carryOut {u : Update NodeId} (within : u.Within changes moves) :
    Keeps I (carryOut u) fun _ => True := by
  refine frame.toLinkFrame.keeps_carryOut within (fun name action => ?_) fun value action => ?_
  · have changed : changes u.target := within.changed (by rw [action]; exact id)
    exact frame.relabel u.target _ _ changed fun _ _ => Label.kind_of_rename?
  · have changed : changes u.target := within.changed (by rw [action]; exact id)
    exact frame.relabel u.target _ _ changed fun _ _ => Label.kind_of_setValue?

theorem keeps_carryOutAll {updates : List (Update NodeId)}
    (within : ∀ u ∈ updates, u.Within changes moves) :
    Keeps I (carryOutAll updates) fun _ => True :=
  keeps_forM fun u hu => frame.keeps_carryOut (within u hu)

end Frame

end Edit

end VirtualTree
