import VirtualTree.Update.Compatibility
import VirtualTree.Update.Prepare

/-!
# Applying updates

An update list is applied as a whole: it is checked for contradictions, all its primitives are
prepared, and then they are carried out in five stages, in list order within each.  First come
insertions without a position, new attributes, values and names; then insertions at a position;
then replacements of nodes, then of content, and deletions last.  Whatever can go wrong goes wrong
before the first change; a failure after that is reported as `Error.failedMidway`.
-/

namespace VirtualTree

/-- The stage in which an action is carried out. -/
def Action.stage {α : Type} : Action α → Nat
  | .insert .into _ => 0
  | .insertAttributes _ => 0
  | .replaceValue _ => 0
  | .rename _ => 0
  | .insert _ _ => 1
  | .replaceNode _ => 2
  | .replaceElementContent _ => 3
  | .delete => 4
  | .put _ => 4

/-- The updates of a list by stage, in list order within each stage. -/
def inStages {α : Type} (updates : List (Update α)) : List (Update α) :=
  (List.range 5).flatMap fun stage => updates.filter fun u => u.action.stage = stage

namespace Edit

/-- Inserts nodes one after the other before the same reference node, or after all children. -/
def insertAll (parent : NodeId) (nodes : List NodeId) (reference? : Option NodeId) : Edit Unit :=
  nodes.forM fun n => insertBefore parent n reference?

/-- Sets nodes one after the other as attributes of an element. -/
def setAttributes (owner : NodeId) (nodes : List NodeId) : Edit Unit :=
  nodes.forM fun n => setAttribute owner n

/-- The parent of a node that had one when it was prepared. -/
def parentOf (id : NodeId) : Edit NodeId := do
  match (← get).parent? id with
  | some p => return p
  | none => throw .lostParent

/-- Inserts nodes at a place. -/
def insertAt (place : Place) (target : NodeId) (nodes : List NodeId) : Edit Unit := do
  match place with
  | .into => insertAll target nodes none
  | .intoAsLast => insertAll target nodes none
  | .intoAsFirst =>
    let d ← get
    insertAll target nodes ((d.children target).find? d.isVisible)
  | .before => insertAll (← parentOf target) nodes (some target)
  | .after =>
    let parent ← parentOf target
    insertAll parent nodes ((← get).nextSibling? target)

/-- Puts nodes in the place of a node. -/
def replace (target : NodeId) (nodes : List NodeId) : Edit Unit := do
  let parent ← parentOf target
  if (← get).kind target = .attribute then
    remove target
    setAttributes parent nodes
  else
    insertAll parent nodes (some target)
    remove target

/-- Puts a text in the place of all children; an absent or empty text leaves none. -/
def replaceContent (target : NodeId) (text : Option String) : Edit Unit := do
  ((← get).children target).forM remove
  match text.filter (· ≠ "") with
  | some data =>
    let node ← create (.text data)
    insertBefore target node none
  | none => return

/-- Carries out a prepared update. -/
def carryOut (u : Update NodeId) : Edit Unit :=
  match u.action with
  | .insert place nodes => insertAt place u.target nodes
  | .insertAttributes nodes => setAttributes u.target nodes
  | .rename name => rename u.target name
  | .replaceNode nodes => replace u.target nodes
  | .replaceValue value => setValue u.target value
  | .replaceElementContent text => replaceContent u.target text
  | .delete => remove u.target
  | .put _ => pure ()

end Edit

namespace Construct

/-- Checks, prepares and carries out an update list. -/
def applyUpdates (setting : Setting) (updates : List (Update Pointer)) : Construct Unit := do
  if updates.isEmpty then
    return
  ofExcept ((← forest setting.arena).compatibility updates)
  modify fun s => { s with used := [] }
  let prepared ← updates.mapM (prepare setting)
  (inStages prepared).forM fun u => mapError .failedMidway (edit (Edit.carryOut u))

end Construct

end VirtualTree
