import VirtualTree.Materialization
import VirtualTree.Update.Basic

/-!
# Preparing updates

A primitive is prepared before anything changes: its target must be a node of the document that
allows the action, and its content becomes nodes that are safe to attach.  Nodes of the document are
copied unless they are to be moved; virtual nodes are built, and copied if the built node is attached
already or was used before in the same list.  A prepared update is an update of real nodes.
-/

namespace VirtualTree

/-- What preparation reads besides the document: the silhouettes, and whether inserted nodes of the
document are copied. -/
structure Setting where
  /-- The silhouettes. -/
  arena : Arena
  /-- Inserted nodes of the document are copied. -/
  copyInserted : Bool

namespace Construct

/-- Fails with an error unless a condition holds. -/
def require (condition : Bool) (e : Error) : Construct Unit :=
  if condition then pure () else throw e

/-- The same computation with another error. -/
def mapError {α : Type} (change : Error → Error) (m : Construct α) : Construct α := fun s =>
  match m s with
  | .ok a s => .ok a s
  | .error e s => .error (change e) s

/-- A real node for a content pointer, safe to attach. -/
def contentNode (setting : Setting) (p : Pointer) : Construct NodeId := do
  let node ← match p.plainNode? with
    | some id => if setting.copyInserted then edit (Edit.deepClone id) else pure id
    | none => do
      let built ← materialize setting.arena p
      let s ← get
      if (s.document.parent? built).isSome ∨ built ∈ s.used then edit (Edit.deepClone built)
      else pure built
  modify fun s => { s with used := node :: s.used }
  return node

/-- The nodes for content in child positions; a document contributes its children. -/
def childContent (setting : Setting) (kind : UpdateKind) : List Pointer → Construct (List NodeId)
  | [] => pure []
  | p :: ps => do
    let node ← contentNode setting p
    let d := (← get).document
    let nodes ← match d.kind node with
      | .attribute => throw (.refused kind .attributeAsChild)
      | .document => pure ((d.children node).filter d.isVisible)
      | .documentType => throw (.refused kind .documentTypeAsChild)
      | _ => pure [node]
    return nodes ++ (← childContent setting kind ps)

/-- The nodes for content in attribute positions. -/
def attributeContent (setting : Setting) (kind : UpdateKind) :
    List Pointer → Construct (List NodeId)
  | [] => pure []
  | p :: ps => do
    let node ← contentNode setting p
    let d := (← get).document
    require (d.kind node = .attribute) (.refused kind .childAsAttribute)
    return node :: (← attributeContent setting kind ps)

/-- The nodes that replace a node: attributes for an attribute, children for a child. -/
def replacementContent (setting : Setting) (targetKind : Kind) (replacement : List Pointer) :
    Construct (List NodeId) :=
  if targetKind = .attribute then
    mapError (fun e =>
        if e.standardCode = .xpty0004 then .refused .replaceNode .attributeByChild else e)
      (attributeContent setting .replaceNode replacement)
  else
    mapError (fun e =>
        if e.standardCode = .xuty0004 then .refused .replaceNode .childByAttribute else e)
      (childContent setting .replaceNode replacement)

/-- Checks that the target allows the action, and builds the content. -/
def prepareAction (setting : Setting) (targetKind : Kind) (hasParent : Bool) :
    Action Pointer → Construct (Action NodeId)
  | .delete => return .delete
  | .insert place content => do
    if place = .before ∨ place = .after then
      require targetKind.isChild (.refused place.kind .besideNonChild)
      require hasParent (.refused place.kind .besideRoot)
    else
      require targetKind.isParent (.refused place.kind .intoChildless)
    return .insert place (← childContent setting place.kind content)
  | .insertAttributes content => do
    require (targetKind = .element) (.refused .insertAttributes .attributesIntoNonElement)
    return .insertAttributes (← attributeContent setting .insertAttributes content)
  | .rename name => do
    require targetKind.isNamed (.refused .rename .renamedNameless)
    return .rename name
  | .replaceNode replacement => do
    require (targetKind = .attribute || targetKind.isChild) (.refused .replaceNode .replacedFixed)
    require hasParent (.refused .replaceNode .replacedRoot)
    return .replaceNode (← replacementContent setting targetKind replacement)
  | .replaceValue value => do
    require targetKind.hasValue (.refused .replaceValue .replacedValueless)
    return .replaceValue value
  | .replaceElementContent text => do
    require (targetKind = .element) (.refused .replaceElementContent .emptiedNonElement)
    return .replaceElementContent text
  | .put _ => throw (.notImplemented "put")

/-- Prepares an update. -/
def prepare (setting : Setting) (u : Update Pointer) : Construct (Update NodeId) := do
  require (u.kind ≠ .put) (.notImplemented "put")
  match u.target.plainNode? with
  | none => throw (.refused u.kind .foreignTarget)
  | some target =>
    let d := (← get).document
    let action ← prepareAction setting (d.kind target) (d.parent? target).isSome u.action
    return ⟨target, action⟩

end Construct

end VirtualTree
