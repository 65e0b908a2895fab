import VirtualTree.Name
import VirtualTree.Update.Kind

/-!
# Updates

An update is a change that was asked for and not made yet: a target and an action on it.  Targets and
content are pointers while updates are collected; `Update.mapM` turns them into something else, for
instance into text that can be handed on.  An update list is a plain list, and lists are merged by
appending them.
-/

namespace VirtualTree

/-- Where content is inserted, seen from the target. -/
inductive Place where
  | before
  | after
  | into
  | intoAsFirst
  | intoAsLast
deriving DecidableEq, Inhabited

/-- What is done to the target of an update. -/
inductive Action (α : Type) where
  | delete
  | insert (place : Place) (content : List α)
  | insertAttributes (content : List α)
  | rename (name : Name)
  | replaceNode (replacement : List α)
  | replaceValue (value : String)
  | replaceElementContent (text : Option String)
  | put (uri : String)
deriving DecidableEq, Inhabited

/-- A change that was asked for and not made yet. -/
structure Update (α : Type) where
  /-- The node that changes, or the node that is stored. -/
  target : α
  /-- What is done to it. -/
  action : Action α
deriving DecidableEq, Inhabited

/-- The kind of an insertion at a place. -/
def Place.kind : Place → UpdateKind
  | .before => .insertBefore
  | .after => .insertAfter
  | .into => .insertInto
  | .intoAsFirst => .insertIntoAsFirst
  | .intoAsLast => .insertIntoAsLast

namespace Action

variable {α β : Type}

/-- The kind of an action. -/
def kind : Action α → UpdateKind
  | .delete => .delete
  | .insert place _ => place.kind
  | .insertAttributes _ => .insertAttributes
  | .rename _ => .rename
  | .replaceNode _ => .replaceNode
  | .replaceValue _ => .replaceValue
  | .replaceElementContent _ => .replaceElementContent
  | .put _ => .put

/-- The nodes that an action brings in. -/
def content : Action α → List α
  | .insert _ content => content
  | .insertAttributes content => content
  | .replaceNode replacement => replacement
  | _ => []

/-- The action with every node it brings in changed, from the first to the last. -/
def mapM {m : Type → Type} [Monad m] (f : α → m β) : Action α → m (Action β)
  | .delete => pure .delete
  | .insert place content => return .insert place (← content.mapM f)
  | .insertAttributes content => return .insertAttributes (← content.mapM f)
  | .rename name => pure (.rename name)
  | .replaceNode replacement => return .replaceNode (← replacement.mapM f)
  | .replaceValue value => pure (.replaceValue value)
  | .replaceElementContent text => pure (.replaceElementContent text)
  | .put uri => pure (.put uri)

end Action

namespace Update

variable {α β : Type}

/-- The kind of an update. -/
def kind (u : Update α) : UpdateKind := u.action.kind

/-- The nodes that an update brings in. -/
def content (u : Update α) : List α := u.action.content

/-- The update with every node changed: first the content in order, then the target. -/
def mapM {m : Type → Type} [Monad m] (f : α → m β) (u : Update α) : m (Update β) := do
  let action ← u.action.mapM f
  let target ← f u.target
  return ⟨target, action⟩

end Update

end VirtualTree
