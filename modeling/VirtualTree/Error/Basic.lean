import VirtualTree.Error.Code
import VirtualTree.Kind
import VirtualTree.Pointer
import VirtualTree.Update.Kind

/-!
# Errors

An `Error` is the cause of a failure.  Its code, its message and the error behind it are functions of
the cause, so nothing decides anything by comparing texts.  Errors raised by expressions of the
caller carry a code and a message of their own.
-/

namespace VirtualTree

/-- Why an update primitive cannot be prepared. -/
inductive Refusal where
  /-- The target is not an ungrafted node of the document. -/
  | foreignTarget
  /-- Content is inserted into a node without a child list. -/
  | intoChildless
  /-- Content is inserted beside a node that never stands in a child list. -/
  | besideNonChild
  /-- Content is inserted beside a node without a parent. -/
  | besideRoot
  /-- Attributes are inserted into a node that is no element. -/
  | attributesIntoNonElement
  /-- A node without a name is renamed. -/
  | renamedNameless
  /-- A node that cannot be replaced is replaced. -/
  | replacedFixed
  /-- A node without a parent is replaced. -/
  | replacedRoot
  /-- The value of a node without a value is replaced. -/
  | replacedValueless
  /-- The content of a node that is no element is replaced. -/
  | emptiedNonElement
  /-- An attribute is inserted as a child. -/
  | attributeAsChild
  /-- A document type is inserted as a child. -/
  | documentTypeAsChild
  /-- A node that is no attribute is inserted as an attribute. -/
  | childAsAttribute
  /-- An attribute is replaced by a node that is no attribute. -/
  | attributeByChild
  /-- A child is replaced by an attribute. -/
  | childByAttribute
deriving DecidableEq, Inhabited

namespace Refusal

/-- The code of a refusal. -/
def code : Refusal → ErrorCode
  | foreignTarget => .upd0001
  | intoChildless => .xuty0005
  | besideNonChild => .xuty0006
  | besideRoot => .xudy0029
  | attributesIntoNonElement => .xuty0022
  | renamedNameless => .xuty0012
  | replacedFixed => .xuty0008
  | replacedRoot => .xudy0009
  | replacedValueless => .xuty0008
  | emptiedNonElement => .xuty0008
  | attributeAsChild => .xuty0004
  | documentTypeAsChild => .xpty0004
  | childAsAttribute => .xpty0004
  | attributeByChild => .xuty0011
  | childByAttribute => .xuty0010

/-- The wording of a refusal. -/
def message : Refusal → String
  | foreignTarget => "target is not a node of the host document"
  | intoChildless => "target must be an element or document node"
  | besideNonChild => "target must be an element, text, comment or processing instruction"
  | besideRoot => "target has no parent"
  | attributesIntoNonElement => "target must be an element"
  | renamedNameless => "target must be an element, attribute or processing instruction"
  | replacedFixed => "target cannot be replaced"
  | replacedRoot => "target has no parent"
  | replacedValueless => "target has no value to replace"
  | emptiedNonElement => "target must be an element"
  | attributeAsChild => "attribute nodes cannot be inserted as children"
  | documentTypeAsChild => "document-type nodes cannot be inserted"
  | childAsAttribute => "only attribute nodes are allowed"
  | attributeByChild => "an attribute can only be replaced by attributes"
  | childByAttribute => "a child node cannot be replaced by attributes"

end Refusal

/-- Why the primitives of one update list cannot be applied together.  Nodes are given as messages
show them. -/
inductive Conflict where
  /-- One node is renamed twice. -/
  | renamedTwice (node : String)
  /-- One node is replaced twice. -/
  | replacedTwice (node : String)
  /-- The value of one node is replaced twice. -/
  | valueReplacedTwice (node : String)
  /-- The content of one element is replaced twice. -/
  | contentReplacedTwice (node : String)
  /-- Two nodes are stored at one address. -/
  | storedTwice (uri : String)
  /-- One qualifier is bound to two namespaces on one element. -/
  | boundTwice (qualifier first second element : String)
deriving DecidableEq, Inhabited

namespace Conflict

/-- The code of a conflict. -/
def code : Conflict → ErrorCode
  | renamedTwice _ => .xudy0015
  | replacedTwice _ => .xudy0016
  | valueReplacedTwice _ => .xudy0017
  | contentReplacedTwice _ => .xudy0017
  | storedTwice _ => .xudy0031
  | boundTwice .. => .xudy0024

/-- The wording of a conflict. -/
def message : Conflict → String
  | renamedTwice node => s!"node {node} is the target of more than one rename"
  | replacedTwice node => s!"node {node} is the target of more than one replace node"
  | valueReplacedTwice node => s!"node {node} is the target of more than one replace value"
  | contentReplacedTwice node =>
    s!"node {node} is the target of more than one replace element content"
  | storedTwice uri => s!"more than one put to {uri}"
  | boundTwice qualifier first second element =>
    s!"prefix '{qualifier}' bound to both '{first}' and '{second}' on element {element}"

end Conflict

/-- The causes of failures. -/
inductive Error where
  /-- A call on a node that the document does not have. -/
  | foreignNode (id : NodeId)
  /-- A child for a node without a child list. -/
  | childlessParent
  /-- An attribute or a document as a child. -/
  | unsuitableChild
  /-- A node moved below itself. -/
  | ownSubtree
  /-- A position given by a node that is not a child of the parent. -/
  | foreignReference
  /-- A position given by a node that left the child list meanwhile. -/
  | vanishedReference
  /-- An attribute for a node that is no element. -/
  | attributelessOwner
  /-- A node that is no attribute, set as an attribute. -/
  | unsuitableAttribute
  /-- A name for a node of a kind without names. -/
  | namelessKind (kind : Kind)
  /-- A value for a node of a kind without values. -/
  | valuelessKind (kind : Kind)
  /-- A copy of a document type. -/
  | documentTypeCopy
  /-- A silhouette that does not fill the slot its pointer gives, asked for a sibling. -/
  | strayedSilhouette (id : SilhouetteId)
  /-- A silhouette that does not fill the slot its pointer gives, asked for its parent. -/
  | emptySlot (id : SilhouetteId) (slot : Slot) (parent : SilhouetteId)
  /-- Two nodes of one tree that no list of siblings shows. -/
  | unlistedSiblings
  /-- A grafted pointer without a parent. -/
  | parentlessGraft
  /-- A virtual tree with a real node at its top. -/
  | realTop
  /-- A slot that the built form of a virtual tree does not have. -/
  | unbuiltSlot (slot : Slot)
  /-- A primitive that cannot be prepared. -/
  | refused (kind : UpdateKind) (refusal : Refusal)
  /-- Primitives that cannot be applied together. -/
  | conflict (conflict : Conflict)
  /-- A target that lost its parent while its list was applied. -/
  | lostParent
  /-- An error while a list was applied. -/
  | failedMidway (cause : Error)
  /-- A variable that is not bound. -/
  | unbound (name : ExpandedName)
  /-- An expression still waiting after the given number of polls. -/
  | stalled (polls : Nat)
  /-- A copy source that is not exactly one node. -/
  | notOneNode (name : ExpandedName)
  /-- A node stored inside a modify clause. -/
  | storedInModify (uri : String)
  /-- An update inside a modify clause of a node that no copy clause created. -/
  | uncopiedTarget (kind : UpdateKind) (node : String)
  /-- A feature that does not exist. -/
  | notImplemented (feature : String)
  /-- An error with a code and a message of its own. -/
  | raised (code : ExpandedName) (message : String)
  /-- An error together with the error behind it. -/
  | because (error source : Error)
deriving DecidableEq, Inhabited

namespace Error

/-- An error with a standard code and a message of its own. -/
def ofCode (code : ErrorCode) (message : String) : Error := raised code.name message

/-- The expanded name of the code of an error. -/
def code : Error → ExpandedName
  | foreignNode _ | childlessParent | unsuitableChild | ownSubtree | foreignReference
  | vanishedReference | attributelessOwner | unsuitableAttribute | namelessKind _
  | valuelessKind _ => ErrorCode.host0000.name
  | documentTypeCopy => ErrorCode.xpty0004.name
  | strayedSilhouette _ | emptySlot .. | unlistedSiblings | parentlessGraft | realTop
  | unbuiltSlot _ | lostParent | failedMidway _ => ErrorCode.int0000.name
  | refused _ refusal => refusal.code.name
  | conflict c => c.code.name
  | unbound _ => ErrorCode.xpst0008.name
  | stalled _ => ErrorCode.eval0001.name
  | notOneNode _ => ErrorCode.xuty0013.name
  | storedInModify _ => ErrorCode.xudy0037.name
  | uncopiedTarget .. => ErrorCode.xudy0014.name
  | notImplemented _ => ErrorCode.nyi0000.name
  | raised code _ => code
  | because error _ => error.code

/-- The wording of an error. -/
def message : Error → String
  | foreignNode id => s!"node {id.index} does not belong to this document"
  | childlessParent => "only elements and documents accept children"
  | unsuitableChild => "attributes and documents cannot be inserted as children"
  | ownSubtree => "cannot insert a node into its own subtree"
  | foreignReference => "reference node is not a child of the parent"
  | vanishedReference => "reference node vanished during insert"
  | attributelessOwner => "attributes can only be set on elements"
  | unsuitableAttribute => "set_attribute expects an attribute node"
  | namelessKind kind => s!"cannot rename a {kind.written} node"
  | valuelessKind kind => s!"cannot set the value of a {kind.written} node"
  | documentTypeCopy => "document-type nodes are not part of the data model and cannot be copied"
  | strayedSilhouette id => s!"silhouette {id.index} is not reachable through its graft point"
  | emptySlot id slot parent =>
    s!"silhouette {id.index} does not occupy slot {slot.written} of silhouette {parent.index}"
  | unlistedSiblings => "nodes are not in the same tree"
  | parentlessGraft => "graft point without a parent"
  | realTop => "virtual tree rooted at a real node"
  | unbuiltSlot slot => s!"materialized tree has no node at {slot.written}"
  | refused kind refusal => s!"{kind.written}: {refusal.message}"
  | conflict c => c.message
  | lostParent => "update target lost its parent during apply"
  | failedMidway cause => s!"pending update list failed midway: {cause.message}"
  | unbound name => s!"variable ${name.written} is not bound"
  | stalled polls => s!"cursor still pending after {polls} polls"
  | notOneNode name => s!"source of ${name.written} must be exactly one node"
  | storedInModify uri => s!"put to {uri} inside a modify clause"
  | uncopiedTarget kind node =>
    s!"{kind.written} targets {node} which was not created by the copy clause"
  | notImplemented feature => s!"not implemented: {feature}"
  | raised _ message => message
  | because error _ => error.message

/-- The error behind an error, if there is one. -/
def source? : Error → Option Error
  | failedMidway cause => some cause
  | because _ source => some source
  | _ => none

/-- The standard code of an error. -/
def standardCode (e : Error) : ErrorCode := ErrorCode.ofName e.code

/-- An inconsistency of the pointers themselves ends an evaluation; any other error may be handled. -/
def isFatal (e : Error) : Bool := e.standardCode = .int0000

/-- The code as messages show it: `err:` and the local part for a standard code, else the name. -/
def writtenCode (e : Error) : String :=
  if e.code.namespaceUri = some errorNamespace then "err:" ++ e.code.localPart else e.code.written

/-- The whole error in one line. -/
def written (e : Error) : String := s!"error: {e.message} ({e.writtenCode})"

/-- The errors behind an error, the nearest first. -/
def sources : Error → List Error
  | failedMidway cause => cause :: cause.sources
  | because _ source => source :: source.sources
  | _ => []

end Error

end VirtualTree
