import VirtualTree.Tree.Basic

/-!
# Markup

The written form of a tree.  An element without children is one empty tag, and otherwise a start tag,
the written children and an end tag.  Character data escape the ampersand and the angle brackets;
attribute values also escape the double quote.
-/

namespace VirtualTree

/-- A character as character data write it. -/
def escapeText (c : Char) : List Char :=
  match c with
  | '&' => "&amp;".toList
  | '<' => "&lt;".toList
  | '>' => "&gt;".toList
  | c => [c]

/-- A character as attribute values write it. -/
def escapeValue (c : Char) : List Char :=
  if c = '"' then "&quot;".toList else escapeText c

/-- The written form of an attribute. -/
def attributeMarkup (name : Name) (value : String) : List Char :=
  name.written.toList ++ '=' :: '"' :: value.toList.flatMap escapeValue ++ ['"']

/-- The written form of a processing instruction. -/
def instructionMarkup (target data : String) : List Char :=
  "<?".toList ++ target.toList ++ (if data = "" then [] else ' ' :: data.toList) ++ "?>".toList

namespace Tree

mutual

/-- The written form of a tree. -/
def markup : Tree → List Char
  | .node label attributes children =>
    match label with
    | .document => markupAll children
    | .documentType name => "<!DOCTYPE ".toList ++ name.toList ++ ['>']
    | .element name =>
      let opening := '<' :: name.written.toList ++ attributesMarkup attributes
      if children.isEmpty then opening ++ ['/', '>']
      else opening ++ '>' :: markupAll children ++ '<' :: '/' :: name.written.toList ++ ['>']
    | .attribute name value => attributeMarkup name value
    | .text data => data.toList.flatMap escapeText
    | .comment data => "<!--".toList ++ data.toList ++ "-->".toList
    | .processingInstruction target data => instructionMarkup target data

/-- The written forms of trees, one after the other. -/
def markupAll : List Tree → List Char
  | [] => []
  | t :: ts => t.markup ++ markupAll ts

/-- The written forms of the attributes of an element, each after a space. -/
def attributesMarkup : List Tree → List Char
  | [] => []
  | t :: ts => ' ' :: t.markup ++ attributesMarkup ts

end

/-- The written form of a tree as text. -/
def toXml (t : Tree) : String := String.ofList t.markup

end Tree

end VirtualTree
