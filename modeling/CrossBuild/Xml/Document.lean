/-
The tree of a document.

Tags have to match, there is one outermost element, and prefixes of names have to be declared by an
element around them. Adjacent text and sections are one node; remarks separate them. Elements are
known by their local names, and their namespaces are checked but not kept.
-/

import CrossBuild.Xml.Token

namespace CrossBuild.Xml

structure Attribute where
  namespaceName : Option String
  name : String
  value : String
  deriving DecidableEq, Inhabited

inductive Node where
  | element (name : String) (attributes : List Attribute) (children : List Node)
  | text (content : String)
  | remark
  deriving Inhabited

namespace Node

def children : Node → List Node
  | .element _ _ children => children
  | _ => []

def isNamed (node : Node) (name : String) : Bool :=
  match node with
  | .element own _ _ => own = name
  | _ => false

/-- The first child element of a name. -/
def child? (node : Node) (name : String) : Option Node :=
  node.children.find? fun child => child.isNamed name

/-- The text an element begins with. -/
def text? (node : Node) : Option String :=
  match node.children with
  | .text content :: _ => some content
  | _ => none

/-- The value of an attribute without a namespace. -/
def attribute? (node : Node) (name : String) : Option String :=
  match node with
  | .element _ attributes _ =>
      (attributes.find? fun item =>
        item.namespaceName.isNone && item.name = name).map Attribute.value
  | _ => none

end Node

/-- Prefixes with their namespaces, the nearest declaration first. The empty prefix stands for the
default. -/
abbrev Scope := List (String × String)

def xmlNamespace : String := "http://www.w3.org/XML/1998/namespace"

def declarationNamespace : String := "http://www.w3.org/2000/xmlns/"

/-- What the attributes of a tag say: declarations, and attributes proper. -/
structure TagContent where
  declared : Scope
  attributes : List (QualifiedName × String)

/-- Sort one attribute in. The namespaces of the standard have fixed prefixes, and no prefix is
declared twice. -/
def TagContent.add? (content : TagContent) (name : QualifiedName) (value : String) :
    Option TagContent :=
  if name.namePrefix = "xmlns" then
    if value = declarationNamespace then none
    else if name.localName = "xml" && value ≠ xmlNamespace then none
    else if name.localName ≠ "xml" && value = xmlNamespace then none
    else if content.declared.any fun other => other.1 = name.localName then none
    else if value = xmlNamespace then some content
    else some { content with declared := content.declared ++ [(name.localName, value)] }
  else if name.localName = "xmlns" then
    if value = xmlNamespace || value = declarationNamespace then none
    else some { content with declared := content.declared ++ [("", value)] }
  else some { content with attributes := content.attributes ++ [(name, value)] }

def tagContent? (attributes : List (QualifiedName × String)) : Option TagContent :=
  attributes.foldlM (fun content item => content.add? item.1 item.2) ⟨[], []⟩

/-- The namespace of an attribute, if its prefix is known. -/
def attributeNamespace? (scope : Scope) (namePrefix : String) : Option (Option String) :=
  if namePrefix = "xml" then some (some xmlNamespace)
  else if namePrefix.isEmpty then some none
  else (scope.lookup namePrefix).map some

/-- Resolve the attributes of a tag; no two may have the same name in the same namespace. -/
def resolveAttributes? (scope : Scope) (attributes : List (QualifiedName × String)) :
    Option (List Attribute) :=
  attributes.foldlM (fun resolved item =>
    match attributeNamespace? scope item.1.namePrefix with
    | none => none
    | some namespaceName =>
        if resolved.any fun other : Attribute =>
            other.namespaceName = namespaceName && other.name = item.1.localName then none
        else some (resolved ++ [⟨namespaceName, item.1.localName, item.2⟩])) []

/-- An element whose end has not come yet. Its children are kept last one first. -/
structure OpenElement where
  name : QualifiedName
  attributes : List Attribute
  scope : Scope
  children : List Node

def OpenElement.close (element : OpenElement) : Node :=
  .element element.name.localName element.attributes element.children.reverse

def OpenElement.addNode (element : OpenElement) (node : Node) : OpenElement :=
  { element with children := node :: element.children }

/-- Add text, to the text before it where there is one. -/
def OpenElement.addText (element : OpenElement) (content : List Char) : OpenElement :=
  match element.children with
  | .text before :: earlier =>
      { element with children := .text (before ++ String.ofList content) :: earlier }
  | _ => element.addNode (.text (String.ofList content))

/-- The element of a start tag inside the given scope. -/
def openElement? (scope : Scope) (name : QualifiedName)
    (attributes : List (QualifiedName × String)) : Option OpenElement :=
  if name.namePrefix = "xmlns" then none
  else match tagContent? attributes with
    | none => none
    | some content =>
        let inner := content.declared ++ scope
        match resolveAttributes? inner content.attributes with
        | none => none
        | some resolved =>
            if name.namePrefix.isEmpty || (inner.lookup name.namePrefix).isSome then
              some { name, attributes := resolved, scope := inner, children := [] }
            else none

/-- A finished element goes to its parent, or becomes the outermost one. -/
def attach (node : Node) (root : Option Node) :
    List OpenElement → Option Node × List OpenElement
  | [] => (some node, [])
  | parent :: outer => (root, parent.addNode node :: outer)

/-- Build the tree. `root` is the outermost element once it is finished, and the list holds the open
elements, innermost first. -/
def buildTree? (root : Option Node) (opened : List OpenElement) : List Token → Option Node
  | [] => if opened.isEmpty then root else none
  | .remark :: rest =>
      match opened with
      | [] => buildTree? root [] rest
      | inner :: outer => buildTree? root (inner.addNode .remark :: outer) rest
  | .text raw :: rest =>
      match opened with
      | [] => if raw.all isSpace then buildTree? root [] rest else none
      | inner :: outer =>
          match textContent? raw with
          | some content => buildTree? root (inner.addText content :: outer) rest
          | none => none
  | .verbatim content :: rest =>
      match opened with
      | [] => none
      | inner :: outer => buildTree? root (inner.addText content :: outer) rest
  | .startTag name attributes isEmpty :: rest =>
      if opened.isEmpty && root.isSome then none
      else
        let scope := match opened with
          | [] => []
          | inner :: _ => inner.scope
        match openElement? scope name attributes with
        | none => none
        | some element =>
            if isEmpty then
              let attached := attach element.close root opened
              buildTree? attached.1 attached.2 rest
            else buildTree? root (element :: opened) rest
  | .endTag name :: rest =>
      match opened with
      | [] => none
      | inner :: outer =>
          if inner.name = name then
            let attached := attach inner.close root outer
            buildTree? attached.1 attached.2 rest
          else none

/-- The outermost element of a document. -/
def read? (text : String) : Option Node :=
  match tokens? text.toList with
  | some tokens => buildTree? none [] tokens
  | none => none

end CrossBuild.Xml
