import SsisCompiler.Markup.Document
import SsisCompiler.Package.Tree
import SsisCompiler.Text.Basic

/-!
# From a document to a package tree

Every element becomes a node, except property markers: elements of two special tags, which put a named
value into the node around them. Nodes are numbered in the order of their start tags. What has no place
in the tree is skipped with a warning: comments, processing instructions, and markers without a name.
-/

namespace SsisCompiler.Package

open Markup (Attribute Content Element Position Scope StartTag)

/-! ## Options -/

/-- Which piece of text an element keeps when it has several. -/
inductive Precedence
  | first
  | last
  deriving DecidableEq, Repr, Inhabited

/-- A word that names no precedence. -/
structure UnknownPrecedence where
  word : String
  deriving DecidableEq, Repr

/-- What is wrong with a word that names no precedence. -/
def UnknownPrecedence.message (e : UnknownPrecedence) : String :=
  "unknown content precedence '" ++ e.word ++ "'"

/-- Reads a precedence in any letter case. -/
def Precedence.ofText (s : String) : Except UnknownPrecedence Precedence :=
  match Text.lower s with
  | "first" => .ok .first
  | "last" => .ok .last
  | word => .error ⟨word⟩

/-- The tags and names that are special in a package. -/
structure Options where
  /-- The tag of a marker with a fixed value. -/
  propertyTag : String := "DTS:Property"
  /-- The tag of a marker with an expression. -/
  expressionTag : String := "DTS:PropertyExpression"
  /-- The attribute that names a marker's property, in any letter case. -/
  propertyNameAttribute : String := "DTS:Name"
  /-- The property that is a node's name. -/
  nameProperty : String := "ObjectName"
  /-- The attribute that is a node's name if no property is. -/
  nameAttribute : String := "DTS:ObjectName"
  precedence : Precedence := .last
  deriving DecidableEq, Repr, Inhabited

/-! ## Warnings -/

/-- What is skipped in a document. -/
inductive Skipped
  | comment
  | instruction
  | unnamedMarker (tag : String)
  deriving DecidableEq, Repr

/-- What a warning says was skipped. -/
def Skipped.message : Skipped → String
  | .comment => "comment"
  | .instruction => "processing instruction"
  | .unnamedMarker tag => tag ++ " without a name attribute"

/-- A part of a document that was skipped, and where. -/
structure Warning where
  /-- The kind of the node around it. -/
  parentKind : String
  skipped : Skipped
  place : Position
  deriving DecidableEq, Repr

/-- A warning in words. -/
def Warning.message (w : Warning) : String :=
  toString w.place.row ++ ":" ++ toString w.place.column ++ ": unrecognized node under "
    ++ w.parentKind ++ ": " ++ w.skipped.message

/-! ## Names of elements and attributes -/

/-- The kind of node that a tag makes: the tag as written up to the first blank. -/
def kindOfTag (tag : StartTag) : String :=
  match tag.written.toList.takeWhile (!Text.isBlank ·) with
  | [] => tag.localName
  | cs => String.ofList cs

/-- Whether a name and a wanted name have the same meaning: the local parts are the same, and the
prefix of the wanted name stands for the namespace of the name. A wanted name without a prefix is in
no namespace. -/
def sameExpandedName (same : String → String → Bool) (scope : Scope) (uri : Option String)
    (localName wanted : String) : Bool :=
  match Text.splitOnce ":" wanted with
  | some (before, wantedLocal) =>
    same localName wantedLocal && uri.isSome && scope.find? (some before) == uri
  | none => same localName wanted && uri.isNone

/-- Whether a tag is the wanted one, as written or by another prefix of the same namespace. -/
def isTag (wanted : String) (tag : StartTag) : Bool :=
  kindOfTag tag == wanted
    || sameExpandedName (· == ·) tag.scope tag.namespaceUri tag.localName wanted

/-- Whether an attribute of a tag is the wanted one, in any letter case. -/
def isAttribute (wanted : String) (tag : StartTag) (a : Attribute) : Bool :=
  Text.equalIgnoringCase a.written wanted
    || sameExpandedName Text.equalIgnoringCase tag.scope a.namespaceUri a.localName wanted

/-- Whether a tag is a marker with an expression. -/
def Options.isExpression (o : Options) (tag : StartTag) : Bool :=
  isTag o.expressionTag tag

/-- Whether a tag is a marker. -/
def Options.isMarker (o : Options) (tag : StartTag) : Bool :=
  isTag o.propertyTag tag || o.isExpression tag

/-- The name of the property that a marker sets. -/
def Options.markerName? (o : Options) (tag : StartTag) : Option String :=
  (tag.attributes.find? (isAttribute o.propertyNameAttribute tag)).map (·.value)

/-! ## Nodes -/

/-- A node after one more piece of text; blank text does not count. -/
def Node.addText (o : Options) (s : String) (node : Node) : Node :=
  if Text.isAllBlank s then node
  else
    match o.precedence, node.content with
    | .first, some _ => node
    | _, _ => { node with content := some s }

/-- A node after one more marker. The last marker of a name gives its value, and says whether it is an
expression; the first marker of the name property names the node. -/
def Node.addMarker (o : Options) (tag : StartTag) (body : Content StartTag) (node : Node) : Node :=
  match o.markerName? tag with
  | none => node
  | some name =>
    let value := body.allText
    { node with
      name := if name == o.nameProperty && node.name.isNone then some value else node.name
      expressions :=
        if o.isExpression tag then addName name node.expressions
        else removeName name node.expressions
      properties := node.properties.insert name value }

/-- A node after the text and the markers of a chain. -/
def Node.addContent (o : Options) (node : Node) : Content StartTag → Node
  | .done => node
  | .text s rest => (node.addText o s).addContent o rest
  | .comment _ rest => node.addContent o rest
  | .instruction _ rest => node.addContent o rest
  | .element tag body rest =>
    if o.isMarker tag then (node.addMarker o tag body).addContent o rest
    else node.addContent o rest

/-- A node with a name of last resort: an attribute. -/
def Node.nameByAttribute (o : Options) (node : Node) : Node :=
  match node.name with
  | some _ => node
  | none => { node with name := node.attributes.get? o.nameAttribute }

/-- The node of an element, apart from the nodes below it. -/
def Node.ofElement (o : Options) (tag : StartTag) (body : Content StartTag) : Node :=
  let fields := tag.attributes.map fun a => (a.written, a.value)
  (Node.addContent o { kind := kindOfTag tag, attributes := fields } body).nameByAttribute o

/-! ## Trees -/

/-- The nodes of a chain inside the node `parent`, numbered from `next` on. -/
def entriesOf (o : Options) (parent next : NodeId) : Content StartTag → List Entry
  | .done => []
  | .text _ rest => entriesOf o parent next rest
  | .comment _ rest => entriesOf o parent next rest
  | .instruction _ rest => entriesOf o parent next rest
  | .element tag body rest =>
    if o.isMarker tag then entriesOf o parent next rest
    else
      let inner := entriesOf o next (next + 1) body
      ⟨parent, Node.ofElement o tag body⟩ :: inner
        ++ entriesOf o parent (next + 1 + inner.length) rest

/-- The warnings of a chain inside a node of the given kind, in the order of their places. -/
def warningsOf (o : Options) (kind : String) : Content StartTag → List Warning
  | .done => []
  | .text _ rest => warningsOf o kind rest
  | .comment place rest => ⟨kind, .comment, place⟩ :: warningsOf o kind rest
  | .instruction place rest => ⟨kind, .instruction, place⟩ :: warningsOf o kind rest
  | .element tag body rest =>
    if o.isMarker tag then
      match o.markerName? tag with
      | some _ => warningsOf o kind rest
      | none => ⟨kind, .unnamedMarker (kindOfTag tag), tag.place⟩ :: warningsOf o kind rest
    else warningsOf o (kindOfTag tag) body ++ warningsOf o kind rest

/-- A package tree, and what was skipped in making it. -/
structure Reading where
  tree : Tree
  warnings : List Warning
  deriving DecidableEq, Repr

/-- The package of an element and what is inside it. -/
def Reading.ofElement (o : Options) (e : Element) : Reading where
  tree := ⟨Node.ofElement o e.tag e.body, (entriesOf o 0 1 e.body).toArray⟩
  warnings := warningsOf o (kindOfTag e.tag) e.body

/-- The package of a document, unless the document is malformed. -/
def Reading.ofText? (o : Options) (text : String) : Option Reading :=
  (Element.ofText? text).map (Reading.ofElement o)

end SsisCompiler.Package
