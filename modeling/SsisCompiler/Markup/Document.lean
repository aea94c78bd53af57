import SsisCompiler.Markup.Token

/-!
# Documents

The element tree of a document. The content of an element is a chain: each link is a piece of text, a
comment, an instruction or an element with content of its own, followed by the rest of the chain. So
every function on content is plain recursion.

Reading goes from the tokens, last one first, to a chain of written tags, and then from the root
inwards to tags with resolved namespaces.
-/

namespace SsisCompiler.Markup

/-- What stands between the tags of an element, over some type of start tags. -/
inductive Content (τ : Type)
  | done
  | text (s : String) (rest : Content τ)
  | comment (place : Position) (rest : Content τ)
  | instruction (place : Position) (rest : Content τ)
  | element (tag : τ) (body : Content τ) (rest : Content τ)
  deriving DecidableEq, Repr

/-- An attribute with its namespace. -/
structure Attribute where
  /-- The name as it stands in the document. -/
  written : String
  localName : String
  /-- The namespace; an attribute without a prefix has none. -/
  namespaceUri : Option String
  value : String
  deriving DecidableEq, Repr, Inhabited

/-- Namespace declarations, the nearest first; the default namespace is declared for no prefix. -/
abbrev Scope := List (Option String × String)

/-- A start tag with its namespace. -/
structure StartTag where
  /-- The name as it stands in the document. -/
  written : String
  localName : String
  namespaceUri : Option String
  attributes : List Attribute
  /-- The declarations that hold inside the element. -/
  scope : Scope
  place : Position
  deriving DecidableEq, Repr, Inhabited

/-- An element of a document. -/
structure Element where
  tag : StartTag
  body : Content StartTag
  deriving DecidableEq, Repr

/-! ## Nesting -/

/-- Puts text in front of a chain; adjacent text becomes one piece. -/
def Content.addText {τ : Type} (s : String) : Content τ → Content τ
  | .text t rest => .text (s ++ t) rest
  | content => .text s content

/-- An element whose end was read but whose start was not: its name and the content so far. -/
structure Unopened where
  name : QualifiedName
  body : Content WrittenTag

/-- Whether an end tag may close a start tag: the prefixes and the local names are the same. -/
def QualifiedName.closes (finish start : QualifiedName) : Bool :=
  finish.before == start.before && finish.localName == start.localName

/-- Builds the chain of a list of tokens, last token first. The state is the chain at the outermost
level read so far inside which the unopened elements stand, the innermost first. -/
def nest? : List Token → Option (List Unopened × Content WrittenTag)
  | [] => some ([], .done)
  | token :: tokens =>
    match nest? tokens with
    | none => none
    | some (outer, content) =>
      match token, outer with
      | .text ps, _ => some (outer, content.addText (String.ofList (runningText ps)))
      | .data s, _ => some (outer, content.addText s)
      | .comment place, _ => some (outer, .comment place content)
      | .instruction place, _ => some (outer, .instruction place content)
      | .finish name, _ => some (⟨name, content⟩ :: outer, .done)
      | .start tag true, _ => some (outer, .element tag .done content)
      | .start tag false, unopened :: outer =>
        if unopened.name.closes tag.name then
          some (outer, .element tag content unopened.body)
        else none
      | .start _ false, [] => none

/-! ## Namespaces -/

/-- The namespace that only the prefix `xml` may have. -/
def xmlNamespace : String := "http://www.w3.org/XML/1998/namespace"

/-- The namespace that may not be declared. -/
def declarationNamespace : String := "http://www.w3.org/2000/xmlns/"

/-- The namespace that a prefix, or its absence, stands for. -/
def Scope.find? (scope : Scope) (before : Option String) : Option String :=
  (List.find? (fun declared => declared.1 == before) scope).map (·.2)

/-- Whether an attribute is a namespace declaration. -/
def WrittenAttribute.isDeclaration (a : WrittenAttribute) : Bool :=
  a.name.before == "xmlns" || a.name.localName == "xmlns"

/-- The declarations of a tag, in order, unless one of them is not allowed: a prefix is declared once,
the reserved namespaces keep to their own prefixes. -/
def declarations? (known : Scope) : List WrittenAttribute → Option Scope
  | [] => some known
  | a :: rest =>
    if a.name.before == "xmlns" then
      if a.value == declarationNamespace then none
      else if (a.name.localName == "xml") != (a.value == xmlNamespace) then none
      else if known.any (·.1 == some a.name.localName) then none
      else if a.value == xmlNamespace then declarations? known rest
      else declarations? (known ++ [(some a.name.localName, a.value)]) rest
    else if a.name.localName == "xmlns" then
      if a.value == xmlNamespace || a.value == declarationNamespace then none
      else declarations? (known ++ [(none, a.value)]) rest
    else declarations? known rest

/-- An attribute with its namespace, unless its prefix is not declared. -/
def WrittenAttribute.resolve? (scope : Scope) (a : WrittenAttribute) : Option Attribute :=
  if a.name.before == "xml" then
    some ⟨a.name.written, a.name.localName, some xmlNamespace, a.value⟩
  else if a.name.before.isEmpty then
    some ⟨a.name.written, a.name.localName, none, a.value⟩
  else
    (scope.find? (some a.name.before)).map fun uri =>
      ⟨a.name.written, a.name.localName, some uri, a.value⟩

/-- Whether no two attributes have the same local name and the same namespace. -/
def distinctNames : List Attribute → Bool
  | [] => true
  | a :: rest =>
    rest.all (fun b => b.localName != a.localName || b.namespaceUri != a.namespaceUri)
      && distinctNames rest

/-- A start tag with its namespace, given the declarations around it. -/
def WrittenTag.resolve? (outer : Scope) (tag : WrittenTag) : Option StartTag := do
  let declared ← declarations? [] tag.attributes
  let scope := declared ++ outer
  let attributes ← (tag.attributes.filter (!·.isDeclaration)).mapM (·.resolve? scope)
  let name := tag.name
  let uri ←
    if name.before.isEmpty then some (scope.find? none)
    else if name.before == "xmlns" then none
    else (scope.find? (some name.before)).map some
  if distinctNames attributes then
    some ⟨name.written, name.localName, uri, attributes, scope, tag.place⟩
  else none

/-- A chain with resolved namespaces, given the declarations around it. -/
def Content.resolve? (outer : Scope) : Content WrittenTag → Option (Content StartTag)
  | .done => some .done
  | .text s rest => (rest.resolve? outer).map (.text s)
  | .comment place rest => (rest.resolve? outer).map (.comment place)
  | .instruction place rest => (rest.resolve? outer).map (.instruction place)
  | .element tag body rest =>
    match tag.resolve? outer with
    | none => none
    | some resolved =>
      match body.resolve? resolved.scope with
      | none => none
      | some inner => (rest.resolve? outer).map (.element resolved inner)

/-! ## Reading -/

/-- Whether a piece of text is space as written; a reference to space is none. -/
def Piece.isSpace : Piece → Bool
  | .literal c => Markup.isSpace c
  | .referred _ => false

/-- Whether a token may stand before or after the root element. -/
def Token.isOutside : Token → Bool
  | .text ps => ps.all Piece.isSpace
  | .comment _ => true
  | .instruction _ => true
  | _ => false

/-- The tokens of the root element: those between what may stand around it. -/
def rootTokens (tokens : List Token) : List Token :=
  ((tokens.dropWhile (·.isOutside)).reverse.dropWhile (·.isOutside)).reverse

/-- The root element of a document, unless the document is malformed. -/
def Element.ofText? (text : String) : Option Element := do
  let tokens ← tokensOf? text
  match ← nest? (rootTokens tokens) with
  | ([], content@(.element _ _ .done)) =>
    match ← content.resolve? [] with
    | .element tag body .done => some ⟨tag, body⟩
    | _ => none
  | _ => none

/-! ## Views -/

/-- The elements of a chain, each before the elements inside it. -/
def Content.elements : Content StartTag → List Element
  | .done => []
  | .text _ rest => rest.elements
  | .comment _ rest => rest.elements
  | .instruction _ rest => rest.elements
  | .element tag body rest => ⟨tag, body⟩ :: (body.elements ++ rest.elements)

/-- All text of a chain, at every depth. -/
def Content.allText {τ : Type} : Content τ → String
  | .done => ""
  | .text s rest => s ++ rest.allText
  | .comment _ rest => rest.allText
  | .instruction _ rest => rest.allText
  | .element _ body rest => body.allText ++ rest.allText

/-- An element and the elements inside it, in the order of their start tags. -/
def Element.elements (e : Element) : List Element :=
  e :: e.body.elements

end SsisCompiler.Markup
