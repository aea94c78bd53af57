import SsisCompiler.Markup.CharacterData
import SsisCompiler.Markup.Cursor

/-!
# Tokens of a markup document

A document is a sequence of tags, text, character data sections, comments and processing
instructions. Reading stops with `none` at the first thing that is none of these.
-/

namespace SsisCompiler.Markup

/-- An attribute as it stands in a tag. -/
structure WrittenAttribute where
  name : QualifiedName
  value : String
  deriving DecidableEq, Repr, Inhabited

/-- A start tag as it stands in the document. -/
structure WrittenTag where
  name : QualifiedName
  attributes : List WrittenAttribute
  place : Position
  deriving DecidableEq, Repr, Inhabited

/-- A token of a document. -/
inductive Token
  /-- A start tag; `empty` says that it closes itself. -/
  | start (tag : WrittenTag) (empty : Bool)
  | finish (name : QualifiedName)
  /-- Running text, whose references are replaced but whose line ends are as written. -/
  | text (pieces : List Piece)
  /-- A character data section, whose text holds no references. -/
  | data (s : String)
  | comment (place : Position)
  | instruction (place : Position)
  deriving DecidableEq, Repr

/-! ## Tags -/

/-- Reads `name = "value"`, with either quote and without `<` in the value. The value is as written. -/
def assignment? (c : Cursor) : Option (QualifiedName × List Char × Cursor) := do
  let (name, c) ← c.qualifiedName?
  let c ← c.skipSpace.skip? ['=']
  let c := c.skipSpace
  let quote ← match c.rest with
    | '"' :: _ => some '"'
    | '\'' :: _ => some '\''
    | _ => none
  let c ← c.skip? [quote]
  let (text, c) ← c.upTo? [quote]
  if text.contains '<' then none else some (name, text, c)

/-- Reads an attribute. -/
def attribute? (c : Cursor) : Option (WrittenAttribute × Cursor) := do
  let (name, text, c) ← assignment? c
  let ps ← pieces? text
  some (⟨name, String.ofList (attributeValue ps)⟩, c)

/-- Reads the rest of a start tag behind its name: attributes, each after space, and the end of the
tag. There are at most as many attributes as the first argument says. -/
def tagRest? : Nat → Cursor → Option (List WrittenAttribute × Bool × Cursor)
  | 0, _ => none
  | limit + 1, c =>
    let inner := c.skipSpace
    match inner.skip? ['/', '>'] with
    | some c => some ([], true, c)
    | none =>
      match inner.skip? ['>'] with
      | some c => some ([], false, c)
      | none =>
        if c.atSpace then
          match attribute? inner with
          | none => none
          | some (first, c) =>
            match tagRest? limit c with
            | none => none
            | some (attributes, empty, c) => some (first :: attributes, empty, c)
        else none

/-- Reads a start tag, the cursor being on its `<`. -/
def startTag? (c : Cursor) : Option (Token × Cursor) := do
  let (name, inner) ← (← c.skip? ['<']).qualifiedName?
  let (attributes, empty, c') ← tagRest? (inner.rest.length + 1) inner
  some (.start ⟨name, attributes, c.place⟩ empty, c')

/-- Reads an end tag. -/
def endTag? (c : Cursor) : Option (Token × Cursor) := do
  let (name, c) ← (← c.skip? ['<', '/']).qualifiedName?
  let c ← c.skipSpace.skip? ['>']
  some (.finish name, c)

/-! ## Other constructs -/

/-- Whether a comment's text is well formed: no two hyphens in a row and none at its end. -/
def isCommentText (text : List Char) : Bool :=
  (Text.breakOn ['-', '-'] text).isNone && text.getLast? != some '-'

/-- Reads a comment. -/
def comment? (c : Cursor) : Option (Token × Cursor) := do
  let (text, c') ← (← c.skip? "<!--".toList).upTo? "-->".toList
  if isCommentText text then some (.comment c.place, c') else none

/-- Reads a character data section. -/
def data? (c : Cursor) : Option (Token × Cursor) := do
  let (text, c) ← (← c.skip? "<![CDATA[".toList).upTo? "]]>".toList
  some (.data (String.ofList (runningText (text.map .literal))), c)

/-- Reads a processing instruction, which starts with a name and is not a declaration. -/
def instruction? (c : Cursor) : Option (Token × Cursor) := do
  if "<?xml ".toList.isPrefixOf c.rest then none
  else
    let inner ← c.skip? ['<', '?']
    let (name, inner) := inner.span isNameChar
    if startsName name then
      let (_, c') ← inner.upTo? ['?', '>']
      some (.instruction c.place, c')
    else none

/-- Reads running text up to the next `<` or the end of the document. -/
def text? (c : Cursor) : Option (Token × Cursor) :=
  let (text, c) := c.span (· != '<')
  if text.all isDocumentChar && (Text.breakOn "]]>".toList text).isNone then
    (pieces? text).map fun ps => (.text ps, c)
  else none

/-- Reads the token that stands next. -/
def token? (c : Cursor) : Option (Token × Cursor) :=
  match c.rest with
  | '<' :: '!' :: '-' :: _ => comment? c
  | '<' :: '!' :: _ => data? c
  | '<' :: '?' :: _ => instruction? c
  | '<' :: '/' :: _ => endTag? c
  | '<' :: _ => startTag? c
  | _ => text? c

/-! ## Documents -/

/-- Reads tokens to the end of the document, at most as many as the first argument says. -/
def tokens? : Nat → Cursor → Option (List Token)
  | 0, c => if c.rest.isEmpty then some [] else none
  | limit + 1, c =>
    if c.rest.isEmpty then some []
    else
      match token? c with
      | none => none
      | some (token, c) =>
        match tokens? limit c with
        | none => none
        | some rest => some (token :: rest)

/-- Steps over the space between two parts of a declaration, which only its end may do without. -/
def declarationSpace? (c : Cursor) : Option Cursor :=
  if c.atSpace then some c.skipSpace
  else if ['?', '>'].isPrefixOf c.rest then some c
  else none

/-- Steps over a part of a declaration if one whose name begins with the given text stands next. -/
def declarationPart? (name : List Char) (c : Cursor) : Option Cursor :=
  if name.isPrefixOf c.rest then
    match assignment? c with
    | some (_, _, c) => declarationSpace? c
    | none => none
  else some c

/-- Steps over a declaration at the start of a document: a version, then an encoding and a
standalone mark if there are any. -/
def declaration? (c : Cursor) : Option Cursor := do
  let c ← declarationSpace? (← c.skip? "<?xml".toList)
  if "version".toList.isPrefixOf c.rest then
    let c ← declarationPart? "version".toList c
    let c ← declarationPart? "encoding".toList c
    let c ←
      if "standalone".toList.isPrefixOf c.rest then (assignment? c).map (·.2.2) else some c
    c.skipSpace.skip? ['?', '>']
  else none

/-- The tokens of a document. A byte order mark and a declaration may stand in front of them. -/
def tokensOf? (text : String) : Option (List Token) := do
  let start : Cursor := ⟨text.toList, .start⟩
  let start := (start.skip? ['\ufeff']).getD start
  let start ← if "<?xml ".toList.isPrefixOf start.rest then declaration? start else some start
  tokens? start.rest.length start

end SsisCompiler.Markup
