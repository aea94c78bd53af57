import SsisCompiler.Markup.Name
import SsisCompiler.Text.Basic

/-!
# Reading a document from left to right

A place is a row and a column, both counted from one. A line feed starts the next row; every other
character moves one column on. A cursor is what is left to read of a document together with the place
reached.
-/

namespace SsisCompiler.Markup

open Text (breakOn)

/-! ## Places -/

/-- A row and a column of a document. -/
structure Position where
  row : Nat
  column : Nat
  deriving DecidableEq, Repr, Inhabited

namespace Position

/-- The first place of a document. -/
def start : Position := ⟨1, 1⟩

/-- The place behind a character. -/
def next (place : Position) (c : Char) : Position :=
  if c == '\n' then ⟨place.row + 1, 1⟩ else ⟨place.row, place.column + 1⟩

/-- The place behind a run of characters. -/
def after (place : Position) (cs : List Char) : Position :=
  cs.foldl next place

theorem after_append (place : Position) (cs ds : List Char) :
    place.after (cs ++ ds) = (place.after cs).after ds := by
  simp [after]

end Position

/-! ## Cursors -/

/-- What is left of a document, and the place it starts at. -/
structure Cursor where
  rest : List Char
  place : Position
  deriving DecidableEq, Repr, Inhabited

namespace Cursor

/-- Steps over a given text if it stands next. -/
def skip? (text : List Char) (c : Cursor) : Option Cursor :=
  if text.isPrefixOf c.rest then some ⟨c.rest.drop text.length, c.place.after text⟩ else none

/-- Steps over the longest run of characters of a class. -/
def span (p : Char → Bool) (c : Cursor) : List Char × Cursor :=
  let taken := c.rest.takeWhile p
  (taken, ⟨c.rest.dropWhile p, c.place.after taken⟩)

/-- Steps over space. -/
def skipSpace (c : Cursor) : Cursor :=
  (c.span isSpace).2

/-- Whether space stands next. -/
def atSpace (c : Cursor) : Bool :=
  match c.rest with
  | [] => false
  | d :: _ => isSpace d

/-- Steps over the text up to and including a given end, which must occur. The text before the end is
returned; all of it may stand in a document. -/
def upTo? (stop : List Char) (c : Cursor) : Option (List Char × Cursor) :=
  match breakOn stop c.rest with
  | none => none
  | some (text, rest) =>
    if text.all isDocumentChar then some (text, ⟨rest, c.place.after (text ++ stop)⟩) else none

/-- Reads a qualified name. -/
def qualifiedName? (c : Cursor) : Option (QualifiedName × Cursor) :=
  let (text, c) := c.span isNameChar
  (QualifiedName.ofChars? text).map (·, c)

end Cursor

end SsisCompiler.Markup
