import SsisCompiler.Text.Basic

/-!
# Characters and names of a markup document

Which characters a document may hold, which of them are space, and which make up names. A qualified
name is a local name with an optional prefix before a colon. The prefix may be empty: then a colon
is written, but the name has no prefix.
-/

namespace SsisCompiler.Markup

open Text (inRanges split)

/-- Whether a character may stand in a document at all. -/
def isDocumentChar (c : Char) : Bool :=
  if c.toNat < 0x20 then c == '\t' || c == '\n' || c == '\r'
  else c.toNat != 0xFFFE && c.toNat != 0xFFFF

/-- Whether a character is space between the parts of a document. -/
def isSpace (c : Char) : Bool :=
  c == ' ' || c == '\t' || c == '\n' || c == '\r'

/-- The code points that may begin a name, the colon apart. -/
def nameStartRanges : List (Nat × Nat) := [
  (0x41, 0x5A), (0x5F, 0x5F), (0x61, 0x7A), (0xC0, 0xD6), (0xD8, 0xF6), (0xF8, 0x2FF),
  (0x370, 0x37D), (0x37F, 0x1FFF), (0x200C, 0x200D), (0x2070, 0x218F), (0x2C00, 0x2FEF),
  (0x3001, 0xD7FF), (0xF900, 0xFDCF), (0xFDF0, 0xFFFD), (0x10000, 0xEFFFF)]

/-- The code points that may go on with a name but not begin it. -/
def nameOnlyRanges : List (Nat × Nat) := [
  (0x2D, 0x2E), (0x30, 0x39), (0xB7, 0xB7), (0x300, 0x36F), (0x203F, 0x2040)]

/-- Whether a character may begin a name. -/
def isNameStart (c : Char) : Bool :=
  c == ':' || inRanges c.toNat nameStartRanges

/-- Whether a character may stand in a name. -/
def isNameChar (c : Char) : Bool :=
  isNameStart c || inRanges c.toNat nameOnlyRanges

/-- A name with an optional prefix, as written. -/
structure QualifiedName where
  /-- The name as it stands in the document. -/
  written : String
  /-- What stands before the colon; empty without a colon. -/
  before : String
  /-- What stands after the colon. -/
  localName : String
  deriving DecidableEq, Repr, Inhabited

/-- Whether a part of a qualified name begins as a name does. -/
def startsName : List Char → Bool
  | [] => false
  | c :: _ => isNameStart c

/-- Reads a run of name characters as a qualified name: at most one colon, a local part that begins a
name, and a prefix that is empty or begins a name. -/
def QualifiedName.ofChars? (cs : List Char) : Option QualifiedName :=
  match split (· == ':') cs with
  | [whole] =>
    if startsName whole then some ⟨String.ofList cs, "", String.ofList whole⟩ else none
  | [before, whole] =>
    if (before.isEmpty || startsName before) && startsName whole then
      some ⟨String.ofList cs, String.ofList before, String.ofList whole⟩
    else none
  | _ => none

end SsisCompiler.Markup
