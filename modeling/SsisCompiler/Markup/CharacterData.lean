import SsisCompiler.Markup.Name
import SsisCompiler.Text.Decimal

/-!
# Character data

How the written text of a document becomes the text it stands for: references are replaced by the
characters they name, and line ends are made uniform.

In an attribute value every line end and tab becomes a space. In running text a carriage return, with
the line feed behind it if there is one, becomes a line feed. A referenced character keeps its value,
and so does the one character right behind it; a return right before a reference is kept too.
-/

namespace SsisCompiler.Markup

open Text (digitsValue isDigits)

/-! ## References -/

/-- One character of text: written as itself, or named by a reference. -/
inductive Piece
  | literal (c : Char)
  | referred (c : Char)
  deriving DecidableEq, Repr

/-- Whether a character is a hexadecimal digit. -/
def isHexDigit (c : Char) : Bool :=
  c.isDigit || ('a' ≤ c && c ≤ 'f') || ('A' ≤ c && c ≤ 'F')

/-- The value of a hexadecimal digit. -/
def hexDigitValue (c : Char) : Nat :=
  if c.isDigit then c.toNat - '0'.toNat else c.toLower.toNat - 'a'.toNat + 10

/-- The character of a code point given by number. A number that is no code point stands for the
replacement character; a number of more than 32 bits, or one whose character a document may not hold,
stands for none. -/
def charOfNumber? (n : Nat) : Option Char :=
  if Nat.pow 2 32 ≤ n then none
  else
    let c := if h : n.isValidChar then Char.ofNatAux n h else '\ufffd'
    if isDocumentChar c then some c else none

/-- The character that a reference names, given what stands between its ampersand and semicolon. -/
def referredChar? : List Char → Option Char
  | '#' :: 'x' :: digits =>
    if !digits.isEmpty && digits.all isHexDigit then
      charOfNumber? (digits.foldl (fun n c => 16 * n + hexDigitValue c) 0)
    else none
  | '#' :: digits => if isDigits digits then charOfNumber? (digitsValue digits) else none
  | name =>
    match String.ofList name with
    | "quot" => some '"'
    | "amp" => some '&'
    | "apos" => some '\''
    | "lt" => some '<'
    | "gt" => some '>'
    | _ => none

/-- The pieces of a written text. The first argument holds what was read of a reference, last
character first, while inside one. -/
def piecesFrom : Option (List Char) → List Char → Option (List Piece)
  | none, [] => some []
  | some _, [] => none
  | none, c :: cs =>
    if c == '&' then piecesFrom (some []) cs
    else (piecesFrom none cs).map (.literal c :: ·)
  | some name, c :: cs =>
    if c == ';' then
      match referredChar? name.reverse with
      | some r => (piecesFrom none cs).map (.referred r :: ·)
      | none => none
    else piecesFrom (some (c :: name)) cs

/-- The pieces of a written text, unless one of its references is malformed. -/
def pieces? (cs : List Char) : Option (List Piece) :=
  piecesFrom none cs

/-! ## Attribute values -/

/-- The value of an attribute: line ends and tabs become spaces, a return before a line feed
disappears. -/
def attributeValue : List Piece → List Char
  | [] => []
  | .literal '\r' :: .literal '\n' :: ps => ' ' :: attributeValue ps
  | .literal c :: ps =>
    (if c == '\r' || c == '\n' || c == '\t' then ' ' else c) :: attributeValue ps
  | .referred c :: ps => c :: attributeValue ps

/-! ## Running text -/

/-- Running text with uniform line ends. `verbatim` says that the last piece was a reference, so that
the next one keeps its value; `returned` says that a carriage return was read and not yet written. -/
def settle (verbatim returned : Bool) : List Piece → List Char
  | [] => if returned then ['\r'] else []
  | .referred c :: ps =>
    let tail := if c == '\r' then settle true true ps else c :: settle true false ps
    if returned then '\r' :: tail else tail
  | .literal c :: ps =>
    if verbatim then
      let tail := if c == '\r' then settle false true ps else c :: settle false false ps
      if returned then '\r' :: tail else tail
    else
      let tail :=
        if c == '\r' then
          if ps.isEmpty then ['\n'] else settle false true ps
        else if c == '\n' && returned then settle false false ps
        else c :: settle false false ps
      if returned then '\n' :: tail else tail

/-- The text that running text stands for. -/
def runningText (ps : List Piece) : List Char :=
  settle false false ps

end SsisCompiler.Markup
