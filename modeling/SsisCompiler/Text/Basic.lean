/-!
# Texts

Classes of characters, and how a text is trimmed, split into words and lines, and searched.

A class of characters is a list of closed ranges of code points in ascending order. Blank is the Unicode
property White_Space. Trimming removes blanks at both ends; the words of a text are its longest runs of
characters that are not blank.

A line ends with a line feed, and one carriage return right before the line feed belongs to the end.
A carriage return anywhere else is part of its line. After a final line feed no empty line follows.

Case is folded for the letters a to z only; every other character stands for itself.
-/

namespace SsisCompiler.Text

/-! ## Classes of characters -/

/-- Whether a code point lies in one of the ranges, which ascend: the search ends at the first range
that starts above it. -/
def inRanges (n : Nat) : List (Nat × Nat) → Bool
  | [] => false
  | (low, high) :: rest => low ≤ n && (n ≤ high || inRanges n rest)

/-- Whether a character has the property White_Space. -/
def isBlank (c : Char) : Bool :=
  let n := c.toNat
  (0x09 ≤ n && n ≤ 0x0D) || n == 0x20 || n == 0x85 || n == 0xA0 || n == 0x1680
    || (0x2000 ≤ n && n ≤ 0x200A) || n == 0x2028 || n == 0x2029 || n == 0x202F || n == 0x205F
    || n == 0x3000

/-! ## Trimming -/

/-- Drops the characters of a class from the end. -/
def dropEndWhile (p : Char → Bool) (cs : List Char) : List Char :=
  (cs.reverse.dropWhile p).reverse

/-- Drops the characters of a class from both ends. -/
def trimWhile (p : Char → Bool) (cs : List Char) : List Char :=
  dropEndWhile p (cs.dropWhile p)

/-- A text without the blanks at its ends. -/
def trim (s : String) : String :=
  String.ofList (trimWhile isBlank s.toList)

/-- Whether a text holds nothing but blanks. -/
def isAllBlank (s : String) : Bool :=
  s.toList.all isBlank

/-! ## Splitting -/

/-- The pieces between the characters of a class; each such character ends a piece. -/
def split (p : Char → Bool) : List Char → List (List Char)
  | [] => [[]]
  | c :: cs =>
    if p c then [] :: split p cs
    else
      match split p cs with
      | [] => [[c]]
      | piece :: rest => (c :: piece) :: rest

theorem split_ne_nil (p : Char → Bool) (cs : List Char) : split p cs ≠ [] := by
  cases cs with
  | nil => simp [split]
  | cons c cs =>
    simp only [split]
    split
    · simp
    · split <;> simp

/-- The words of a text, in order. -/
def words (s : String) : List String :=
  ((split isBlank s.toList).filter (fun word => !word.isEmpty)).map String.ofList

/-- A text on one line: its words with a single space between them. -/
def oneLine (s : String) : String :=
  " ".intercalate (words s)

/-! ## Lines -/

/-- A line without the carriage return at its end, if it has one. -/
def dropFinalReturn (line : List Char) : List Char :=
  match line.getLast? with
  | some '\r' => line.dropLast
  | _ => line

/-- The lines, given the pieces between line feeds: the last piece has no line feed behind it. -/
def linesOfPieces : List (List Char) → List (List Char)
  | [] => []
  | [last] => if last.isEmpty then [] else [last]
  | piece :: next :: rest => dropFinalReturn piece :: linesOfPieces (next :: rest)

/-- The lines of a text. -/
def lines (s : String) : List String :=
  (linesOfPieces (split (· == '\n') s.toList)).map String.ofList

/-! ## Searching -/

/-- What stands before and after the first occurrence of a piece. -/
def breakOn (piece : List Char) : List Char → Option (List Char × List Char)
  | [] => if piece.isEmpty then some ([], []) else none
  | c :: cs =>
    if piece.isPrefixOf (c :: cs) then some ([], (c :: cs).drop piece.length)
    else (breakOn piece cs).map fun (before, after) => (c :: before, after)

/-- Whether a piece occurs somewhere in a text. -/
def holds (piece text : String) : Bool :=
  (breakOn piece.toList text.toList).isSome

/-- The text split at the first occurrence of a piece. -/
def splitOnce (piece text : String) : Option (String × String) :=
  (breakOn piece.toList text.toList).map fun (before, after) =>
    (String.ofList before, String.ofList after)

/-- The part of a text after the last occurrence of a character; the whole text without one. -/
def afterLast (c : Char) (s : String) : String :=
  String.ofList (s.toList.reverse.takeWhile (· != c)).reverse

/-- The part of a text after the last occurrence of a piece; the whole text without one. -/
def afterLastPiece (piece : List Char) (cs : List Char) : List Char :=
  match breakOn piece.reverse cs.reverse with
  | some (after, _) => after.reverse
  | none => cs

/-- The text with every occurrence of a character replaced by a text. -/
def replaceChar (c : Char) (replacement : String) (s : String) : String :=
  String.ofList (s.toList.flatMap fun d => if d == c then replacement.toList else [d])

/-! ## Letter case -/

/-- The text with its ASCII letters in lower case. -/
def lower (s : String) : String :=
  String.ofList (s.toList.map Char.toLower)

/-- The text with its ASCII letters in upper case. -/
def upper (s : String) : String :=
  String.ofList (s.toList.map Char.toUpper)

/-- Whether two texts differ at most in the case of ASCII letters. -/
def equalIgnoringCase (s t : String) : Bool :=
  lower s == lower t

end SsisCompiler.Text
