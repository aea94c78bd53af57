/-!
# JSON values and their text

The values that a package is shown as, and two ways to write them: on one line, or with one element
to a line and two spaces for each level of depth.
-/

namespace SsisCompiler

/-- A JSON value; the only numbers needed are counts and indices. -/
inductive Json
  | null
  | number (n : Nat)
  | text (s : String)
  | array (items : List Json)
  | object (members : List (String × Json))
  deriving Repr

namespace Json

/-- An object whose members stand in the order of their keys. -/
def sortedObject (members : List (String × Json)) : Json :=
  .object (members.mergeSort fun a b => decide (a.1 ≤ b.1))

/-- A text, or null in place of none. -/
def ofOption (s : Option String) : Json :=
  match s with
  | some s => .text s
  | none => .null

/-! ## Text between quotes -/

/-- A control character without a short escape, written by its code point. -/
def codeEscape (c : Char) : List Char :=
  let digits := Nat.toDigits 16 c.toNat
  "\\u".toList ++ List.replicate (4 - digits.length) '0' ++ digits

/-- A character as it stands between quotes. -/
def quotedChar (c : Char) : List Char :=
  match c with
  | '"' => ['\\', '"']
  | '\\' => ['\\', '\\']
  | '\x08' => ['\\', 'b']
  | '\x0c' => ['\\', 'f']
  | '\n' => ['\\', 'n']
  | '\r' => ['\\', 'r']
  | '\t' => ['\\', 't']
  | c => if c.toNat < 0x20 then codeEscape c else [c]

/-- A text between quotes. -/
def quotedText (s : String) : String :=
  String.ofList ('"' :: s.toList.flatMap quotedChar ++ ['"'])

/-! ## One line -/

mutual

/-- A value on one line, without spaces. -/
def compact : Json → String
  | .null => "null"
  | .number n => toString n
  | .text s => quotedText s
  | .array items => "[" ++ ",".intercalate (compactItems items) ++ "]"
  | .object members => "\x7b" ++ ",".intercalate (compactMembers members) ++ "\x7d"

/-- The elements of an array on one line. -/
def compactItems : List Json → List String
  | [] => []
  | item :: items => item.compact :: compactItems items

/-- The members of an object on one line. -/
def compactMembers : List (String × Json) → List String
  | [] => []
  | (key, value) :: members => (quotedText key ++ ":" ++ value.compact) :: compactMembers members

end

/-! ## One element to a line -/

/-- The start of a line at a depth. -/
def margin (depth : Nat) : String :=
  String.ofList (List.replicate (2 * depth) ' ')

/-- A bracketed list, each element on a line of its own one level deeper; nothing stands between the
brackets of an empty list. -/
def block (opening closing : String) (depth : Nat) (items : List String) : String :=
  if items.isEmpty then opening ++ closing
  else
    opening ++ "\n" ++ ",\n".intercalate (items.map (margin (depth + 1) ++ ·)) ++ "\n"
      ++ margin depth ++ closing

mutual

/-- A value that starts at a depth, with one element to a line. -/
def prettyAt (depth : Nat) : Json → String
  | .null => "null"
  | .number n => toString n
  | .text s => quotedText s
  | .array items => block "[" "]" depth (prettyItems (depth + 1) items)
  | .object members => block "\x7b" "\x7d" depth (prettyMembers (depth + 1) members)

/-- The elements of an array, each starting at a depth. -/
def prettyItems (depth : Nat) : List Json → List String
  | [] => []
  | item :: items => item.prettyAt depth :: prettyItems depth items

/-- The members of an object, each starting at a depth. -/
def prettyMembers (depth : Nat) : List (String × Json) → List String
  | [] => []
  | (key, value) :: members =>
    (quotedText key ++ ": " ++ value.prettyAt depth) :: prettyMembers depth members

end

/-- A value with one element to a line. -/
def pretty (value : Json) : String :=
  value.prettyAt 0

end Json

end SsisCompiler
