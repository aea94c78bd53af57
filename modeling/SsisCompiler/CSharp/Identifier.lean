import SsisCompiler.Text.Basic

/-!
# C# identifiers

How a name of a package becomes an identifier of a program. Only ASCII letters, digits and underscores
are used; a keyword is marked with `@` where it names a variable.
-/

namespace SsisCompiler.CSharp

/-- The keywords of the language, which no plain identifier may be. -/
def keywords : List String := [
  "abstract", "as", "base", "bool", "break", "byte", "case", "catch", "char", "checked", "class",
  "const", "continue", "decimal", "default", "delegate", "do", "double", "else", "enum", "event",
  "explicit", "extern", "false", "finally", "fixed", "float", "for", "foreach", "goto", "if",
  "implicit", "in", "int", "interface", "internal", "is", "lock", "long", "namespace", "new", "null",
  "object", "operator", "out", "override", "params", "private", "protected", "public", "readonly",
  "ref", "return", "sbyte", "sealed", "short", "sizeof", "stackalloc", "static", "string", "struct",
  "switch", "this", "throw", "true", "try", "typeof", "uint", "ulong", "unchecked", "unsafe",
  "ushort", "using", "virtual", "void", "volatile", "while"]

/-- The members that every program has of itself. -/
def fixedMembers : List String := ["Main"]

/-- Whether a character may stand in an identifier. -/
def isIdentChar (c : Char) : Bool :=
  c.isAlphanum || c == '_'

/-- Whether a character may begin an identifier. -/
def isIdentStart (c : Char) : Bool :=
  c.isAlpha || c == '_'

/-- A character as it stands in an identifier. -/
def identChar (c : Char) : Char :=
  if isIdentChar c then c else '_'

/-- The characters of an identifier made from a trimmed name. A leading digit gets an underscore
before it. -/
def identChars : List Char → List Char
  | [] => "_empty".toList
  | c :: cs => if c.isDigit then '_' :: c :: cs.map identChar else (c :: cs).map identChar

/-- An identifier made from any text: blanks at the ends are dropped, and what may not stand in an
identifier becomes an underscore. -/
def sanitize (s : String) : String :=
  String.ofList (identChars (Text.trimWhile Text.isBlank s.toList))

/-- The identifier of a variable. A keyword is marked as a name, and a name that the program has of
itself is set apart. -/
def variableIdent (s : String) : String :=
  let ident := sanitize s
  if keywords.contains ident then "@" ++ ident
  else if fixedMembers.contains ident then ident ++ "_"
  else ident

end SsisCompiler.CSharp
