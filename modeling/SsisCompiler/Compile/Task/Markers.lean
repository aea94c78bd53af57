/-!
# Parameter markers

A statement whose parameters are numbered marks each with a question mark. The markers are renamed
`@p0`, `@p1` and so on, in order. A question mark inside a literal, a quoted name or a comment is no
marker.
-/

namespace SsisCompiler.Compile

/-- What part of a statement a character lies in. -/
inductive Region
  | plain
  /-- Up to and including a character that ends it. -/
  | upTo (close : Char)
  /-- A block comment; the last character read of it. -/
  | block (last : Char)
  deriving DecidableEq, Repr

/-- The region behind a character in plain text, given what follows the character. -/
def Region.after (c : Char) (rest : List Char) : Region :=
  match c with
  | '\'' => .upTo '\''
  | '"' => .upTo '"'
  | '[' => .upTo ']'
  | '-' => if rest.head? == some '-' then .upTo '\n' else .plain
  | _ => .plain

/-- A statement with its markers renamed, the first one to the given number. The numbers have no bound. A
signed counter of 32 bits goes through the same ones for the first 2 ^ 31 markers. -/
def renameFrom : Region → Nat → List Char → List Char
  | _, _, [] => []
  | .plain, n, '?' :: cs => '@' :: 'p' :: (toString n).toList ++ renameFrom .plain (n + 1) cs
  | .plain, n, '/' :: '*' :: cs => '/' :: '*' :: renameFrom (.block '\x00') n cs
  | .plain, n, c :: cs => c :: renameFrom (.after c cs) n cs
  | .upTo close, n, c :: cs =>
    c :: renameFrom (if c == close then .plain else .upTo close) n cs
  | .block last, n, c :: cs =>
    c :: renameFrom (if last == '*' && c == '/' then .plain else .block c) n cs

/-- A statement with its markers renamed. -/
def renameMarkers (statement : String) : String :=
  String.ofList (renameFrom .plain 0 statement.toList)

end SsisCompiler.Compile
