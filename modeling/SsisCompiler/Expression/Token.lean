import SsisCompiler.Text.Quoted

/-!
# Tokens of an expression

An expression of a package is a row of tokens: variables, literals, words, casts, operators and
punctuation. Error messages show tokens in a fixed form.
-/

namespace SsisCompiler.Expression

/-- The operators. -/
inductive Operator
  | equal
  | notEqual
  | lessEqual
  | greaterEqual
  | and
  | or
  | plus
  | minus
  | times
  | divide
  | modulo
  | less
  | greater
  | not
  | question
  | colon
  | bitAnd
  | bitOr
  | bitXor
  | complement
  | assign
  deriving DecidableEq, Repr

namespace Operator

/-- All operators; one whose symbol begins another's comes after it. -/
def all : List Operator := [
  .equal, .notEqual, .lessEqual, .greaterEqual, .and, .or, .plus, .minus, .times, .divide, .modulo,
  .less, .greater, .not, .question, .colon, .bitAnd, .bitOr, .bitXor, .complement, .assign]

/-- How an operator is written, in an expression as in a program. -/
def symbol : Operator → String
  | .equal => "=="
  | .notEqual => "!="
  | .lessEqual => "<="
  | .greaterEqual => ">="
  | .and => "&&"
  | .or => "||"
  | .plus => "+"
  | .minus => "-"
  | .times => "*"
  | .divide => "/"
  | .modulo => "%"
  | .less => "<"
  | .greater => ">"
  | .not => "!"
  | .question => "?"
  | .colon => ":"
  | .bitAnd => "&"
  | .bitOr => "|"
  | .bitXor => "^"
  | .complement => "~"
  | .assign => "="

/-- Whether an operator may stand before its only operand. -/
def isUnary : Operator → Bool
  | .minus | .not | .complement => true
  | _ => false

end Operator

/-- A token of an expression. -/
inductive Token
  /-- A variable, with what stands before its name. -/
  | variable (scope : Option String) (name : String)
  /-- A string literal with its quotes, as written. -/
  | string (literal : String)
  /-- A numeral as written. -/
  | number (literal : String)
  | word (text : String)
  /-- A cast to a type. -/
  | cast (type : String)
  | operator (op : Operator)
  | openParen
  | closeParen
  | comma
  deriving DecidableEq, Repr

namespace Token

/-- A named constructor with one quoted text. -/
def shownText (name text : String) : String :=
  name ++ "(" ++ Text.quoted text ++ ")"

/-- A token as messages show it. -/
def shown : Token → String
  | .variable scope name =>
    let scopeText := match scope with
      | some s => shownText "Some" s
      | none => "None"
    "Var \x7b namespace: " ++ scopeText ++ ", name: " ++ Text.quoted name ++ " \x7d"
  | .string literal => shownText "Str" literal
  | .number literal => shownText "Num" literal
  | .word text => shownText "Ident" text
  | .cast type => shownText "Cast" type
  | .operator op => shownText "Op" op.symbol
  | .openParen => "LParen"
  | .closeParen => "RParen"
  | .comma => "Comma"

/-- A token that may be missing, as messages show it. -/
def shownOption : Option Token → String
  | some token => "Some(" ++ token.shown ++ ")"
  | none => "None"

end Token

end SsisCompiler.Expression
