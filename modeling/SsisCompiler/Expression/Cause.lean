import SsisCompiler.Expression.Token

/-!
# Why an expression is refused
-/

namespace SsisCompiler.Expression

/-- Why an expression cannot be compiled. -/
inductive Cause
  | unterminatedVariable
  | namelessVariable
  | unterminatedString
  | invalidNumber (literal : String)
  | unterminatedCast
  | unexpectedChar (c : Char)
  | emptyExpression
  /-- A token behind a complete expression. -/
  | trailing (token : Token)
  | missingOperator (before : Token)
  | emptyOperand
  | endsWithOperator
  /-- No operand begins here; there may be no token at all. -/
  | noOperand (found : Option Token)
  | expectedClose (found : Option Token)
  | expectedCommaOrClose (found : Option Token)
  | unknownWord (word : String)
  | packageWithoutId
  | systemVariable (name : String)
  | cast (type : String)
  | arity (function : String) (expected given : Nat)
  | datePart (function part : String)
  | function (name : String)
  deriving DecidableEq, Repr

/-- A cause in words. -/
def Cause.message : Cause → String
  | .unterminatedVariable => "unterminated variable reference"
  | .namelessVariable => "'@' without a variable name"
  | .unterminatedString => "unterminated string literal"
  | .invalidNumber literal => "invalid numeric literal '" ++ literal ++ "'"
  | .unterminatedCast => "unterminated cast"
  | .unexpectedChar c => "unexpected character '" ++ String.singleton c ++ "'"
  | .emptyExpression => "empty expression"
  | .trailing token => "unexpected " ++ token.shown
  | .missingOperator token => "missing operator before " ++ token.shown
  | .emptyOperand => "empty operand"
  | .endsWithOperator => "expression ends with an operator"
  | .noOperand found => "unexpected " ++ Token.shownOption found
  | .expectedClose found => "expected ')', found " ++ Token.shownOption found
  | .expectedCommaOrClose found => "expected ',' or ')', found " ++ Token.shownOption found
  | .unknownWord word => "unknown identifier '" ++ word ++ "'"
  | .packageWithoutId => "package has no DTSID"
  | .systemVariable name => "system variable '" ++ name ++ "' has no equivalent"
  | .cast type => "cast to " ++ type ++ " has no equivalent"
  | .arity name expected given =>
    name ++ " expects " ++ toString expected ++ " argument(s), got " ++ toString given
  | .datePart name part => name ++ " part '" ++ part ++ "' has no equivalent"
  | .function name => "function " ++ name ++ " has no equivalent"

end SsisCompiler.Expression
