import SsisCompiler.Expression.Cause
import SsisCompiler.Text.Alphanumeric
import SsisCompiler.Text.Basic

/-!
# From text to tokens

Each token is read together with its length in characters. Scanning goes through the text once: it
reads a token where none is under way, and steps over the characters that the last token covers.
-/

namespace SsisCompiler.Expression

open Text (isBlank)

/-- Whether a character may stand in a word or in a bare variable name. -/
def isWordChar (c : Char) : Bool :=
  Text.isAlphabetic c || Text.isNumeric c || c == '_'

/-- Whether a character may begin a word. -/
def isWordStart (c : Char) : Bool :=
  Text.isAlphabetic c || c == '_'

/-! ## Variables -/

/-- The variable that a reference names: the name may have a scope before a double colon. -/
def variableToken (reference : List Char) : Token :=
  match Text.splitOnce "::" (String.ofList reference) with
  | some (scope, name) => .variable (some (Text.trim scope)) (Text.trim name)
  | none => .variable none (Text.trim (String.ofList reference))

/-- Reads what stands behind `@`: a reference in brackets, or a bare name. The length includes the
`@`. -/
def readVariable : List Char → Except Cause (Token × Nat)
  | '[' :: cs =>
    let reference := cs.takeWhile (· != ']')
    if reference.length == cs.length then .error .unterminatedVariable
    else .ok (variableToken reference, reference.length + 3)
  | cs =>
    let name := cs.takeWhile isWordChar
    if name.isEmpty then .error .namelessVariable
    else .ok (variableToken name, name.length + 1)

/-! ## Literals -/

/-- The length of a string literal behind its opening quote, the closing quote included. A backslash
covers the character behind it. -/
def stringLength? : List Char → Option Nat
  | [] => none
  | ['\\'] => none
  | '\\' :: _ :: cs => (stringLength? cs).map (· + 2)
  | c :: cs => if c == '"' then some 1 else (stringLength? cs).map (· + 1)

/-- Reads a string literal behind its opening quote. The length includes the quote. -/
def readString (cs : List Char) : Except Cause (Token × Nat) :=
  match stringLength? cs with
  | some n => .ok (.string (String.ofList ('"' :: cs.take n)), n + 1)
  | none => .error .unterminatedString

/-- Whether a character is an exponent mark. -/
def isExponentMark (c : Char) : Bool :=
  c == 'e' || c == 'E'

/-- Whether a character is a sign. -/
def isSign (c : Char) : Bool :=
  c == '+' || c == '-'

/-- The characters of a numeral behind its first: letters, digits and points, and a sign right behind
an exponent mark. The first argument is the character before. -/
def numeralRest (before : Char) : List Char → List Char
  | [] => []
  | c :: cs =>
    if c.isAlphanum || c == '.' || (isSign c && isExponentMark before) then
      c :: numeralRest c cs
    else []

/-- Whether a character may end a numeral as its suffix. -/
def isNumeralSuffix (c : Char) : Bool :=
  c == 'L' || c == 'l' || c == 'U' || c == 'u' || c == 'F' || c == 'f'

/-- Whether all characters of a numeral are digits, points, exponent marks, and signs behind exponent
marks. The first argument is the character before, if there is one. -/
def isNumeralBody : Option Char → List Char → Bool
  | _, [] => true
  | before, c :: cs =>
    (c.isDigit || c == '.' || isExponentMark c || (isSign c && before.any isExponentMark))
      && isNumeralBody (some c) cs

/-- Whether a text is a numeral: a body of the right characters that ends neither in an exponent mark
nor in a sign, and any number of suffixes. -/
def isNumeral (cs : List Char) : Bool :=
  let body := Text.dropEndWhile isNumeralSuffix cs
  !body.isEmpty && isNumeralBody none body
    && !(body.getLast?.any fun c => isExponentMark c || isSign c)

/-- Reads a numeral that begins with the given character. -/
def readNumber (c : Char) (cs : List Char) : Except Cause (Token × Nat) :=
  let literal := c :: numeralRest c cs
  if isNumeral literal then .ok (.number (String.ofList literal), literal.length)
  else .error (.invalidNumber (String.ofList literal))

/-! ## Casts and operators -/

/-- Whether a text begins as the name of a data type does. -/
def startsType (cs : List Char) : Bool :=
  Text.equalIgnoringCase (String.ofList (cs.take 3)) "DT_"

/-- The type that a cast names, given what stands between its parentheses: up to the first comma. -/
def castType (cs : List Char) : String :=
  Text.upper (Text.trim (String.ofList (cs.takeWhile (· != ','))))

/-- Reads what begins with a parenthesis, given what stands behind it. -/
def readParen (cs : List Char) : Except Cause (Token × Nat) :=
  let blanks := cs.takeWhile isBlank
  let inner := cs.dropWhile isBlank
  if startsType inner then
    let type := inner.takeWhile (· != ')')
    if type.length == inner.length then .error .unterminatedCast
    else .ok (.cast (castType type), blanks.length + type.length + 2)
  else .ok (.openParen, 1)

/-- Reads an operator: the first one whose symbol stands next. -/
def readOperator (c : Char) (cs : List Char) : Except Cause (Token × Nat) :=
  match Operator.all.find? fun op => op.symbol.toList.isPrefixOf (c :: cs) with
  | some op => .ok (.operator op, op.symbol.length)
  | none => .error (.unexpectedChar c)

/-! ## Scanning -/

/-- Whether a digit stands next. -/
def startsDigit : List Char → Bool
  | [] => false
  | c :: _ => c.isDigit

/-- Reads the token that begins with a character that is not blank. -/
def readToken (c : Char) (cs : List Char) : Except Cause (Token × Nat) :=
  if c == '@' then readVariable cs
  else if c == '"' then readString cs
  else if c.isDigit || (c == '.' && startsDigit cs) then readNumber c cs
  else if isWordStart c then
    let word := c :: cs.takeWhile isWordChar
    .ok (.word (String.ofList word), word.length)
  else if c == '(' then readParen cs
  else if c == ')' then .ok (.closeParen, 1)
  else if c == ',' then .ok (.comma, 1)
  else readOperator c cs

/-- The tokens of a text; the first argument says how many characters the last token still covers. -/
def scanFrom : Nat → List Char → Except Cause (List Token)
  | _, [] => .ok []
  | covered + 1, _ :: cs => scanFrom covered cs
  | 0, c :: cs =>
    if isBlank c then scanFrom 0 cs
    else
      match readToken c cs with
      | .error e => .error e
      | .ok (token, length) =>
        match scanFrom (length - 1) cs with
        | .error e => .error e
        | .ok tokens => .ok (token :: tokens)

/-- The tokens of a text. -/
def scan (text : String) : Except Cause (List Token) :=
  scanFrom 0 text.toList

end SsisCompiler.Expression
