import SsisCompiler.CSharp.Identifier
import SsisCompiler.CSharp.Line
import SsisCompiler.Expression.Function
import SsisCompiler.Expression.Lexer
import SsisCompiler.Package.Tree

/-!
# From an expression to code

The grammar of expressions. A sequence is operands with an operator between any two; an operand is a
literal, a variable, a word, a call, a sequence in parentheses, or an operand behind a unary operator
or a cast. Code is made while reading, so the first fault from the left is the one that counts.
-/

namespace SsisCompiler.Expression

open Package (NodeId Tree)

/-! ## Variables -/

/-- What an expression sees of the place where it stands. -/
structure Surroundings where
  /-- The name of the package. -/
  packageName : String
  packageId : Option String
  /-- The name of the task that the expression belongs to. -/
  taskName : String
  deriving DecidableEq, Repr, Inhabited

/-- What an expression at a node sees: the package is the node reached last by going from parent to
parent. -/
def Surroundings.ofNode (t : Tree) (id : NodeId) : Surroundings :=
  let package := t.node ((t.ancestors id).getLast?.getD id)
  { packageName := package.name.getD ""
    packageId := package.lookup "DTSID"
    taskName := (t.node id).name.getD "" }

/-- The code of a variable of the system. -/
def Surroundings.systemVariable (s : Surroundings) (name : String) : Except Cause String :=
  match name with
  | "StartTime" => .ok "DateTime.Now"
  | "ContainerStartTime" => .ok "DateTime.Now"
  | "MachineName" => .ok "Environment.MachineName"
  | "UserName" => .ok "Environment.UserName"
  | "PackageName" => .ok (CSharp.verbatim s.packageName)
  | "PackageID" =>
    match s.packageId with
    | some id => .ok (CSharp.verbatim id)
    | none => .error .packageWithoutId
  | "TaskName" => .ok (CSharp.verbatim s.taskName)
  | _ => .error (.systemVariable name)

/-- Whether a variable's scope is the system's. -/
def isSystemScope (scope : Option String) : Bool :=
  match scope with
  | some scope => Text.equalIgnoringCase scope "System"
  | none => false

/-- The code of a variable. -/
def Surroundings.variableCode (s : Surroundings) (scope : Option String) (name : String) :
    Except Cause String :=
  if isSystemScope scope then s.systemVariable name else .ok (CSharp.variableIdent name)

/-! ## The grammar -/

/-- Whether a sequence ends here: at a comma, at a closing parenthesis, or with the tokens. -/
def atEnd : List Token → Bool
  | [] => true
  | .comma :: _ => true
  | .closeParen :: _ => true
  | _ => false

/-- Code and the tokens that follow it. -/
abbrev Parsed := Except Cause (String × List Token)

mutual

/-- Reads an operand. The first argument bounds the depth of the reading; four for each token are
enough. -/
def operand (s : Surroundings) : Nat → List Token → Parsed
  | 0, _ => .error (.noOperand none)
  | _ + 1, [] => .error (.noOperand none)
  | depth + 1, token :: ts =>
    match token with
    | .variable scope name =>
      match s.variableCode scope name with
      | .error e => .error e
      | .ok code => .ok (code, ts)
    | .string literal => .ok (literal, ts)
    | .number literal => .ok (literal, ts)
    | .operator op =>
      if op.isUnary then
        match operand s depth ts with
        | .error e => .error e
        | .ok (code, ts) => .ok (op.symbol ++ code, ts)
      else .error (.noOperand (some (.operator op)))
    | .openParen =>
      match sequence s depth ts with
      | .error e => .error e
      | .ok (code, .closeParen :: ts) => .ok (paren code, ts)
      | .ok (_, ts) => .error (.expectedClose ts.head?)
    | .cast type =>
      match operand s depth ts with
      | .error e => .error e
      | .ok (code, ts) =>
        match castCode type code with
        | .error e => .error e
        | .ok code => .ok (code, ts)
    | .word text =>
      match Text.upper text, ts with
      | "TRUE", _ => .ok ("true", ts)
      | "FALSE", _ => .ok ("false", ts)
      | "NULL", .cast _ :: ts => .ok ("null", ts)
      | name, .openParen :: ts =>
        match arguments s depth ts with
        | .error e => .error e
        | .ok (args, ts) =>
          match functionCode name args with
          | .error e => .error e
          | .ok code => .ok (code, ts)
      | _, _ => .error (.unknownWord text)
    | .closeParen => .error (.noOperand (some .closeParen))
    | .comma => .error (.noOperand (some .comma))

/-- Reads a sequence: an operand and what follows it. -/
def sequence (s : Surroundings) : Nat → List Token → Parsed
  | 0, _ => .error .emptyOperand
  | depth + 1, ts =>
    if atEnd ts then .error .emptyOperand
    else
      match operand s depth ts with
      | .error e => .error e
      | .ok (code, ts) => sequenceRest s depth code ts

/-- Reads the rest of a sequence behind an operand: operators and operands in turn. -/
def sequenceRest (s : Surroundings) : Nat → String → List Token → Parsed
  | 0, code, ts => .ok (code, ts)
  | depth + 1, code, ts =>
    if atEnd ts then .ok (code, ts)
    else
      match ts with
      | [] => .ok (code, [])
      | .operator op :: ts =>
        if atEnd ts then .error .endsWithOperator
        else
          match operand s depth ts with
          | .error e => .error e
          | .ok (next, ts) => sequenceRest s depth (code ++ " " ++ op.symbol ++ " " ++ next) ts
      | token :: _ => .error (.missingOperator token)

/-- Reads the arguments of a call behind its opening parenthesis. -/
def arguments (s : Surroundings) : Nat → List Token → Except Cause (List String × List Token)
  | 0, _ => .error .emptyOperand
  | _ + 1, .closeParen :: ts => .ok ([], ts)
  | depth + 1, ts => argumentsRest s depth ts

/-- Reads one argument and those behind it, up to the closing parenthesis. -/
def argumentsRest (s : Surroundings) : Nat → List Token → Except Cause (List String × List Token)
  | 0, _ => .error .emptyOperand
  | depth + 1, ts =>
    match sequence s depth ts with
    | .error e => .error e
    | .ok (arg, .closeParen :: ts) => .ok ([arg], ts)
    | .ok (arg, .comma :: ts) =>
      match argumentsRest s depth ts with
      | .error e => .error e
      | .ok (args, ts) => .ok (arg :: args, ts)
    | .ok (_, ts) => .error (.expectedCommaOrClose ts.head?)

end

/-! ## Compiling -/

/-- The code of a row of tokens, all of which belong to one sequence. -/
def codeOfTokens (s : Surroundings) (ts : List Token) : Except Cause String :=
  if ts.isEmpty then .error .emptyExpression
  else
    match sequence s (4 * ts.length + 4) ts with
    | .error e => .error e
    | .ok (code, []) => .ok code
    | .ok (_, token :: _) => .error (.trailing token)

/-- An expression that cannot be compiled, and why. -/
structure Refusal where
  expression : String
  cause : Cause
  deriving DecidableEq, Repr

/-- A refusal in words. -/
def Refusal.message (r : Refusal) : String :=
  "untranslated expression \x60" ++ r.expression ++ "\x60: " ++ r.cause.message

/-- The code of an expression. -/
def compile (s : Surroundings) (expression : String) : Except Refusal String :=
  match scan expression with
  | .error e => .error ⟨expression, e⟩
  | .ok ts =>
    match codeOfTokens s ts with
    | .error e => .error ⟨expression, e⟩
    | .ok code => .ok code

/-! ## Statements -/

/-- Whether an assignment stands outside all parentheses; the first argument is how many are open. -/
def assignsAtTop : Nat → List Token → Bool
  | _, [] => false
  | depth, .openParen :: ts => assignsAtTop (depth + 1) ts
  | depth, .closeParen :: ts => assignsAtTop (depth - 1) ts
  | depth, token :: ts => (depth == 0 && token == .operator .assign) || assignsAtTop depth ts

/-- Whether an expression is an assignment. -/
def isAssignment (expression : String) : Bool :=
  match scan expression with
  | .ok ts => assignsAtTop 0 ts
  | .error _ => false

/-- The code of an expression as a statement, without the semicolon. What is no assignment is assigned
to a discard. -/
def compileStatement (s : Surroundings) (expression : String) : Except Refusal String :=
  match compile s expression with
  | .error e => .error e
  | .ok code => .ok (if isAssignment expression then code else "_ = " ++ code)

end SsisCompiler.Expression
