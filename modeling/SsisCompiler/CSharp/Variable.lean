/-!
# Variables of a program
-/

namespace SsisCompiler.CSharp

/-- A variable of a program: a field, a local or a parameter. -/
structure Variable where
  name : String
  typeName : String
  /-- The code of the initial value. -/
  initialValue : String
  deriving DecidableEq, Repr, Inhabited

namespace Variable

/-- The declaration of a variable, without the semicolon. -/
def declaration (v : Variable) : String :=
  v.typeName ++ " " ++ v.name ++ " = " ++ v.initialValue

/-- A variable as a parameter that the caller lends. -/
def parameter (v : Variable) : String :=
  "ref " ++ v.typeName ++ " " ++ v.name

/-- A variable as an argument that is lent to a method. -/
def argument (v : Variable) : String :=
  "ref " ++ v.name

/-- The variables with one more. A variable of the same name is replaced where it stands; else the new
one comes last. -/
def declareIn (v : Variable) : List Variable → List Variable
  | [] => [v]
  | w :: rest => if w.name == v.name then v :: rest else w :: declareIn v rest

/-- Whether a variable with a name is among some. -/
def isDeclared (name : String) (declared : List Variable) : Bool :=
  declared.any (·.name == name)

end Variable

end SsisCompiler.CSharp
