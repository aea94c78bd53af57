import SsisCompiler.CSharp.Line
import SsisCompiler.Text.Decimal

/-!
# Types of variables

The C# types that the variables of a package have, and the initial value that a stored text stands
for. A text that is no value of its type stands for the type's default.
-/

namespace SsisCompiler.CSharp

/-- The integer types. -/
inductive IntegerType
  | sbyte
  | short
  | int
  | long
  | byte
  | ushort
  | uint
  | ulong
  deriving DecidableEq, Repr

namespace IntegerType

/-- The keyword of a type. -/
def name : IntegerType → String
  | .sbyte => "sbyte"
  | .short => "short"
  | .int => "int"
  | .long => "long"
  | .byte => "byte"
  | .ushort => "ushort"
  | .uint => "uint"
  | .ulong => "ulong"

/-- How many bits a value takes. -/
def width : IntegerType → Nat
  | .sbyte | .byte => 8
  | .short | .ushort => 16
  | .int | .uint => 32
  | .long | .ulong => 64

/-- Whether a type has negative values. -/
def isSigned : IntegerType → Bool
  | .sbyte | .short | .int | .long => true
  | .byte | .ushort | .uint | .ulong => false

/-- The least value. -/
def least (t : IntegerType) : Int :=
  if t.isSigned then -Int.pow 2 (t.width - 1) else 0

/-- The greatest value. -/
def greatest (t : IntegerType) : Int :=
  if t.isSigned then Int.pow 2 (t.width - 1) - 1 else Int.pow 2 t.width - 1

end IntegerType

/-- The types of real numbers. -/
inductive RealType
  | float
  | double
  | decimal
  deriving DecidableEq, Repr

namespace RealType

/-- The keyword of a type. -/
def name : RealType → String
  | .float => "float"
  | .double => "double"
  | .decimal => "decimal"

/-- What stands behind a literal of a type. -/
def suffix : RealType → String
  | .float => "f"
  | .double => ""
  | .decimal => "m"

end RealType

/-- The types of variables. -/
inductive ValueType
  | string
  | bool
  | integer (t : IntegerType)
  | real (t : RealType)
  | dateTime
  | guid
  | object
  /-- A type known only at run time. -/
  | dynamic
  deriving DecidableEq, Repr

namespace ValueType

/-- The name of a type. -/
def name : ValueType → String
  | .string => "string"
  | .bool => "bool"
  | .integer t => t.name
  | .real t => t.name
  | .dateTime => "DateTime"
  | .guid => "Guid"
  | .object => "object"
  | .dynamic => "dynamic"

/-- The type with a name; any other name counts as a type known only at run time. -/
def ofName : String → ValueType
  | "string" => .string
  | "bool" => .bool
  | "sbyte" => .integer .sbyte
  | "short" => .integer .short
  | "int" => .integer .int
  | "long" => .integer .long
  | "byte" => .integer .byte
  | "ushort" => .integer .ushort
  | "uint" => .integer .uint
  | "ulong" => .integer .ulong
  | "float" => .real .float
  | "double" => .real .double
  | "decimal" => .real .decimal
  | "DateTime" => .dateTime
  | "Guid" => .guid
  | "object" => .object
  | _ => .dynamic

/-- The type that a package's type code stands for. -/
def ofCode (code : Option String) : ValueType :=
  match code.map Text.trim with
  | some "2" => .integer .short
  | some "3" => .integer .int
  | some "4" => .real .float
  | some "5" => .real .double
  | some "6" => .real .decimal
  | some "7" => .dateTime
  | some "8" => .string
  | some "11" => .bool
  | some "13" => .object
  | some "14" => .real .decimal
  | some "16" => .integer .sbyte
  | some "17" => .integer .byte
  | some "18" => .integer .ushort
  | some "19" => .integer .uint
  | some "20" => .integer .long
  | some "21" => .integer .ulong
  | some "72" => .guid
  | _ => .dynamic

/-! ## Initial values -/

/-- The default value of a type. -/
def defaultOf (typeName : String) : String :=
  "default(" ++ typeName ++ ")"

/-- The literal of an integer, given the trimmed text if it is not empty. The text is read within 128
bits before the range of the type is looked at. -/
def integerLiteral (t : IntegerType) (text : Option String) : String :=
  match text.bind Text.int128? with
  | some n => if t.least ≤ n && n ≤ t.greatest then toString n else defaultOf t.name
  | none => defaultOf t.name

/-- The literal of a real number, given the trimmed text if it is not empty: the text itself with the
type's suffix. -/
def realLiteral (t : RealType) (text : Option String) : String :=
  match text with
  | some s => if Text.isFiniteReal s then s ++ t.suffix else defaultOf t.name
  | none => defaultOf t.name

/-- The truth value that a trimmed text stands for. -/
def boolLiteral (text : Option String) : String :=
  match text.map Text.lower with
  | some "true" => "true"
  | some "-1" => "true"
  | some "1" => "true"
  | _ => "false"

/-- The initial value that a stored text stands for. -/
def initialValue (t : ValueType) (stored : Option String) : String :=
  let text := (stored.map Text.trim).filter (!·.isEmpty)
  match t with
  | .string => verbatim (stored.getD "")
  | .bool => boolLiteral text
  | .integer t => integerLiteral t text
  | .real t => realLiteral t text
  | .dateTime =>
    match text with
    | some s => "DateTime.Parse(" ++ verbatim s ++ ")"
    | none => "DateTime.MinValue"
  | .guid =>
    match text with
    | some s => "new Guid(" ++ verbatim s ++ ")"
    | none => "Guid.Empty"
  | .object => "null"
  | .dynamic =>
    match stored with
    | some s => verbatim s
    | none => "null"

end ValueType

end SsisCompiler.CSharp
