import SsisCompiler.Expression.Cause
import SsisCompiler.Text.Basic

/-!
# Casts and functions

The code that a cast or a function call of an expression becomes, given the code of its operands.
-/

namespace SsisCompiler.Expression

/-- Code in parentheses. -/
def paren (code : String) : String :=
  "(" ++ code ++ ")"

/-! ## Casts -/

/-- The conversion method for a data type. -/
def conversion? : String → Option String
  | "DT_WSTR" => some "ToString"
  | "DT_STR" => some "ToString"
  | "DT_TEXT" => some "ToString"
  | "DT_NTEXT" => some "ToString"
  | "DT_I1" => some "ToSByte"
  | "DT_I2" => some "ToInt16"
  | "DT_I4" => some "ToInt32"
  | "DT_I8" => some "ToInt64"
  | "DT_UI1" => some "ToByte"
  | "DT_UI2" => some "ToUInt16"
  | "DT_UI4" => some "ToUInt32"
  | "DT_UI8" => some "ToUInt64"
  | "DT_R4" => some "ToSingle"
  | "DT_R8" => some "ToDouble"
  | "DT_BOOL" => some "ToBoolean"
  | "DT_DATE" => some "ToDateTime"
  | "DT_DBDATE" => some "ToDateTime"
  | "DT_DBTIMESTAMP" => some "ToDateTime"
  | "DT_DBTIMESTAMP2" => some "ToDateTime"
  | "DT_FILETIME" => some "ToDateTime"
  | "DT_DECIMAL" => some "ToDecimal"
  | "DT_NUMERIC" => some "ToDecimal"
  | "DT_CY" => some "ToDecimal"
  | _ => none

/-- The code of a cast. -/
def castCode (type operand : String) : Except Cause String :=
  if type == "DT_GUID" then .ok ("new Guid(Convert.ToString" ++ paren operand ++ ")")
  else
    match conversion? type with
    | some method => .ok ("Convert." ++ method ++ paren operand)
    | none => .error (.cast type)

/-! ## Parts of a date -/

/-- The parts of a date and time. -/
inductive DatePart
  | year
  | quarter
  | month
  | week
  | day
  | dayOfYear
  | hour
  | minute
  | second
  deriving DecidableEq, Repr

namespace DatePart

/-- The part that a word names. -/
def ofWord? : String → Option DatePart
  | "year" => some .year
  | "yy" => some .year
  | "yyyy" => some .year
  | "quarter" => some .quarter
  | "qq" => some .quarter
  | "q" => some .quarter
  | "month" => some .month
  | "mm" => some .month
  | "m" => some .month
  | "week" => some .week
  | "wk" => some .week
  | "ww" => some .week
  | "day" => some .day
  | "dd" => some .day
  | "d" => some .day
  | "dayofyear" => some .dayOfYear
  | "dy" => some .dayOfYear
  | "y" => some .dayOfYear
  | "hour" => some .hour
  | "hh" => some .hour
  | "minute" => some .minute
  | "mi" => some .minute
  | "n" => some .minute
  | "second" => some .second
  | "ss" => some .second
  | "s" => some .second
  | _ => none

/-- The method that adds a part to a date, and how many of its units make one part. -/
def adder : DatePart → String × Nat
  | .year => ("AddYears", 1)
  | .quarter => ("AddMonths", 3)
  | .month => ("AddMonths", 1)
  | .week => ("AddDays", 7)
  | .day => ("AddDays", 1)
  | .dayOfYear => ("AddDays", 1)
  | .hour => ("AddHours", 1)
  | .minute => ("AddMinutes", 1)
  | .second => ("AddSeconds", 1)

/-- The member that gives a part of a date. -/
def member? : DatePart → Option String
  | .year => some "Year"
  | .month => some "Month"
  | .day => some "Day"
  | .dayOfYear => some "DayOfYear"
  | .hour => some "Hour"
  | .minute => some "Minute"
  | .second => some "Second"
  | .quarter => none
  | .week => none

/-- The whole count of a part between two dates, taken from the time that lies between them. -/
def elapsed (member start finish : String) : String :=
  "(int)(" ++ paren finish ++ " - " ++ paren start ++ ")." ++ member

/-- The code of the difference of two dates in a part. -/
def difference? (start finish : String) : DatePart → Option String
  | .year => some ("(" ++ paren finish ++ ".Year - " ++ paren start ++ ".Year)")
  | .month =>
    some ("((" ++ paren finish ++ ".Year - " ++ paren start ++ ".Year) * 12 + " ++ paren finish
      ++ ".Month - " ++ paren start ++ ".Month)")
  | .day => some (elapsed "TotalDays" start finish)
  | .hour => some (elapsed "TotalHours" start finish)
  | .minute => some (elapsed "TotalMinutes" start finish)
  | .second => some (elapsed "TotalSeconds" start finish)
  | .quarter => none
  | .week => none
  | .dayOfYear => none

end DatePart

/-- The word of a date part, given the code of the argument that names it: without quotes, in lower
case. -/
def partWord (code : String) : String :=
  Text.lower (String.ofList (Text.trimWhile (· == '"') (Text.trim code).toList))

/-- The code of a date with a number of parts added. -/
def dateAddCode (part count date : String) : Except Cause String :=
  match DatePart.ofWord? (partWord part) with
  | none => .error (.datePart "DATEADD" (partWord part))
  | some p =>
    let (method, factor) := p.adder
    if factor == 1 then .ok (paren date ++ "." ++ method ++ paren count)
    else .ok (paren date ++ "." ++ method ++ "(" ++ paren count ++ " * " ++ toString factor ++ ")")

/-- The code of a part of a date. -/
def datePartCode (part date : String) : Except Cause String :=
  match (DatePart.ofWord? (partWord part)).bind DatePart.member? with
  | some member => .ok (paren date ++ "." ++ member)
  | none => .error (.datePart "DATEPART" (partWord part))

/-- The code of the difference of two dates. -/
def dateDiffCode (part start finish : String) : Except Cause String :=
  match (DatePart.ofWord? (partWord part)).bind (DatePart.difference? start finish) with
  | some code => .ok code
  | none => .error (.datePart "DATEDIFF" (partWord part))

/-! ## Functions -/

/-- A call without arguments. -/
def nullary (name : String) (args : List String) (code : String) : Except Cause String :=
  match args with
  | [] => .ok code
  | _ => .error (.arity name 0 args.length)

/-- A call with one argument. -/
def unary (name : String) (args : List String) (code : String → String) : Except Cause String :=
  match args with
  | [a] => .ok (code a)
  | _ => .error (.arity name 1 args.length)

/-- A call with two arguments. -/
def binary (name : String) (args : List String) (code : String → String → Except Cause String) :
    Except Cause String :=
  match args with
  | [a, b] => code a b
  | _ => .error (.arity name 2 args.length)

/-- A call with three arguments. -/
def ternary (name : String) (args : List String)
    (code : String → String → String → Except Cause String) : Except Cause String :=
  match args with
  | [a, b, c] => code a b c
  | _ => .error (.arity name 3 args.length)

/-- The code of a call, given the function's name in upper case and the code of the arguments. -/
def functionCode (name : String) (args : List String) : Except Cause String :=
  match name with
  | "GETDATE" => nullary name args "DateTime.Now"
  | "GETUTCDATE" => nullary name args "DateTime.UtcNow"
  | "UPPER" => unary name args fun s => paren s ++ ".ToUpper()"
  | "LOWER" => unary name args fun s => paren s ++ ".ToLower()"
  | "TRIM" => unary name args fun s => paren s ++ ".Trim()"
  | "LTRIM" => unary name args fun s => paren s ++ ".TrimStart()"
  | "RTRIM" => unary name args fun s => paren s ++ ".TrimEnd()"
  | "LEN" => unary name args fun s => paren s ++ ".Length"
  | "REPLACE" => ternary name args fun s old new =>
    .ok (paren s ++ ".Replace(" ++ old ++ ", " ++ new ++ ")")
  | "SUBSTRING" => ternary name args fun s start count =>
    .ok (paren s ++ ".Substring(" ++ paren start ++ " - 1, " ++ count ++ ")")
  | "LEFT" => binary name args fun s count => .ok (paren s ++ ".Substring(0, " ++ count ++ ")")
  | "RIGHT" => binary name args fun s count =>
    .ok (paren s ++ ".Substring(" ++ paren s ++ ".Length - " ++ paren count ++ ")")
  | "ISNULL" => unary name args fun a => "(" ++ paren a ++ " == null)"
  | "ABS" => unary name args fun a => "Math.Abs" ++ paren a
  | "CEILING" => unary name args fun a => "Math.Ceiling" ++ paren a
  | "FLOOR" => unary name args fun a => "Math.Floor" ++ paren a
  | "SQRT" => unary name args fun a => "Math.Sqrt" ++ paren a
  | "POWER" => binary name args fun a b => .ok ("Math.Pow(" ++ a ++ ", " ++ b ++ ")")
  | "ROUND" => binary name args fun a b => .ok ("Math.Round(" ++ a ++ ", " ++ b ++ ")")
  | "YEAR" => unary name args fun date => paren date ++ ".Year"
  | "MONTH" => unary name args fun date => paren date ++ ".Month"
  | "DAY" => unary name args fun date => paren date ++ ".Day"
  | "DATEADD" => ternary name args dateAddCode
  | "DATEPART" => binary name args datePartCode
  | "DATEDIFF" => ternary name args dateDiffCode
  | _ => .error (.function name)

end SsisCompiler.Expression
