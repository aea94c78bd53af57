import SsisCompiler.Text.Basic

/-!
# Decimal numerals

Two grammars of numerals. An integer numeral is an optional sign and one or more digits. A real
numeral is an optional sign, digits with at most one point and at least one digit among them, and an
optional exponent; the names of infinity and of not-a-number are real numerals too.

A real numeral is finite when it rounds to a finite number of double precision, that is when its
magnitude lies below the midpoint between the largest such number and the next power of two.
-/

namespace SsisCompiler.Text

/-- Whether a text is one or more ASCII digits. -/
def isDigits (cs : List Char) : Bool :=
  !cs.isEmpty && cs.all Char.isDigit

/-- The number that a list of digits denotes. -/
def digitsValue (cs : List Char) : Nat :=
  cs.foldl (fun n c => 10 * n + (c.toNat - '0'.toNat)) 0

/-! ## Integers -/

/-- The number denoted by digits with an optional plus sign. -/
def natural? (s : String) : Option Nat :=
  let digits := match s.toList with
    | '+' :: rest => rest
    | cs => cs
  if isDigits digits then some (digitsValue digits) else none

/-- The number denoted by digits with an optional sign. -/
def integer? (s : String) : Option Int :=
  match s.toList with
  | '-' :: digits => if isDigits digits then some (-(digitsValue digits : Int)) else none
  | _ => (natural? s).map Int.ofNat

/-! ## Integers of 128 bits -/

/-- A number, if 128 bits with a sign hold it. -/
def fit128 (n : Int) : Option Int :=
  if -Int.pow 2 127 ≤ n && n < Int.pow 2 127 then some n else none

/-- The number that digits denote behind a number that has been read, with every step in 128 bits: ten
times the number first, and then one digit more, or one less if the number is negative. -/
def readInt128 (negative : Bool) (n : Int) : List Char → Option Int
  | [] => some n
  | c :: cs =>
    let digit : Int := c.toNat - '0'.toNat
    (fit128 (10 * n)).bind fun tens =>
      (fit128 (if negative then tens - digit else tens + digit)).bind fun next =>
        readInt128 negative next cs

/-- The number denoted by digits with an optional sign, if it is read within 128 bits. -/
def int128? (s : String) : Option Int :=
  match s.toList with
  | '-' :: digits => if isDigits digits then readInt128 true 0 digits else none
  | '+' :: digits => if isDigits digits then readInt128 false 0 digits else none
  | digits => if isDigits digits then readInt128 false 0 digits else none

/-! ## Real numbers -/

/-- A real numeral without its sign: digits, how many of them follow the point, and the exponent. -/
structure RealNumeral where
  /-- The digits before and after the point, in one row. -/
  digits : List Char
  /-- How many of the digits follow the point. -/
  places : Nat
  /-- The power of ten that the digits are multiplied by. -/
  exponent : Int
  deriving DecidableEq, Repr

/-- The exponent behind a mantissa: nothing at all, or a mark, an optional sign and digits. -/
def exponent? : List Char → Option Int
  | [] => some 0
  | mark :: rest =>
    if mark.toLower == 'e' then
      integer? (String.ofList rest)
    else none

/-- Reads a real numeral without a sign. -/
def unsignedReal? (cs : List Char) : Option RealNumeral :=
  let whole := cs.takeWhile Char.isDigit
  let rest := cs.dropWhile Char.isDigit
  let (fraction, rest) := match rest with
    | '.' :: more => (more.takeWhile Char.isDigit, more.dropWhile Char.isDigit)
    | _ => ([], rest)
  if whole.isEmpty && fraction.isEmpty then none
  else (exponent? rest).map fun e => ⟨whole ++ fraction, fraction.length, e⟩

/-- The least magnitude that double precision rounds to infinity. -/
def overflowThreshold : Nat :=
  Nat.pow 2 1024 - Nat.pow 2 970

/-- Whether a numeral rounds to a finite number of double precision. The size of the number is
bounded by its count of digits first, so that no large power of ten is formed needlessly. -/
def RealNumeral.isFinite (r : RealNumeral) : Bool :=
  let digits := r.digits.dropWhile (· == '0')
  let shift := r.exponent - r.places
  let magnitude := digits.length + shift
  if digits.isEmpty || magnitude < 300 then true
  else if 320 < magnitude then false
  else if 0 ≤ shift then digitsValue digits * Nat.pow 10 shift.toNat < overflowThreshold
  else digitsValue digits < overflowThreshold * Nat.pow 10 (-shift).toNat

/-- A text without its leading sign. -/
def dropSign : List Char → List Char
  | '+' :: cs => cs
  | '-' :: cs => cs
  | cs => cs

/-- Whether a text is a real numeral that denotes a finite number. -/
def isFiniteReal (s : String) : Bool :=
  match unsignedReal? (dropSign s.toList) with
  | some r => r.isFinite
  | none => false

end SsisCompiler.Text
