namespace LeastContext

/-- A decimal number without its sign: the digits on both sides of the point, and the power of ten
that it is multiplied by. -/
structure Decimal where
  whole : List Char
  fraction : List Char
  exponent : Int
  deriving DecidableEq, Inhabited, Repr

namespace Decimal

def digitsValue (digits : List Char) : Nat :=
  digits.foldl (fun n c => n * 10 + (c.toNat - '0'.toNat)) 0

def readExponent : List Char → Int
  | '-' :: digits => -(digitsValue digits : Int)
  | '+' :: digits => digitsValue digits
  | digits => digitsValue digits

def dropSign : List Char → List Char
  | '+' :: rest | '-' :: rest => rest
  | rest => rest

/-- The parts of a number that is known to be well formed. -/
def ofLiteral (literal : List Char) : Decimal :=
  let (mantissa, exponent) := (dropSign literal).span fun c => c != 'e' && c != 'E'
  let (whole, fraction) := mantissa.span (· != '.')
  ⟨whole, fraction.drop 1, readExponent (exponent.drop 1)⟩

def ofNat (n : Nat) : Decimal :=
  ⟨(toString n).toList, [], 0⟩

/-- The least number that rounds to no finite double. It lies half a step above the largest one. -/
def doubleBound : Nat :=
  Nat.pow 2 1024 - Nat.pow 2 970

/-- Whether the nearest double would be infinite. -/
def isBeyondDouble (number : Decimal) : Bool :=
  let digits := number.whole ++ number.fraction
  let value := digitsValue digits
  let power := number.exponent - number.fraction.length
  if value == 0 then false
  else if 308 < power then true
  else if 0 ≤ power then doubleBound ≤ value * Nat.pow 10 power.toNat
  else
    let places := (-power).toNat
    places ≤ digits.length && doubleBound * Nat.pow 10 places ≤ value

/-- Rounds to 53 significant bits, a half to the even neighbour. -/
def roundToDouble (n : Nat) : Nat :=
  let excess := n.log2 + 1 - 53
  if excess = 0 then n
  else
    let kept := n >>> excess
    let rest := n % Nat.pow 2 excess
    let half := Nat.pow 2 (excess - 1)
    (if half < rest || (rest == half && kept % 2 == 1) then kept + 1 else kept) <<< excess

/-- Appends digits to a number for as long as it fits in 64 bits, and counts those appended. -/
def appendDigits (number count : Nat) : List Char → Nat × Nat
  | [] => (number, count)
  | c :: cs =>
    let next := number * 10 + (c.toNat - '0'.toNat)
    if next < UInt64.size then appendDigits next (count + 1) cs else (number, count)

/-- Whether a quick reading of the number is infinite. Such a reading keeps 64 bits of digits, and
multiplies the double nearest to them by the double nearest to the power of ten. -/
def isBeyondDoubleRoughly (number : Decimal) : Bool :=
  let (digits, inWhole) := appendDigits 0 0 number.whole
  let (digits, inFraction) := appendDigits digits 0 number.fraction
  let power := number.exponent + (number.whole.length - inWhole : Nat) - inFraction
  if digits == 0 then false
  else if 308 < power then true
  else if 0 ≤ power then
    doubleBound ≤ roundToDouble digits * roundToDouble (Nat.pow 10 power.toNat)
  else false

end Decimal

end LeastContext
