import ExactCover.Word
/-!
Numbers as they are written in input: machine words, and decimal fractions for probabilities.
-/

namespace ExactCover.Text

def digitValue (c : Char) : Nat := c.toNat - '0'.toNat

def digitsValue (digits : List Char) : Nat :=
  digits.foldl (fun value c => 10 * value + digitValue c) 0

def dropPlus : List Char → List Char
  | '+' :: rest => rest
  | text => text

/-- A word in decimal: at most one plus sign, then digits, with a value that fits. -/
def word? (text : List Char) : Option Nat :=
  let digits := dropPlus text
  if digits.isEmpty || !digits.all Char.isDigit then none
  else
    let value := digitsValue digits
    if value ≤ wordMax then some value else none

/-- The exponent after the mark: an optional sign, then digits. -/
def exponent? (text : List Char) : Option Int :=
  let (negative, digits) := match text with
    | '-' :: rest => (true, rest)
    | '+' :: rest => (false, rest)
    | rest => (false, rest)
  if digits.isEmpty || !digits.all Char.isDigit then none
  else
    let value := digitsValue digits
    some (if negative then -value else value)

/-- The double next to `digits` times ten to the power of `exponent`. Far outside the range of
doubles the answer is known from the number of digits. -/
def scientific (digits : List Char) (exponent : Int) : Float :=
  let value := digitsValue digits
  let magnitude := exponent + (Nat.toDigits 10 value).length
  if value = 0 || magnitude < -400 then 0
  else if 400 < magnitude then 1 / 0
  else Float.ofScientific value (exponent < 0) exponent.natAbs

/-- A fraction without sign: digits with at most one point among them, then an optional exponent. -/
def magnitude? (text : List Char) : Option Float :=
  let mantissa := text.takeWhile fun c => c != 'e' && c != 'E'
  let whole := mantissa.takeWhile Char.isDigit
  let tail := mantissa.drop whole.length
  let fraction? := match tail with
    | [] => some []
    | '.' :: fraction => if fraction.all Char.isDigit then some fraction else none
    | _ => none
  let exponent? := match text.drop mantissa.length with
    | [] => some 0
    | _ :: rest => exponent? rest
  match fraction?, exponent? with
  | some fraction, some exponent =>
    let digits := whole ++ fraction
    if digits.isEmpty then none
    else some (scientific digits (exponent - fraction.length))
  | _, _ => none

/-- A double in decimal, with an optional sign; infinity and the not-a-number go by name, in any
case. -/
def double? (text : List Char) : Option Float :=
  let (negative, unsigned) := match text with
    | '-' :: rest => (true, rest)
    | '+' :: rest => (false, rest)
    | rest => (false, rest)
  let lower := String.ofList (unsigned.map Char.toLower)
  let value? : Option Float :=
    if lower = "inf" || lower = "infinity" then some (1 / 0)
    else if lower = "nan" then some (0 / 0)
    else magnitude? unsigned
  value?.map fun value => if negative then -value else value

end ExactCover.Text
