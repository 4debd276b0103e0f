/-!
Doubles with a fixed number of decimal places. The exact value of the double is rounded, and a value
halfway between two candidates goes to the even one.
-/

namespace ExactCover.Text

/-- The quotient rounded to the nearest natural, ties to the even one. -/
def roundDiv (num den : Nat) : Nat :=
  let quotient := num / den
  let twice := 2 * (num % den)
  if twice < den || (twice == den && quotient % 2 == 0) then quotient else quotient + 1

/-- A finite double without its sign as a natural times a power of two. -/
def mantissaExponent (x : Float) : Nat × Int :=
  let bits := x.toBits.toNat
  let fraction : Nat := bits % 0x10000000000000
  let exponent : Nat := bits / 0x10000000000000 % 0x800
  if exponent = 0 then (fraction, -1074)
  else (fraction + 0x10000000000000, (exponent : Int) - 1075)

def scaled (places : Nat) (x : Float) : Nat :=
  let (mantissa, exponent) := mantissaExponent x
  let num := mantissa * Nat.pow 10 places
  if exponent < 0 then roundDiv num (Nat.pow 2 exponent.natAbs)
  else num * Nat.pow 2 exponent.natAbs

/-- Digits in front of the point and `places` digits behind it; no point where there are none. -/
def fixed (places : Nat) (x : Float) : String :=
  let value := scaled places x
  let whole := toString (value / Nat.pow 10 places)
  if places = 0 then whole
  else
    let fraction := Nat.toDigits 10 (value % Nat.pow 10 places)
    let zeros := List.replicate (places - fraction.length) '0'
    whole ++ "." ++ String.ofList (zeros ++ fraction)

def padRight (width : Nat) (text : String) : String :=
  text ++ String.ofList (List.replicate (width - text.length) ' ')

def padLeft (width : Nat) (text : String) : String :=
  String.ofList (List.replicate (width - text.length) ' ') ++ text

end ExactCover.Text
