/-!
# Rounding

Quotients rounded to the nearest whole number, halves to the even one, and what follows from it:
natural numbers in double precision, and quotients with two places.

Main definitions: `roundDiv`, `nearestDouble`, `twoPlaces`.
-/

namespace SolidityInlay

/-- The whole number nearest to `n / d`; a half goes to the even neighbour. -/
def roundDiv (n d : Nat) : Nat :=
  let q := n / d
  let twice := 2 * (n % d)
  if twice < d then q else if d < twice then q + 1 else if q % 2 = 0 then q else q + 1

/-- The number of 53 significant bits nearest to `n`. -/
def nearestDouble (n : Nat) : Nat :=
  if n < Nat.pow 2 53 then n
  else
    let unit := Nat.pow 2 (Nat.log2 n - 52)
    roundDiv n unit * unit

/-- `n / d` with two places. -/
def twoPlaces (n d : Nat) : String :=
  let hundredths := roundDiv (100 * n) d
  let places := Nat.toDigits 10 (hundredths % 100)
  toString (hundredths / 100) ++ "." ++
    String.ofList (List.replicate (2 - places.length) '0' ++ places)

end SolidityInlay
