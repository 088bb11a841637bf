/-!
# Double precision numbers

A double by its bit pattern, so that it has decidable equality and its parts are plain numbers, and
its shortest decimal: the fewest digits that read back as the same double, and of those the nearest.

Main definitions: `Double`, `Double.shortest`, `Double.text`.
-/

namespace SolidityInlay

structure Double where
  bits : UInt64
deriving DecidableEq, Repr, Inhabited

namespace Double

def ofFloat (x : Float) : Double := ⟨x.toBits⟩

def toFloat (d : Double) : Float := Float.ofBits d.bits

def isNegative (d : Double) : Bool := d.bits >>> 63 != 0

def exponentField (d : Double) : Nat := ((d.bits >>> 52) &&& 0x7FF).toNat

def fractionField (d : Double) : Nat := (d.bits &&& 0xFFFFFFFFFFFFF).toNat

def isFinite (d : Double) : Bool := d.exponentField != 0x7FF

/-- The magnitude is `significand * 2 ^ (scale - 1075)`. -/
def significand (d : Double) : Nat :=
  if d.exponentField == 0 then d.fractionField else Nat.pow 2 52 + d.fractionField

def scale (d : Double) : Nat := max d.exponentField 1

/-! ## Shortest decimals -/

structure Ratio where
  num : Nat
  den : Nat

namespace Ratio

def le (a b : Ratio) : Bool := a.num * b.den ≤ b.num * a.den

def lt (a b : Ratio) : Bool := a.num * b.den < b.num * a.den

/-- `digits * 10 ^ exponent`. -/
def ofDecimal (digits : Nat) (exponent : Int) : Ratio :=
  if exponent < 0 then ⟨digits, Nat.pow 10 exponent.natAbs⟩
  else ⟨digits * Nat.pow 10 exponent.natAbs, 1⟩

/-- `n * 2 ^ (scale - 1076)`. -/
def ofBinary (n scale : Nat) : Ratio := ⟨n * Nat.pow 2 scale, Nat.pow 2 1076⟩

end Ratio

/-- The reals that read as a double: those between the midpoints to its neighbours, the midpoints
themselves when the significand is even. -/
structure Rounding where
  value : Ratio
  low : Ratio
  high : Ratio
  closed : Bool

def rounding (d : Double) : Rounding :=
  let m := d.significand
  let s := d.scale
  let narrow := d.fractionField == 0 && 1 < d.exponentField
  { value := .ofBinary (2 * m) s
    low := if narrow then .ofBinary (4 * m - 1) (s - 1) else .ofBinary (2 * m - 1) s
    high := .ofBinary (2 * m + 1) s
    closed := m % 2 == 0 }

def Rounding.contains (r : Rounding) (x : Ratio) : Bool :=
  if r.closed then r.low.le x && x.le r.high else r.low.lt x && x.lt r.high

/-- The number of digits before the point, or minus the number of zeros after it. -/
def magnitude (x : Ratio) : Int :=
  if x.den ≤ x.num then (Nat.toDigits 10 (x.num / x.den)).length
  else zeros 400 0 x.num
where
  /-- Counts how often ten goes in before the fraction reaches a tenth. -/
  zeros : Nat → Int → Nat → Int
    | 0, k, _ => k
    | fuel + 1, k, n => if x.den ≤ n * 10 then k else zeros fuel (k - 1) (n * 10)

/-- The distance of two fractions over the product of their denominators. -/
def distance (a b : Ratio) : Ratio :=
  ⟨(a.num * b.den - b.num * a.den) + (b.num * a.den - a.num * b.den), a.den * b.den⟩

/-- The decimal with at most `count` digits that reads back, the nearer of the two next to the
value. -/
def candidate? (r : Rounding) (places : Int) (count : Nat) : Option (Nat × Int) :=
  let exponent := places - count
  let unit := Ratio.ofDecimal 1 exponent
  let below := r.value.num * unit.den / (r.value.den * unit.num)
  let fits (n : Nat) : Bool := n != 0 && r.contains (.ofDecimal n exponent)
  let gap (n : Nat) : Ratio := distance r.value (.ofDecimal n exponent)
  match fits below, fits (below + 1) with
  | true, true =>
    some (if (gap (below + 1)).lt (gap below) then below + 1 else below, exponent)
  | true, false => some (below, exponent)
  | false, true => some (below + 1, exponent)
  | false, false => none

def trimZeros : Nat → Nat → Int → Nat × Int
  | 0, n, e => (n, e)
  | fuel + 1, n, e => if n != 0 && n % 10 == 0 then trimZeros fuel (n / 10) (e + 1) else (n, e)

/-- The fewest digits that read back, and their power of ten; for doubles other than zero. -/
def shortest (d : Double) : Nat × Int :=
  let r := d.rounding
  let places := magnitude r.value
  match (List.range 17).findSome? fun i => candidate? r places (i + 1) with
  | some (n, e) => trimZeros 20 n e
  | none => (0, 0)

/-! ## Text -/

/-- Digits positionally up to sixteen places before the point and five zeros after it, with an
exponent beyond; a whole number keeps `.0`. -/
def magnitudeText (n : Nat) (e : Int) : String :=
  let digits := Nat.toDigits 10 n
  let point := (digits.length : Int) + e
  let zeros (k : Int) := List.replicate k.toNat '0'
  if 0 ≤ e ∧ point ≤ 16 then String.ofList (digits ++ zeros e ++ ['.', '0'])
  else if 0 < point ∧ point ≤ 16 then
    String.ofList (digits.take point.toNat ++ '.' :: digits.drop point.toNat)
  else if -5 < point ∧ point ≤ 0 then
    String.ofList ('0' :: '.' :: zeros (-point) ++ digits)
  else
    let mantissa := match digits with
      | [] => []
      | [c] => [c]
      | c :: rest => c :: '.' :: rest
    String.ofList mantissa ++ "e" ++ toString (point - 1)

def text (d : Double) : String :=
  let sign := if d.isNegative then "-" else ""
  if d.significand == 0 then sign ++ "0.0"
  else
    let (n, e) := d.shortest
    sign ++ magnitudeText n e

end Double

end SolidityInlay
