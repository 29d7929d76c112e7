import Horn.Binary64

/-!
# Shortest decimals

The fewest decimal digits that still single out a value. The reals that round to it form an
interval, whose ends belong to it exactly when the mantissa is even. Grids of 1 to 17 digits are
tried in turn, and on each grid only the two neighbours of the value.
-/

namespace Horn.Decimal

structure Dyadic where
  mantissa : Nat
  exponent : Int
  /-- The value below is half as far away as the value above. -/
  narrowBelow : Bool
  deriving DecidableEq, Repr

/-- `0.d₁d₂… * 10 ^ point` for the digits `d₁d₂…`, the last of which is not zero. -/
structure Digits where
  digits : List Char
  point : Int
  deriving DecidableEq, Repr

namespace Dyadic

def ofBits (bits : UInt64) : Dyadic :=
  let e := ((bits >>> 52) &&& 0x7FF).toNat
  let f := (bits &&& 0xFFFFFFFFFFFFF).toNat
  if e = 0 then ⟨f, -1074, false⟩ else ⟨0x10000000000000 + f, (e : Int) - 1075, f = 0 && 1 < e⟩

def numerator (x : Dyadic) : Nat := x.mantissa * Nat.pow 2 x.exponent.toNat

def denominator (x : Dyadic) : Nat := Nat.pow 2 (-x.exponent).toNat

def isWhole (x : Dyadic) : Bool := x.numerator % x.denominator = 0

def compareScaled (n : Nat) (i : Int) (k : Nat) (j : Int) : Ordering :=
  compare (n * Nat.pow 10 i.toNat * Nat.pow 2 (-j).toNat)
    (k * Nat.pow 2 j.toNat * Nat.pow 10 (-i).toNat)

def readsBack (x : Dyadic) (n : Nat) (i : Int) : Bool :=
  let low := if x.narrowBelow then 4 * x.mantissa - 1 else 4 * x.mantissa - 2
  let high := 4 * x.mantissa + 2
  let closed := x.mantissa % 2 = 0
  let below := compareScaled n i low (x.exponent - 2)
  let above := compareScaled n i high (x.exponent - 2)
  (below = .gt || (closed && below = .eq)) && (above = .lt || (closed && above = .eq))

def digitCount (n : Nat) : Nat := (Nat.toDigits 10 n).length

/-- The least `k` with the value below `10 ^ k`. The value is not zero. -/
def magnitude (x : Dyadic) : Int :=
  let k : Int := (digitCount x.numerator : Int) - digitCount x.denominator
  if x.numerator * Nat.pow 10 (-k).toNat < x.denominator * Nat.pow 10 k.toNat then k else k + 1

/-- The nearer neighbour of the value on the grid `10 ^ i` among those that read back. Of two
equally near ones the upper is taken. -/
def neighbour? (x : Dyadic) (i : Int) : Option Nat :=
  let num := x.numerator * Nat.pow 10 (-i).toNat
  let den := x.denominator * Nat.pow 10 i.toNat
  let low := num / den
  match x.readsBack low i, x.readsBack (low + 1) i with
  | true, true => some (if 2 * num < (2 * low + 1) * den then low else low + 1)
  | true, false => some low
  | false, true => some (low + 1)
  | false, false => none

def trimmed (n : Nat) (i : Int) : Digits :=
  let all := Nat.toDigits 10 n
  ⟨(all.reverse.dropWhile (· = '0')).reverse, i + all.length⟩

def allDigits (x : Dyadic) : Digits :=
  if 0 ≤ x.exponent then trimmed x.numerator 0
  else trimmed (x.mantissa * Nat.pow 5 (-x.exponent).toNat) x.exponent

def shortest (x : Dyadic) : Digits :=
  if x.mantissa = 0 then ⟨['0'], 1⟩
  else
    let k := x.magnitude
    let found := (List.range 17).findSome? fun (n : Nat) =>
      let i : Int := k - (n + 1)
      (x.neighbour? i).map fun d => trimmed d i
    found.getD x.allDigits

end Dyadic

namespace Digits

def zeros (n : Nat) : List Char := List.replicate n '0'

def positional (d : Digits) : List Char :=
  if d.point ≤ 0 then '0' :: '.' :: (zeros (-d.point).toNat ++ d.digits)
  else
    let whole := d.point.toNat
    if d.digits.length ≤ whole then d.digits ++ zeros (whole - d.digits.length)
    else d.digits.take whole ++ '.' :: d.digits.drop whole

def scientific (d : Digits) : List Char :=
  let rest := match d.digits.drop 1 with
    | [] => ['0']
    | ds => ds
  d.digits.take 1 ++ '.' :: rest ++ 'e' :: (toString (d.point - 1)).toList

end Digits

def signText (x : Binary64) : String := if x.isNegative then "-" else ""

def floatText (x : Binary64) : String :=
  if x.isNaN then "NaN"
  else if x.isInfinite then signText x ++ "inf"
  else signText x ++ String.ofList (Dyadic.ofBits x.bits).shortest.positional

end Horn.Decimal
