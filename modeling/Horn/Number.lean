import Horn.Decimal.Shortest

namespace Horn

open Horn.Decimal

inductive Number where
  | int (n : Int64)
  | float (x : Binary64)
  deriving DecidableEq, Repr

namespace Number

def same : Number → Number → Bool
  | .int a, .int b => a == b
  | .float a, .float b => a.equals b
  | _, _ => false

def int64? (i : Int) : Option Int64 :=
  if Int64.minValue.toInt ≤ i ∧ i ≤ Int64.maxValue.toInt then some (Int64.ofInt i) else none

def toBinary64 : Number → Binary64
  | .int n => .ofFloat (Float.ofInt n.toInt)
  | .float x => x

def toFloat (n : Number) : Float := n.toBinary64.toFloat

def isFloat : Number → Bool
  | .int _ => false
  | .float _ => true

/-- Whole values from here on are written with an exponent. -/
def wholeLimit : Nat := 1000000000000000

/-- What is written for an infinite value: a literal that is too large to be finite. -/
def infiniteText : String := "1.0e309"

/-- A float is written so that it reads as a float again: whole values with one place or with an
exponent, all others positionally by the fewest digits. -/
def floatLiteral (x : Binary64) : String :=
  if x.isNaN then "nan"
  else if x.isInfinite then signText x ++ infiniteText
  else
    let d := Dyadic.ofBits x.bits
    if !d.isWhole then signText x ++ String.ofList d.shortest.positional
    else if d.numerator < wholeLimit * d.denominator then
      signText x ++ String.ofList d.shortest.positional ++ ".0"
    else signText x ++ String.ofList d.shortest.scientific

def text : Number → String
  | .int n => toString n.toInt
  | .float x => floatLiteral x

end Number

end Horn
