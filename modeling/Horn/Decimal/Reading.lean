import Horn.Binary64
import Horn.Text.CharClass

namespace Horn.Decimal

open Horn.Text

/-- No value with a decimal point so far out is finite and different from zero. -/
def reach : Int := 400

def scaled (n : Nat) (e : Int) : Binary64 :=
  let point : Int := e + (Nat.toDigits 10 n).length
  if n = 0 then .zero
  else if reach < point then .infinity
  else if point < -reach then .zero
  else .ofFloat (Float.ofScientific n (e < 0) e.natAbs)

def value (whole fraction : List Char) (e : Int) : Binary64 :=
  scaled (digitsValue 10 (whole ++ fraction)) (e - fraction.length)

def exponentValue (negative : Bool) (digits : List Char) : Int :=
  let n : Int := digitsValue 10 digits
  if negative then -n else n

def unsigned? (cs : List Char) : Option Binary64 :=
  let whole := cs.takeWhile isDecimalDigit
  let rest := cs.dropWhile isDecimalDigit
  let (fraction, rest) := match rest with
    | '.' :: rest => (rest.takeWhile isDecimalDigit, rest.dropWhile isDecimalDigit)
    | _ => ([], rest)
  if whole.isEmpty && fraction.isEmpty then none
  else match rest with
    | [] => some (value whole fraction 0)
    | c :: rest =>
      if c = 'e' || c = 'E' then
        let (negative, digits) := match rest with
          | '-' :: ds => (true, ds)
          | '+' :: ds => (false, ds)
          | ds => (false, ds)
        if digits.isEmpty || !digits.all isDecimalDigit then none
        else some (value whole fraction (exponentValue negative digits))
      else none

def magnitude? (cs : List Char) : Option Binary64 :=
  let word := String.ofList (cs.map Char.toLower)
  if word = "inf" || word = "infinity" then some .infinity
  else if word = "nan" then some .nan
  else unsigned? cs

def read? (text : String) : Option Binary64 :=
  match text.toList with
  | '-' :: cs => (magnitude? cs).map Binary64.neg
  | '+' :: cs => magnitude? cs
  | cs => magnitude? cs

end Horn.Decimal
