import Horn.Decimal.Reading
import Horn.Token.Basic
import Horn.Token.Quoted

/-!
# Numerals

A letter or point that does not continue the numeral is left in the stream.
-/

namespace Horn

open Horn.Text

namespace Scan

def char? : Scan (Option (Char × Position)) := fun s => s.read

def putBack (c : Char) (p : Position) : Scan Unit := modify (·.unread c p)

def fail {α : Type} (cause : LexError.Cause) (p : Position) : Scan α := throw ⟨cause, p⟩

def peek? : Scan (Option Char) := do
  match ← char? with
  | some (c, p) => putBack c p; return some c
  | none => return none

def takeWhile (keep : Char → Bool) : Scan (List Char) := fun s => s.takeWhile keep

def signed (negative : Bool) (n : Nat) : Int := if negative then -n else n

def integer (negative : Bool) (n : Nat) (tooLarge : LexError.Cause) (start : Position) :
    Scan Lexeme :=
  match Number.int64? (signed negative n) with
  | some i => return .integer i
  | none => fail tooLarge start

/-- The code of the character after `0'`, whose quote is at `q`. A quote stands for itself,
doubled or not. -/
def charCode? (negative : Bool) (start q : Position) : Scan (Option Lexeme) := do
  match ← char? with
  | none =>
    putBack '\'' q
    return none
  | some (c, _) =>
    if c = '\\' then
      let code ← fun s => s.escape start
      return some (← integer negative ((code.map Char.toNat).getD 0) .radixOutOfRange start)
    else
      if c = '\'' then
        match ← char? with
        | some (d, p) => if d = '\'' then pure () else putBack d p
        | none => pure ()
      return some (← integer negative c.toNat .radixOutOfRange start)

def radixOf? : Char → Option Nat
  | 'x' => some 16
  | 'o' => some 8
  | 'b' => some 2
  | _ => none

def radixInteger? (negative : Bool) (start : Position) (radix : Nat) (r : Char) (p : Position) :
    Scan (Option Lexeme) := do
  match ← char? with
  | none =>
    putBack r p
    return none
  | some (d, q) =>
    if isDigitIn radix d then
      let digits := d :: (← takeWhile (isDigitIn radix))
      let n := digitsValue radix digits
      if n ≤ Int64.maxValue.toInt.toNat then return some (← integer negative n .radixOutOfRange start)
      else fail .radixOutOfRange start
    else
      putBack d q
      putBack r p
      return none

/-- A numeral that a leading zero introduces; `none` when the zero is a digit like any other. -/
def afterZero? (negative : Bool) (start : Position) : Scan (Option Lexeme) := do
  match ← char? with
  | none => return none
  | some (c, p) =>
    if c = '\'' then charCode? negative start p
    else match radixOf? c with
      | some radix => radixInteger? negative start radix c p
      | none =>
        putBack c p
        return none

def exponent (start : Position) : Scan Int := do
  match ← char? with
  | none => return 0
  | some (c, p) =>
    if c = 'e' || c = 'E' then
      let first ← char?
      let (negative, first) ← match first with
        | some ('-', _) => pure (true, ← char?)
        | some ('+', _) => pure (false, ← char?)
        | other => pure (false, other)
      match first with
      | some (d, _) =>
        if isDecimalDigit d then
          return Decimal.exponentValue negative (d :: (← takeWhile isDecimalDigit))
        else fail .malformedExponent start
      | none => fail .malformedExponent start
    else
      putBack c p
      return 0

def fraction? : Scan (Option (List Char)) := do
  match ← char? with
  | none => return none
  | some (c, p) =>
    if c = '.' then
      match ← char? with
      | none =>
        putBack c p
        return none
      | some (d, q) =>
        if isDecimalDigit d then return some (d :: (← takeWhile isDecimalDigit))
        else
          putBack d q
          putBack c p
          return none
    else
      putBack c p
      return none

def decimal (first : Char) (negative : Bool) (start : Position) : Scan Lexeme := do
  let whole := first :: (← takeWhile isDecimalDigit)
  match ← fraction? with
  | some fraction =>
    let x := Decimal.value whole fraction (← exponent start)
    return .float (if negative then x.neg else x)
  | none =>
    let text := if negative then '-' :: whole else whole
    integer negative (digitsValue 10 whole) (.integerOutOfRange (String.ofList text)) start

def numeral (first : Char) (negative : Bool) (start : Position) : Scan Lexeme := do
  if first = '0' then
    match ← afterZero? negative start with
    | some lexeme => return lexeme
    | none => decimal first negative start
  else decimal first negative start

end Scan

end Horn
