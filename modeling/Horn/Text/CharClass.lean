import Horn.Text.Alphabetic
import Horn.Text.Numeric
import Horn.Text.Uppercase
import Horn.Text.Lowercase

/-!
# Character classes of clause text

The properties are those of Unicode 17.0. A symbol character is one of a fixed ASCII set, or any
character above ASCII that is no letter, number, blank or control character.
-/

namespace Horn.Text

def isAscii (c : Char) : Bool := c.toNat < 0x80

def isAlphabetic (c : Char) : Bool :=
  if isAscii c then c.isAlpha else covered alphabeticRanges c

def isNumeric (c : Char) : Bool :=
  if isAscii c then c.isDigit else covered numericRanges c

def isAlphanumeric (c : Char) : Bool := isAlphabetic c || isNumeric c

def isUppercase (c : Char) : Bool :=
  if isAscii c then c.isUpper else covered uppercaseRanges c

def isLowercase (c : Char) : Bool :=
  if isAscii c then c.isLower else covered lowercaseRanges c

/-- The code points with the Unicode property White_Space. -/
def blankRanges : List CharRange :=
  [⟨0x9, 0xD, 1⟩, ⟨0x20, 0x20, 1⟩, ⟨0x85, 0x85, 1⟩, ⟨0xA0, 0xA0, 1⟩, ⟨0x1680, 0x1680, 1⟩,
   ⟨0x2000, 0x200A, 1⟩, ⟨0x2028, 0x2029, 1⟩, ⟨0x202F, 0x202F, 1⟩, ⟨0x205F, 0x205F, 1⟩,
   ⟨0x3000, 0x3000, 1⟩]

def isBlank (c : Char) : Bool := covered blankRanges c

def isControl (c : Char) : Bool := c.toNat < 0x20 || (0x7F ≤ c.toNat && c.toNat < 0xA0)

def asciiSymbols : List Char :=
  ['+', '-', '*', '/', '\\', '^', '<', '>', '=', '~', ':', '.', '?', '@', '#', '&', '$']

def isSymbol (c : Char) : Bool :=
  asciiSymbols.contains c || (!isAscii c && !isAlphanumeric c && !isBlank c && !isControl c)

def isWordChar (c : Char) : Bool := isAlphanumeric c || c == '_'

def isDecimalDigit (c : Char) : Bool := c.isDigit

def digitValue? (c : Char) : Option Nat :=
  if c.isDigit then some (c.toNat - '0'.toNat)
  else if 'a' ≤ c && c ≤ 'z' then some (c.toNat - 'a'.toNat + 10)
  else if 'A' ≤ c && c ≤ 'Z' then some (c.toNat - 'A'.toNat + 10)
  else none

def isDigitIn (radix : Nat) (c : Char) : Bool :=
  match digitValue? c with
  | some v => v < radix
  | none => false

/-- The number that a run of digits writes in `radix`. Characters that are no digits count as zero. -/
def digitsValue (radix : Nat) (digits : List Char) : Nat :=
  digits.foldl (fun acc c => acc * radix + (digitValue? c).getD 0) 0

end Horn.Text
