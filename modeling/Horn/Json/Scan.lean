import Horn.Text.CharClass

/-!
# Scanning JSON text

Texts are strict: no comments, no trailing commas, no leading zeros. In a value that is skipped,
half of a surrogate pair is passed over.
-/

namespace Horn.Json

open Horn.Text

abbrev Scan (α : Type) := StateT (List Char) Option α

namespace Scan

def isBlankChar (c : Char) : Bool := c = ' ' || c = '\n' || c = '\t' || c = '\r'

def blanks : Scan Unit := modify (·.dropWhile isBlankChar)

def next : Scan Char := do
  match ← get with
  | [] => failure
  | c :: rest =>
    set rest
    return c

def peek : Scan Char := do
  blanks
  match ← get with
  | [] => failure
  | c :: _ => return c

def expect (c : Char) : Scan Unit := do
  if (← next) = c then return else failure

def mark (c : Char) : Scan Unit := do
  blanks
  expect c

def word (w : String) : Scan Unit := w.toList.forM expect

inductive Piece where
  | char (c : Char)
  | unit (n : Nat)

def escaped? (c : Char) : Option Char :=
  [('"', '"'), ('\\', '\\'), ('/', '/'), ('b', Char.ofNat 8), ('f', Char.ofNat 12), ('n', '\n'),
    ('r', '\r'), ('t', '\t')].lookup c

def hexValue? (digits : List Char) : Option Nat :=
  if digits.all (isDigitIn 16) then some (digitsValue 16 digits) else none

def pieces : List Char → Option (List Piece × List Char)
  | [] => none
  | '"' :: rest => some ([], rest)
  | '\\' :: 'u' :: a :: b :: c :: d :: rest =>
    match hexValue? [a, b, c, d], pieces rest with
    | some n, some (ps, rest) => some (.unit n :: ps, rest)
    | _, _ => none
  | '\\' :: c :: rest =>
    match escaped? c, pieces rest with
    | some c, some (ps, rest) => some (.char c :: ps, rest)
    | _, _ => none
  | c :: rest =>
    if c = '\\' || c.toNat < 32 then none
    else (pieces rest).map fun (ps, rest) => (.char c :: ps, rest)

def isHigh (n : Nat) : Bool := 0xD800 ≤ n && n < 0xDC00

def isLow (n : Nat) : Bool := 0xDC00 ≤ n && n < 0xE000

/-- The characters that the parts spell. Surrogates have to stand in pairs. -/
def spelled? : List Piece → Option (List Char)
  | [] => some []
  | .char c :: rest => (spelled? rest).map (c :: ·)
  | .unit n :: .unit m :: rest =>
    if isHigh n then
      if isLow m then
        (spelled? rest).map (Char.ofNat (0x10000 + (n - 0xD800) * 0x400 + (m - 0xDC00)) :: ·)
      else none
    else if isLow n then none
    else (spelled? (.unit m :: rest)).map (Char.ofNat n :: ·)
  | .unit n :: rest =>
    if isHigh n || isLow n then none else (spelled? rest).map (Char.ofNat n :: ·)

def stringPieces : Scan (List Piece) := do
  mark '"'
  match pieces (← get) with
  | none => failure
  | some (ps, rest) =>
    set rest
    return ps

def string : Scan String := do
  match spelled? (← stringPieces) with
  | none => failure
  | some cs => return String.ofList cs

def takeDigits : Scan (List Char) := fun cs =>
  some (cs.takeWhile isDecimalDigit, cs.dropWhile isDecimalDigit)

def someDigits : Scan (List Char) := do
  let ds ← takeDigits
  if ds.isEmpty then failure else return ds

def wholeDigits : Scan (List Char) := do
  let ds ← someDigits
  if ds.head? = some '0' && 1 < ds.length then failure else return ds

def optionally (choices : List Char) : Scan Bool := fun cs =>
  match cs with
  | c :: rest => if choices.contains c then some (true, rest) else some (false, cs)
  | [] => some (false, [])

def natural : Scan Nat := do
  blanks
  let n := digitsValue 10 (← wholeDigits)
  if (← optionally ['.', 'e', 'E']) || UInt64.size ≤ n then failure else return n

def skipNumber : Scan Unit := do
  let _ ← optionally ['-']
  let _ ← wholeDigits
  if ← optionally ['.'] then
    let _ ← someDigits
  if ← optionally ['e', 'E'] then
    let _ ← optionally ['+', '-']
    let _ ← someDigits

def boolean : Scan Bool := do
  if (← peek) = 't' then
    word "true"
    return true
  else
    word "false"
    return false

mutual

/-- Pass over a value. The bound is on the nesting of calls. -/
def skipValue : Nat → Scan Unit
  | 0 => failure
  | n + 1 => do
    let c ← peek
    if c = 'n' then word "null"
    else if c = 't' then word "true"
    else if c = 'f' then word "false"
    else if c = '"' then
      let _ ← stringPieces
    else if c = '[' then
      expect '['
      if (← peek) = ']' then expect ']' else skipItems n
    else if c = '\x7b' then
      expect '\x7b'
      if (← peek) = '\x7d' then expect '\x7d' else skipFields n
    else skipNumber

def skipItems : Nat → Scan Unit
  | 0 => failure
  | n + 1 => do
    skipValue n
    blanks
    if ← optionally [','] then skipItems n else expect ']'

def skipFields : Nat → Scan Unit
  | 0 => failure
  | n + 1 => do
    let _ ← stringPieces
    mark ':'
    skipValue n
    blanks
    if ← optionally [','] then skipFields n else expect '\x7d'

end

def skip : Scan Unit := fun cs => skipValue (2 * cs.length + 2) cs

def all {α : Type} (scan : Scan α) (text : String) : Option α := do
  let (a, rest) ← scan text.toList
  if rest.all isBlankChar then some a else none

end Scan

end Horn.Json
