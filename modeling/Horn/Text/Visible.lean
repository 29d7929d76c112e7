import Horn.Text.GraphemeExtend
import Horn.Text.Unprintable

namespace Horn.Text

/-- Letters that stand for a missing part of a syllable and are drawn as nothing. -/
def fillers : List CharRange :=
  [⟨0x115F, 0x1160, 1⟩, ⟨0x3164, 0x3164, 1⟩, ⟨0xFFA0, 0xFFA0, 1⟩]

/-- Marks that belong to the letter before them but are drawn beside it. -/
def spacedMarks : List CharRange := [⟨0xFF9E, 0xFF9F, 1⟩]

def isPrintable (c : Char) : Bool :=
  if c.toNat < 0x80 then 0x20 ≤ c.toNat && c.toNat < 0x7F
  else !covered unprintableRanges c && !covered fillers c

/-- Marks that are drawn on the character before them, so that they are not seen by themselves. -/
def isOverlaid (c : Char) : Bool := covered graphemeExtendRanges c && !covered spacedMarks c

def hexDigits (n : Nat) : String := String.ofList (Nat.toDigits 16 n)

def codePointSpelling (c : Char) : String := "\\u\x7b" ++ hexDigits c.toNat ++ "\x7d"

/-- Which quotes the surrounding text reserves, so that they are written with a backslash. -/
structure QuoteMarks where
  single : Bool
  double : Bool

def visibleChar (marks : QuoteMarks) (c : Char) : String :=
  if c == Char.ofNat 0 then "\\0"
  else if c == '\t' then "\\t"
  else if c == '\r' then "\\r"
  else if c == '\n' then "\\n"
  else if c == '\\' then "\\\\"
  else if c == '\'' && marks.single then "\\'"
  else if c == '"' && marks.double then "\\\""
  else if isPrintable c && !isOverlaid c then String.singleton c
  else codePointSpelling c

def loneChar (c : Char) : String := visibleChar ⟨true, true⟩ c

def visibleText (s : String) : String :=
  "\"" ++ String.join (s.toList.map (visibleChar ⟨false, true⟩)) ++ "\""

end Horn.Text
