import Horn.Token.Numeral

/-!
# Lexer

At a place where a term may begin, a minus sign directly before a digit belongs to the number.
-/

namespace Horn

open Horn.Text

namespace Scan

def name (first : Char) (keep : Char → Bool) : Scan String := do
  return String.ofList (first :: (← takeWhile keep))

def symbolAtom (first : Char) : Scan Lexeme := do
  return .atom (← name first isSymbol) false

def quoted (quote : Char) (start : Position) : Scan String := fun s =>
  (s.quotedText quote start).map String.ofList

/-- Delimiters that are whole tokens. `glued` tells that a token stands directly before. -/
def delimiter? (glued : Bool) : Char → Option Lexeme
  | '(' => some (if glued then .openCall else .openParen)
  | ')' => some .closeParen
  | '[' => some .openBracket
  | ']' => some .closeBracket
  | '\x7b' => some .openCurly
  | '\x7d' => some .closeCurly
  | ',' => some .comma
  | _ => none

def barOrAtom : Scan Lexeme := do
  if (← peek?) = some '|' then
    let _ ← char?
    return .atom "||" false
  else return .bar

/-- A point ends the clause when a blank, a comment or nothing follows. -/
def pointOrAtom : Scan Lexeme := do
  match ← peek? with
  | none => return .clauseEnd
  | some c => if isBlank c || c = '%' then return .clauseEnd else symbolAtom '.'

def minusOrNumeral (start : Position) : Scan Lexeme := do
  match ← char? with
  | some (d, p) =>
    if isDecimalDigit d then numeral d true start
    else
      putBack d p
      symbolAtom '-'
  | none => symbolAtom '-'

def lexeme (glued valued : Bool) (c : Char) (p : Position) : Scan Lexeme :=
  match delimiter? glued c with
  | some lexeme => return lexeme
  | none =>
    if c = '|' then barOrAtom
    else if c = '!' || c = ';' then return .atom (String.singleton c) false
    else if isDecimalDigit c then numeral c false p
    else if c = '_' || isUppercase c then return .variable (← name c isWordChar)
    else if isAlphabetic c then return .atom (← name c isWordChar) false
    else if c = '\'' then return .atom (← quoted c p) true
    else if c = '"' then return .doubleQuoted (← quoted c p)
    else if c = '`' then return .backQuoted (← quoted c p)
    else if c = '.' then pointOrAtom
    else if c = '-' && valued then minusOrNumeral p
    else if isSymbol c then symbolAtom c
    else fail (.unexpected c) p

/-- The next token. `first` tells that no token came before it. -/
def token (first valued : Bool) : Scan Token := do
  let layout ← fun s => s.skipLayout false
  match ← char? with
  | none => return ⟨.inputEnd, (← get).position, layout⟩
  | some (c, p) => return ⟨← lexeme (!layout && !first) valued c p, p, layout⟩

end Scan

structure Lexer where
  stream : CharStream
  last : Option Token
  deriving DecidableEq, Repr

namespace Lexer

abbrev Result (α : Type) := EStateM.Result LexError Lexer α

def ofSource (source : Source) : Lexer := ⟨.ofSource source, none⟩

def position (l : Lexer) : Position := l.stream.position

def next (valued : Bool) (l : Lexer) : Result Token :=
  match Scan.token l.last.isNone valued l.stream with
  | .ok t s => .ok t ⟨s, some t⟩
  | .error e s => .error e { l with stream := s }

/-- Skip at most `n` tokens and errors, up to and including an end. Stops at errors that leave the
place of the next clause unknown. -/
def skipTokens : Nat → Lexer → Result Unit
  | 0, l => .error ⟨.unending, l.stream.position⟩ l
  | n + 1, l =>
    match Scan.token l.last.isNone false l.stream with
    | .ok t s =>
      if t.lexeme.isEnd then .ok () ⟨s, some t⟩ else skipTokens n { l with stream := s }
    | .error e s =>
      if e.isReadFailure || e.isUnterminated then .error e { l with stream := s }
      else skipTokens n { l with stream := s }

/-- Skip to the end of the clause. Every token and every error that is passed over takes something
out of the stream, so its size bounds their number, unless the reader refuses to go on. -/
def skipToEnd (l : Lexer) : Result Unit := skipTokens (l.stream.size + 1) l

end Lexer

end Horn
