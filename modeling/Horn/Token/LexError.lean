import Horn.Text.Position
import Horn.Text.Visible

namespace Horn

open Horn.Text

inductive LexError.Cause where
  | undecodable
  | readFailed (reason : String)
  | unterminatedComment
  | unterminatedQuote
  | unexpected (c : Char)
  | radixOutOfRange
  | integerOutOfRange (digits : String)
  | malformedExponent
  | undefinedEscape (c : Char)
  | malformedNumericEscape
  | invalidCharCode
  /-- The bound on a search for the end of a clause is spent. Only a reader that keeps reporting
  malformed data spends it. -/
  | unending
  deriving DecidableEq, Repr

structure LexError where
  cause : LexError.Cause
  position : Position
  deriving DecidableEq, Repr

namespace LexError

def message (e : LexError) : String :=
  match e.cause with
  | .undecodable => "malformed character sequence"
  | .readFailed reason => "read failed: " ++ reason
  | .unterminatedComment => "unterminated block comment"
  | .unterminatedQuote => "unterminated quoted text"
  | .unexpected c => "unexpected character '" ++ loneChar c ++ "'"
  | .radixOutOfRange => "integer literal out of range"
  | .integerOutOfRange digits => "integer literal out of range: " ++ digits
  | .malformedExponent => "malformed float exponent"
  | .undefinedEscape c => "undefined escape sequence '\\" ++ String.singleton c ++ "'"
  | .malformedNumericEscape => "malformed numeric escape"
  | .invalidCharCode => "invalid character code in escape"
  | .unending => "no end of clause"

/-- The source itself failed, so no later token can be trusted. -/
def isReadFailure (e : LexError) : Bool :=
  match e.cause with
  | .readFailed _ => true
  | _ => false

def isUnterminated (e : LexError) : Bool :=
  match e.cause with
  | .unterminatedComment | .unterminatedQuote => true
  | _ => false

end LexError

end Horn
