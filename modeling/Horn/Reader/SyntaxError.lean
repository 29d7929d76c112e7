import Horn.Token.Basic
import Horn.Token.LexError

namespace Horn

open Horn.Text

inductive SyntaxError.Cause where
  | lexical (cause : LexError.Cause)
  | missingParen
  | missingDelimiter
  | missingCurly
  | prematureEnd
  | operatorExpected
  | expressionExpected
  /-- The budget of nested calls is spent. Readers are given enough for any text. -/
  | tooDeep
  deriving DecidableEq, Repr

structure SyntaxError where
  cause : SyntaxError.Cause
  position : Position
  found : Option Lexeme
  deriving DecidableEq, Repr

namespace SyntaxError

def ofLex (e : LexError) : SyntaxError := ⟨.lexical e.cause, e.position, none⟩

def atToken (t : Token) (cause : Cause) : SyntaxError := ⟨cause, t.position, some t.lexeme⟩

def foundText (e : SyntaxError) : String := (e.found.map Lexeme.describe).getD ""

def message (e : SyntaxError) : String :=
  match e.cause with
  | .lexical cause => LexError.message ⟨cause, e.position⟩
  | .missingParen => "missing closing ')'"
  | .missingDelimiter => "missing closing delimiter"
  | .missingCurly => "missing closing '\x7d'"
  | .prematureEnd => "premature end of input"
  | .operatorExpected => "operator expected after expression, found " ++ e.foundText
  | .expressionExpected => "expression expected, found " ++ e.foundText
  | .tooDeep => "term nested too deeply"

def text (e : SyntaxError) : String := "Parse error at " ++ e.position.text ++ ": " ++ e.message

end SyntaxError

end Horn
