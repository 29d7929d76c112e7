import Horn.Number
import Horn.Text.Position

namespace Horn

open Horn.Text

inductive Lexeme where
  | atom (name : String) (quoted : Bool)
  | variable (name : String)
  | integer (n : Int64)
  | float (x : Binary64)
  | doubleQuoted (text : String)
  | backQuoted (text : String)
  /-- `(` after layout or at the start of the text. -/
  | openParen
  /-- `(` directly after another token. -/
  | openCall
  | closeParen
  | openBracket
  | closeBracket
  | openCurly
  | closeCurly
  | comma
  | bar
  | clauseEnd
  | inputEnd
  deriving DecidableEq, Repr

structure Token where
  lexeme : Lexeme
  position : Position
  layoutBefore : Bool
  deriving DecidableEq, Repr

namespace Lexeme

def text : Lexeme → String
  | .atom name _ | .variable name => name
  | .integer n => toString n.toInt
  | .float x => Decimal.floatText x
  | .doubleQuoted text | .backQuoted text => text
  | .openParen | .openCall => "("
  | .closeParen => ")"
  | .openBracket => "["
  | .closeBracket => "]"
  | .openCurly => "\x7b"
  | .closeCurly => "\x7d"
  | .comma => ","
  | .bar => "|"
  | .clauseEnd => "."
  | .inputEnd => ""

def quoted : Lexeme → Bool
  | .atom _ quoted => quoted
  | .doubleQuoted _ | .backQuoted _ => true
  | _ => false

def describe : Lexeme → String
  | .atom name _ => "atom '" ++ name ++ "'"
  | .variable name => "variable '" ++ name ++ "'"
  | .integer n => "integer '" ++ toString n.toInt ++ "'"
  | .float x => "float '" ++ Decimal.floatText x ++ "'"
  | .doubleQuoted text => "string \"" ++ text ++ "\""
  | .backQuoted _ => "back-quoted string"
  | .clauseEnd => "end of clause"
  | .inputEnd => "end of input"
  | delimiter => "'" ++ delimiter.text ++ "'"

def isEnd : Lexeme → Bool
  | .clauseEnd | .inputEnd => true
  | _ => false

end Lexeme

end Horn
