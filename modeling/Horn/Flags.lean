namespace Horn

inductive DoubleQuotes where
  | codes
  | chars
  | atom
  deriving DecidableEq, Repr

inductive Unknown where
  | error
  | fail
  deriving DecidableEq, Repr

namespace DoubleQuotes

def text : DoubleQuotes → String
  | .codes => "codes"
  | .chars => "chars"
  | .atom => "atom"

def ofText? (s : String) : Option DoubleQuotes := [codes, chars, atom].find? (·.text = s)

end DoubleQuotes

namespace Unknown

def text : Unknown → String
  | .error => "error"
  | .fail => "fail"

def ofText? (s : String) : Option Unknown := [error, fail].find? (·.text = s)

end Unknown

end Horn
