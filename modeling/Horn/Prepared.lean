import Horn.Symbol

namespace Horn

structure PreparedClause where
  clause : Clause
  key : Option SymbolKey
  marks : List GoalMark
  names : List (String × Term)
  deriving DecidableEq, Repr

def PreparedClause.isQuery (p : PreparedClause) : Bool := p.clause.head.isNone

end Horn
