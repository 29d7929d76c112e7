import Horn.Builtin.Catalogue

namespace Horn

inductive Expected where
  | callable
  | evaluable
  | integer
  | float
  | atom
  | compound
  | notNegative
  deriving DecidableEq, Repr

inductive EvaluationFault where
  | undefined
  | overflow
  | zeroDivisor
  deriving DecidableEq, Repr

inductive DomainFault where
  | operator (e : OperatorError)
  | emptyList
  | notDeterministic (b : Builtin)
  deriving DecidableEq, Repr

inductive ExecutionError where
  | unsetQuery
  | unknownProcedure (f : Functor)
  | instantiation
  | type (expected : Expected) (found : String)
  | evaluation (fault : EvaluationFault)
  | domain (fault : DomainFault)
  deriving DecidableEq, Repr

def Expected.text : Expected → String
  | .callable => "callable"
  | .evaluable => "evaluable"
  | .integer => "integer"
  | .float => "float"
  | .atom => "atom"
  | .compound => "compound"
  | .notNegative => "not_less_than_zero"

def EvaluationFault.text : EvaluationFault → String
  | .undefined => "undefined"
  | .overflow => "int_overflow"
  | .zeroDivisor => "zero_divisor"

def DomainFault.text : DomainFault → String
  | .operator e => e.message
  | .emptyList => "non_empty_list"
  | .notDeterministic b => b.text ++ " is not a deterministic built-in"

def ExecutionError.message : ExecutionError → String
  | .unsetQuery => "No query has been set"
  | .unknownProcedure f => "Unknown procedure: " ++ f.name ++ "/" ++ toString f.arity
  | .instantiation => "Arguments are not sufficiently instantiated"
  | .type expected found => "Type error: expected " ++ expected.text ++ ", found " ++ found
  | .evaluation fault => "Evaluation error: " ++ fault.text
  | .domain fault => "Domain error: " ++ fault.text

def ExecutionError.notA (expected : Expected) (t : Term) : ExecutionError := .type expected t.text

end Horn
