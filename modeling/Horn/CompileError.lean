import Horn.Clause
import Horn.ExecutionError
import Horn.Grammar
import Horn.Reader.SyntaxError

namespace Horn

open Horn.Text

inductive Conditional.Word where
  | opening
  | elif
  | otherwise
  | endif
  deriving DecidableEq, Repr

def Conditional.Word.text : Conditional.Word → String
  | .opening => "if"
  | .elif => "elif"
  | .otherwise => "else"
  | .endif => "endif"

inductive Conditional.Fault where
  | unmatched (word : Conditional.Word)
  | misplaced (word after : Conditional.Word)
  | unterminated (word : Conditional.Word)
  deriving DecidableEq, Repr

def Conditional.Fault.message : Conditional.Fault → String
  | .unmatched word => word.text ++ " without matching if"
  | .misplaced word after => word.text ++ " after " ++ after.text
  | .unterminated word => "unterminated " ++ word.text ++ " at end of file"

inductive SourceFault where
  | clause (e : ClauseError)
  | grammar (e : GrammarError)
  | staticProcedure (f : Functor)
  | operator (e : OperatorError)
  | encoding (name : String)
  | indicator (t : Term)
  | flagValue (flag : String) (value : Term)
  | unknownFlag (flag : Term)
  | unsettled (goal : Term) (rounds : Nat)
  | condition (e : ExecutionError)
  /-- A condition that only a run of the program could decide. -/
  | notStatic
  | execution (e : ExecutionError)
  deriving DecidableEq, Repr

def SourceFault.message : SourceFault → String
  | .clause e => e.message
  | .grammar e => e.message
  | .staticProcedure f => "permission error: cannot modify static procedure " ++ f.text
  | .operator e => e.message
  | .encoding name => "unsupported encoding: " ++ name
  | .indicator t => "predicate indicator expected, found " ++ t.text
  | .flagValue flag value => "invalid value for " ++ flag ++ ": " ++ value.text
  | .unknownFlag flag => "unknown flag: " ++ flag.text
  | .unsettled goal rounds =>
    "goal expansion of " ++ goal.text ++ " did not settle after " ++ toString rounds ++ " rounds"
  | .condition e => "cannot evaluate condition: " ++ e.message
  | .notStatic => "condition cannot be evaluated at compile time"
  | .execution e => e.message

inductive InternalFault where
  | goal (t : Term)
  | noHead
  | headFunctor (t : Term)
  | noKey (f : Functor)
  | notQuery (c : Clause)
  | noCutLevel
  | noQuery
  deriving DecidableEq, Repr

def InternalFault.message : InternalFault → String
  | .goal t => "goal " ++ t.text ++ " reached the instruction compiler"
  | .noHead => "program clause without head"
  | .headFunctor t => "clause head " ++ t.text ++ " has no functor"
  | .noKey f => "no symbol key for " ++ f.text
  | .notQuery c => "query expected, found clause " ++ c.text
  | .noCutLevel => "cut after a call without a cut level"
  | .noQuery => "query produced no clause"

inductive CompileError where
  | reading (e : SyntaxError)
  | source (fault : SourceFault) (clause : String) (position : Position)
  | conditional (fault : Conditional.Fault) (position : Position)
  | internal (fault : InternalFault)
  | unreadable
  | malformed
  | outOfFuel
  deriving DecidableEq, Repr

namespace CompileError

def message : CompileError → String
  | .reading e => e.text
  | .source fault clause position =>
    "Error at " ++ position.text ++ ": " ++ fault.message ++ "\n    in: " ++ clause
  | .conditional fault position =>
    "Conditional compilation error at " ++ position.text ++ ": " ++ fault.message
  | .internal fault => "Internal compiler error: " ++ fault.message
  | .unreadable => "I/O error"
  | .malformed => "Serialization error"
  | .outOfFuel => "out of fuel"

def withPosition (position : Position) : CompileError → CompileError
  | .source fault clause p => .source fault clause (if p.line = 0 then position else p)
  | e => e

def isFatal : CompileError → Bool
  | .conditional _ _ | .internal _ | .unreadable | .outOfFuel => true
  | .reading _ | .source _ _ _ | .malformed => false

end CompileError

end Horn
