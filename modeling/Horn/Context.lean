import Horn.Config
import Horn.Observer
import Horn.Operator.Declaration
import Horn.Reader.Basic

namespace Horn

/-- A rule by which terms or goals are replaced. `none` leaves them as they are. -/
structure Hook where
  name : String
  expandTerm : Term → Option (List Term)
  expandGoal : Term → Option Term

structure Pending where
  clause : Clause
  names : List (String × Term)
  deriving DecidableEq, Repr

structure Context where
  operators : OperatorTable
  config : Config
  symbols : SymbolTable
  hooks : List Hook
  conditionals : Conditional.Frames
  initialization : List Pending

/-- A step of a compilation that is watched by an observer. Changes made before an error stay. -/
abbrev Compiling (σ α : Type) := EStateM CompileError (Context × σ) α

namespace Context

def new (operators : OperatorTable) (config : Config) : Context :=
  ⟨operators, config, .empty, [], [], []⟩

def addHook (c : Context) (h : Hook) : Context := { c with hooks := c.hooks ++ [h] }

def isSkipping (c : Context) : Bool := c.conditionals.isSkipping

def readMode (c : Context) : ReadMode := ⟨c.operators, c.config.doubleQuotes⟩

end Context

namespace Compiling

variable {σ α : Type}

def context : Compiling σ Context := fun s => .ok s.1 s

def changeContext (f : Context → Context) : Compiling σ Unit := fun (c, s) => .ok () (f c, s)

def tell (f : σ → σ) : Compiling σ Unit := fun (c, s) => .ok () (c, f s)

def ask (w : Watching σ α) : Compiling σ α := fun (c, s) =>
  match w (c.operators, s) with
  | .ok a (ops, s) => .ok a ({ c with operators := ops }, s)
  | .error e (ops, s) => .error e ({ c with operators := ops }, s)

def ofExcept : Except CompileError α → Compiling σ α
  | .ok a => return a
  | .error e => throw e

def located (position : Text.Position) (x : Compiling σ α) : Compiling σ α := fun s =>
  match x s with
  | .ok a s => .ok a s
  | .error e s => .error (e.withPosition position) s

end Compiling

end Horn
