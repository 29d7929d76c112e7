import Horn.Preparation

/-!
# Compiling units

Each term is prepared, lowered and handed to the observer at once, so that it can change how the
next term is read. Only a fatal error ends the unit.
-/

namespace Horn

structure UnitReport where
  name : String
  clauses : Nat
  queries : Nat
  errors : List CompileError
  summary : Option UnitSummary
  deriving DecidableEq, Repr

def UnitReport.isClean (r : UnitReport) : Bool := r.errors.isEmpty

namespace SourceUnit

variable {σ : Type}

def attempt {α : Type} (x : Compiling σ α) : Compiling σ (Except CompileError α) := fun s =>
  match x s with
  | .ok a s => .ok (.ok a) s
  | .error e s => .ok (.error e) s

def addError (report : UnitReport) (e : CompileError) : UnitReport :=
  { report with errors := report.errors ++ [e] }

def record (report : UnitReport) (e : CompileError) : Compiling σ UnitReport :=
  if e.isFatal then throw e else return addError report e

def dispatch (o : Observer σ) (report : UnitReport) (output : Output) :
    Compiling σ UnitReport := do
  match output with
  | .unitClosed u =>
    Compiling.tell (o.unitClosed u)
    return { report with summary := some u }
  | .clause p =>
    if p.isQuery then
      match p.compileQuery with
      | .error e => record report e
      | .ok q =>
        let report := { report with queries := report.queries + 1 }
        match ← attempt (Compiling.ask (o.queryCompiled q)) with
        | .ok () => return report
        | .error e => record report e
    else
      match p.compileClause (← Compiling.context).config.chainRule with
      | .error e => record report e
      | .ok c =>
        let report := { report with clauses := report.clauses + 1 }
        match ← attempt (Compiling.ask (o.clauseCompiled c)) with
        | .ok () => return report
        | .error e => record report e

def dispatchAll (o : Observer σ) : UnitReport → List Output → Compiling σ UnitReport
  | report, [] => return report
  | report, output :: rest => do dispatchAll o (← dispatch o report output) rest

def advance (o : Observer σ) (report : UnitReport) (x : Compiling σ (List Output)) :
    Compiling σ UnitReport := do
  match ← attempt x with
  | .ok outputs => dispatchAll o report outputs
  | .error e => record report e

def readOne (o : Observer σ) (fuel : Nat) (report : UnitReport) :
    Except SyntaxError ReadTerm → Compiling σ (ForInStep UnitReport)
  | .error e => return .yield (addError report (.reading e))
  | .ok r => do
    if r.term.isAtom "end_of_file" then return .done report
    else return .yield (← advance o report (Preparation.term o fuel r))

/-- Compile the terms of a text up to its end or to the term `end_of_file`. -/
def readAll (o : Observer σ) (fuel : Nat) (reader : Reader) (report : UnitReport) :
    Compiling σ UnitReport :=
  reader.forEach (do return (← Compiling.context).readMode) (readOne o fuel) reader.rounds report

def compile (o : Observer σ) (fuel : Nat) (name : String) (reader : Reader) :
    Compiling σ UnitReport := do
  Preparation.openUnit o name
  let report ← readAll o fuel reader ⟨name, 0, 0, [], none⟩
  advance o report (Preparation.closeUnit o fuel)

end SourceUnit

end Horn
