import Horn.Conditional
import Horn.Event

namespace Horn

abbrev Watching (σ α : Type) := EStateM CompileError (OperatorTable × σ) α

structure Observer (σ : Type) where
  clauseCompiled : CompiledClause → Watching σ Unit
  queryCompiled : CompiledQuery → Watching σ Unit
  unitOpened : String → σ → σ
  unitClosed : UnitSummary → σ → σ
  declared : Declaration → σ → σ
  warned : Warning → σ → σ
  condition : Term → Watching σ Bool
  expandTerm : Term → Watching σ (Option (List Term))
  expandGoal : Term → Watching σ (Option Term)

structure EventLog where
  events : Array Event
  clauses : Array CompiledClause
  queries : Array CompiledQuery
  deriving DecidableEq, Repr

namespace EventLog

def empty : EventLog := ⟨#[], #[], #[]⟩

def add (log : EventLog) (e : Event) : EventLog := { log with events := log.events.push e }

def warnings (log : EventLog) : List Warning :=
  log.events.toList.filterMap fun
    | .warned w => some w
    | _ => none

def text (log : EventLog) : String := (Json.array (log.events.toList.map Event.toJson)).text

/-- The observer that records what it is told. It decides only conditions that need no run and
expands nothing. -/
def observer : Observer EventLog where
  clauseCompiled c := modify fun (ops, log) =>
    let log := log.add (.clauseCompiled c.functor c.code.length c.clause.position)
    (ops, { log with clauses := log.clauses.push c })
  queryCompiled q := modify fun (ops, log) =>
    let log := log.add (.queryCompiled q.goal.text q.code.length)
    (ops, { log with queries := log.queries.push q })
  unitOpened name log := log.add (.unitOpened name)
  unitClosed u log := log.add (.unitClosed u)
  declared d log := log.add (.declared d)
  warned w log := log.add (.warned w)
  condition goal := do
    match Conditional.evaluateStatic (← get).1 goal with
    | .ok holds => return holds
    | .error e => throw e
  expandTerm _ := return none
  expandGoal _ := return none

end EventLog

end Horn
