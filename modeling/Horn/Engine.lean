import Horn.Machine
import Horn.Observer

namespace Horn

structure Solution where
  bindings : List (String × Term)
  deriving DecidableEq, Repr

namespace Solution

def get? (s : Solution) (name : String) : Option Term := s.bindings.lookup name

def text (s : Solution) : String :=
  if s.bindings.isEmpty then "true"
  else ", ".intercalate (s.bindings.map fun (name, value) => name ++ " = " ++ value.text)

end Solution

structure Engine where
  domain : Domain
  unknown : Unknown
  query : Option CompiledQuery
  output : String

abbrev Running (α : Type) := EStateM Halt (OperatorTable × Engine) α

namespace Engine

def new (unknown : Unknown) : Engine := ⟨.empty, unknown, none, ""⟩

def program (e : Engine) : Program := .ofDomain e.domain e.unknown

def after (e : Engine) (w : World) : OperatorTable × Engine :=
  (w.operators, { e with output := w.output })

def machine (e : Engine) (ops : OperatorTable) (count : Nat) (goal : Term) : Machine :=
  .start ⟨(Bindings.empty.reserve count).2, ops, e.output⟩ goal

def solveOnce (fuel : Nat) (goal : Term) : Running (Option Term) := fun (ops, e) =>
  match Machine.run e.program fuel false (e.machine ops goal.idBound goal) with
  | .exhausted m => .ok none (e.after m.world)
  | .halted h m => .error h (e.after m.world)
  | .solution m =>
    match m.world.bindings.resolve? fuel goal with
    | some t => .ok (some t) (e.after m.world)
    | none => .error .outOfFuel (e.after m.world)

def values? (fuel : Nat) (b : Bindings) : List (String × Term) → Option (List (String × Term))
  | [] => some []
  | (name, v) :: rest => do
    let value ← b.resolve? fuel v
    let more ← values? fuel b rest
    return if value.same v then more else (name, value) :: more

/-- The answers from a machine, at most `limit` of them, after those already found; and why the
search stopped early. -/
def answersFrom (p : Program) (fuel : Nat) (names : List (String × Term)) :
    Nat → Bool → Machine → List Solution → List Solution × Option Halt × World
  | 0, _, m, found => (found.reverse, none, m.world)
  | limit + 1, failed, m, found =>
    match Machine.run p fuel failed m with
    | .exhausted m => (found.reverse, none, m.world)
    | .halted h m => (found.reverse, some h, m.world)
    | .solution m =>
      match values? fuel m.world.bindings names with
      | none => (found.reverse, some .outOfFuel, m.world)
      | some bindings => answersFrom p fuel names limit true m (⟨bindings⟩ :: found)

/-- The variables that answers tell of: those whose names do not begin with an underscore. -/
def shownNames (names : List (String × Term)) : List (String × Term) :=
  names.filter fun (name, _) => name.toList.head? ≠ some '_'

/-- The first answers to the current query, at most `limit` of them, and the error that ended the
search if one did. Each call starts the query afresh. -/
def answers (fuel limit : Nat) : Running (List Solution × Option Halt) := fun (ops, e) =>
  match e.query with
  | none => .error (.raised .unsetQuery) (ops, e)
  | some q =>
    let count := max q.goal.idBound q.clause.idBound
    let (found, halt, w) :=
      answersFrom e.program fuel (shownNames q.names) limit false (e.machine ops count q.goal) []
    .ok (found, halt) (e.after w)

def firstAnswer (fuel : Nat) : Running (Option Solution) := do
  match ← answers fuel 1 with
  | (s :: _, _) => return some s
  | ([], some h) => throw h
  | ([], none) => return none

def allAnswers (fuel : Nat) : Running (List Solution) := do
  match ← answers fuel fuel with
  | (_, some h) => throw h
  | (found, none) => return found

def addClause (e : Engine) (c : CompiledClause) : Engine :=
  { e with domain := (e.domain.addClause c).2 }

def declareDynamic (e : Engine) (f : Functor) : Engine :=
  { e with domain := e.domain.declareDynamic f }

def takeOutput (e : Engine) : String × Engine := (e.output, { e with output := "" })

def unknownText : Unknown → String
  | .error => "Error"
  | .fail => "Fail"

def summary (e : Engine) : String :=
  let query := match e.query with
    | none => "None"
    | some q => "Some(" ++ Text.visibleText q.goal.text ++ ")"
  "Engine \x7b predicates: " ++ toString e.domain.predicates.size ++ ", unknown: " ++
    unknownText e.unknown ++ ", query: " ++ query ++ " \x7d"

def watched {α : Type} (clause : String) (position : Text.Position) (r : Running α) :
    Watching Engine α := fun s =>
  match r s with
  | .ok a s => .ok a s
  | .error (.raised e) s => .error (.source (.execution e) clause position) s
  | .error .outOfFuel s => .error .outOfFuel s

def expandBy (fuel : Nat) (name : String) (t : Term) : Running (Option Term) := do
  if (← get).2.domain.defines ⟨name, 2⟩ then
    let goal := Term.compound name [t, .var "Expanded" t.idBound]
    return (← solveOnce fuel goal).bind (·.arg? 1)
  else return none

def renumberVar (name : String) (id : Nat) (seen : List (Nat × Term)) :
    Term × List (Nat × Term) :=
  match seen.lookup id with
  | some v => (v, seen)
  | none =>
    let v := Term.var name seen.length
    (v, (id, v) :: seen)

def renumber (t : Term) : Term := (t.mapVarsWith renumberVar []).1

def declare (e : Engine) : Declaration → Engine
  | .dynamic f => e.declareDynamic f
  | .multifile f => { e with domain := (e.domain.add (.empty f)).2 }
  | .flag name value =>
    if name = "unknown" then { e with unknown := (Unknown.ofText? value).getD e.unknown } else e
  | .discontiguous _ => e

def observer (fuel : Nat) : Observer Engine where
  clauseCompiled c := modify fun (ops, e) => (ops, e.addClause c)
  queryCompiled q := do
    let _ ← watched (":- " ++ q.goal.text) q.clause.position (solveOnce fuel q.goal)
  unitOpened _ e := e
  unitClosed _ e := e
  declared d e := e.declare d
  warned _ e := e
  condition goal := do
    return (← watched goal.text .unknown (solveOnce fuel goal)).isSome
  expandTerm t := do
    match ← watched t.text .unknown (expandBy fuel "term_expansion" t) with
    | none => return none
    | some expanded => return some ((expanded.items?.getD [expanded]).map renumber)
  expandGoal goal := watched goal.text .unknown (expandBy fuel "goal_expansion" goal)

end Engine

end Horn
