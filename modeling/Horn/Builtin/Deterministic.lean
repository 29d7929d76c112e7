import Horn.Builtin.World
import Horn.Operator.Declaration
import Horn.Term.Order

/-!
# Deterministic built-ins

Those with several answers give them as a disjunction to be solved in their place.
-/

namespace Horn

inductive Verdict where
  | succeed
  | fail
  | solve (goal : Term)
  deriving DecidableEq, Repr

namespace Verdict

def ofBool (holds : Bool) : Verdict := if holds then succeed else fail

def anyOf : List Term → Verdict
  | [] => fail
  | goal :: rest => solve (go goal rest)
where
  go : Term → List Term → Term
    | goal, [] => goal
    | goal, next :: rest => .compound ";" [goal, go next rest]

end Verdict

namespace Builtin

def equation (a b : Term) : Term := .compound "=" [a, b]

def nameAndArity (t : Term) : Term × Nat :=
  if t.isStructure then (.atom (t.name?.getD ""), t.arity) else (t, 0)

def freshArgs : Nat → Action (List Term)
  | 0 => return []
  | n + 1 => do
    let v ← Action.fresh
    return v :: (← freshArgs n)

def givenArity : Term → Action Nat
  | .number (.int n) =>
    if 0 ≤ n.toInt then return n.toInt.toNat
    else Action.raise (.notA .notNegative (.int n))
  | .var _ _ => Action.raise .instantiation
  | t => Action.raise (.notA .integer t)

def runFunctor (fuel : Nat) (term name arity : Term) : Action Verdict := do
  let term ← Action.walk term
  if !term.isVar then
    let (n, a) := nameAndArity term
    if ← Action.unify fuel name n then
      return .ofBool (← Action.unify fuel arity (.int (Int64.ofNat a)))
    else return .fail
  else
    let name ← Action.walk name
    let arity ← givenArity (← Action.walk arity)
    if name.isVar then Action.raise .instantiation
    else if arity = 0 && name.isAtomic then return .ofBool (← Action.unify fuel term name)
    else match name with
      | .atom f =>
        let args ← freshArgs arity
        return .ofBool (← Action.unify fuel term (.build f args))
      | t => Action.raise (.notA .atom t)

/-- `n` counts from one. -/
def nthArg? (args : List Term) (n : Int64) : Option Term :=
  if 1 ≤ n.toInt then args[n.toInt.toNat - 1]? else none

def runArg (fuel : Nat) (n term value : Term) : Action Verdict := do
  let term ← Action.walk term
  if term.isVar then Action.raise .instantiation
  else if !term.isStructure then Action.raise (.notA .compound term)
  else match ← Action.walk n with
    | .number (.int i) =>
      match nthArg? term.args i with
      | some a => return .ofBool (← Action.unify fuel value a)
      | none => return .fail
    | .var _ _ =>
      return .anyOf <| term.args.zipIdx.map fun (a, i) =>
        .compound "," [equation n (.int (Int64.ofNat (i + 1))), equation value a]
    | t => Action.raise (.notA .integer t)

def ofParts : List Term → Action Term
  | [] => Action.raise (.domain .emptyList)
  | [.number n] => return .number n
  | .atom f :: args => return .build f args
  | .var _ _ :: _ => Action.raise .instantiation
  | t :: _ => Action.raise (.notA .atom t)

def runUniv (fuel : Nat) (term list : Term) : Action Verdict := do
  let term ← Action.walk term
  if !term.isVar then
    let (name, _) := nameAndArity term
    return .ofBool (← Action.unify fuel list (.list (name :: term.args)))
  else
    match (← Action.resolve fuel list).items? with
    | none => Action.raise .instantiation
    | some items => return .ofBool (← Action.unify fuel term (← ofParts items))

def runCurrentOp (priority type name : Term) : Action Verdict := do
  let ops := (← get).operators.operators
  return .anyOf <| ops.map fun op =>
    .conjoin [equation priority (.int (Int64.ofNat op.priority)),
      equation type (.atom op.type.text), equation name (.atom op.name)]

def runOp (fuel : Nat) (priority type names : Term) : Action Verdict := do
  let priority ← Action.resolve fuel priority
  let type ← Action.resolve fuel type
  let names ← Action.resolve fuel names
  let (result, ops) := (← get).operators.declareTerms priority type names
  modify fun w => { w with operators := ops }
  match result with
  | .ok () => return .succeed
  | .error e => Action.raise (.domain (.operator e))

def standardOrder (fuel : Nat) (a b : Term) : Action Ordering := do
  let a ← Action.resolve fuel a
  let b ← Action.resolve fuel b
  return a.order b

def orderText : Ordering → String
  | .lt => "<"
  | .eq => "="
  | .gt => ">"

def raising {α : Type} : Except ExecutionError α → Action α
  | .ok a => return a
  | .error e => Action.raise e

def runComparison (fuel : Nat) (c : Comparison) (a b : Term) : Action Verdict := do
  let a ← Action.resolve fuel a
  let b ← Action.resolve fuel b
  return .ofBool (← raising (c.test a b))

/-- A term as `write/1` shows it: with the current operators and without quotes. -/
def written (fuel : Nat) (t : Term) : Action String := do
  let t ← Action.resolve fuel t
  let style : WriteStyle := ⟨(← get).operators, false, false⟩
  return style.write t

def testWalked (p : Term → Bool) (t : Term) : Action Verdict := do
  return .ofBool (p (← Action.walk t))

def isNumber : Term → Bool
  | .number _ => true
  | _ => false

def isInteger : Term → Bool
  | .number (.int _) => true
  | _ => false

def isFloat : Term → Bool
  | .number (.float _) => true
  | _ => false

def isAtomTerm : Term → Bool
  | .atom _ => true
  | _ => false

/-- Run a built-in on its arguments. Arguments that are not given are `[]`. -/
def run (fuel : Nat) (b : Builtin) (args : List Term) : Action Verdict :=
  let arg (i : Nat) : Term := args[i]?.getD .nil
  match b with
  | succeed => return .succeed
  | fail | falsity => return .fail
  | unify => return .ofBool (← Action.unify fuel (arg 0) (arg 1))
  | notUnify => do
    let mark ← Action.mark
    let unified ← Action.unify fuel (arg 0) (arg 1)
    Action.undo mark
    return .ofBool (!unified)
  | identical => do
    return .ofBool ((← Action.resolve fuel (arg 0)).same (← Action.resolve fuel (arg 1)))
  | notIdentical => do
    return .ofBool (!(← Action.resolve fuel (arg 0)).same (← Action.resolve fuel (arg 1)))
  | termLess => return .ofBool ((← standardOrder fuel (arg 0) (arg 1)) = .lt)
  | termGreater => return .ofBool ((← standardOrder fuel (arg 0) (arg 1)) = .gt)
  | termLessEq => return .ofBool ((← standardOrder fuel (arg 0) (arg 1)) ≠ .gt)
  | termGreaterEq => return .ofBool ((← standardOrder fuel (arg 0) (arg 1)) ≠ .lt)
  | compare => do
    let o ← standardOrder fuel (arg 1) (arg 2)
    return .ofBool (← Action.unify fuel (arg 0) (.atom (orderText o)))
  | is => do
    let value ← raising (Arithmetic.evaluate (← Action.resolve fuel (arg 1)))
    return .ofBool (← Action.unify fuel (arg 0) (.number value))
  | arithEqual => runComparison fuel .equal (arg 0) (arg 1)
  | arithNotEqual => runComparison fuel .notEqual (arg 0) (arg 1)
  | less => runComparison fuel .less (arg 0) (arg 1)
  | greater => runComparison fuel .greater (arg 0) (arg 1)
  | lessEq => runComparison fuel .lessEq (arg 0) (arg 1)
  | greaterEq => runComparison fuel .greaterEq (arg 0) (arg 1)
  | var => testWalked Term.isVar (arg 0)
  | nonvar => testWalked (!·.isVar) (arg 0)
  | atom => testWalked isAtomTerm (arg 0)
  | number => testWalked isNumber (arg 0)
  | integer => testWalked isInteger (arg 0)
  | float => testWalked isFloat (arg 0)
  | atomic => testWalked Term.isAtomic (arg 0)
  | compound => testWalked Term.isStructure (arg 0)
  | callable => testWalked Term.isCallable (arg 0)
  | isList => return .ofBool (← Action.resolve fuel (arg 0)).items?.isSome
  | functor => runFunctor fuel (arg 0) (arg 1) (arg 2)
  | Builtin.arg => runArg fuel (arg 0) (arg 1) (arg 2)
  | univ => runUniv fuel (arg 0) (arg 1)
  | copyTerm => do
    let copy ← Action.copy fuel (arg 0)
    return .ofBool (← Action.unify fuel (arg 1) copy)
  | op => runOp fuel (arg 0) (arg 1) (arg 2)
  | currentOp => runCurrentOp (arg 0) (arg 1) (arg 2)
  | write => do
    Action.write (← written fuel (arg 0))
    return .succeed
  | writeln => do
    Action.write ((← written fuel (arg 0)) ++ "\n")
    return .succeed
  | nl => do
    Action.write "\n"
    return .succeed
  | conjunction | disjunction | ifThen | softIfThen | negation | call _ | findall =>
    Action.raise (.domain (.notDeterministic b))

end Builtin

end Horn
