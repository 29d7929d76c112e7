import Horn.Context

/-!
# Expansion

Terms are expanded once by each hook and then by the observer. Goals are expanded until nothing
changes them any more, and then the goals inside them.
-/

namespace Horn

namespace Expansion

variable {σ : Type}

def hookTerms (h : Hook) (terms : List Term) : List Term :=
  terms.flatMap fun t => (h.expandTerm t).getD [t]

def observedTerms (o : Observer σ) : List Term → Compiling σ (List Term)
  | [] => return []
  | t :: rest => do
    let expanded ← Compiling.ask (o.expandTerm t)
    let more ← observedTerms o rest
    return expanded.getD [t] ++ more

/-- The terms that a term stands for. `{T}` stands for `T` and is not expanded. -/
def terms (o : Observer σ) (t : Term) : Compiling σ (List Term) := do
  if t.isFunctor "\x7b\x7d" 1 then return t.args
  else
    let hooks := (← Compiling.context).hooks
    observedTerms o (hooks.foldl (fun ts h => hookTerms h ts) [t])

def replace (state : Term × Bool) (next : Option Term) : Term × Bool :=
  match next with
  | some next => if next.same state.1 then state else (next, true)
  | none => state

/-- One round: each hook once and then the observer. -/
def round (o : Observer σ) (hooks : List Hook) (goal : Term) : Compiling σ (Term × Bool) := do
  let state := hooks.foldl (fun s h => replace s (h.expandGoal s.1)) (goal, false)
  return replace state (← Compiling.ask (o.expandGoal state.1))

def settle (o : Observer σ) (hooks : List Hook) (unsettled : CompileError) :
    Nat → Term → Compiling σ Term
  | rounds, current =>
    if current.isVar then return current
    else do
      let (next, changed) ← round o hooks current
      if !changed then return next
      else match rounds with
        | 0 => throw unsettled
        | rounds + 1 => settle o hooks unsettled rounds next

mutual

/-- Expand a goal and the goals inside it. The bound is on the nesting of goals, which expansion
can make without end. -/
def goal (o : Observer σ) (hooks : List Hook) (rounds : Nat) : Nat → Term → Compiling σ Term
  | 0, _ => throw .outOfFuel
  | n + 1, t => do
    let unsettled : CompileError := .source (.unsettled t rounds) t.text .unknown
    let current ← settle o hooks unsettled rounds t
    match current with
    | .compound f args => return .compound f (← goalArgs o hooks rounds n current.metaGoalArgs 0 args)
    | _ => return current

def goalArgs (o : Observer σ) (hooks : List Hook) (rounds : Nat) :
    Nat → List Nat → Nat → List Term → Compiling σ (List Term)
  | 0, _, _, _ => throw .outOfFuel
  | _ + 1, _, _, [] => return []
  | n + 1, goals, i, a :: rest => do
    let a ← if goals.contains i then goal o hooks rounds n a else pure a
    let more ← goalArgs o hooks rounds n goals (i + 1) rest
    return a :: more

end

/-- A variable that was not in the goal before gets the next id, once for all its occurrences. -/
def introduce (known : List Nat) (name : String) (id : Nat) (s : List (Nat × Term) × Nat) :
    Term × List (Nat × Term) × Nat :=
  if known.contains id then (.var name id, s)
  else match s.1.lookup id with
    | some v => (v, s)
    | none =>
      let v := Term.var name s.2
      (v, (id, v) :: s.1, s.2 + 1)

def renameIntroduced (before expanded : Term) (nextId : Nat) : Term × Nat :=
  let known := before.vars.filterMap fun
    | .var _ id => some id
    | _ => none
  let (t, _, nextId) := expanded.mapVarsWith (introduce known) ([], nextId)
  (t, nextId)

def bodyGoals (o : Observer σ) (fuel : Nat) (position : Text.Position) :
    Nat → List Term → Compiling σ (List Term)
  | _, [] => return []
  | nextId, t :: rest => do
    let c ← Compiling.context
    let expanded ← Compiling.located position (goal o c.hooks c.config.maxExpansionDepth fuel t)
    let (expanded, nextId) := renameIntroduced t expanded nextId
    let more ← bodyGoals o fuel position nextId rest
    return expanded.conjuncts ++ more

def clause (o : Observer σ) (fuel : Nat) (c : Clause) : Compiling σ Clause := do
  return { c with body := ← bodyGoals o fuel c.position c.idBound c.body }

end Expansion

end Horn
