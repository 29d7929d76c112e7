import Horn.Clause

/-!
# Symbols

Every functor of a compiled clause gets a key, its place in the order of first use, which it keeps
for ever.
-/

namespace Horn

structure SymbolKey where
  index : Nat
  deriving DecidableEq, Repr

def SymbolKey.text (k : SymbolKey) : String := "#" ++ toString k.index

structure GoalMark where
  functor : Functor
  key : SymbolKey
  /-- Directly in the body and not inside a control construct. -/
  topLevel : Bool
  deriving DecidableEq, Repr

structure UnitSummary where
  name : String
  predicates : List Functor
  symbols : Nat
  deriving DecidableEq, Repr

structure UnitScope where
  name : String
  /-- In order of first definition. -/
  defined : List Functor
  seen : List Functor
  latest : Option Functor
  discontiguous : List Functor
  warned : List Functor
  /-- How many functors were new since the unit was opened. -/
  interned : Nat
  deriving DecidableEq, Repr

/-- The unit after a clause of `f`, and whether clauses of `f` are now found apart for the first
time without a declaration. -/
def UnitScope.record (u : UnitScope) (f : Functor) : Bool × UnitScope :=
  let next := { u with latest := some f }
  if u.latest = some f then (false, next)
  else if !u.seen.contains f then
    (false, { next with seen := f :: u.seen, defined := u.defined ++ [f] })
  else if u.discontiguous.contains f || u.warned.contains f then (false, next)
  else (true, { next with warned := f :: u.warned })

def UnitScope.summary (u : UnitScope) : UnitSummary := ⟨u.name, u.defined, u.interned⟩

structure Scattered where
  functor : Functor
  unitName : String
  deriving DecidableEq, Repr

def Scattered.message (w : Scattered) : String :=
  "clauses of " ++ w.functor.text ++ " are not together in " ++ w.unitName

structure SymbolTable where
  keys : List (Functor × SymbolKey)
  functors : List Functor
  scope : Option UnitScope
  deriving DecidableEq, Repr

/-- A functor that occurs in a clause; `goal` tells for a goal whether it is at the top level. -/
structure Sighting where
  functor : Functor
  goal : Option Bool
  deriving DecidableEq, Repr

namespace Sighting

mutual

/-- The structures in a term, from the outside in and from left to right. -/
def structures : Term → List Sighting
  | .compound f args => ⟨⟨f, args.length⟩, none⟩ :: structuresAll args
  | .cell h t => ⟨⟨".", 2⟩, none⟩ :: (structures h ++ structures t)
  | _ => []

def structuresAll : List Term → List Sighting
  | [] => []
  | a :: as => structures a ++ structuresAll as

end

mutual

/-- The functors of a body goal: its own, those of the goals inside control constructs, and the
structures in its other arguments. -/
def ofGoal (topLevel : Bool) : Term → List Sighting
  | .atom a => [⟨⟨a, 0⟩, some topLevel⟩]
  | .compound f args =>
    match Term.marked? (.compound f args) with
    | some (b, _) => ofMarked topLevel b args
    | none => ⟨⟨f, args.length⟩, some topLevel⟩ :: structuresAll args
  | .cell h t => ⟨⟨".", 2⟩, some topLevel⟩ :: (structures h ++ structures t)
  | _ => []

def ofMarked (topLevel : Bool) (b : Builtin) : List Term → List Sighting
  | [_, goal] => ofInner topLevel b goal
  | _ => []

def ofInner (topLevel : Bool) (b : Builtin) : Term → List Sighting
  | .atom a => [⟨⟨a, 0⟩, some topLevel⟩]
  | .compound f args => ⟨⟨f, args.length⟩, some topLevel⟩ :: ofArgs b.goalArgs 0 args
  | .cell h t =>
    ⟨⟨".", 2⟩, some topLevel⟩ ::
      ((if b.goalArgs.contains 0 then ofGoal false h else structures h) ++
        if b.goalArgs.contains 1 then ofGoal false t else structures t)
  | _ => []

def ofArgs (goals : List Nat) (i : Nat) : List Term → List Sighting
  | [] => []
  | a :: as =>
    (if goals.contains i then ofGoal false a else structures a) ++ ofArgs goals (i + 1) as

end

end Sighting

namespace SymbolTable

def empty : SymbolTable := ⟨[], [], none⟩

def size (t : SymbolTable) : Nat := t.functors.length

def lookup? (t : SymbolTable) (f : Functor) : Option SymbolKey := t.keys.lookup f

def functor? (t : SymbolTable) (k : SymbolKey) : Option Functor := t.functors[k.index]?

def intern (t : SymbolTable) (f : Functor) : SymbolKey × SymbolTable :=
  match t.lookup? f with
  | some k => (k, t)
  | none =>
    (⟨t.functors.length⟩,
      { keys := t.keys ++ [(f, ⟨t.functors.length⟩)]
        functors := t.functors ++ [f]
        scope := t.scope.map fun u => { u with interned := u.interned + 1 } })

def openUnit (t : SymbolTable) (name : String) : SymbolTable :=
  { t with scope := some ⟨name, [], [], none, [], [], 0⟩ }

def unitName? (t : SymbolTable) : Option String := t.scope.map (·.name)

def declareDiscontiguous (t : SymbolTable) (f : Functor) : SymbolTable :=
  { t with scope := t.scope.map fun u => { u with discontiguous := f :: u.discontiguous } }

def record (t : SymbolTable) (f : Functor) : Option Scattered × SymbolTable :=
  match t.scope with
  | none => (none, t)
  | some u =>
    let (apart, next) := u.record f
    (if apart then some ⟨f, u.name⟩ else none, { t with scope := some next })

def closeUnit (t : SymbolTable) : Option UnitSummary × SymbolTable :=
  (t.scope.map UnitScope.summary, { t with scope := none })

def internAll (t : SymbolTable) : List Sighting → List GoalMark × SymbolTable
  | [] => ([], t)
  | s :: rest =>
    let (key, t) := t.intern s.functor
    let (marks, t) := internAll t rest
    match s.goal with
    | some topLevel => (⟨s.functor, key, topLevel⟩ :: marks, t)
    | none => (marks, t)

def internHead (t : SymbolTable) (head : Term) : SymbolKey × SymbolTable :=
  let (_, t) := t.internAll (Sighting.structures head)
  t.intern (head.functor?.getD ⟨"?", 0⟩)

def mark (t : SymbolTable) (c : Clause) : Option SymbolKey × List GoalMark × SymbolTable :=
  let (key, t) := match c.head with
    | none => (none, t)
    | some head =>
      let (key, t) := t.internHead head
      (some key, t)
  (key, t.internAll (c.body.flatMap (Sighting.ofGoal true)))

end SymbolTable

end Horn
