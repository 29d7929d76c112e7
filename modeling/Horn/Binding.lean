import Horn.Term.Basic

/-!
# Bindings

A store of variable values with a trail. Unification makes no occurs check, so a store can be
cyclic; what may then run for ever is given fuel and answers nothing when it is spent.
-/

namespace Horn

structure Bindings where
  values : Array (Option Term)
  /-- The ids of the bound variables, the latest last. -/
  trail : Array Nat
  deriving DecidableEq, Repr

namespace Bindings

def empty : Bindings := ⟨#[], #[]⟩

def reserve (b : Bindings) (count : Nat) : Nat × Bindings :=
  (b.values.size, { b with values := b.values ++ Array.replicate count none })

def varOf (id : Nat) : Term := .var ("_G" ++ toString id) id

def fresh (b : Bindings) : Term × Bindings :=
  let (id, b) := b.reserve 1
  (varOf id, b)

def rename (base : Nat) (t : Term) : Term := t.mapVars fun _ id => varOf (base + id)

def value? (b : Bindings) (id : Nat) : Option Term := (b.values[id]?).join

def walkFor (b : Bindings) : Nat → Term → Term
  | 0, t => t
  | n + 1, t =>
    match t with
    | .var _ id =>
      match b.value? id with
      | some value => walkFor b n value
      | none => t
    | _ => t

/-- Follow the bindings at the top of a term. No chain is longer than the store. -/
def walk (b : Bindings) (t : Term) : Term := b.walkFor b.values.size t

mutual

def resolve? (b : Bindings) : Nat → Term → Option Term
  | 0, _ => none
  | n + 1, t =>
    match b.walk t with
    | .compound f args => return .compound f (← resolveAll? b n args)
    | .cell h t => return .cell (← resolve? b n h) (← resolve? b n t)
    | t => some t

def resolveAll? (b : Bindings) : Nat → List Term → Option (List Term)
  | 0, _ => none
  | _ + 1, [] => some []
  | n + 1, t :: ts => return (← resolve? b n t) :: (← resolveAll? b n ts)

end

def mark (b : Bindings) : Nat := b.trail.size

def undoLast (b : Bindings) : Bindings :=
  match b.trail.back? with
  | none => b
  | some id => ⟨b.values.setIfInBounds id none, b.trail.pop⟩

def undoTimes : Nat → Bindings → Bindings
  | 0, b => b
  | n + 1, b => undoTimes n b.undoLast

def undo (b : Bindings) (mark : Nat) : Bindings := undoTimes (b.trail.size - mark) b

def bind (b : Bindings) (id : Nat) (value : Term) : Bindings :=
  let values := b.values ++ Array.replicate (id + 1 - b.values.size) none
  ⟨values.setIfInBounds id (some value), b.trail.push id⟩

/-- Unify pairs of terms from left to right. Bindings made before a failure stay. -/
def unifyPairs : Nat → List (Term × Term) → Bindings → Option Bool × Bindings
  | 0, _, b => (none, b)
  | _ + 1, [], b => (some true, b)
  | n + 1, (s, t) :: rest, b =>
    match b.walk s, b.walk t with
    | .var _ i, .var y j =>
      if i = j then unifyPairs n rest b else unifyPairs n rest (b.bind i (.var y j))
    | .var _ i, t => unifyPairs n rest (b.bind i t)
    | s, .var _ j => unifyPairs n rest (b.bind j s)
    | .atom x, .atom y => if x = y then unifyPairs n rest b else (some false, b)
    | .number x, .number y => if x.same y then unifyPairs n rest b else (some false, b)
    | .compound f ss, .compound g ts =>
      if f = g && ss.length = ts.length then unifyPairs n (ss.zip ts ++ rest) b
      else (some false, b)
    | .cell h t, .cell h' t' => unifyPairs n ((h, h') :: (t, t') :: rest) b
    | _, _ => (some false, b)

def unify (fuel : Nat) (s t : Term) (b : Bindings) : Option Bool × Bindings :=
  unifyPairs fuel [(s, t)] b

def copyVar (id : Nat) (s : List (Nat × Term) × Bindings) : Term × List (Nat × Term) × Bindings :=
  match s.1.lookup id with
  | some v => (v, s)
  | none =>
    let (v, b) := s.2.fresh
    (v, (id, v) :: s.1, b)

def refresh (t : Term) (b : Bindings) : Term × Bindings :=
  let (t, _, b) := t.mapVarsWith (fun _ id s => copyVar id s) ([], b)
  (t, b)

def copy (fuel : Nat) (t : Term) (b : Bindings) : Option Term × Bindings :=
  match b.resolve? fuel t with
  | none => (none, b)
  | some t =>
    let (t, b) := refresh t b
    (some t, b)

end Bindings

end Horn
