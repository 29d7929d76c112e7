import Horn.Number

/-!
# Terms

`Term.build` keeps terms normal: a compound without arguments is an atom and `'.'/2` is a cell, so
a list has one representation only. Two variables are the same exactly when their ids are.
-/

namespace Horn

inductive Term where
  | atom (name : String)
  | number (n : Number)
  | var (name : String) (id : Nat)
  | compound (functor : String) (args : List Term)
  | cell (head tail : Term)
  deriving Repr, Inhabited

mutual

def decEqTerm : (a b : Term) → Decidable (a = b)
  | .atom a, .atom b => decidable_of_iff (a = b) (by simp)
  | .number m, .number n => decidable_of_iff (m = n) (by simp)
  | .var a i, .var b j => decidable_of_iff (a = b ∧ i = j) (by simp)
  | .compound f as, .compound g bs =>
    have := decEqTerms as bs
    decidable_of_iff (f = g ∧ as = bs) (by simp)
  | .cell h t, .cell h' t' =>
    have := decEqTerm h h'
    have := decEqTerm t t'
    decidable_of_iff (h = h' ∧ t = t') (by simp)
  | .atom _, .number _ | .atom _, .var _ _ | .atom _, .compound _ _ | .atom _, .cell _ _
  | .number _, .atom _ | .number _, .var _ _ | .number _, .compound _ _ | .number _, .cell _ _
  | .var _ _, .atom _ | .var _ _, .number _ | .var _ _, .compound _ _ | .var _ _, .cell _ _
  | .compound _ _, .atom _ | .compound _ _, .number _ | .compound _ _, .var _ _
  | .compound _ _, .cell _ _ | .cell _ _, .atom _ | .cell _ _, .number _ | .cell _ _, .var _ _
  | .cell _ _, .compound _ _ => isFalse (by simp)

def decEqTerms : (as bs : List Term) → Decidable (as = bs)
  | [], [] => isTrue rfl
  | [], _ :: _ | _ :: _, [] => isFalse (by simp)
  | a :: as, b :: bs =>
    have := decEqTerm a b
    have := decEqTerms as bs
    decidable_of_iff (a = b ∧ as = bs) (by simp)

end

instance : DecidableEq Term := decEqTerm

structure Functor where
  name : String
  arity : Nat
  deriving DecidableEq, Repr, Hashable, Inhabited

def Functor.before (f g : Functor) : Bool :=
  f.name < g.name || (f.name = g.name && f.arity ≤ g.arity)

namespace Term

def int (n : Int64) : Term := .number (.int n)

def float (x : Binary64) : Term := .number (.float x)

def nil : Term := .atom "[]"

def build (functor : String) : List Term → Term
  | [] => .atom functor
  | [a, b] => if functor = "." then .cell a b else .compound functor [a, b]
  | args => .compound functor args

def listTo (items : List Term) (tail : Term) : Term := items.foldr .cell tail

def list (items : List Term) : Term := listTo items nil

def isVar : Term → Bool
  | .var _ _ => true
  | _ => false

def isAtom (name : String) : Term → Bool
  | .atom a => a = name
  | _ => false

def isNil (t : Term) : Bool := t.isAtom "[]"

def isCallable : Term → Bool
  | .atom _ | .compound _ _ | .cell _ _ => true
  | _ => false

def isAtomic : Term → Bool
  | .atom _ | .number _ => true
  | _ => false

def isStructure : Term → Bool
  | .compound _ _ | .cell _ _ => true
  | _ => false

def name? : Term → Option String
  | .atom a => some a
  | .compound f _ => some f
  | .cell _ _ => some "."
  | _ => none

def args : Term → List Term
  | .compound _ args => args
  | .cell h t => [h, t]
  | _ => []

def arity (t : Term) : Nat := t.args.length

def functor? (t : Term) : Option Functor := t.name?.map (⟨·, t.arity⟩)

def isFunctor (name : String) (arity : Nat) (t : Term) : Bool :=
  t.functor? = some ⟨name, arity⟩

def arg? (t : Term) (i : Nat) : Option Term := t.args[i]?

mutual

/-- Equality of terms: variables by id, numbers by value. -/
def same : Term → Term → Bool
  | .atom a, .atom b => a = b
  | .number m, .number n => m.same n
  | .var _ i, .var _ j => i = j
  | .compound f as, .compound g bs => f = g && sameAll as bs
  | .cell h t, .cell h' t' => same h h' && same t t'
  | _, _ => false

def sameAll : List Term → List Term → Bool
  | [], [] => true
  | a :: as, b :: bs => same a b && sameAll as bs
  | _, _ => false

end

mutual

def isGround : Term → Bool
  | .var _ _ => false
  | .compound _ args => areGround args
  | .cell h t => isGround h && isGround t
  | _ => true

def areGround : List Term → Bool
  | [] => true
  | a :: as => isGround a && areGround as

end

mutual

/-- Add the variables of a term to those already `seen`, the latest first. -/
def gatherVars (seen : List Term) : Term → List Term
  | .var name id => if seen.any (·.same (.var name id)) then seen else .var name id :: seen
  | .compound _ args => gatherAllVars seen args
  | .cell h t => gatherVars (gatherVars seen h) t
  | _ => seen

def gatherAllVars (seen : List Term) : List Term → List Term
  | [] => seen
  | a :: as => gatherAllVars (gatherVars seen a) as

end

/-- The distinct variables of a term in order of first occurrence. -/
def vars (t : Term) : List Term := (gatherVars [] t).reverse

mutual

def idBoundFrom (bound : Nat) : Term → Nat
  | .var _ id => max bound (id + 1)
  | .compound _ args => idBoundAllFrom bound args
  | .cell h t => idBoundFrom (idBoundFrom bound h) t
  | _ => bound

def idBoundAllFrom (bound : Nat) : List Term → Nat
  | [] => bound
  | a :: as => idBoundAllFrom (idBoundFrom bound a) as

end

def idBound (t : Term) : Nat := idBoundFrom 0 t

def maxVarId? (t : Term) : Option Nat :=
  match t.idBound with
  | 0 => none
  | n + 1 => some n

mutual

def mapVars (f : String → Nat → Term) : Term → Term
  | .var name id => f name id
  | .compound g args => .compound g (mapAllVars f args)
  | .cell h t => .cell (mapVars f h) (mapVars f t)
  | t => t

def mapAllVars (f : String → Nat → Term) : List Term → List Term
  | [] => []
  | a :: as => mapVars f a :: mapAllVars f as

end

mutual

def mapVarsWith {σ : Type} (f : String → Nat → σ → Term × σ) : Term → σ → Term × σ
  | .var name id, s => f name id s
  | .compound g args, s =>
    let (args, s) := mapAllVarsWith f args s
    (.compound g args, s)
  | .cell h t, s =>
    let (h, s) := mapVarsWith f h s
    let (t, s) := mapVarsWith f t s
    (.cell h t, s)
  | t, s => (t, s)

def mapAllVarsWith {σ : Type} (f : String → Nat → σ → Term × σ) :
    List Term → σ → List Term × σ
  | [], s => ([], s)
  | a :: as, s =>
    let (a, s) := mapVarsWith f a s
    let (as, s) := mapAllVarsWith f as s
    (a :: as, s)

end

mutual

def size : Term → Nat
  | .compound _ args => 1 + sizeAll args
  | .cell h t => 1 + size h + size t
  | _ => 1

def sizeAll : List Term → Nat
  | [] => 0
  | a :: as => size a + sizeAll as

end

theorem sizeAll_filter_le (p : Term → Bool) (ts : List Term) :
    sizeAll (ts.filter p) ≤ sizeAll ts := by
  induction ts with
  | nil => simp
  | cons t ts ih =>
    by_cases h : p t <;> simp only [h, List.filter_cons, sizeAll, if_true, Bool.false_eq_true,
      if_false] <;> omega

theorem sizeAll_args_lt (t : Term) : sizeAll t.args < size t := by
  cases t <;> simp only [args, size, sizeAll] <;> omega

def conjuncts : Term → List Term
  | .compound f args =>
    match args with
    | [a, b] => if f = "," then a :: conjuncts b else [.compound f [a, b]]
    | args => [.compound f args]
  | t => [t]

def conjoin : List Term → Term
  | [] => .atom "true"
  | [goal] => goal
  | goal :: goals => .compound "," [goal, conjoin goals]

def items? : Term → Option (List Term)
  | .cell h t => t.items?.map (h :: ·)
  | t => if t.isNil then some [] else none

end Term

end Horn
