import Horn.Arithmetic

/-!
# Standard order

Variables, numbers, atoms, structures. Numbers are ordered by value, and a float comes before an
integer that it equals.
-/

namespace Horn

namespace Number

def rank : Number → Nat
  | .float _ => 0
  | .int _ => 1

/-- What is no number equals every number as far as values go. -/
def order (x y : Number) : Ordering :=
  (match Arithmetic.compareNumbers x y with
    | .ok o => o
    | .error _ => .eq).then (compare x.rank y.rank)

end Number

namespace Term

def rank : Term → Nat
  | .var _ _ => 0
  | .number _ => 1
  | .atom _ => 2
  | .compound _ _ | .cell _ _ => 3

def orderFunctors (f : String) (m : Nat) (g : String) (n : Nat) : Ordering :=
  (compare m n).then (compare f g)

mutual

def order : Term → Term → Ordering
  | .var _ i, .var _ j => compare i j
  | .number x, .number y => x.order y
  | .atom a, .atom b => compare a b
  | .compound f as, .compound g bs =>
    (orderFunctors f as.length g bs.length).then (orderAll as bs)
  | .cell h t, .cell h' t' => (order h h').then (order t t')
  | .cell h t, .compound g bs =>
    (orderFunctors "." 2 g bs.length).then <|
      match bs with
      | [a, b] => (order h a).then (order t b)
      | _ => .eq
  | .compound f as, .cell h t =>
    (orderFunctors f as.length "." 2).then <|
      match as with
      | [a, b] => (order a h).then (order b t)
      | _ => .eq
  | a, b => compare a.rank b.rank

def orderAll : List Term → List Term → Ordering
  | a :: as, b :: bs => (order a b).then (orderAll as bs)
  | _, _ => .eq

end

end Term

end Horn
