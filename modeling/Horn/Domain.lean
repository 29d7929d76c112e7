import Horn.Predicate

namespace Horn

structure Domain where
  predicates : Array Predicate
  index : List (Functor × Nat)
  deriving DecidableEq, Repr

namespace Domain

def empty : Domain := ⟨#[], []⟩

def find? (d : Domain) (f : Functor) : Option Predicate :=
  (d.index.lookup f).bind (d.predicates[·]?)

def contains (d : Domain) (f : Functor) : Bool := (d.index.lookup f).isSome

def defines (d : Domain) (f : Functor) : Bool := (d.find? f).any (!·.clauses.isEmpty)

def add (d : Domain) (p : Predicate) : Nat × Domain :=
  match d.index.lookup p.functor with
  | none =>
    (p.clauses.length,
      { predicates := d.predicates.push p, index := d.index ++ [(p.functor, d.predicates.size)] })
  | some i =>
    match d.predicates[i]? with
    | none => (0, d)
    | some old =>
      let (added, merged) := old.merge p
      (added, { d with predicates := d.predicates.setIfInBounds i merged })

def addClause (d : Domain) (c : CompiledClause) : Nat × Domain := d.add (.ofClause c)

/-- Make a predicate known, so that calling it is no error. -/
def declareDynamic (d : Domain) (f : Functor) : Domain :=
  (d.add { Predicate.empty f with dynamic := true }).2

/-- The domain of these predicates. Of two with the same functor the later one is found. -/
def ofPredicates (ps : List Predicate) : Domain :=
  ⟨ps.toArray, (ps.zipIdx.map fun (p, i) => (p.functor, i)).reverse⟩

def withoutRepeats : List Functor → List Functor
  | f :: g :: rest => if f = g then withoutRepeats (g :: rest) else f :: withoutRepeats (g :: rest)
  | fs => fs

def undefined (d : Domain) : List Functor :=
  let referenced := d.predicates.toList.flatMap fun p => p.clauses.flatMap (·.references)
  withoutRepeats ((referenced.filter (!d.contains ·)).mergeSort Functor.before)

def listing (d : Domain) : String :=
  "\n".intercalate ((d.predicates.toList.filter (!·.clauses.isEmpty)).map Predicate.text)

end Domain

end Horn
