import Horn.Lowering

namespace Horn

/-- The code of some clauses with choice instructions between them. The operand of a choice is a
label until `resolve` puts the place of the label there. -/
structure Linker where
  instructions : List Instruction
  labelCounter : Nat
  labels : List (Nat × Nat)
  /-- The label to be placed before the next clause. -/
  pending : Option Nat

namespace Linker

def empty : Linker := ⟨[], 0, [], none⟩

def placeLabel (l : Linker) : Linker :=
  match l.pending with
  | none => l
  | some label =>
    { l with labels := l.labels ++ [(label, l.instructions.length)], pending := none }

def emit (l : Linker) (code : List Instruction) : Linker :=
  { l with instructions := l.instructions ++ code }

/-- The choice instruction before clause `i` of `count`. -/
def choose (count i : Nat) (l : Linker) : Linker :=
  if count ≤ 1 then l
  else if i + 1 < count then
    let label := l.labelCounter
    { l.emit [if i = 0 then .tryMeElse label else .retryMeElse label] with
      labelCounter := label + 1
      pending := some label }
  else l.emit [.trustMe]

def addClause (count : Nat) (l : Linker) (code : List Instruction) (i : Nat) : Linker :=
  (l.placeLabel.choose count i).emit code

end Linker

namespace Instruction

def resolve (labels : List (Nat × Nat)) : Instruction → Instruction
  | .tryMeElse label => .tryMeElse ((labels.lookup label).getD label)
  | .retryMeElse label => .retryMeElse ((labels.lookup label).getD label)
  | i => i

def link (codes : List (List Instruction)) : List Instruction :=
  let l := codes.zipIdx.foldl (fun l (code, i) => l.addClause codes.length code i) Linker.empty
  l.instructions.map (resolve l.labels)

end Instruction

structure Predicate where
  functor : Functor
  clauses : List CompiledClause
  dynamic : Bool
  deriving DecidableEq, Repr

namespace Predicate

def empty (f : Functor) : Predicate := ⟨f, [], false⟩

def ofClause (c : CompiledClause) : Predicate := ⟨c.functor, [c], false⟩

/-- Count a clause and add it, unless it is there. -/
def addClause : Nat × Predicate → CompiledClause → Nat × Predicate
  | (added, p), c =>
    if p.clauses.any (·.clause.same c.clause) then (added, p)
    else (added + 1, { p with clauses := p.clauses ++ [c] })

/-- How many clauses of `q` were added, and `p` with them. -/
def merge (p q : Predicate) : Nat × Predicate :=
  q.clauses.foldl addClause (0, { p with dynamic := p.dynamic || q.dynamic })

def code (p : Predicate) : List Instruction := Instruction.link (p.clauses.map (·.code))

def text (p : Predicate) : String := p.functor.text ++ ":\n" ++ Instruction.listing p.code

end Predicate

end Horn
