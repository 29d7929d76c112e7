import Horn.Term.Writer

namespace Horn

inductive Builtin where
  | conjunction
  | disjunction
  | ifThen
  | softIfThen
  | negation
  | call (arity : UInt8)
  | succeed
  | fail
  | falsity
  | unify
  | notUnify
  | identical
  | notIdentical
  | termLess
  | termGreater
  | termLessEq
  | termGreaterEq
  | compare
  | is
  | arithEqual
  | arithNotEqual
  | less
  | greater
  | lessEq
  | greaterEq
  | var
  | nonvar
  | atom
  | number
  | integer
  | float
  | atomic
  | compound
  | callable
  | isList
  | functor
  | arg
  | univ
  | copyTerm
  | findall
  | op
  | currentOp
  | write
  | writeln
  | nl
  deriving DecidableEq, Repr

namespace Builtin

def catalogue : List (Builtin × Functor) :=
  [(conjunction, ⟨",", 2⟩), (disjunction, ⟨";", 2⟩), (ifThen, ⟨"->", 2⟩), (softIfThen, ⟨"*->", 2⟩),
   (negation, ⟨"\\+", 1⟩), (call 1, ⟨"call", 1⟩), (call 2, ⟨"call", 2⟩), (call 3, ⟨"call", 3⟩),
   (call 4, ⟨"call", 4⟩), (call 5, ⟨"call", 5⟩), (call 6, ⟨"call", 6⟩), (call 7, ⟨"call", 7⟩),
   (call 8, ⟨"call", 8⟩), (succeed, ⟨"true", 0⟩), (fail, ⟨"fail", 0⟩), (falsity, ⟨"false", 0⟩),
   (unify, ⟨"=", 2⟩), (notUnify, ⟨"\\=", 2⟩), (identical, ⟨"==", 2⟩), (notIdentical, ⟨"\\==", 2⟩),
   (termLess, ⟨"@<", 2⟩), (termGreater, ⟨"@>", 2⟩), (termLessEq, ⟨"@=<", 2⟩),
   (termGreaterEq, ⟨"@>=", 2⟩), (compare, ⟨"compare", 3⟩), (is, ⟨"is", 2⟩),
   (arithEqual, ⟨"=:=", 2⟩), (arithNotEqual, ⟨"=\\=", 2⟩), (less, ⟨"<", 2⟩), (greater, ⟨">", 2⟩),
   (lessEq, ⟨"=<", 2⟩), (greaterEq, ⟨">=", 2⟩), (var, ⟨"var", 1⟩), (nonvar, ⟨"nonvar", 1⟩),
   (atom, ⟨"atom", 1⟩), (number, ⟨"number", 1⟩), (integer, ⟨"integer", 1⟩), (float, ⟨"float", 1⟩),
   (atomic, ⟨"atomic", 1⟩), (compound, ⟨"compound", 1⟩), (callable, ⟨"callable", 1⟩),
   (isList, ⟨"is_list", 1⟩), (functor, ⟨"functor", 3⟩), (arg, ⟨"arg", 3⟩), (univ, ⟨"=..", 2⟩),
   (copyTerm, ⟨"copy_term", 2⟩), (findall, ⟨"findall", 3⟩), (op, ⟨"op", 3⟩),
   (currentOp, ⟨"current_op", 3⟩), (write, ⟨"write", 1⟩), (writeln, ⟨"writeln", 1⟩),
   (nl, ⟨"nl", 0⟩)]

def lookup? (f : Functor) : Option Builtin := (catalogue.find? (·.2 = f)).map (·.1)

def ofGoal? (goal : Term) : Option Builtin := goal.functor?.bind lookup?

def ofId? (id : Nat) : Option Builtin := catalogue[id]?.map (·.1)

def id (b : Builtin) : Nat := catalogue.findIdx (·.1 = b)

/-- The functor under which a built-in is listed; one that is not has no name. -/
def key (b : Builtin) : Functor := ((catalogue.find? (·.1 = b)).map (·.2)).getD ⟨"?", 0⟩

def text (b : Builtin) : String := b.key.text

/-- Constructs whose goals share the cut of the clause around them. -/
def isControl : Builtin → Bool
  | conjunction | disjunction | ifThen | softIfThen => true
  | _ => false

def callsGoals : Builtin → Bool
  | conjunction | disjunction | ifThen | softIfThen | negation | call _ | findall => true
  | _ => false

def goalArgs : Builtin → List Nat
  | conjunction | disjunction | ifThen | softIfThen => [0, 1]
  | negation => [0]
  | _ => []

end Builtin

end Horn
