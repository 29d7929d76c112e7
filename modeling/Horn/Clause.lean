import Horn.Builtin.Marking
import Horn.Text.Position

namespace Horn

open Horn.Text

inductive ClauseKind where
  | fact
  | rule
  | directive
  | query
  deriving DecidableEq, Repr

structure Clause where
  head : Option Term
  body : List Term
  kind : ClauseKind
  position : Position
  deriving DecidableEq, Repr

inductive ClauseError where
  | head (t : Term)
  | goal (t : Term)
  deriving DecidableEq, Repr

def ClauseError.message : ClauseError → String
  | .head t => "clause head is not callable: " ++ t.text
  | .goal t => "body goal is not callable: " ++ t.text

namespace Clause

def isGoal (t : Term) : Bool := t.isCallable || t.isVar

def parts : Term → ClauseKind × Option Term × Option Term
  | .compound f [a, b] =>
    if f = ":-" then (.rule, some a, some b) else (.fact, some (.compound f [a, b]), none)
  | .compound f [a] =>
    if f = ":-" then (.directive, none, some a)
    else if f = "?-" then (.query, none, some a)
    else (.fact, some (.compound f [a]), none)
  | t => (.fact, some t, none)

def ofTerm (t : Term) (position : Position) : Except ClauseError Clause :=
  let (kind, head, body) := parts t
  let goals := (body.map Term.conjuncts).getD []
  match head.filter (!·.isCallable), goals.find? (!isGoal ·) with
  | some h, _ => .error (.head h)
  | none, some goal => .error (.goal goal)
  | none, none => .ok ⟨head, goals, kind, position⟩

def isFact (c : Clause) : Bool := c.head.isSome && c.body.isEmpty

def predicate? (c : Clause) : Option Functor := c.head.bind Term.functor?

def toTerm (c : Clause) : Term :=
  match c.head with
  | some h => if c.body.isEmpty then h else .compound ":-" [h, .conjoin c.body]
  | none => .compound (if c.kind = .query then "?-" else ":-") [.conjoin c.body]

def text (c : Clause) : String := c.toTerm.text

def idBound (c : Clause) : Nat := Term.idBoundAllFrom 0 (c.head.toList ++ c.body)

def maxVarId? (c : Clause) : Option Nat :=
  match c.idBound with
  | 0 => none
  | n + 1 => some n

def mark (c : Clause) : Clause := { c with body := c.body.map Term.mark }

def same (c d : Clause) : Bool :=
  (match c.head, d.head with
    | some a, some b => a.same b
    | none, none => true
    | _, _ => false) &&
  Term.sameAll c.body d.body && c.kind = d.kind && c.position = d.position

end Clause

end Horn
