import Horn.Machine
import Horn.Proofs.TermInduction

/-!
# Depth-first search

A reference for what a program answers. Goals are solved by recursion, and what a goal has to give
is a lazy list of answers. There is no choice stack, no trail and no store: an answer is a
substitution that is applied in full. A cut is the way in which a list ends, and it ends the lists
that are appended to it as well, up to the enclosing call. The search is stuck where a goal is an
error or a binding would be cyclic.
-/

namespace Horn

open Term

abbrev Subst := Nat → Term

namespace Subst

def apply (σ : Subst) (t : Term) : Term := t.mapVars fun _ id => σ id

def free : Subst := Bindings.varOf

def single (x : Nat) (t : Term) : Subst := fun v => if v = x then t else free v

def assign (σ : Subst) (x : Nat) (t : Term) : Subst := fun v => (single x t).apply (σ v)

/-- Unify pairs of terms from left to right: a most general unifier that extends `σ`, or
`some none` if there is a clash. There is no result if a binding would be cyclic. -/
def unify? : Nat → List (Term × Term) → Subst → Option (Option Subst)
  | 0, _, _ => none
  | _ + 1, [], σ => some (some σ)
  | n + 1, (s, t) :: rest, σ =>
    match σ.apply s, σ.apply t with
    | .var _ x, .var _ y => unify? n rest (if x = y then σ else σ.assign x (free y))
    | .var _ x, t => if x ∈ t.ids then none else unify? n rest (σ.assign x t)
    | s, .var _ y => if y ∈ s.ids then none else unify? n rest (σ.assign y s)
    | .atom a, .atom b => if a = b then unify? n rest σ else some none
    | .number a, .number b => if a.same b then unify? n rest σ else some none
    | .compound f ss, .compound g ts =>
      if f = g ∧ ss.length = ts.length then unify? n (ss.zip ts ++ rest) σ else some none
    | .cell h t, .cell h' t' => unify? n ((h, h') :: (t, t') :: rest) σ
    | _, _ => some none

end Subst

namespace Term

lemma marked?_eq_some {t inner : Term} {b : Builtin} (h : t.marked? = some (b, inner)) :
    ∃ id, t = .compound markFunctor [.number (.int id), inner] := by
  unfold marked? at h
  split at h
  · next f id goal =>
    split at h
    · next mark =>
      obtain ⟨_, _, rfl, rfl⟩ := Option.map_eq_some_iff.1 h
      rw [of_decide_eq_true (Bool.and_eq_true_iff.1 mark).1]
      exact ⟨id, rfl⟩
    · cases h
  · cases h

lemma size_le_sizeAll {t : Term} {ts : List Term} (h : t ∈ ts) : t.size ≤ sizeAll ts := by
  induction ts with
  | nil => cases h
  | cons u us ih =>
    rw [sizeAll]
    rcases List.mem_cons.1 h with rfl | h
    · omega
    · have := ih h
      omega

end Term

namespace Search

structure State where
  subst : Subst
  next : Nat

def State.look (s : State) : Term → Term
  | .var _ id => s.subst id
  | goal => goal

inductive Answers where
  | stuck
  | failed
  | cut
  | answer (s : State) (rest : Unit → Answers)

namespace Answers

def append : Answers → (Unit → Answers) → Answers
  | stuck, _ => stuck
  | failed, more => more ()
  | cut, _ => cut
  | answer s rest, more => answer s fun _ => (rest ()).append more

def bind : Answers → (State → Answers) → Answers
  | stuck, _ => stuck
  | failed, _ => failed
  | cut, _ => cut
  | answer s rest, k => (k s).append fun _ => (rest ()).bind k

/-- The answers of a call. A cut inside it does not reach further. -/
def enclose : Answers → Answers
  | stuck => stuck
  | failed | cut => failed
  | answer s rest => answer s fun _ => (rest ()).enclose

def one (s : State) : Answers := answer s fun _ => failed

def toList? : Answers → Option (List State)
  | stuck => none
  | failed | cut => some []
  | answer s rest => (rest ()).toList?.map (s :: ·)

def once (condition : Answers) (consequence : State → Answers) (otherwise : Answers) : Answers :=
  match condition with
  | stuck => stuck
  | failed | cut => otherwise
  | answer s _ => consequence s

def each (condition : Answers) (consequence : State → Answers) (otherwise : Answers) : Answers :=
  match condition with
  | stuck => stuck
  | failed | cut => otherwise
  | answer s rest => (answer s rest).enclose.bind consequence

end Answers

/-- Whether the arguments of a goal are goals of the clause around it. -/
def isControl (f : Functor) : Bool := (Builtin.lookup? f).any (!·.goalArgs.isEmpty)

def bareTop (goal : Term) : Term := if goal.unmarked.isVar then goal else goal.unmarked

lemma size_bareTop_le (goal : Term) : (bareTop goal).size ≤ goal.size := by
  unfold bareTop
  split
  · exact Nat.le_refl _
  unfold unmarked
  split
  · next marked =>
    obtain ⟨id, rfl⟩ := marked?_eq_some marked
    simp only [size, sizeAll]
    omega
  · exact Nat.le_refl _

/-- A goal as it was written: without its mark and those of the goals in it. -/
def bare (goal : Term) : Term :=
  match _h : bareTop goal with
  | .compound f args =>
    if isControl ⟨f, args.length⟩ then .compound f (args.attach.map fun ⟨a, _⟩ => bare a)
    else .compound f args
  | t => t
termination_by goal.size
decreasing_by
  have le := size_bareTop_le goal
  rw [_h, Term.size] at le
  have := Term.size_le_sizeAll ‹_ ∈ _›
  omega

def solveAll (solve : Term → State → Answers) : List Term → State → Answers
  | [], s => .one s
  | g :: gs, s => (solve g s).bind (solveAll solve gs)

/-- Match the head of a clause with new variables and solve its body. -/
def solveBy (solve : Term → State → Answers) (fuel : Nat) (goal : Term) (c : Clause) (s : State) :
    Answers :=
  let body (σ : Subst) : Answers :=
    solveAll solve (c.body.map fun g => bare (Bindings.rename s.next g)) ⟨σ, s.next + c.idBound⟩
  match c.head with
  | none => body s.subst
  | some head =>
    match s.subst.unify? fuel [(Bindings.rename s.next head, goal)] with
    | none => .stuck
    | some none => .failed
    | some (some σ) => body σ

def solveByAny (solve : Term → State → Answers) (fuel : Nat) (goal : Term) :
    List CompiledClause → State → Answers
  | [], _ => .failed
  | c :: cs, s => (solveBy solve fuel goal c.clause s).append fun _ => solveByAny solve fuel goal cs s

/-- A condition with its branches, before it is known which of them is solved. -/
def solveDisjunction (solve : Term → State → Answers) (left right : Term) (s : State) : Answers :=
  match s.look left with
  | .compound f [a, b] =>
    if f = "->" then (solve a s).once (solve b) (solve right s)
    else if f = "*->" then (solve a s).each (solve b) (solve right s)
    else (solve left s).append fun _ => solve right s
  | _ => (solve left s).append fun _ => solve right s

def solveUser (p : Program) (solve : Term → State → Answers) (fuel : Nat) (goal : Term)
    (f : Functor) (s : State) : Answers :=
  match p.domain.find? f with
  | some predicate => (solveByAny solve fuel goal predicate.clauses s).enclose
  | none =>
    if f.name = "apply" ∧ 1 < f.arity then .stuck
    else match p.unknown with
      | .error => .stuck
      | .fail => .failed

def solveBuiltin (solve : Term → State → Answers) (fuel : Nat) (b : Builtin) (args : List Term)
    (s : State) : Answers :=
  match b, args with
  | .conjunction, [left, right] => (solve left s).bind (solve right)
  | .disjunction, [left, right] => solveDisjunction solve left right s
  | .ifThen, [condition, consequence] => (solve condition s).once (solve consequence) .failed
  | .softIfThen, [condition, consequence] => (solve condition s).enclose.bind (solve consequence)
  | .negation, [inner] => (solve inner s).once (fun _ => .failed) (.one s)
  | .call _, [target] => (solve target s).enclose
  | .succeed, _ => .one s
  | .fail, _ => .failed
  | .unify, [left, right] =>
    match s.subst.unify? fuel [(left, right)] with
    | none => .stuck
    | some none => .failed
    | some (some σ) => .one ⟨σ, s.next⟩
  | _, _ => .stuck

def solve (p : Program) : Nat → Term → State → Answers
  | 0, _, _ => .stuck
  | n + 1, goal, s =>
    let goal := s.look goal
    if goal.isAtom "!" then .answer s fun _ => .cut
    else match goal.functor? with
      | none => .stuck
      | some f =>
        -- Marks belong to compiled clauses, and those have been removed.
        if f = ⟨Term.markFunctor, 2⟩ then .stuck
        else match Builtin.lookup? f with
          | some b => solveBuiltin (solve p n) n b goal.args s
          | none => solveUser p (solve p n) n goal f s

end Search

end Horn
