import Horn.Arithmetic
import Horn.CompileError

/-!
# Conditional compilation

Each open `if` has a frame. A condition is asked for only where its answer can select a branch.
-/

namespace Horn

open Horn.Text

namespace Conditional

inductive Directive where
  | opening (condition : Term)
  | elif (condition : Term)
  | otherwise
  | endif
  deriving DecidableEq, Repr

def Directive.word : Directive → Word
  | .opening _ => .opening
  | .elif _ => .elif
  | .otherwise => .otherwise
  | .endif => .endif

def Directive.ofGoal? : Term → Option Directive
  | .compound f [condition] =>
    if f = "if" then some (.opening condition)
    else if f = "elif" then some (.elif condition)
    else none
  | .atom a => if a = "else" then some .otherwise else if a = "endif" then some .endif else none
  | _ => none

def Directive.ofTerm? : Term → Option Directive
  | .compound f [goal] => if f = ":-" then ofGoal? goal else none
  | _ => none

inductive Branch where
  /-- Clauses are compiled. -/
  | taking
  /-- No branch was taken yet. -/
  | seeking
  /-- A branch was taken before, or all of the block is skipped. -/
  | done
  deriving DecidableEq, Repr

structure Frame where
  word : Word
  branch : Branch
  position : Position
  deriving DecidableEq, Repr

def Word.mayFollow (next current : Word) : Bool :=
  match current, next with
  | .opening, .elif | .opening, .otherwise | .opening, .endif => true
  | .elif, .elif | .elif, .otherwise | .elif, .endif => true
  | .otherwise, .endif => true
  | _, _ => false

/-- The open frames, innermost first. -/
abbrev Frames := List Frame

namespace Frames

def isSkipping (frames : Frames) : Bool := frames.any (·.branch ≠ .taking)

def chosen (holds : Bool) : Branch := if holds then .taking else .seeking

inductive Move where
  | to (frames : Frames)
  | ask (condition : Term) (next : Bool → Frames)
  | refuse (fault : Fault)

def move (frames : Frames) (d : Directive) (position : Position) : Move :=
  match d with
  | .opening condition =>
    if frames.isSkipping then .to (⟨.opening, .done, position⟩ :: frames)
    else .ask condition fun holds => ⟨.opening, chosen holds, position⟩ :: frames
  | d =>
    match frames with
    | [] => .refuse (.unmatched d.word)
    | top :: rest =>
      if !d.word.mayFollow top.word then .refuse (.misplaced d.word top.word)
      else match d with
        | .opening _ | .endif => .to rest
        | .elif condition =>
          if top.branch = .seeking then
            .ask condition fun holds => ⟨.elif, chosen holds, top.position⟩ :: rest
          else .to (⟨.elif, .done, top.position⟩ :: rest)
        | .otherwise =>
          let branch := if top.branch = .seeking then .taking else .done
          .to (⟨.otherwise, branch, top.position⟩ :: rest)

def apply {m : Type → Type} [Monad m] [MonadExcept CompileError m] (evaluate : Term → m Bool)
    (frames : Frames) (d : Directive) (position : Position) : m Frames :=
  match frames.move d position with
  | .to frames => pure frames
  | .ask condition next => next <$> evaluate condition
  | .refuse fault => throw (.conditional fault position)

/-- Whether a term of a unit is let through, and the frames after it. A conditional directive is
obeyed and not let through. -/
def sift {m : Type → Type} [Monad m] [MonadExcept CompileError m] (evaluate : Term → m Bool)
    (frames : Frames) (t : Term) (position : Position) : m (Bool × Frames) :=
  match Directive.ofTerm? t with
  | some d => (false, ·) <$> frames.apply evaluate d position
  | none => pure (!frames.isSkipping, frames)

/-- At the end of a unit no frame may be open. -/
def finish : Frames → Except CompileError Unit
  | [] => .ok ()
  | top :: _ => .error (.conditional (.unterminated top.word) top.position)

end Frames

def hasOperator (ops : OperatorTable) (priority type name : Term) : Bool :=
  ops.operators.any fun op =>
    (priority.isVar || priority.same (.int (Int64.ofNat op.priority))) &&
    (type.isVar || type.isAtom op.type.text) &&
    (name.isVar || name.isAtom op.name)

def notStatic (goal : Term) : CompileError := .source .notStatic goal.text .unknown

def truth (name : String) (goal : Term) : Except CompileError Bool :=
  if name = "true" then .ok true
  else if name = "false" || name = "fail" then .ok false
  else .error (notStatic goal)

def evaluateStatic (ops : OperatorTable) : Term → Except CompileError Bool
  | .atom a => truth a (.atom a)
  | .compound f args =>
    match args with
    | [a] =>
      if f = "\\+" then do return !(← evaluateStatic ops a)
      else .error (notStatic (.compound f [a]))
    | [a, b] =>
      if f = "," then do if ← evaluateStatic ops a then evaluateStatic ops b else return false
      else if f = ";" then do if ← evaluateStatic ops a then return true else evaluateStatic ops b
      else if f = "==" then .ok (a.same b)
      else if f = "\\==" then .ok (!a.same b)
      else match Comparison.ofName? f with
        | some c =>
          match c.test a b with
          | .ok holds => .ok holds
          | .error e => .error (.source (.condition e) (Term.compound f [a, b]).text .unknown)
        | none => .error (notStatic (.compound f [a, b]))
    | [p, t, n] =>
      if f = "current_op" then .ok (hasOperator ops p t n)
      else .error (notStatic (.compound f [p, t, n]))
    | [] => truth f (.compound f [])
    | args => .error (notStatic (.compound f args))
  | t => .error (notStatic t)

end Conditional

end Horn
