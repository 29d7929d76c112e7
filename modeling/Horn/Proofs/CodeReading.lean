import Horn.Binding
import Horn.Lowering
import Mathlib.Tactic.Lemma

/-!
# Reading code symbolically

The code of a clause is read as if the clause were called with distinct variables for arguments:
matching binds these, and each goal is what the argument registers hold when it is called. A call
may use every register and gives up the slots above its operand, so nothing is known of them
afterwards.
-/

namespace Horn

mutual

def Term.rebuilt (ρ : Nat → Nat) : Term → Term
  | .var _ id => Bindings.varOf (ρ id)
  | .compound f args => .build f (Term.rebuiltAll ρ args)
  | .cell h t => .cell (Term.rebuilt ρ h) (Term.rebuilt ρ t)
  | t => t

def Term.rebuiltAll (ρ : Nat → Nat) : List Term → List Term
  | [] => []
  | a :: as => Term.rebuilt ρ a :: Term.rebuiltAll ρ as

end

def Constant.term : Constant → Term
  | .atom name => .atom name
  | .int n => .int n
  | .float x => .float x

namespace CodeReading

inductive Held where
  | term (t : Term)
  | level
  deriving DecidableEq, Repr

/-- Where a structure goes when all its arguments are known. -/
inductive Target where
  | bind (v : Nat)
  | put (a : Nat)
  deriving DecidableEq, Repr

structure Pending where
  target : Target
  name : String
  parts : List Term
  missing : Nat
  deriving DecidableEq, Repr

inductive ReadGoal where
  | cut
  | user (f : Functor) (args : List Term)
  | builtin (b : Builtin) (x : Nat → Option Term)

structure State where
  x : Nat → Option Term
  y : Nat → Option Held
  frame : Option Nat
  next : Nat
  args : List Term
  pending : Option Pending
  atNeck : Bool
  finished : Bool
  goals : List ReadGoal

def substitute (v : Nat) (u : Term) (t : Term) : Term :=
  t.mapVars fun name id => if id = v then u else .var name id

def Held.substitute (v : Nat) (u : Term) : Held → Held
  | .term t => .term (CodeReading.substitute v u t)
  | .level => .level

def Target.inHead : Target → Bool
  | .bind _ => true
  | .put _ => false

namespace State

def start (arity : Nat) : State where
  x n := if 1 ≤ n ∧ n ≤ arity then some (Bindings.varOf (n - 1)) else none
  y _ := none
  frame := none
  next := arity
  args := (List.range arity).map Bindings.varOf
  pending := none
  atNeck := true
  finished := false
  goals := []

def setX (s : State) (n : Nat) (t : Term) : State :=
  { s with x := fun m => if m = n then some t else s.x m }

def setY (s : State) (n : Nat) (h : Held) : State :=
  { s with y := fun m => if m = n then some h else s.y m }

def hasSlot (s : State) (n : Nat) : Bool := 1 ≤ n && s.frame.any (n ≤ ·)

def set (s : State) (r : Reg) (t : Term) : Option State :=
  match r with
  | .x n => some (s.setX n t)
  | .y n => if s.hasSlot n then some (s.setY n (.term t)) else none

def get (s : State) (r : Reg) : Option Term :=
  match r with
  | .x n => s.x n
  | .y n =>
    match s.y n with
    | some (.term t) => some t
    | _ => none

def bind (s : State) (v : Nat) (u : Term) : State :=
  { s with
    x := fun n => (s.x n).map (substitute v u)
    y := fun n => (s.y n).map (Held.substitute v u)
    args := s.args.map (substitute v u) }

def open? (s : State) (a : Nat) : Option Nat :=
  if s.goals.isEmpty then
    match s.x a with
    | some (.var _ v) => some v
    | _ => none
  else none

def complete (s : State) : State :=
  match s.pending with
  | none => s
  | some p =>
    if p.missing = 0 then
      let s := { s with pending := none }
      match p.target with
      | .bind v => s.bind v (.build p.name p.parts)
      | .put a => s.setX a (.build p.name p.parts)
    else s

def begin (s : State) (target : Target) (name : String) (arity : Nat) : State :=
  let s := match target with
    | .bind _ => s
    | .put a => { s with x := fun m => if m = a then none else s.x m }
  complete { s with pending := some ⟨target, name, [], arity⟩ }

def addParts (s : State) (inHead : Bool) (ts : List Term) : Option State :=
  match s.pending with
  | none => none
  | some p =>
    if p.target.inHead = inHead ∧ ts.length ≤ p.missing then
      some (complete { s with
        pending := some { p with parts := p.parts ++ ts, missing := p.missing - ts.length } })
    else none

def addVoids (s : State) (inHead : Bool) (n : Nat) : Option State :=
  { s with next := s.next + n }.addParts inHead
    ((List.range n).map fun i => Bindings.varOf (s.next + i))

def addVariable (s : State) (inHead : Bool) (r : Reg) : Option State := do
  let s' ← { s with next := s.next + 1 }.set r (Bindings.varOf s.next)
  s'.addParts inHead [Bindings.varOf s.next]

def addValue (s : State) (inHead : Bool) (r : Reg) : Option State := do
  s.addParts inHead [← s.get r]

def registers (x : Nat → Option Term) (n : Nat) : Option (List Term) :=
  (List.range n).mapM fun i => x (i + 1)

def emit (s : State) (g : ReadGoal) : State := { s with goals := s.goals ++ [g] }

def forget (s : State) (live : Nat) : State :=
  { s with x := fun _ => none, y := fun n => if n ≤ live then s.y n else none, atNeck := false }

def plain (i : Instruction) (s : State) : Option State :=
  match i with
  | .getVariable r a => do s.set r (← s.x a)
  | .getValue r a => do return s.bind (← s.open? a) (← s.get r)
  | .getConstant c a => do return s.bind (← s.open? a) c.term
  | .getNil a => do return s.bind (← s.open? a) .nil
  | .getList a => do return s.begin (.bind (← s.open? a)) "." 2
  | .getStructure f a => do return s.begin (.bind (← s.open? a)) f.name f.arity
  | .putVariable r a => do
    let s' ← { s with next := s.next + 1 }.set r (Bindings.varOf s.next)
    return s'.setX a (Bindings.varOf s.next)
  | .putValue r a => do return s.setX a (← s.get r)
  | .putUnsafeValue y a => do return s.setX a (← s.get (.y y))
  | .putConstant c a => some (s.setX a c.term)
  | .putNil a => some (s.setX a .nil)
  | .putList a => some (s.begin (.put a) "." 2)
  | .putStructure f a => some (s.begin (.put a) f.name f.arity)
  | .allocate n => if s.frame.isNone then some { s with frame := some n, y := fun _ => none } else none
  | .deallocate => if s.frame.isSome then some { s with frame := none, y := fun _ => none } else none
  | .call f live => do return (s.emit (.user f (← registers s.x f.arity))).forget live
  | .execute f => do
    return { s.emit (.user f (← registers s.x f.arity)) with finished := true }
  | .callBuiltin b live =>
    let s := s.emit (.builtin b s.x)
    some (if b.callsGoals then s.forget live else s)
  | .proceed => some { s with finished := true }
  | .neckCut => if s.atNeck then some (s.emit .cut) else none
  | .getLevel y => if s.atNeck && s.hasSlot y then some (s.setY y .level) else none
  | .cut y => if s.y y = some .level then some (s.emit .cut) else none
  | _ => none

def step (s : State) (i : Instruction) : Option State :=
  if s.finished then none
  else match i with
    | .unifyVariable r => s.addVariable true r
    | .unifyValue r => s.addValue true r
    | .unifyConstant c => s.addParts true [c.term]
    | .unifyNil => s.addParts true [.nil]
    | .unifyVoid n => s.addVoids true n
    | .setVariable r => s.addVariable false r
    | .setValue r => s.addValue false r
    | .setConstant c => s.addParts false [c.term]
    | .setNil => s.addParts false [.nil]
    | .setVoid n => s.addVoids false n
    | i => if s.pending.isNone then plain i s else none

def run (code : List Instruction) (s : State) : Option State := code.foldlM step s

end State

/-- Whether the code's goal is the goal of the clause, its variables renamed. The arguments of a
goal are those that stand in the first registers. -/
inductive Reconstructs (ρ : Nat → Nat) : Term → ReadGoal → Prop where
  | cut : Reconstructs ρ (.atom "!") .cut
  | user {goal : Term} {f : Functor} (other : goal.isAtom "!" = false)
      (unmarked : goal.marked? = none) (functor : goal.functor? = some f) :
      Reconstructs ρ goal (.user f (Term.rebuiltAll ρ goal.args))
  | builtin {goal inner : Term} {b : Builtin} {x : Nat → Option Term}
      (marked : goal.marked? = some (b, inner))
      (args : State.registers x inner.arity = some (Term.rebuiltAll ρ inner.args)) :
      Reconstructs ρ goal (.builtin b x)

end CodeReading

end Horn
