import Horn.Builtin.Deterministic
import Horn.Domain
import Horn.Flags

/-!
# The resolution machine

A choice keeps the goals that were pending when it was made and what to try instead. Each call
carries the height of the choice stack to which a cut inside it goes back.
-/

namespace Horn

structure Program where
  domain : Domain
  unknown : Unknown
  /-- Whether a clause with this first argument of its head is worth trying for a goal with that
  first argument. -/
  selects : Term → Term → Bool

inductive Goal where
  /-- Solve a term. A cut inside it removes the choices above `barrier`. -/
  | call (term : Term) (barrier : Nat)
  | cutTo (height : Nat)
  /-- Give up the other branch of a soft conditional, but no choice of its condition. -/
  | softCut (index : Nat)
  deriving DecidableEq, Repr

inductive Alternative where
  | clauses (goal : Term) (rest : List CompiledClause)
  | goal (term : Term) (barrier : Nat)
  | spent
  deriving DecidableEq, Repr

structure Choice where
  /-- The mark to which bindings are undone. -/
  trail : Nat
  goals : List Goal
  alternative : Alternative
  deriving DecidableEq, Repr

structure Machine where
  world : World
  goals : List Goal
  /-- The choices, the latest last. -/
  choices : Array Choice

/-- Whether terms with these tops can be equal; arguments are not looked at. -/
def Term.mayUnify (a b : Term) : Bool :=
  match a, b with
  | .var _ _, _ | _, .var _ _ => true
  | .number x, .number y => x.same y
  | .atom x, .atom y => x = y
  | .atom _, _ | .number _, _ | _, .atom _ | _, .number _ => false
  | a, b => a.name? = b.name? && a.arity = b.arity

def Program.ofDomain (domain : Domain) (unknown : Unknown) : Program :=
  ⟨domain, unknown, Term.mayUnify⟩

namespace Machine

def start (world : World) (goal : Term) : Machine := ⟨world, [.call goal 0], #[]⟩

def push (m : Machine) (g : Goal) : Machine := { m with goals := g :: m.goals }

def pushChoice (m : Machine) (a : Alternative) : Machine :=
  let ⟨w, goals, choices⟩ := m
  ⟨w, goals, choices.push ⟨w.bindings.mark, goals, a⟩⟩

def cutTo (m : Machine) (height : Nat) : Machine :=
  { m with choices := m.choices.shrink height }

inductive Step where
  | go (m : Machine)
  | fail (m : Machine)
  | solution (m : Machine)
  | exhausted (m : Machine)
  | halt (h : Halt) (m : Machine)
  /-- Run a goal to its end in a machine of its own and collect the instances of a template. -/
  | collect (template goal result : Term) (m : Machine)

def raise (e : ExecutionError) (m : Machine) : Step := .halt (.raised e) m

def act {α : Type} (m : Machine) (a : Action α) (k : α → Machine → Step) : Step :=
  let ⟨w, goals, choices⟩ := m
  match a w with
  | .ok x w => k x ⟨w, goals, choices⟩
  | .error h w => .halt h ⟨w, goals, choices⟩

def ofBool (holds : Bool) (m : Machine) : Step := if holds then .go m else .fail m

def addArgs (goal : Term) (extra : List Term) : Except ExecutionError Term :=
  match goal with
  | .var _ _ => .error .instantiation
  | .number n => .error (.notA .callable (.number n))
  | goal =>
    if extra.isEmpty then .ok goal else .ok (.build (goal.name?.getD "") (goal.args ++ extra))

/-- Call a goal with further arguments. Cuts inside it are its own. -/
def callWith (m : Machine) (target : Term) (extra : List Term) : Step :=
  match addArgs (m.world.bindings.walk target).unmarked extra with
  | .ok goal => .go (m.push (.call goal m.choices.size))
  | .error e => raise e m

def ifThenElse (m : Machine) (condition consequence : Term) (otherwise : Option Term)
    (barrier : Nat) : Machine :=
  let height := m.choices.size
  let m := match otherwise with
    | some t => m.pushChoice (.goal t barrier)
    | none => m
  let inner := m.choices.size
  { m with goals := .call condition inner :: .cutTo height :: .call consequence barrier :: m.goals }

def softIfThenElse (m : Machine) (condition consequence otherwise : Term) (barrier : Nat) :
    Machine :=
  let index := m.choices.size
  let m := m.pushChoice (.goal otherwise barrier)
  let inner := m.choices.size
  { m with goals := .call condition inner :: .softCut index :: .call consequence barrier :: m.goals }

def eitherOf (m : Machine) (left right : Term) (barrier : Nat) : Machine :=
  (m.pushChoice (.goal right barrier)).push (.call left barrier)

/-- A disjunction whose left side is a conditional has its right side as the other branch. -/
def disjunction (m : Machine) (left right : Term) (barrier : Nat) : Machine :=
  match left with
  | .compound f [a, b] =>
    if f = "->" then m.ifThenElse a b (some right) barrier
    else if f = "*->" then m.softIfThenElse a b right barrier
    else m.eitherOf left right barrier
  | _ => m.eitherOf left right barrier

def candidates (p : Program) (m : Machine) (goal : Term) (clauses : List CompiledClause) :
    List CompiledClause :=
  match goal.arg? 0 with
  | none => clauses
  | some a =>
    let key := m.world.bindings.walk a
    clauses.dropWhile fun c =>
      match c.clause.head.bind (·.arg? 0) with
      | some b => !p.selects key b
      | none => false

def enter (m : Machine) (c : Clause) (base barrier : Nat) : Machine :=
  { m with goals := c.body.map (fun g => .call (Bindings.rename base g) barrier) ++ m.goals }

def resolveBy (fuel : Nat) (m : Machine) (goal : Term) (c : Clause) (barrier : Nat) : Step :=
  act m (Action.onBindings (·.reserve c.idBound)) fun base m =>
    match c.head with
    | none => .go (m.enter c base barrier)
    | some head =>
      act m (Action.unify fuel (Bindings.rename base head) goal) fun unified m =>
        if unified then .go (m.enter c base barrier) else .fail m

/-- Resolve a goal with the first of the clauses that is worth trying. A choice is left if there is
another one. -/
def tryClauses (p : Program) (fuel : Nat) (m : Machine) (goal : Term)
    (clauses : List CompiledClause) : Step :=
  match candidates p m goal clauses with
  | [] => .fail m
  | c :: rest =>
    let barrier := m.choices.size
    let rest := candidates p m goal rest
    let m := if rest.isEmpty then m else m.pushChoice (.clauses goal rest)
    resolveBy fuel m goal c.clause barrier

/-- Call a predicate of the program. An application that has no clauses calls what is applied. -/
def callUser (p : Program) (fuel : Nat) (m : Machine) (goal : Term) (f : Functor) : Step :=
  match p.domain.find? f, goal.args with
  | some predicate, _ => tryClauses p fuel m goal predicate.clauses
  | none, target :: extra =>
    if f.name = "apply" && 1 < f.arity then m.callWith target extra else unknown
  | none, [] => unknown
where
  unknown : Step :=
    match p.unknown with
    | .error => raise (.unknownProcedure f) m
    | .fail => .fail m

def callBuiltin (fuel : Nat) (m : Machine) (b : Builtin) (goal : Term) (barrier : Nat) : Step :=
  match b, goal.args with
  | .conjunction, [left, right] =>
    .go { m with goals := .call left barrier :: .call right barrier :: m.goals }
  | .disjunction, [left, right] =>
    .go (m.disjunction (m.world.bindings.walk left).unmarked right barrier)
  | .ifThen, [condition, consequence] => .go (m.ifThenElse condition consequence none barrier)
  | .softIfThen, [condition, consequence] =>
    .go { m with
      goals := .call condition m.choices.size :: .call consequence barrier :: m.goals }
  | .negation, [inner] =>
    .go (m.ifThenElse inner (.atom "fail") (some (.atom "true")) barrier)
  | .call _, target :: extra => m.callWith target extra
  | .findall, [template, inner, result] => .collect template inner result m
  | b, args =>
    act m (b.run fuel args) fun verdict m =>
      match verdict with
      | .succeed => .go m
      | .fail => .fail m
      | .solve t => .go (m.push (.call t barrier))

def call (p : Program) (fuel : Nat) (m : Machine) (term : Term) (barrier : Nat) : Step :=
  let goal := (m.world.bindings.walk term).unmarked
  if goal.isAtom "!" then .go (m.cutTo barrier)
  else match goal.functor? with
    | none => if goal.isVar then raise .instantiation m else raise (.notA .callable goal) m
    | some f =>
      match Builtin.lookup? f with
      | some b => callBuiltin fuel m b goal barrier
      | none => callUser p fuel m goal f

def advance (p : Program) (fuel : Nat) (m : Machine) : Step :=
  let ⟨w, goals, choices⟩ := m
  match goals with
  | [] => .solution ⟨w, [], choices⟩
  | .call term barrier :: rest => call p fuel ⟨w, rest, choices⟩ term barrier
  | .cutTo height :: rest => .go (cutTo ⟨w, rest, choices⟩ height)
  | .softCut index :: rest =>
    .go ⟨w, rest, choices.modify index fun c => { c with alternative := .spent }⟩

def retry (p : Program) (fuel : Nat) (m : Machine) : Step :=
  let ⟨w, goals, choices⟩ := m
  match choices.back? with
  | none => .exhausted ⟨w, goals, choices⟩
  | some c =>
    let choices := choices.pop
    act ⟨w, c.goals, choices⟩ (Action.undo c.trail) fun _ m =>
      match c.alternative with
      | .spent => .fail m
      | .goal term barrier => .go (m.push (.call term barrier))
      | .clauses goal rest => tryClauses p fuel m goal rest

def step (p : Program) (fuel : Nat) (failed : Bool) (m : Machine) : Step :=
  if failed then retry p fuel m else advance p fuel m

/-- How a run ends. After a solution the run can go on as if it had failed. -/
inductive Outcome where
  | solution (m : Machine)
  | exhausted (m : Machine)
  | halted (h : Halt) (m : Machine)

def unifyFound (fuel : Nat) (found : List Term) (result : Term) : Action Bool := do
  let copies ← found.mapM (Action.copy fuel)
  Action.unify fuel result (.list copies)

mutual

def run (p : Program) : Nat → Bool → Machine → Outcome
  | 0, _, m => .halted .outOfFuel m
  | n + 1, failed, m =>
    match step p n failed m with
    | .go m => run p n false m
    | .fail m => run p n true m
    | .solution m => .solution m
    | .exhausted m => .exhausted m
    | .halt h m => .halted h m
    | .collect template goal result m =>
      let ⟨w, goals, choices⟩ := m
      let mark := w.bindings.mark
      match collect p n false template (start w (.compound "call" [goal])) [] with
      | (found, w) =>
        let ⟨b, ops, out⟩ := w
        let w : World := ⟨b.undo mark, ops, out⟩
        match found with
        | .error h => .halted h ⟨w, goals, choices⟩
        | .ok found =>
          match unifyFound n found result w with
          | .error h w => .halted h ⟨w, goals, choices⟩
          | .ok unified w => run p n (!unified) ⟨w, goals, choices⟩

def collect (p : Program) : Nat → Bool → Term → Machine → List Term →
    Except Halt (List Term) × World
  | 0, _, _, m, _ => (.error .outOfFuel, m.world)
  | n + 1, failed, template, m, found =>
    match run p n failed m with
    | .exhausted m => (.ok found.reverse, m.world)
    | .halted h m => (.error h, m.world)
    | .solution m =>
      match m.world.bindings.resolve? n template with
      | none => (.error .outOfFuel, m.world)
      | some t => collect p n true template m (t :: found)

end

end Machine

end Horn
