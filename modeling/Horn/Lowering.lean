import Horn.Instruction
import Horn.Layout
import Horn.Prepared

/-!
# Lowering

The code of a clause matches the head against the argument registers, nested structures breadth
first, and then sets up the arguments of each goal, nested structures innermost first.
-/

namespace Horn

structure Registers where
  temps : List (Nat × Nat)
  nextTemp : Nat
  seen : List Nat
  /-- Variables of slots that were set up as arguments. -/
  unsafeVars : List Nat
  deriving DecidableEq, Repr

abbrev Lowering (α : Type) := StateM Registers α

namespace Lowering

def freshTemp : Lowering Nat := fun r => (r.nextTemp, { r with nextTemp := r.nextTemp + 1 })

def occurrence (l : Layout) (id : Nat) : Lowering (Reg × Bool) := do
  let first := !(← get).seen.contains id
  modify fun r => { r with seen := id :: r.seen }
  match l.slot? (.var id) with
  | some y => return (.y y, first)
  | none =>
    match (← get).temps.lookup id with
    | some x => return (.x x, first)
    | none =>
      let x ← freshTemp
      modify fun r => { r with temps := (id, x) :: r.temps }
      return (.x x, first)

def isList (f : String) (arity : Nat) : Bool := f = "." && arity = 2

def getHeader (t : Term) (a : Nat) : List Instruction :=
  match t.functor? with
  | some f => [if isList f.name f.arity then .getList a else .getStructure f a]
  | none => []

def unifyVoids (n : Nat) : List Instruction := if n = 0 then [] else [.unifyVoid n]

def setVoids (n : Nat) : List Instruction := if n = 0 then [] else [.setVoid n]

/-- One argument of a structure in the head. A nested structure is left in a new register. -/
def unifyArg (l : Layout) : Term → Lowering (Instruction × Option Nat)
  | .var _ id => do
    let (reg, first) ← occurrence l id
    return (if first then .unifyVariable reg else .unifyValue reg, none)
  | .atom a => return (if a = "[]" then .unifyNil else .unifyConstant (.atom a), none)
  | .number n => return (.unifyConstant (.ofNumber n), none)
  | .compound _ _ | .cell _ _ => do
    let x ← freshTemp
    return (.unifyVariable (.x x), some x)

def unifyArgs (l : Layout) (voids : Nat) : List Term → Lowering (List Instruction × List Nat)
  | [] => return (unifyVoids voids, [])
  | arg :: rest =>
    if l.isSingleton arg then unifyArgs l (voids + 1) rest
    else do
      let (i, nested) ← unifyArg l arg
      let (code, regs) ← unifyArgs l 0 rest
      return (unifyVoids voids ++ i :: code, nested.toList ++ regs)

def queueSize : List (Term × Nat) → Nat
  | [] => 0
  | (t, _) :: rest => t.size + queueSize rest

theorem queueSize_append (p q : List (Term × Nat)) :
    queueSize (p ++ q) = queueSize p + queueSize q := by
  induction p with
  | nil => simp [queueSize]
  | cons e p ih => simp only [List.cons_append, queueSize, ih, Nat.add_assoc]

theorem queueSize_zip_le (ts : List Term) (regs : List Nat) :
    queueSize (ts.zip regs) ≤ Term.sizeAll ts := by
  induction ts generalizing regs with
  | nil => simp [queueSize]
  | cons t ts ih =>
    cases regs with
    | nil => simp [queueSize]
    | cons r regs =>
      have := ih regs
      simp only [queueSize, List.zip_cons_cons, Term.sizeAll]
      omega

theorem queueSize_args_lt (t : Term) (a : Nat) (rest : List (Term × Nat)) (regs : List Nat) :
    queueSize (rest ++ (t.args.filter Term.isStructure).zip regs) < queueSize ((t, a) :: rest) := by
  have zipped := queueSize_zip_le (t.args.filter Term.isStructure) regs
  have nested := Term.sizeAll_filter_le Term.isStructure t.args
  have smaller := Term.sizeAll_args_lt t
  rw [queueSize_append, queueSize]
  omega

def getStructures (l : Layout) (queue : List (Term × Nat)) : Lowering (List Instruction) :=
  match queue with
  | [] => return []
  | (t, a) :: rest => do
    let (code, regs) ← unifyArgs l 0 t.args
    let more ← getStructures l (rest ++ (t.args.filter Term.isStructure).zip regs)
    return getHeader t a ++ code ++ more
termination_by queueSize queue
decreasing_by exact queueSize_args_lt t a rest _

def getArg (l : Layout) (a : Nat) : Term → Lowering (List Instruction)
  | .var name id =>
    if l.isSingleton (.var name id) then return []
    else do
      let (reg, first) ← occurrence l id
      return [if first then .getVariable reg a else .getValue reg a]
  | .atom name => return [if name = "[]" then .getNil a else .getConstant (.atom name) a]
  | .number n => return [.getConstant (.ofNumber n) a]
  | t => getStructures l [(t, a)]

def getArgs (l : Layout) (a : Nat) : List Term → Lowering (List Instruction)
  | [] => return []
  | arg :: rest => do
    let code ← getArg l a arg
    let more ← getArgs l (a + 1) rest
    return code ++ more

def setArg (l : Layout) (built : Option Nat) (arg : Term) : Lowering (List Instruction) :=
  match built, arg with
  | some x, _ => return [.setValue (.x x)]
  | none, .var _ id => do
    let (reg, first) ← occurrence l id
    return [if first then .setVariable reg else .setValue reg]
  | none, .atom a => return [if a = "[]" then .setNil else .setConstant (.atom a)]
  | none, .number n => return [.setConstant (.ofNumber n)]
  | none, _ => return []

def setArgs (l : Layout) (voids : Nat) : List (Term × Option Nat) → Lowering (List Instruction)
  | [] => return setVoids voids
  | (arg, built) :: rest =>
    if l.isSingleton arg then setArgs l (voids + 1) rest
    else do
      let code ← setArg l built arg
      let more ← setArgs l 0 rest
      return setVoids voids ++ code ++ more

def putHeader (f : String) (arity : Nat) (a : Nat) : Instruction :=
  if isList f arity then .putList a else .putStructure ⟨f, arity⟩ a

def inFresh (build : Nat → Lowering (List Instruction)) :
    Lowering (List Instruction × Option Nat) := do
  let x ← freshTemp
  let code ← build x
  return (code, some x)

mutual

def build (l : Layout) (a : Nat) : Term → Lowering (List Instruction)
  | .compound f args => do
    let (code, built) ← buildNested l args
    let sets ← setArgs l 0 (args.zip built)
    return code ++ putHeader f args.length a :: sets
  | .cell h t => do
    let (code, x) ← if h.isStructure then inFresh (build l · h) else pure ([], none)
    let (code', y) ← if t.isStructure then inFresh (build l · t) else pure ([], none)
    let sets ← setArgs l 0 [(h, x), (t, y)]
    return code ++ code' ++ putHeader "." 2 a :: sets
  | _ => return []

def buildNested (l : Layout) : List Term → Lowering (List Instruction × List (Option Nat))
  | [] => return ([], [])
  | arg :: rest => do
    let (code, x) ← if arg.isStructure then inFresh (build l · arg) else pure ([], none)
    let (more, xs) ← buildNested l rest
    return (code ++ more, x :: xs)

end

/-- Set up an argument. In a last call the environment is already given up, so a slot that was
itself set up as an argument is not safe there. -/
def putArg (l : Layout) (lastCall : Bool) (a : Nat) : Term → Lowering (List Instruction)
  | .var name id =>
    if l.isSingleton (.var name id) then do
      let x ← freshTemp
      return [.putVariable (.x x) a]
    else do
      let (reg, first) ← occurrence l id
      match reg, first with
      | .y _, true =>
        modify fun r => { r with unsafeVars := id :: r.unsafeVars }
        return [.putVariable reg a]
      | .x _, true => return [.putVariable reg a]
      | .y y, false =>
        if lastCall && (← get).unsafeVars.contains id then return [.putUnsafeValue y a]
        else return [.putValue reg a]
      | .x _, false => return [.putValue reg a]
  | .atom name => return [if name = "[]" then .putNil a else .putConstant (.atom name) a]
  | .number n => return [.putConstant (.ofNumber n) a]
  | t => build l a t

def putArgs (l : Layout) (lastCall : Bool) (a : Nat) : List Term → Lowering (List Instruction)
  | [] => return []
  | arg :: rest => do
    let code ← putArg l lastCall a arg
    let more ← putArgs l lastCall (a + 1) rest
    return code ++ more

end Lowering

structure CompiledClause where
  functor : Functor
  key : SymbolKey
  clause : Clause
  code : List Instruction
  permanentVars : Nat
  references : List Functor
  deriving DecidableEq, Repr

structure CompiledQuery where
  clause : Clause
  names : List (String × Term)
  code : List Instruction
  permanentVars : Nat
  deriving DecidableEq, Repr

def CompiledQuery.goal (q : CompiledQuery) : Term := .conjoin q.clause.body

def CompiledQuery.text (q : CompiledQuery) : String :=
  "?- " ++ q.goal.text ++ "\n" ++ Instruction.listing q.code

namespace Lowering

/-- The highest arity in a clause. Registers up to there hold arguments. -/
def maxArity (head : Option Term) (goals : List BodyGoal) : Nat :=
  (head.toList.map Term.arity ++ goals.map (·.args.length)).foldl max 0

def start (head : Option Term) (goals : List BodyGoal) : Registers :=
  ⟨[], maxArity head goals + 1, [], []⟩

def goalCode (l : Layout) (g : BodyGoal) (chunk : Nat) :
    ExceptT CompileError (StateM Registers) (List Instruction) :=
  match g with
  | .cut =>
    if chunk = 0 then return [.neckCut]
    else match l.slot? .cutLevel with
      | some y => return [.cut y]
      | none => throw (.internal .noCutLevel)
  | .user f args => do return (← putArgs l false 1 args) ++ [.call f (l.liveAfter chunk)]
  | .builtin b goal => do
    return (← putArgs l false 1 goal.args) ++ [.callBuiltin b (l.liveAfter chunk)]

/-- The code of a body. With `tail`, a last goal of the program is executed instead of called,
after the environment is given up if there is one. -/
def bodyCode (l : Layout) (tail framed : Bool) : List (BodyGoal × Nat) →
    ExceptT CompileError (StateM Registers) (List Instruction)
  | [] => return []
  | [(.user f args, chunk)] =>
    if tail then do
      let code ← putArgs l framed 1 args
      return code ++ (if framed then [.deallocate] else []) ++ [.execute f]
    else goalCode l (.user f args) chunk
  | (g, chunk) :: rest => do
    let code ← goalCode l g chunk
    let more ← bodyCode l tail framed rest
    return code ++ more

def entry (l : Layout) (framed : Bool) : List Instruction :=
  (if framed then [.allocate l.frameSize] else []) ++
    (l.slot? .cutLevel).toList.map .getLevel

def lastIsUser (goals : List BodyGoal) : Bool := goals.getLast?.any BodyGoal.isUser

/-- Whether a clause needs an environment. With the chain rule a clause whose only call is its
last goal does without. -/
def needsFrame (l : Layout) (goals : List BodyGoal) (chainRule : Bool) : Bool :=
  let calls := goals.countP BodyGoal.endsChunk
  0 < l.frameSize || 1 < calls || (calls = 1 && !lastIsUser goals) || (0 < calls && !chainRule)

def clauseCode (head : Term) (goals : List BodyGoal) (chainRule : Bool) (l : Layout) :
    ExceptT CompileError (StateM Registers) (List Instruction) := do
  let framed := needsFrame l goals chainRule
  let matching ← getArgs l 1 head.args
  let body ← bodyCode l true framed (goals.zip l.chunks)
  let ending := if lastIsUser goals then []
    else (if framed then [.deallocate] else []) ++ [.proceed]
  return entry l framed ++ matching ++ body ++ ending

def queryCode (goals : List BodyGoal) (l : Layout) :
    ExceptT CompileError (StateM Registers) (List Instruction) := do
  let framed := 0 < l.frameSize || goals.any BodyGoal.endsChunk
  let body ← bodyCode l false framed (goals.zip l.chunks)
  return entry l framed ++ body ++ [.proceed]

def references (marks : List GoalMark) : List Functor :=
  marks.foldl (fun found m =>
    if (Builtin.lookup? m.functor).isSome || m.functor = ⟨"!", 0⟩ || found.contains m.functor
    then found else found ++ [m.functor]) []

end Lowering

namespace PreparedClause

def compileClause (p : PreparedClause) (chainRule : Bool) : Except CompileError CompiledClause := do
  let some head := p.clause.head | throw (.internal .noHead)
  let some functor := head.functor? | throw (.internal (.headFunctor head))
  let some key := p.key | throw (.internal (.noKey functor))
  let goals ← p.clause.body.mapM BodyGoal.ofTerm
  let l := Layout.ofClause (some head) goals []
  let code ← ((Lowering.clauseCode head goals chainRule l).run (Lowering.start (some head) goals)).1
  return ⟨functor, key, p.clause, code, l.frameSize, Lowering.references p.marks⟩

def answerIds (names : List (String × Term)) : List Nat :=
  names.filterMap fun (_, t) =>
    match t with
    | .var _ id => some id
    | _ => none

/-- Lower a query. It keeps its environment to the end, so that its answer can be read. -/
def compileQuery (p : PreparedClause) : Except CompileError CompiledQuery := do
  if p.clause.head.isSome then throw (.internal (.notQuery p.clause))
  let goals ← p.clause.body.mapM BodyGoal.ofTerm
  let l := Layout.ofClause none goals (answerIds p.names)
  let code ← ((Lowering.queryCode goals l).run (Lowering.start none goals)).1
  return ⟨p.clause, p.names, code, l.frameSize⟩

end PreparedClause

end Horn
