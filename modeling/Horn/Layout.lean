import Horn.CompileError

/-!
# Environment layout

The goals of a body fall into chunks, each of which ends with a call. A variable of several chunks
has to survive a call and gets a slot, and so does the cut level when a cut follows a call. The
slots that are needed longest come first, so that an environment can be trimmed at its end.
-/

namespace Horn

inductive BodyGoal where
  | cut
  | user (f : Functor) (args : List Term)
  | builtin (b : Builtin) (goal : Term)
  deriving DecidableEq, Repr

namespace BodyGoal

def ofTerm (goal : Term) : Except CompileError BodyGoal :=
  if goal.isAtom "!" then .ok cut
  else match goal.marked?, goal.functor? with
    | some (b, inner), _ => .ok (builtin b inner)
    | none, some f => .ok (user f goal.args)
    | none, none => .error (.internal (.goal goal))

/-- A call may use every register, so it ends a chunk. -/
def endsChunk : BodyGoal → Bool
  | cut => false
  | user _ _ => true
  | builtin b _ => b.callsGoals

def args : BodyGoal → List Term
  | cut => []
  | user _ args => args
  | builtin _ goal => goal.args

def isUser : BodyGoal → Bool
  | user _ _ => true
  | _ => false

def terms : BodyGoal → List Term
  | cut => []
  | user _ args => args
  | builtin _ goal => [goal]

end BodyGoal

mutual

def Term.occurrences : Term → List Nat
  | .var _ id => [id]
  | .compound _ args => Term.occurrencesAll args
  | .cell h t => Term.occurrences h ++ Term.occurrences t
  | _ => []

def Term.occurrencesAll : List Term → List Nat
  | [] => []
  | a :: as => Term.occurrences a ++ Term.occurrencesAll as

end

structure Occurrence where
  count : Nat
  first : Nat
  last : Nat
  order : Nat
  deriving DecidableEq, Repr

abbrev VarTable := List (Nat × Occurrence)

def VarTable.update (t : VarTable) (id chunk : Nat) (f : Occurrence → Occurrence) : VarTable :=
  if t.any (·.1 = id) then t.map fun (i, o) => if i = id then (i, f o) else (i, o)
  else t ++ [(id, f ⟨0, chunk, chunk, t.length⟩)]

def VarTable.note (chunk : Nat) (t : VarTable) (id : Nat) : VarTable :=
  t.update id chunk fun o => { o with count := o.count + 1, last := max o.last chunk }

/-- A variable that is read when the last goal is done. -/
def VarTable.noteAnswer (chunk : Nat) (t : VarTable) (id : Nat) : VarTable :=
  t.update id chunk fun o => { o with count := o.count + 1, last := chunk + 1 }

structure Survey where
  chunk : Nat
  chunks : List Nat
  vars : VarTable
  lastCut : Option Nat
  deriving DecidableEq, Repr

namespace Survey

def ofHead (head : Option Term) : Survey :=
  ⟨0, [], (Term.occurrencesAll head.toList).foldl (VarTable.note 0) [], none⟩

def goal (s : Survey) (g : BodyGoal) : Survey :=
  { chunk := if g.endsChunk then s.chunk + 1 else s.chunk
    chunks := s.chunks ++ [s.chunk]
    vars := (Term.occurrencesAll g.terms).foldl (VarTable.note s.chunk) s.vars
    lastCut := if g = .cut && 0 < s.chunk then some s.chunk else s.lastCut }

def answer (s : Survey) (id : Nat) : Survey := { s with vars := s.vars.noteAnswer s.chunk id }

/-- The survey of a clause or, with the variables of its answers, of a query. -/
def ofClause (head : Option Term) (goals : List BodyGoal) (answers : List Nat) : Survey :=
  answers.foldl answer (goals.foldl goal (ofHead head))

end Survey

inductive SlotUse where
  | var (id : Nat)
  | cutLevel
  deriving DecidableEq, Repr

structure Slot where
  use : SlotUse
  last : Nat
  /-- The place of a variable among the variables of the clause; the cut level comes last. -/
  order : Option Nat
  deriving DecidableEq, Repr

namespace Slot

def orderedBefore : Option Nat → Option Nat → Bool
  | some i, some j => i ≤ j
  | _, none => true
  | none, some _ => false

/-- Slots that are needed longer come first. -/
def before (a b : Slot) : Bool :=
  b.last < a.last || (a.last = b.last && orderedBefore a.order b.order)

end Slot

structure Layout where
  chunks : List Nat
  slots : List Slot
  singletons : List Nat
  deriving DecidableEq, Repr

namespace Layout

/-- The slots that a clause needs. The order of the table's entries does not matter. -/
def slotsOf (vars : VarTable) (lastCut : Option Nat) : List Slot :=
  let kept := vars.filter fun (_, o) => o.first ≠ o.last
  let slots : List Slot := kept.map fun (id, o) => ⟨.var id, o.last, some o.order⟩
  let levels : List Slot := lastCut.toList.map fun last => ⟨.cutLevel, last, none⟩
  (slots ++ levels).mergeSort Slot.before

def ofSurvey (s : Survey) : Layout where
  chunks := s.chunks
  slots := slotsOf s.vars s.lastCut
  singletons :=
    (s.vars.filter fun (_, o) => o.count = 1 && o.first = o.last).map (·.1)

def ofClause (head : Option Term) (goals : List BodyGoal) (answers : List Nat) : Layout :=
  ofSurvey (.ofClause head goals answers)

def frameSize (l : Layout) : Nat := l.slots.length

def slot? (l : Layout) (use : SlotUse) : Option Nat :=
  (l.slots.findIdx? (·.use = use)).map (· + 1)

def liveAfter (l : Layout) (chunk : Nat) : Nat := l.slots.countP (chunk < ·.last)

def isSingleton (l : Layout) : Term → Bool
  | .var _ id => l.singletons.contains id
  | _ => false

end Layout

end Horn
