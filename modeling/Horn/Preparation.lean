import Horn.Expansion

/-!
# Preparing clauses

Each stage is a task. What a task leaves to be done is put on a list of tasks and is done before
anything that was put there earlier.
-/

namespace Horn

open Horn.Text

inductive Output where
  | clause (p : PreparedClause)
  | unitClosed (u : UnitSummary)
  deriving DecidableEq, Repr

/-- The predicate that an indicator `name/arity` or, for a grammar rule, `name//arity` names. -/
def Functor.ofIndicator? : Term → Option Functor
  | .compound f [.atom name, .number (.int n)] =>
    if n.toInt < 0 then none
    else if f = "/" then some ⟨name, n.toInt.toNat⟩
    else if f = "//" then some ⟨name, n.toInt.toNat + 2⟩
    else none
  | _ => none

def Functor.ofIndicators (spec : Term) : Except SourceFault (List Functor) :=
  (spec.items?.getD spec.conjuncts).mapM fun t =>
    match Functor.ofIndicator? t with
    | some f => .ok f
    | none => .error (.indicator t)

def normalizedEncoding (name : String) : String :=
  String.ofList ((name.toList.filter fun c => c ≠ '-' && c ≠ '_').map Char.toLower)

namespace Config

def setFlag (c : Config) (flag value : Term) : Except SourceFault Config :=
  let word := value.name?.getD ""
  match flag.name? with
  | some "double_quotes" =>
    match DoubleQuotes.ofText? word with
    | some q => .ok { c with doubleQuotes := q }
    | none => .error (.flagValue "double_quotes" value)
  | some "unknown" =>
    match Unknown.ofText? word with
    | some u => .ok { c with unknown := u }
    | none => .error (.flagValue "unknown" value)
  | _ => .error (.unknownFlag flag)

end Config

namespace Preparation

variable {σ : Type}

inductive Directive where
  | op (priority type names : Term)
  | encoding (name : Term)
  | dynamic (spec : Term)
  | discontiguous (spec : Term)
  | multifile (spec : Term)
  | setFlag (flag value : Term)
  | initialization (goal : Term)
  deriving DecidableEq, Repr

def Directive.ofGoal? : Term → Option Directive
  | .compound f [a] =>
    if f = "encoding" then some (.encoding a)
    else if f = "dynamic" then some (.dynamic a)
    else if f = "discontiguous" then some (.discontiguous a)
    else if f = "multifile" then some (.multifile a)
    else if f = "initialization" then some (.initialization a)
    else none
  | .compound f [a, b] => if f = "set_prolog_flag" then some (.setFlag a b) else none
  | .compound f [a, b, c] => if f = "op" then some (.op a b c) else none
  | _ => none

def declareAll (o : Observer σ) (make : Functor → Declaration) :
    List Functor → Compiling σ Unit
  | [] => return
  | f :: rest => do
    Compiling.tell (o.declared (make f))
    declareAll o make rest

/-- Carry out a directive. A fault is reported with the goal of the directive. -/
def obey (o : Observer σ) (goal : Term) (position : Position) (d : Directive) :
    Compiling σ Unit := do
  let fail {α : Type} (fault : SourceFault) : Compiling σ α :=
    throw (.source fault goal.text position)
  let orFail {α : Type} (x : Except SourceFault α) : Compiling σ α :=
    match x with
    | .ok a => return a
    | .error fault => fail fault
  match d with
  | .op priority type names =>
    let (result, ops) := (← Compiling.context).operators.declareTerms priority type names
    Compiling.changeContext ({ · with operators := ops })
    match result with
    | .ok () => return
    | .error e => fail (.operator e)
  | .encoding name =>
    let name := name.name?.getD ""
    if normalizedEncoding name ≠ "utf8" then fail (.encoding name)
  | .dynamic spec => declareAll o .dynamic (← orFail (Functor.ofIndicators spec))
  | .discontiguous spec =>
    let fs ← orFail (Functor.ofIndicators spec)
    Compiling.changeContext fun c =>
      { c with symbols := fs.foldl SymbolTable.declareDiscontiguous c.symbols }
    declareAll o .discontiguous fs
  | .multifile spec => declareAll o .multifile (← orFail (Functor.ofIndicators spec))
  | .setFlag flag value =>
    let config ← orFail ((← Compiling.context).config.setFlag flag value)
    Compiling.changeContext ({ · with config })
    Compiling.tell (o.declared (.flag flag.text value.text))
  | .initialization init =>
    Compiling.changeContext fun c =>
      { c with initialization := c.initialization ++ [⟨⟨none, [init], .directive, position⟩, []⟩] }

def isStatic (head : Term) : Bool := (Builtin.ofGoal? head).isSome || head.isAtom "!"

def recordClause (o : Observer σ) (f : Functor) (position : Position) : Compiling σ Unit := do
  let (warning, symbols) := (← Compiling.context).symbols.record f
  Compiling.changeContext ({ · with symbols })
  match warning with
  | some w => Compiling.tell (o.warned ⟨w, position⟩)
  | none => return

/-- Sort a term by what it is as a clause; directives of the compiler leave nothing to prepare. -/
def classify (o : Observer σ) (r : ReadTerm) : Compiling σ (Option Pending) := do
  match Clause.ofTerm r.term r.position with
  | .error e => throw (.source (.clause e) r.term.text r.position)
  | .ok clause =>
    match clause.head, clause.kind with
    | some head, _ =>
      let f := head.functor?.getD ⟨"", 0⟩
      if isStatic head then throw (.source (.staticProcedure f) r.term.text r.position)
      recordClause o f r.position
      return some ⟨clause, r.names⟩
    | none, .directive =>
      let goal := Term.conjoin clause.body
      match Directive.ofGoal? goal with
      | some d =>
        obey o goal r.position d
        return none
      | none => return some ⟨clause, r.names⟩
    | none, _ => return some ⟨clause, r.names⟩

def withoutGrammar (r : ReadTerm) : Except CompileError ReadTerm :=
  if Grammar.isRule r.term then
    match Grammar.toClause r.term with
    | .ok t => .ok { r with term := t }
    | .error e => .error (.source (.grammar e) r.term.text r.position)
  else .ok r

inductive Task where
  | conditional (r : ReadTerm)
  | termExpansion (r : ReadTerm)
  | grammar (r : ReadTerm)
  | classify (r : ReadTerm)
  | goalExpansion (p : Pending)
  | builtins (p : Pending)
  | keys (p : Pending)

namespace Task

def perform (o : Observer σ) (fuel : Nat) : Task → Compiling σ (List Task × List Output)
  | .conditional r => do
    let c ← Compiling.context
    let condition (t : Term) : Compiling σ Bool := Compiling.ask (o.condition t)
    let (admitted, frames) ← c.conditionals.sift condition r.term r.position
    Compiling.changeContext ({ · with conditionals := frames })
    if admitted then return ([.termExpansion r], []) else return ([], [])
  | .termExpansion r => do
    let terms ← Compiling.located r.position (Expansion.terms o r.term)
    return (terms.map fun t => .grammar { r with term := t }, [])
  | .grammar r => do
    let r ← Compiling.ofExcept (withoutGrammar r)
    return ([.classify r], [])
  | .classify r => do
    match ← Preparation.classify o r with
    | none => return ([], [])
    | some p => return ([.goalExpansion p], [])
  | .goalExpansion p => do
    let clause ← Expansion.clause o fuel p.clause
    return ([.builtins { p with clause }], [])
  | .builtins p => return ([.keys { p with clause := p.clause.mark }], [])
  | .keys p => do
    let (key, marks, symbols) := (← Compiling.context).symbols.mark p.clause
    Compiling.changeContext ({ · with symbols })
    return ([], [.clause ⟨p.clause, key, marks, p.names⟩])

/-- Put tasks on a list, the last of them first, so that they are done in order. -/
def pushAll (new tasks : List Task) : List Task :=
  new.reverse.foldl (fun tasks t => t :: tasks) tasks

def early : Task → Nat
  | .conditional _ => 2
  | .termExpansion _ => 1
  | _ => 0

def late : Task → Nat
  | .grammar _ => 5
  | .classify _ => 4
  | .goalExpansion _ => 3
  | .builtins _ => 2
  | .keys _ => 1
  | _ => 0

def stages (count : Task → Nat) : List Task → Nat
  | [] => 0
  | t :: tasks => count t + stages count tasks

theorem stages_append (count : Task → Nat) (new tasks : List Task) :
    stages count (new ++ tasks) = stages count new + stages count tasks := by
  induction new with
  | nil => exact (Nat.zero_add _).symm
  | cons t new ih => rw [List.cons_append, stages, stages, ih, Nat.add_assoc]

theorem pushAll_eq (new tasks : List Task) : pushAll new tasks = new ++ tasks := by
  rw [pushAll, List.foldl_reverse, List.foldr_cons_eq_append']

/-- What a task leads to has fewer stages before it than the task. -/
theorem perform_lowers {o : Observer σ} {fuel : Nat} {t : Task} {s s' : Context × σ}
    {new : List Task} {outputs : List Output} (h : perform o fuel t s = .ok (new, outputs) s') :
    stages early new < t.early ∨ stages early new = t.early ∧ stages late new < t.late := by
  cases t with
  | conditional r =>
    obtain ⟨c, s₁, -, h⟩ := ok_of_bind h
    obtain ⟨⟨admitted, frames⟩, s₂, -, h⟩ := ok_of_bind h
    obtain ⟨_, s₃, -, h⟩ := ok_of_bind h
    cases admitted <;> cases h <;> simp [early, stages]
  | termExpansion r =>
    obtain ⟨terms, s₁, -, h⟩ := ok_of_bind h
    cases h
    have none : ∀ ts : List Term, stages early (ts.map fun t => grammar { r with term := t }) = 0 := by
      intro ts
      induction ts with
      | nil => rfl
      | cons t ts ih => simpa [early, stages] using ih
    exact .inl (by rw [none]; exact Nat.zero_lt_one)
  | classify r =>
    obtain ⟨found, s₁, -, h⟩ := ok_of_bind h
    cases found <;> cases h <;> simp [early, late, stages]
  | grammar | goalExpansion =>
    obtain ⟨_, s₁, -, h⟩ := ok_of_bind h
    cases h
    simp [early, late, stages]
  | builtins p =>
    cases h
    simp [early, late, stages]
  | keys p =>
    obtain ⟨c, s₁, -, h⟩ := ok_of_bind h
    obtain ⟨_, s₂, -, h⟩ := ok_of_bind h
    cases h
    simp [early, late, stages]

end Task

def run (o : Observer σ) (fuel : Nat) (tasks : List Task) : Compiling σ (List Output) := fun s =>
  match tasks with
  | [] => .ok [] s
  | t :: rest =>
    match _h : t.perform o fuel s with
    | .error e s => .error e s
    | .ok (new, outputs) s => ((outputs ++ ·) <$> run o fuel (Task.pushAll new rest)) s
termination_by (Task.stages Task.early tasks, Task.stages Task.late tasks)
decreasing_by
  simp only [Task.pushAll_eq, Task.stages_append, Task.stages]
  rcases Task.perform_lowers _h with fewer | ⟨same, fewer⟩
  · exact .left _ _ (Nat.add_lt_add_right fewer _)
  · rw [same]
    exact .right _ (Nat.add_lt_add_right fewer _)

def term (o : Observer σ) (fuel : Nat) (r : ReadTerm) : Compiling σ (List Output) :=
  run o fuel [.conditional r]

def firstClause? (outputs : List Output) : Option PreparedClause :=
  outputs.findSome? fun
    | .clause p => some p
    | .unitClosed _ => none

def query (o : Observer σ) (fuel : Nat) (r : ReadTerm) : Compiling σ PreparedClause := do
  match Clause.ofTerm (.compound "?-" [r.term]) r.position with
  | .error e => throw (.source (.clause e) "?-" r.position)
  | .ok clause =>
    match firstClause? (← run o fuel [.goalExpansion ⟨clause, r.names⟩]) with
    | some p => return p
    | none => throw (.internal .noQuery)

def openUnit (o : Observer σ) (name : String) : Compiling σ Unit := do
  Compiling.changeContext fun c =>
    { c with symbols := c.symbols.openUnit name, conditionals := [], initialization := [] }
  Compiling.tell (o.unitOpened name)

def ensuring {α β : Type} (x : Compiling σ α) (last : Compiling σ β) : Compiling σ (α × β) :=
  fun s =>
    match x s with
    | .ok a s =>
      match last s with
      | .ok b s => .ok (a, b) s
      | .error e s => .error e s
    | .error e s =>
      match last s with
      | .ok _ s => .error e s
      | .error _ s => .error e s

/-- End a unit: no conditional may be open, and the goals of `initialization/1` are prepared. The
unit is closed even if one of them is at fault. -/
def closeUnit (o : Observer σ) (fuel : Nat) : Compiling σ (List Output) := do
  let c ← Compiling.context
  Compiling.changeContext ({ · with conditionals := [], initialization := [] })
  let initialized : Compiling σ (List Output) := do
    Compiling.ofExcept c.conditionals.finish
    run o fuel (Task.pushAll (c.initialization.map .goalExpansion) [])
  let close : Compiling σ (Option UnitSummary) := do
    let (closed, symbols) := (← Compiling.context).symbols.closeUnit
    Compiling.changeContext ({ · with symbols })
    return closed
  let (outputs, closed) ← ensuring initialized close
  return outputs ++ closed.toList.map .unitClosed

end Preparation

end Horn
