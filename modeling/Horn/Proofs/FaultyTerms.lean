import Horn.Proofs.ObservedCalls

/-!
# What a faulty term leaves behind

What the earlier stages of a term have changed is not taken back when a later one fails.
-/

namespace Horn

open Compiling

variable {σ α : Type}

namespace OperatorTable

variable {t' t : OperatorTable} {e : OperatorError}

lemma declareNames_error {priority : Nat} {type : OpType} {names : List Term}
    (h : t.declareNames priority type names = (.error e, t')) :
    ∃ before name after, names = before ++ name :: after ∧
      t.declareNames priority type before = (.ok (), t') ∧
      t'.declareNames priority type [name] = (.error e, t') := by
  induction names generalizing t with
  | nil => cases h
  | cons name names ih =>
    cases name with
    | atom a =>
      unfold declareNames at h
      cases declared : t.declare priority type a with
      | ok r =>
        obtain ⟨old, t₁⟩ := r
        simp only [declared] at h
        obtain ⟨before, name, after, rfl, done, refused⟩ := ih h
        refine ⟨.atom a :: before, name, after, rfl, ?_, refused⟩
        simp only [declareNames, declared, done]
      | error e' =>
        simp only [declared] at h
        cases h
        refine ⟨[], .atom a, names, rfl, rfl, ?_⟩
        simp only [declareNames, declared]
    | _ =>
      cases h
      exact ⟨[], _, names, rfl, rfl, rfl⟩

lemma declareTerms_error {priority type names : Term}
    (h : t.declareTerms priority type names = (.error e, t')) :
    t' = t ∨ ∃ p ty before name after, declaredPriority priority = .ok p ∧
      declaredType type = .ok ty ∧ declaredNames names = before ++ name :: after ∧
      t.declareNames p ty before = (.ok (), t') ∧
      t'.declareNames p ty [name] = (.error e, t') := by
  unfold declareTerms at h
  split at h
  · cases h
    exact .inl rfl
  · next p isPriority =>
    split at h
    · cases h
      exact .inl rfl
    · next ty isType =>
      obtain ⟨before, name, after, refused⟩ := declareNames_error h
      exact .inr ⟨p, ty, before, name, after, isPriority, isType, refused⟩

end OperatorTable

def Watching.after (w : Watching σ α) (x : OperatorTable × σ) : OperatorTable × σ :=
  match w x with
  | .ok _ y => y
  | .error _ y => y

inductive Watching.Calls (call : Term → Watching σ α) :
    OperatorTable × σ → OperatorTable × σ → Prop where
  | nil (x : OperatorTable × σ) : Calls call x x
  | cons {x y : OperatorTable × σ} (t : Term) (others : Calls call ((call t).after x) y) :
      Calls call x y

lemma Watching.Calls.append {call : Term → Watching σ α} {x y z : OperatorTable × σ}
    (h : Calls call x y) (h' : Calls call y z) : Calls call x z := by
  induction h with
  | nil => exact h'
  | cons t _ ih => exact .cons t (ih h')

open Compiling (seen resumed)

def Limits.calling (call : Term → Watching σ α) : Limits σ σ where
  view := id
  invariant _ := True
  change s s' := ∃ x, Watching.Calls call (seen s) x ∧ s' = resumed s x
  error _ _ := True
  refl s := ⟨seen s, .nil _, rfl⟩
  trans := by
    rintro s _ _ ⟨x, calls, rfl⟩ ⟨y, calls', rfl⟩
    exact ⟨y, calls.append calls', rfl⟩
  located _ _ := trivial

lemma Limits.bounds_call (call : Term → Watching σ α) (t : Term) :
    (Limits.calling call).Bounds (ask (call t)) (ask (call t)) := by
  intro s _
  change Within _ _ _ (ask (call t) s) _
  have calls : Watching.Calls call (seen s) ((call t).after (seen s)) := .cons t (.nil _)
  unfold Watching.after at calls
  cases asked : call t (seen s) with
  | ok a x =>
    rw [asked] at calls
    rw [ask_of_ok asked]
    exact .ok (L := .calling call) trivial ⟨x, calls, rfl⟩ trivial
  | error e x =>
    rw [asked] at calls
    rw [ask_of_error asked]
    exact .error (L := .calling call) trivial ⟨x, calls, rfl⟩ trivial

namespace Preparation

def noted (o : Observer σ) (f : Functor) (position : Text.Position) (s : Context × σ) :
    Context × σ :=
  ({ s.1 with symbols := (s.1.symbols.record f).2 },
    match (s.1.symbols.record f).1 with
    | some w => o.warned ⟨w, position⟩ s.2
    | none => s.2)

lemma recordClause_eq (o : Observer σ) (f : Functor) (position : Text.Position)
    (s : Context × σ) : recordClause o f position s = .ok () (noted o f position s) := by
  rw [recordClause, context_bind]
  unfold noted
  rcases s.1.symbols.record f with ⟨_ | w, symbols⟩ <;> rfl

section Operators

variable {o : Observer σ} {goal priority type names : Term} {position : Text.Position}
  {s : Context × σ} {ops : OperatorTable} {fault : OperatorError}

lemma obey_op_ok
    (declared : s.1.operators.declareTerms priority type names = (.ok (), ops)) :
    obey o goal position (.op priority type names) s =
      .ok () ({ s.1 with operators := ops }, s.2) := by
  simp only [obey]
  rw [context_bind, declared]
  rfl

lemma obey_op_error
    (declared : s.1.operators.declareTerms priority type names = (.error fault, ops)) :
    obey o goal position (.op priority type names) s =
      .error (.source (.operator fault) goal.text position)
        ({ s.1 with operators := ops }, s.2) := by
  simp only [obey]
  rw [context_bind, declared]
  rfl

end Operators

variable {o : Observer σ} {fuel : Nat} {r : ReadTerm} {e : CompileError} {s s' : Context × σ}
  {position : Text.Position} {goal : Term} {p : Pending}

/-- What is left of a term that cannot be prepared. -/
inductive Leaves (o : Observer σ) (fuel : Nat) (r : ReadTerm) (e : CompileError)
    (s : Context × σ) : Context × σ → Prop where
  | nothing : Leaves o fuel r e s s
  | names {r' : ReadTerm} {body before after : List Term} {position : Text.Position}
      {priority type names name : Term} {p : Nat} {t : OpType} {ops : OperatorTable}
      {fault : OperatorError} (plain : withoutGrammar r = .ok r')
      (isDirective : Clause.ofTerm r'.term r'.position = .ok ⟨none, body, .directive, position⟩)
      (isOp : Directive.ofGoal? (Term.conjoin body) = some (.op priority type names))
      (isPriority : OperatorTable.declaredPriority priority = .ok p)
      (isType : OperatorTable.declaredType type = .ok t)
      (split : OperatorTable.declaredNames names = before ++ name :: after)
      (declared : s.1.operators.declareNames p t before = (.ok (), ops))
      (refused : ops.declareNames p t [name] = (.error fault, ops)) :
      Leaves o fuel r e s ({ s.1 with operators := ops }, s.2)
  | query {r' : ReadTerm} {clause : Clause} {x : OperatorTable × σ}
      (plain : withoutGrammar r = .ok r')
      (isQuery : Clause.ofTerm r'.term r'.position = .ok clause) (headless : clause.head = none)
      (failed : Expansion.clause o fuel clause s = .error e (resumed s x))
      (calls : Watching.Calls o.expandGoal (seen s) x) : Leaves o fuel r e s (resumed s x)
  | clause {r' : ReadTerm} {clause : Clause} {head : Term} {f : Functor} {s₁ : Context × σ}
      {x : OperatorTable × σ} (plain : withoutGrammar r = .ok r')
      (isClause : Clause.ofTerm r'.term r'.position = .ok clause)
      (hasHead : clause.head = some head) (functor : f = head.functor?.getD ⟨"", 0⟩)
      (recorded : s₁ = noted o f r'.position s)
      (failed : Expansion.clause o fuel clause s₁ = .error e (resumed s₁ x))
      (calls : Watching.Calls o.expandGoal (seen s₁) x) : Leaves o fuel r e s (resumed s₁ x)

lemma declareAll_ok (make : Functor → Declaration) (fs : List Functor) (s : Context × σ) :
    ∃ s', declareAll o make fs s = .ok () s' := by
  induction fs generalizing s with
  | nil => exact ⟨s, rfl⟩
  | cons f fs ih => exact ih (s.1, o.declared (make f) s.2)

lemma orFail_error {x : Except SourceFault α} {f : α → Compiling σ Unit}
    (failed : (orFail goal position x >>= f) s = .error e s') (ok : ∀ a, ∃ s₁, f a s = .ok () s₁) :
    s' = s := by
  cases x with
  | ok a =>
    obtain ⟨s₁, ran⟩ := ok a
    cases failed.symm.trans ran
  | error fault =>
    cases failed
    rfl

lemma obey_error {d : Directive} (failed : obey o goal position d s = .error e s') :
    s' = s ∨ ∃ priority type names fault ops, d = .op priority type names ∧
      s.1.operators.declareTerms priority type names = (.error fault, ops) ∧
      s' = ({ s.1 with operators := ops }, s.2) := by
  cases d with
  | op priority type names =>
    rcases declared : s.1.operators.declareTerms priority type names with ⟨fault | _, ops⟩
    · rw [obey_op_error declared] at failed
      cases failed
      exact .inr ⟨priority, type, names, fault, ops, rfl, declared, rfl⟩
    · rw [obey_op_ok declared] at failed
      cases failed
  | encoding name =>
    simp only [obey] at failed
    split at failed
    · cases failed
      exact .inl rfl
    · cases failed
  | dynamic spec => exact .inl (orFail_error failed fun fs => declareAll_ok _ fs s)
  | discontiguous spec => exact .inl (orFail_error failed fun fs => declareAll_ok _ fs _)
  | multifile spec => exact .inl (orFail_error failed fun fs => declareAll_ok _ fs s)
  | setFlag flag value => exact .inl (orFail_error failed fun config => ⟨_, rfl⟩)
  | initialization init => cases failed

lemma classify_error (failed : classify o r s = .error e s') :
    s' = s ∨ ∃ body position priority type names fault ops,
      Clause.ofTerm r.term r.position = .ok ⟨none, body, .directive, position⟩ ∧
      Directive.ofGoal? (Term.conjoin body) = some (.op priority type names) ∧
      s.1.operators.declareTerms priority type names = (.error fault, ops) ∧
      s' = ({ s.1 with operators := ops }, s.2) := by
  unfold classify at failed
  cases isClause : Clause.ofTerm r.term r.position with
  | error fault =>
    simp only [isClause] at failed
    cases failed
    exact .inl rfl
  | ok clause =>
    obtain ⟨_ | head, body, kind, position⟩ := clause
    · cases kind with
      | directive =>
        cases found : Directive.ofGoal? (Term.conjoin body) with
        | none =>
          simp only [isClause, found] at failed
          cases failed
        | some d =>
          simp only [isClause, found] at failed
          rcases error_of_bind failed with failed | ⟨_, _, -, failed⟩
          · rcases obey_error failed with same | ⟨priority, type, names, fault, ops, rfl, op, rfl⟩
            · exact .inl same
            · exact .inr ⟨body, position, priority, type, names, fault, ops, rfl, found, op, rfl⟩
          · cases failed
      | _ =>
        simp only [isClause] at failed
        cases failed
    · simp only [isClause] at failed
      split at failed
      · cases failed
        exact .inl rfl
      · rcases error_of_bind failed with failed | ⟨_, _, -, failed⟩
        · rw [recordClause_eq] at failed
          cases failed
        · cases failed

lemma classify_ok (ran : classify o r s = .ok (some p) s') :
    Clause.ofTerm r.term r.position = .ok p.clause ∧
      ((p.clause.head = none ∧ s' = s) ∨ ∃ head, p.clause.head = some head ∧
        s' = noted o (head.functor?.getD ⟨"", 0⟩) r.position s) := by
  unfold classify at ran
  cases isClause : Clause.ofTerm r.term r.position with
  | error fault =>
    simp only [isClause] at ran
    cases ran
  | ok clause =>
    obtain ⟨_ | head, body, kind, position⟩ := clause
    · cases kind with
      | directive =>
        cases found : Directive.ofGoal? (Term.conjoin body) with
        | none =>
          simp only [isClause, found] at ran
          cases ran
          exact ⟨rfl, .inl ⟨rfl, rfl⟩⟩
        | some d =>
          simp only [isClause, found] at ran
          obtain ⟨_, _, -, ran⟩ := ok_of_bind ran
          cases ran
      | _ =>
        simp only [isClause] at ran
        cases ran
        exact ⟨rfl, .inl ⟨rfl, rfl⟩⟩
    · simp only [isClause] at ran
      split at ran
      · cases ran
      · rw [bind_ok (recordClause_eq o _ _ s)] at ran
        cases ran
        exact ⟨rfl, .inr ⟨head, rfl, rfl⟩⟩

lemma complete_error (failed : complete o fuel p s = .error e s') :
    Expansion.clause o fuel p.clause s = .error e s' ∧
      ∃ x, Watching.Calls o.expandGoal (seen s) x ∧ s' = resumed s x := by
  have limits : (Limits.calling o.expandGoal).Expanding (fun _ => True) o o :=
    .free (Limits.bounds_call o.expandGoal) (fun _ _ _ _ => trivial) fun _ => trivial
  rcases error_of_bind failed with failed | ⟨_, _, -, failed⟩
  · exact ⟨failed, ((Expansion.ensures_clause limits fuel fun _ _ => trivial).of_error trivial failed).1⟩
  · cases failed

lemma leaves_of_error (failed : expanded o fuel r s = .error e s') :
    Leaves o fuel r e s s' := by
  unfold expanded at failed
  cases plain : withoutGrammar r with
  | error fault =>
    rw [plain] at failed
    cases failed
    exact .nothing
  | ok r' =>
    have grammar : ofExcept (withoutGrammar r) s = .ok r' s := by
      rw [plain]
      rfl
    rw [bind_ok grammar] at failed
    rcases error_of_bind failed with failed | ⟨_ | p, s₁, classified, failed⟩
    · rcases classify_error failed with rfl |
        ⟨body, position, priority, type, names, fault, ops, isDirective, isOp, declared, rfl⟩
      · exact .nothing
      · rcases OperatorTable.declareTerms_error declared with rfl |
          ⟨p, t, before, name, after, isPriority, isType, split, before, refused⟩
        · exact .nothing
        · exact .names plain isDirective isOp isPriority isType split before refused
    · cases failed
    · rcases error_of_bind failed with failed | ⟨_, _, -, failed⟩
      · obtain ⟨stuck, x, calls, rfl⟩ := complete_error failed
        obtain ⟨isClause, ⟨headless, rfl⟩ | ⟨head, hasHead, recorded⟩⟩ := classify_ok classified
        · exact .query plain isClause headless stuck calls
        · exact .clause plain isClause hasHead rfl recorded stuck calls
      · cases failed

lemma allExpanded_error {rs : List ReadTerm} (failed : allExpanded o fuel rs s = .error e s') :
    ∃ done r rest outputs s₁, rs = done ++ r :: rest ∧
      allExpanded o fuel done s = .ok outputs s₁ ∧ expanded o fuel r s₁ = .error e s' := by
  induction rs generalizing s with
  | nil => cases failed
  | cons r rs ih =>
    rcases error_of_bind failed with failed | ⟨outputs, s₁, first, failed⟩
    · exact ⟨[], r, rs, [], s, rfl, rfl, failed⟩
    · rcases error_of_bind failed with failed | ⟨_, _, -, failed⟩
      · obtain ⟨done, r', rest, more, s₂, rfl, others, failed⟩ := ih failed
        refine ⟨r :: done, r', rest, outputs ++ more, s₂, rfl, ?_, failed⟩
        rw [allExpanded, bind_ok first, bind_ok others]
        rfl
      · cases failed

/-- What remains of a term of a unit that is at fault. -/
inductive Remains (o : Observer σ) (fuel : Nat) (r : ReadTerm) (e : CompileError)
    (s : Context × σ) : Context × σ → Prop where
  | misplaced {d : Conditional.Directive} {fault : Conditional.Fault}
      (isDirective : Conditional.Directive.ofTerm? r.term = some d)
      (refused : s.1.conditionals.move d r.position = .refuse fault)
      (isError : e = .conditional fault r.position) : Remains o fuel r e s s
  | condition {d : Conditional.Directive} {t : Term} {next : Bool → Conditional.Frames}
      {x : OperatorTable × σ} (isDirective : Conditional.Directive.ofTerm? r.term = some d)
      (asks : s.1.conditionals.move d r.position = .ask t next)
      (failed : o.condition t (seen s) = .error e x) : Remains o fuel r e s (resumed s x)
  | expansion {x : OperatorTable × σ}
      (failed : Compiling.located r.position (Expansion.terms o r.term) s = .error e (resumed s x))
      (calls : Watching.Calls o.expandTerm (seen s) x) : Remains o fuel r e s (resumed s x)
  /-- One of the terms that it is expanded to is at fault. Those before it are prepared. -/
  | expanded {x : OperatorTable × σ} {ts : List Term} {done rest : List ReadTerm} {bad : ReadTerm}
      {outputs : List Output} {s₁ s₂ : Context × σ}
      (terms : Expansion.terms o r.term s = .ok ts (resumed s x))
      (calls : Watching.Calls o.expandTerm (seen s) x)
      (split : (ts.map fun t => { r with term := t }) = done ++ bad :: rest)
      (prepared : allExpanded o fuel done (resumed s x) = .ok outputs s₁)
      (leaves : Leaves o fuel bad e s₁ s₂) : Remains o fuel r e s s₂

lemma remains_of_error (failed : term o fuel r s = .error e s') : Remains o fuel r e s s' := by
  cases found : Conditional.Directive.ofTerm? r.term with
  | some d =>
    rw [term_directive o found] at failed
    rcases error_of_decided failed with ⟨fault, moved, isError, rfl⟩ |
      ⟨t, next, x, moved, asked, rfl⟩
    · exact .misplaced found moved isError
    · exact .condition found moved asked
  | none =>
    rw [term_plain o found] at failed
    split at failed
    · cases failed
    · have limits := Expansion.bounds_terms (Limits.bounds_call o.expandTerm) r.term
      rcases error_of_bind failed with failed | ⟨ts, s₁, ran, failed⟩
      · obtain ⟨⟨x, calls, rfl⟩, -⟩ := (limits.located r.position).of_error trivial failed
        exact .expansion failed calls
      · have terms := Compiling.located_eq_ok.1 ran
        obtain ⟨⟨x, calls, rfl⟩, -⟩ := limits.of_ok trivial terms
        obtain ⟨done, bad, rest, outputs, s₂, split, prepared, failed⟩ := allExpanded_error failed
        exact .expanded terms calls split prepared (leaves_of_error failed)

/-- What a faulty term never changes by itself: flags, goals to run at the end of the unit, keys and
declarations. -/
structure Untouched (c c' : Context) : Prop where
  config : c'.config = c.config
  initialization : c'.initialization = c.initialization
  keys : (c'.symbols.keys, c'.symbols.functors) = (c.symbols.keys, c.symbols.functors)
  unit : c'.symbols.scope.map (fun u => (u.name, u.discontiguous, u.interned)) =
    c.symbols.scope.map (fun u => (u.name, u.discontiguous, u.interned))

lemma untouched_noted (f : Functor) (position : Text.Position) (s : Context × σ) :
    Untouched s.1 (noted o f position s).1 := by
  unfold noted SymbolTable.record
  cases opened : s.1.symbols.scope with
  | none => exact ⟨rfl, rfl, rfl, rfl⟩
  | some u =>
    refine ⟨rfl, rfl, rfl, ?_⟩
    simp only [opened, Option.map_some, UnitScope.record]
    grind

lemma Leaves.untouched (h : Leaves o fuel r e s s') : Untouched s.1 s'.1 := by
  cases h with
  | nothing | names | query => exact ⟨rfl, rfl, rfl, rfl⟩
  | @clause r' _ _ f _ _ _ _ _ _ recorded =>
    subst recorded
    have same := untouched_noted (o := o) f r'.position s
    exact ⟨same.config, same.initialization, same.keys, same.unit⟩

lemma Leaves.kept (h : Leaves o fuel r e s s') :
    s'.1.conditionals = s.1.conditionals ∧ s'.1.hooks = s.1.hooks := by
  cases h with
  | clause _ _ _ _ recorded =>
    subst recorded
    exact ⟨rfl, rfl⟩
  | _ => exact ⟨rfl, rfl⟩

/-- What remains when a term of a unit is at fault. The open conditionals and the hooks are never
changed, and flags, goals to run, keys and declarations only by terms before the faulty one. -/
theorem term_error_remains (failed : term o fuel r s = .error e s') :
    Remains o fuel r e s s' ∧ s'.1.conditionals = s.1.conditionals ∧ s'.1.hooks = s.1.hooks ∧
      ((∀ ts s₁, Expansion.terms o r.term s = .ok ts s₁ → ts.length ≤ 1) →
        Untouched s.1 s'.1) := by
  have remains := remains_of_error failed
  refine ⟨remains, ?_⟩
  cases remains with
  | misplaced | condition | expansion => exact ⟨rfl, rfl, fun _ => ⟨rfl, rfl, rfl, rfl⟩⟩
  | @expanded x ts done rest bad outputs s₁ _ terms _ split prepared leaves =>
    obtain ⟨⟨conditionals, hooks⟩, -⟩ := (bounds_allExpanded o fuel done).of_ok trivial prepared
    refine ⟨leaves.kept.1.trans conditionals, leaves.kept.2.trans hooks, fun single => ?_⟩
    -- The faulty term is the only one, so that no other was prepared.
    have empty : done = [] := by
      have length := congrArg List.length split
      have atMost := single ts _ terms
      rw [List.length_map, List.length_append, List.length_cons] at length
      exact List.eq_nil_of_length_eq_zero (by omega)
    subst empty
    cases prepared
    have same := leaves.untouched
    exact ⟨same.config, same.initialization, same.keys, same.unit⟩

/-- `:- op(700, xfx, [===, 1])`. -/
def refusedName : ReadTerm :=
  ⟨.compound ":-" [.compound "op" [.int 700, .atom "xfx",
    .cell (.atom "===") (.cell (.int 1) (.atom "[]"))]], .start, []⟩

theorem term_error_remains_refusedName :
    let s : Context × EventLog := (.new .standard .standard, .empty)
    ∃ e s', term EventLog.observer 9 refusedName s = .error e s' ∧
      Remains EventLog.observer 9 refusedName e s s' ∧ s'.1.conditionals = s.1.conditionals ∧
      s'.1.hooks = s.1.hooks ∧ Untouched s.1 s'.1 := by
  intro s
  have failed : ∃ e s', term EventLog.observer 9 refusedName s = .error e s' := by
    rw [term_eq]
    exact ⟨_, _, rfl⟩
  obtain ⟨e, s', failed⟩ := failed
  obtain ⟨remains, conditionals, hooks, untouched⟩ := term_error_remains failed
  refine ⟨e, s', failed, remains, conditionals, hooks, untouched fun ts s₁ ran => ?_⟩
  cases ran
  exact Nat.le_refl 1

/-- What a term at fault leaves: whether `===` is an operator, and the predicates of the unit. -/
def leftBy (c : Context) (r : ReadTerm) : Option (Bool × Option (List Functor)) :=
  match term EventLog.observer 9 r (c, .empty) with
  | .ok _ _ => none
  | .error _ (c, _) =>
    some (c.operators.isOperator "===", c.symbols.scope.map (·.defined))

/-- The first name stays an operator where the second is refused, and `p` is a predicate of the unit
though the only clause of it, `p :- loop`, could not be prepared. -/
theorem term_error_not_undone :
    let c := (Context.new .standard .standard).addHook SourceUnit.looping
    let opened := { c with symbols := c.symbols.openUnit "unit" }
    leftBy opened ⟨.int 1, .start, []⟩ = some (false, some []) ∧
      leftBy opened refusedName = some (true, some []) ∧
      leftBy opened ⟨.compound ":-" [.atom "p", .atom "loop"], .start, []⟩ =
        some (false, some [⟨"p", 0⟩]) := by
  simp only [leftBy, term_eq]
  decide +kernel

end Preparation

end Horn
