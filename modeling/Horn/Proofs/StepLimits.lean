import Horn.Proofs.PreparationTasks
import Horn.Proofs.TermInduction
import Horn.SourceUnit

/-!
# Limits of what a step does

What a step of a compilation can change is said by a relation between the states before and after
it, and what it can fail with by a set of errors. All of it is said of two steps that do the same
for two observers, where the first has a part of the state of the second; a step by itself is
compared with itself.
-/

namespace Horn

open Compiling List Conditional Text

variable {σ τ α β : Type} {s : Context × τ} {s₀ : Context × σ} {outputs : List Output}

variable {r : ReadTerm}

namespace Compiling

def seen (s : Context × σ) : OperatorTable × σ := (s.1.operators, s.2)

def resumed (s : Context × σ) (x : OperatorTable × σ) : Context × σ :=
  ({ s.1 with operators := x.1 }, x.2)

lemma context_bind (f : Context → Compiling σ β) (s : Context × σ) :
    (context >>= f) s = f s.1 s := rfl

variable {w : Watching σ α} {s s' : Context × σ} {x : OperatorTable × σ} {a : α} {e : CompileError}

lemma ask_of_ok (h : w (seen s) = .ok a x) : ask w s = .ok a (resumed s x) := by
  rw [ask, ← seen, h]
  rfl

lemma ask_of_error (h : w (seen s) = .error e x) : ask w s = .error e (resumed s x) := by
  rw [ask, ← seen, h]
  rfl

lemma error_of_ask (h : ask w s = .error e s') :
    ∃ x, w (seen s) = .error e x ∧ s' = resumed s x := by
  cases asked : w (seen s) with
  | ok a x =>
    rw [ask_of_ok asked] at h
    cases h
  | error e' x =>
    rw [ask_of_error asked] at h
    cases h
    exact ⟨x, rfl, rfl⟩

end Compiling

lemma map_of_ok {ε : Type} {x : EStateM ε τ α} {f : α → β} {s s' : τ} {a : α}
    (h : x s = .ok a s') : (f <$> x) s = .ok (f a) s' := by
  change EStateM.map f x s = _
  rw [EStateM.map, h]

lemma map_of_error {ε : Type} {x : EStateM ε τ α} {f : α → β} {s s' : τ} {e : ε}
    (h : x s = .error e s') : (f <$> x) s = .error e s' := by
  change EStateM.map f x s = _
  rw [EStateM.map, h]

/-- What steps may do to the state, and the errors that they may give in it. `view` is what an
observer with less of a state has of it. -/
structure Limits (σ τ : Type) where
  view : τ → σ
  invariant : Context × τ → Prop
  change : Context × τ → Context × τ → Prop
  error : Context × τ → CompileError → Prop
  refl : ∀ s, change s s
  trans : ∀ {s s' s''}, change s s' → change s' s'' → change s s''
  located : ∀ {s e} position, error s e → error s (e.withPosition position)

namespace Limits

inductive Within (L : Limits σ τ) (P : α → Prop) (s : Context × τ) :
    EStateM.Result CompileError (Context × σ) α →
      EStateM.Result CompileError (Context × τ) α → Prop where
  | ok {a : α} {c : Context} {t : τ} (kept : L.invariant (c, t)) (change : L.change s (c, t))
      (post : P a) : Within L P s (.ok a (c, L.view t)) (.ok a (c, t))
  | error {e : CompileError} {c : Context} {t : τ} (kept : L.invariant (c, t))
      (change : L.change s (c, t)) (error : L.error (c, t) e) :
      Within L P s (.error e (c, L.view t)) (.error e (c, t))

def Ensures (L : Limits σ τ) (P : α → Prop) (x : Compiling σ α) (y : Compiling τ α) : Prop :=
  ∀ s, L.invariant s → L.Within P s (x (s.1, L.view s.2)) (y s)

abbrev Bounds (L : Limits σ τ) (x : Compiling σ α) (y : Compiling τ α) : Prop :=
  L.Ensures (fun _ => True) x y

variable {L : Limits σ τ} {P P' : α → Prop} {Q : β → Prop} {x : Compiling σ α} {y : Compiling τ α}
  {f : α → Compiling σ β} {g : α → Compiling τ β}

lemma Within.after {s' : Context × τ} {r : EStateM.Result CompileError (Context × σ) α}
    {r' : EStateM.Result CompileError (Context × τ) α} (h : L.Within P s' r r')
    (before : L.change s s') : L.Within P s r r' := by
  cases h with
  | ok kept change post => exact .ok kept (L.trans before change) post
  | error kept change error => exact .error kept (L.trans before change) error

lemma Within.bind (h : L.Within P s (x s₀) (y s)) (hf : ∀ a, P a → L.Ensures Q (f a) (g a)) :
    L.Within Q s ((x >>= f) s₀) ((y >>= g) s) := by
  change L.Within Q s (EStateM.bind x f s₀) (EStateM.bind y g s)
  unfold EStateM.bind
  generalize x s₀ = r, y s = r' at h ⊢
  cases h with
  | ok kept change post => exact (hf _ post _ kept).after change
  | error kept change error => exact .error kept change error

lemma Within.attempt {f : Except CompileError α → Compiling σ β}
    {g : Except CompileError α → Compiling τ β} (h : L.Within P s (x s₀) (y s))
    (ok : ∀ a, P a → L.Ensures Q (f (.ok a)) (g (.ok a)))
    (failed : ∀ e s, L.invariant s → L.error s e →
      L.Within Q s (f (.error e) (s.1, L.view s.2)) (g (.error e) s)) :
    L.Within Q s ((SourceUnit.attempt x >>= f) s₀) ((SourceUnit.attempt y >>= g) s) := by
  rw [bind_apply, bind_apply, SourceUnit.attempt, SourceUnit.attempt]
  generalize x s₀ = r, y s = r' at h ⊢
  cases h with
  | ok kept change post => exact (ok _ post _ kept).after change
  | error kept change error => exact (failed _ _ kept error).after change

namespace Ensures

variable {s' : Context × τ} {e : CompileError} {a : α}

lemma of_ok (h : L.Ensures P x y) (start : L.invariant s) (ran : y s = .ok a s') :
    L.change s s' ∧ L.invariant s' ∧ P a := by
  have within := h s start
  rw [ran] at within
  generalize x (s.1, L.view s.2) = r at within
  cases within with
  | ok kept change post => exact ⟨change, kept, post⟩

lemma of_error (h : L.Ensures P x y) (start : L.invariant s) (failed : y s = .error e s') :
    L.change s s' ∧ L.invariant s' ∧ L.error s' e := by
  have within := h s start
  rw [failed] at within
  generalize x (s.1, L.view s.2) = r at within
  cases within with
  | error kept change error => exact ⟨change, kept, error⟩

lemma weaken (h : L.Ensures P x y) (imp : ∀ a, P a → P' a) : L.Ensures P' x y := by
  intro s start
  have within := h s start
  generalize x (s.1, L.view s.2) = r, y s = r' at within
  cases within with
  | ok kept change post => exact .ok kept change (imp _ post)
  | error kept change error => exact .error kept change error

lemma pure (post : P a) : L.Ensures P (Pure.pure a) (Pure.pure a) :=
  fun s start => .ok start (L.refl s) post

lemma throw (error : ∀ s, L.error s e) : L.Ensures P (MonadExcept.throw e) (MonadExcept.throw e) :=
  fun s start => .error start (L.refl s) (error s)

lemma bind (hx : L.Ensures P x y) (hf : ∀ a, P a → L.Ensures Q (f a) (g a)) :
    L.Ensures Q (x >>= f) (y >>= g) :=
  fun s start => (hx s start).bind hf

lemma map (hx : L.Ensures P x y) {f : α → β} (imp : ∀ a, P a → Q (f a)) :
    L.Ensures Q (f <$> x) (f <$> y) := by
  rw [map_eq_pure_bind, map_eq_pure_bind]
  exact hx.bind fun a post => pure (imp a post)

lemma context : L.Bounds context context :=
  fun s start => .ok start (L.refl s) trivial

lemma changeContext {f : Context → Context}
    (edit : ∀ s, L.invariant s → L.invariant (f s.1, s.2) ∧ L.change s (f s.1, s.2)) :
    L.Bounds (changeContext f) (changeContext f) :=
  fun s start => .ok (edit s start).1 (edit s start).2 trivial

lemma ofExcept {r : Except CompileError α} (errors : ∀ e, r = .error e → ∀ s, L.error s e) :
    L.Ensures (r = .ok ·) (Compiling.ofExcept r) (Compiling.ofExcept r) := by
  cases r with
  | ok a => exact .pure rfl
  | error e => exact .throw (errors e rfl)

lemma located (position : Position) (hx : L.Ensures P x y) :
    L.Ensures P (Compiling.located position x) (Compiling.located position y) := by
  intro s start
  have within := hx s start
  unfold Compiling.located
  generalize x (s.1, L.view s.2) = r, y s = r' at within ⊢
  cases within with
  | ok kept change post => exact .ok kept change post
  | error kept change error => exact .error kept change (L.located position error)

end Ensures

/-- Limits that are kept by what the observers answer, and by the errors of an expansion. All terms
are of one kind. -/
structure Expanding (L : Limits σ τ) (T : Term → Prop) (o : Observer σ) (o' : Observer τ) :
    Prop where
  kind : Term.Kind T
  hooks : ∀ s, L.invariant s → ∀ h ∈ s.1.hooks, ∀ t, T t → ∀ u ∈ h.expandGoal t, T u
  goals : ∀ t, T t → L.Ensures (fun r => ∀ u ∈ r, T u) (ask (o.expandGoal t))
    (ask (o'.expandGoal t))
  renames : ∀ before t n, T t → T (Expansion.renameIntroduced before t n).1
  source : ∀ fault text position s, L.error s (.source fault text position)
  spent : ∀ s, L.error s .outOfFuel

lemma Expanding.free {o : Observer σ} {o' : Observer τ}
    (goals : ∀ t, L.Bounds (ask (o.expandGoal t)) (ask (o'.expandGoal t)))
    (source : ∀ fault text position s, L.error s (.source fault text position))
    (spent : ∀ s, L.error s .outOfFuel) : L.Expanding (fun _ => True) o o' :=
  ⟨Term.kind_true, fun _ _ _ _ _ _ _ _ => trivial, fun t _ => (goals t).weaken fun _ _ _ _ => trivial,
    fun _ _ _ _ => trivial, source, spent⟩

end Limits

namespace Expansion

variable {L : Limits σ τ} {o : Observer σ} {o' : Observer τ}

lemma bounds_observedTerms
    (answers : ∀ t, L.Bounds (ask (o.expandTerm t)) (ask (o'.expandTerm t))) (ts : List Term) :
    L.Bounds (observedTerms o ts) (observedTerms o' ts) := by
  induction ts with
  | nil => exact .pure trivial
  | cons t ts ih => exact (answers t).bind fun _ _ => ih.bind fun _ _ => .pure trivial

lemma bounds_terms (answers : ∀ t, L.Bounds (ask (o.expandTerm t)) (ask (o'.expandTerm t)))
    (t : Term) : L.Bounds (terms o t) (terms o' t) := by
  unfold terms
  split
  · exact .pure trivial
  · exact Limits.Ensures.context.bind fun _ _ => bounds_observedTerms answers _

section Kinds

variable {T : Term → Prop} (limits : L.Expanding T o o')

include limits

section Goals

variable {hooks : List Hook} (given : ∀ h ∈ hooks, ∀ t, T t → ∀ u ∈ h.expandGoal t, T u)

include given

lemma ensures_round {t : Term} (ht : T t) :
    L.Ensures (fun r => T r.1) (round o hooks t) (round o' hooks t) := by
  have replaced {s : Term × Bool} {next : Option Term} (hs : T s.1) (hn : ∀ u ∈ next, T u) :
      T (replace s next).1 := by
    unfold replace
    split
    · split
      · exact hs
      · exact hn _ rfl
    · exact hs
  have folded : T (hooks.foldl (fun s h => replace s (h.expandGoal s.1)) (t, false)).1 :=
    foldlRecOn (motive := fun s : Term × Bool => T s.1) hooks _ ht fun s hs h hh =>
      replaced hs (given h hh _ hs)
  exact (limits.goals _ folded).bind fun r hr => .pure (replaced folded hr)

lemma ensures_settle {unsettled : CompileError} (allowed : ∀ s, L.error s unsettled) (rounds : Nat)
    {t : Term} (ht : T t) :
    L.Ensures T (settle o hooks unsettled rounds t) (settle o' hooks unsettled rounds t) := by
  induction rounds generalizing t
  all_goals
    unfold settle
    split
    · exact .pure ht
    refine (ensures_round limits given ht).bind ?_
    rintro ⟨next, _ | _⟩ post
    · exact .pure post
  case zero => exact .throw allowed
  case succ ih _ => exact ih post

lemma ensures_goal (rounds n : Nat) :
    (∀ t, T t → L.Ensures T (goal o hooks rounds n t) (goal o' hooks rounds n t)) ∧
    (∀ goals i ts, (∀ t ∈ ts, T t) → L.Ensures (fun rs => rs.length = ts.length ∧ ∀ r ∈ rs, T r)
      (goalArgs o hooks rounds n goals i ts) (goalArgs o' hooks rounds n goals i ts)) := by
  induction n with
  | zero => exact ⟨fun _ _ => .throw limits.spent, fun _ _ _ _ => .throw limits.spent⟩
  | succ n ih =>
    obtain ⟨one, all⟩ := ih
    constructor
    · intro t ht
      refine (ensures_settle limits given (limits.source _ _ _) rounds ht).bind fun current post => ?_
      cases current with
      | compound f args =>
        refine (all _ _ args (limits.kind.args post)).bind fun rs ⟨same, each⟩ => ?_
        exact .pure (limits.kind.again post same each)
      | _ => exact .pure post
    · intro goals i ts hts
      cases ts with
      | nil => exact .pure ⟨rfl, nofun⟩
      | cons a ts =>
        obtain ⟨first, others⟩ := forall_mem_cons.1 hts
        have rest (r : Term) (hr : T r) : L.Ensures
            (fun rs => rs.length = (a :: ts).length ∧ ∀ r ∈ rs, T r)
            (goalArgs o hooks rounds n goals (i + 1) ts >>= fun more => pure (r :: more))
            (goalArgs o' hooks rounds n goals (i + 1) ts >>= fun more => pure (r :: more)) :=
          (all _ _ ts others).bind fun rs ⟨same, each⟩ =>
            .pure ⟨congrArg (· + 1) same, forall_mem_cons.2 ⟨hr, each⟩⟩
        unfold goalArgs
        split
        · exact (one a first).bind rest
        · exact (Limits.Ensures.pure first).bind rest

end Goals

lemma ensures_clause (fuel : Nat) {c : Clause} (hc : ∀ t ∈ c.body, T t) :
    L.Ensures (fun c' => c'.head = c.head ∧ ∀ t ∈ c'.body, T t) (clause o fuel c)
      (clause o' fuel c) := by
  have hooks : L.Ensures (fun context => ∀ h ∈ context.hooks, ∀ t, T t → ∀ u ∈ h.expandGoal t, T u)
      context context := fun s start => .ok start (L.refl s) (limits.hooks s start)
  have body (nextId : Nat) {ts : List Term} (hts : ∀ t ∈ ts, T t) :
      L.Ensures (fun rs => ∀ r ∈ rs, T r) (bodyGoals o fuel c.position nextId ts)
        (bodyGoals o' fuel c.position nextId ts) := by
    induction ts generalizing nextId with
    | nil => exact .pure nofun
    | cons t ts ih =>
      obtain ⟨first, others⟩ := forall_mem_cons.1 hts
      refine hooks.bind fun context given => ?_
      refine (((ensures_goal limits given _ fuel).1 t first).located c.position).bind
        fun expanded post => ?_
      refine (ih _ others).bind fun more each => .pure (forall_mem_append.2 ⟨?_, each⟩)
      exact limits.kind.conjuncts (limits.renames t expanded nextId post)
  exact (body _ hc).bind fun _ each => .pure ⟨rfl, each⟩

end Kinds

end Expansion

namespace SymbolTable

variable {t : SymbolTable}

section

variable (h : t.scope.isSome)

include h

lemma scope_intern (f : Functor) : (t.intern f).2.scope.isSome := by
  unfold intern
  split
  · exact h
  · simpa using h

lemma scope_internAll (seen : List Sighting) : (t.internAll seen).2.scope.isSome := by
  induction seen generalizing t with
  | nil => exact h
  | cons s seen ih =>
    have next := ih (scope_intern h s.functor)
    simp only [internAll]
    cases s.goal <;> exact next

lemma scope_mark (c : Clause) : (t.mark c).2.2.scope.isSome := by
  unfold mark
  cases c.head with
  | none => exact scope_internAll h _
  | some head => exact scope_internAll (scope_intern (scope_internAll h _) _) _

lemma scope_record (f : Functor) : (t.record f).2.scope.isSome := by
  unfold record
  split
  · exact h
  · rfl

lemma scope_declareDiscontiguous (fs : List Functor) :
    (fs.foldl declareDiscontiguous t).scope.isSome := by
  induction fs generalizing t with
  | nil => exact h
  | cons f fs ih => exact ih (by simpa [declareDiscontiguous] using h)

end

end SymbolTable

structure Context.Edited (c c' : Context) : Prop where
  hooks : c'.hooks = c.hooks
  conditionals : c'.conditionals = c.conditionals
  initialization : c'.initialization = c.initialization
  opened : c.symbols.scope.isSome → c'.symbols.scope.isSome

namespace Preparation

def defer (position : Text.Position) (goal : Term) (c : Context) : Context :=
  { c with initialization := c.initialization ++ [⟨⟨none, [goal], .directive, position⟩, []⟩] }

def Defers (D : Term → Prop) (r : ReadTerm) : Prop :=
  ∀ c goal, Clause.ofTerm r.term r.position = .ok c → c.kind = .directive →
    Directive.ofGoal? (Term.conjoin c.body) = some (.initialization goal) → D goal

def Clauses (Q : PreparedClause → Prop) (outputs : List Output) : Prop :=
  ∀ x ∈ outputs, ∃ p, x = .clause p ∧ Q p

end Preparation

/-- Limits that allow the changes of a directive that puts off none but the goals in `D`, those of a
record of a clause, and the faults of a source. -/
structure Limits.Preparing (L : Limits σ τ) (D : Term → Prop) (o : Observer σ) (o' : Observer τ) :
    Prop where
  edit : ∀ {s c}, s.1.Edited c → L.invariant s → L.invariant (c, s.2) ∧ L.change s (c, s.2)
  defer : ∀ {s goal} position, D goal → L.invariant s →
    L.invariant (Preparation.defer position goal s.1, s.2) ∧
      L.change s (Preparation.defer position goal s.1, s.2)
  declared : ∀ d, L.Bounds (tell (o.declared d)) (tell (o'.declared d))
  warned : ∀ w, L.Bounds (tell (o.warned w)) (tell (o'.warned w))
  source : ∀ fault text position s, L.error s (.source fault text position)

lemma Limits.Preparing.edits {L : Limits σ τ} {D : Term → Prop} {o : Observer σ} {o' : Observer τ}
    {P : α → Prop} {x : Compiling σ α} {y : Compiling τ α} (limits : L.Preparing D o o')
    {f : Context → Context} (edited : ∀ c : Context, c.Edited (f c)) (hx : L.Ensures P x y) :
    L.Ensures P (changeContext f >>= fun _ => x)
      (changeContext f >>= fun _ => y) :=
  (Ensures.changeContext fun _ => limits.edit (edited _)).bind fun _ _ => hx

namespace Preparation

def orFail (goal : Term) (position : Text.Position) (x : Except SourceFault α) : Compiling σ α :=
  match x with
  | .ok a => return a
  | .error fault => throw (.source fault goal.text position)

variable {L : Limits σ τ} {D : Term → Prop} {o : Observer σ} {o' : Observer τ}
  {Q : PreparedClause → Prop} {fuel : Nat}

section

variable (limits : L.Preparing D o o')

include limits

lemma bounds_declareAll (make : Functor → Declaration) (fs : List Functor) :
    L.Bounds (declareAll o make fs) (declareAll o' make fs) := by
  induction fs with
  | nil => exact .pure trivial
  | cons f fs ih => exact (limits.declared _).bind fun _ _ => ih

lemma bounds_orFail (goal : Term) (position : Position) (x : Except SourceFault α) :
    L.Bounds (orFail goal position x) (orFail goal position x) := by
  cases x with
  | ok a => exact .pure trivial
  | error fault => exact .throw (limits.source _ _ _)

lemma bounds_obey (goal : Term) (position : Position) {d : Directive}
    (defers : ∀ goal, d = .initialization goal → D goal) :
    L.Bounds (obey o goal position d) (obey o' goal position d) := by
  have orFail {γ : Type} (x : Except SourceFault γ) := bounds_orFail limits goal position x
  cases d with
  | op priority type names =>
    refine Limits.Ensures.context.bind fun c _ => ?_
    rcases c.operators.declareTerms priority type names with ⟨_ | _, ops⟩
    · exact limits.edits (fun _ => ⟨rfl, rfl, rfl, id⟩) (.throw (limits.source _ _ _))
    · exact limits.edits (fun _ => ⟨rfl, rfl, rfl, id⟩) (.pure trivial)
  | encoding name =>
    simp only [obey]
    split
    · exact .throw (limits.source _ _ _)
    · exact .pure trivial
  | dynamic spec => exact (orFail _).bind fun _ _ => bounds_declareAll limits _ _
  | discontiguous spec =>
    refine (orFail _).bind fun fs _ => limits.edits (fun _ => ⟨rfl, rfl, rfl, fun opened => ?_⟩)
      (bounds_declareAll limits _ _)
    exact SymbolTable.scope_declareDiscontiguous opened fs
  | multifile spec => exact (orFail _).bind fun _ _ => bounds_declareAll limits _ _
  | setFlag flag value =>
    refine Limits.Ensures.context.bind fun c _ => (orFail _).bind fun config _ => ?_
    exact limits.edits (fun _ => ⟨rfl, rfl, rfl, id⟩) (limits.declared _)
  | initialization goal =>
    exact Limits.Ensures.changeContext fun s => limits.defer position (defers goal rfl)

lemma bounds_recordClause (f : Functor) (position : Position) :
    L.Bounds (recordClause o f position) (recordClause o' f position) := by
  intro s start
  have edited : s.1.Edited { s.1 with symbols := (s.1.symbols.record f).2 } :=
    ⟨rfl, rfl, rfl, (SymbolTable.scope_record · f)⟩
  obtain ⟨kept, change⟩ := limits.edit edited start
  refine Limits.Within.after ?_ change
  clear change edited
  rw [recordClause, recordClause, context_bind, context_bind]
  revert kept
  rcases s.1.symbols.record f with ⟨_ | w, symbols⟩ <;> intro kept
  · exact Limits.Ensures.pure trivial _ kept
  · exact limits.warned _ _ kept

lemma ensures_classify (defers : Defers D r) :
    L.Ensures (fun pending => ∀ p, pending = some p →
        ∃ c, Clause.ofTerm r.term r.position = .ok c ∧ p = ⟨c, r.names⟩)
      (classify o r) (classify o' r) := by
  unfold classify
  cases ok : Clause.ofTerm r.term r.position with
  | error e => exact .throw (limits.source _ _ _)
  | ok clause =>
    have itself (p : Pending) (eq : some ⟨clause, r.names⟩ = some p) :
        ∃ c, Except.ok clause = Except.ok (ε := ClauseError) c ∧ p = ⟨c, r.names⟩ :=
      ⟨clause, rfl, (Option.some.inj eq).symm⟩
    have allowed := defers clause
    obtain ⟨_ | head, body, kind, position⟩ := clause
    · cases kind with
      | directive =>
        dsimp only
        cases directive : Directive.ofGoal? (Term.conjoin body) with
        | some d =>
          refine (bounds_obey limits _ _ fun goal eq => ?_).bind fun _ _ => .pure nofun
          exact allowed goal ok rfl (eq ▸ directive)
        | none => exact .pure itself
      | _ => exact .pure itself
    · dsimp only
      split
      · exact .throw (limits.source _ _ _)
      · exact (bounds_recordClause limits _ _).bind fun _ _ => .pure itself

lemma ensures_withoutGrammar (r : ReadTerm) :
    L.Ensures (withoutGrammar r = .ok ·) (Compiling.ofExcept (withoutGrammar r))
      (Compiling.ofExcept (withoutGrammar r)) := by
  refine .ofExcept fun e failed => ?_
  unfold withoutGrammar at failed
  split at failed
  · split at failed
    · cases failed
    · cases failed
      exact limits.source _ _ _
  · cases failed

lemma bounds_complete (expanding : L.Expanding (fun _ => True) o o') (p : Pending) :
    L.Bounds (complete o fuel p) (complete o' fuel p) := by
  refine (Expansion.ensures_clause expanding fuel fun _ _ => trivial).bind fun clause _ s start => ?_
  have edited : s.1.Edited { s.1 with symbols := (s.1.symbols.mark clause.mark).2.2 } :=
    ⟨rfl, rfl, rfl, (SymbolTable.scope_mark · clause.mark)⟩
  obtain ⟨kept, change⟩ := limits.edit edited start
  exact .ok kept change trivial

lemma ensures_expanded (defers : ∀ r', withoutGrammar r = .ok r' → Defers D r')
    (completes : ∀ r' c, withoutGrammar r = .ok r' → Clause.ofTerm r'.term r'.position = .ok c →
      L.Ensures Q (complete o fuel ⟨c, r'.names⟩) (complete o' fuel ⟨c, r'.names⟩)) :
    L.Ensures (Clauses Q) (expanded o fuel r) (expanded o' fuel r) := by
  refine (ensures_withoutGrammar limits r).bind fun r' translated => ?_
  refine (ensures_classify limits (defers r' translated)).bind fun pending made => ?_
  cases pending with
  | none => exact .pure nofun
  | some pending =>
    obtain ⟨c, ok, rfl⟩ := made pending rfl
    refine (completes r' c translated ok).bind fun p post => .pure fun x hx => ?_
    exact ⟨p, mem_singleton.1 hx, post⟩

end

lemma ensures_allExpanded {rs : List ReadTerm}
    (each : ∀ r ∈ rs, L.Ensures (Clauses Q) (expanded o fuel r) (expanded o' fuel r)) :
    L.Ensures (Clauses Q) (allExpanded o fuel rs) (allExpanded o' fuel rs) := by
  induction rs with
  | nil => exact .pure nofun
  | cons r rs ih =>
    obtain ⟨first, others⟩ := forall_mem_cons.1 each
    refine first.bind fun _ first => (ih others).bind fun _ others => .pure ?_
    exact fun x hx => (mem_append.1 hx).elim (first x) (others x)

lemma ensures_completeAll {ps : List Pending}
    (each : ∀ p ∈ ps, L.Ensures Q (complete o fuel p) (complete o' fuel p)) :
    L.Ensures (Clauses Q) (completeAll o fuel ps) (completeAll o' fuel ps) := by
  induction ps with
  | nil => exact .pure nofun
  | cons p ps ih =>
    obtain ⟨first, others⟩ := forall_mem_cons.1 each
    refine first.bind fun p post => (ih others).bind fun _ others => .pure fun x hx => ?_
    rcases mem_cons.1 hx with rfl | hx
    · exact ⟨p, rfl, post⟩
    · exact others x hx

lemma bounds_sift (answers : ∀ t, L.Bounds (ask (o.condition t)) (ask (o'.condition t)))
    (refused : ∀ fault position s, L.error s (.conditional fault position)) (frames : Frames) (t : Term)
    (position : Position) :
    L.Bounds (frames.sift (fun t => ask (o.condition t)) t position)
      (frames.sift (fun t => ask (o'.condition t)) t position) := by
  unfold Frames.sift
  split
  · refine Limits.Ensures.map (P := fun _ => True) ?_ fun _ _ => trivial
    unfold Frames.apply
    split
    · exact .pure trivial
    · exact (answers _).map fun _ _ => trivial
    · exact .throw (refused _ _)
  · exact .pure trivial

end Preparation

structure PreparedClause.Lowers (E : CompileError → Prop) (p : PreparedClause) : Prop where
  query : ∀ e, p.isQuery = true → p.compileQuery = .error e → E e
  clause : ∀ chainRule e, p.isQuery = false → p.compileClause chainRule = .error e → E e

namespace SourceUnit

structure Steady (J : UnitReport → Prop) : Prop where
  query : ∀ {report}, J report → J { report with queries := report.queries + 1 }
  clause : ∀ {report}, J report → J { report with clauses := report.clauses + 1 }
  noted : ∀ {report e}, e.isFatal = false → J report → J (addError report e)

variable {L : Limits σ τ} {J : UnitReport → Prop} {o : Observer σ} {o' : Observer τ}
  {R : Output → Prop} {report : UnitReport} (steady : Steady J)

section

include steady

lemma within_record {e : CompileError} (kept : L.invariant s) (allowed : L.error s e)
    (start : J report) : L.Within J s (record report e (s.1, L.view s.2)) (record report e s) := by
  unfold record
  split
  · exact .error kept (L.refl s) allowed
  · next mild => exact .ok kept (L.refl s) (steady.noted (Bool.eq_false_iff.2 mild) start)

lemma ensures_handOn {x : Compiling σ Unit} {y : Compiling τ Unit} (hx : L.Bounds x y)
    (start : J report) :
    L.Ensures J
      (do match ← attempt x with
        | .ok () => return report
        | .error e => record report e)
      (do match ← attempt y with
        | .ok () => return report
        | .error e => record report e) := by
  intro s kept
  exact (hx s kept).attempt (fun _ _ => .pure start) fun _ _ kept allowed =>
    within_record steady kept allowed start

lemma ensures_dispatch
    (queries : ∀ q, L.Bounds (ask (o.queryCompiled q)) (ask (o'.queryCompiled q)))
    (clauses : ∀ c, L.Bounds (ask (o.clauseCompiled c)) (ask (o'.clauseCompiled c)))
    {p : PreparedClause} (lowers : p.Lowers fun e => ∀ s, L.error s e) (start : J report) :
    L.Ensures J (dispatch o report (.clause p)) (dispatch o' report (.clause p)) := by
  unfold dispatch
  dsimp only
  split
  · next query =>
    cases lowered : p.compileQuery with
    | error e =>
      exact fun s kept => within_record steady kept (lowers.query e query lowered s) start
    | ok q => exact ensures_handOn steady (queries q) (steady.query start)
  · next rule =>
    refine Limits.Ensures.context.bind fun c _ => ?_
    cases lowered : p.compileClause c.config.chainRule with
    | error e =>
      have allowed := lowers.clause _ e (Bool.eq_false_iff.2 rule) lowered
      exact fun s kept => within_record steady kept (allowed s) start
    | ok c => exact ensures_handOn steady (clauses c) (steady.clause start)

end

lemma ensures_dispatchAll
    (each : ∀ report x, J report → R x → L.Ensures J (dispatch o report x) (dispatch o' report x))
    (all : ∀ x ∈ outputs, R x) (start : J report) :
    L.Ensures J (dispatchAll o report outputs) (dispatchAll o' report outputs) := by
  induction outputs generalizing report with
  | nil => exact .pure start
  | cons x outputs ih =>
    obtain ⟨first, others⟩ := forall_mem_cons.1 all
    exact (each report x start first).bind fun _ => ih others

include steady in
lemma within_advance
    (each : ∀ report x, J report → R x → L.Ensures J (dispatch o report x) (dispatch o' report x))
    {x : Compiling σ (List Output)} {y : Compiling τ (List Output)}
    (h : L.Within (fun outputs => ∀ x ∈ outputs, R x) s (x s₀) (y s)) (start : J report) :
    L.Within J s (advance o report x s₀) (advance o' report y s) :=
  h.attempt (fun _ all => ensures_dispatchAll each all start) fun _ _ kept allowed =>
    within_record steady kept allowed start

end SourceUnit

/-- A call of the observer gives the error and leaves the state `y`. -/
inductive Observer.Raises (o : Observer σ) (e : CompileError) (y : OperatorTable × σ) : Prop where
  | clauseCompiled {c : CompiledClause} {x : OperatorTable × σ}
      (h : o.clauseCompiled c x = .error e y)
  | queryCompiled {q : CompiledQuery} {x : OperatorTable × σ} (h : o.queryCompiled q x = .error e y)
  | condition {t : Term} {x : OperatorTable × σ} (h : o.condition t x = .error e y)
  | expandTerm {t : Term} {x : OperatorTable × σ} (h : o.expandTerm t x = .error e y)
  | expandGoal {t : Term} {x : OperatorTable × σ} (h : o.expandGoal t x = .error e y)

def Limits.unconditional (o : Observer σ) : Limits σ σ where
  view := id
  invariant _ := True
  change s s' := s'.1.conditionals = s.1.conditionals ∧ s'.1.hooks = s.1.hooks
  error s e := ∀ f position, e = .conditional f position → o.Raises e (seen s)
  refl _ := ⟨rfl, rfl⟩
  trans h h' := ⟨h'.1.trans h.1, h'.2.trans h.2⟩
  located {s e} position h := by
    intro f p eq
    cases e with
    | conditional f' p' => exact h _ _ rfl
    | _ => cases eq

namespace Unconditional

variable {o : Observer σ}

lemma ask {w : Watching σ α} (raises : ∀ {e x y}, w x = .error e y → o.Raises e y) :
    (Limits.unconditional o).Bounds (ask w) (ask w) := by
  intro s _
  change Limits.Within _ _ _ (Compiling.ask w s) _
  cases asked : w (seen s) with
  | ok a x =>
    rw [ask_of_ok asked]
    exact .ok trivial ⟨rfl, rfl⟩ trivial
  | error e x =>
    rw [ask_of_error asked]
    exact .error trivial ⟨rfl, rfl⟩ fun _ _ _ => raises asked

lemma preparing : (Limits.unconditional o).Preparing (fun _ => True) o o where
  edit edited _ := ⟨trivial, edited.conditionals, edited.hooks⟩
  defer _ _ _ := ⟨trivial, rfl, rfl⟩
  declared _ _ _ := .ok trivial ⟨rfl, rfl⟩ trivial
  warned _ _ _ := .ok trivial ⟨rfl, rfl⟩ trivial
  source _ _ _ _ := nofun

lemma completes (fuel : Nat) (p : Pending) : (Limits.unconditional o).Bounds
    (Preparation.complete o fuel p) (Preparation.complete o fuel p) :=
  Preparation.bounds_complete preparing (.free (fun _ => ask .expandGoal) (fun _ _ _ _ => nofun)
    fun _ => nofun) p

end Unconditional

namespace Preparation

open Compiling (seen resumed)

variable (o : Observer σ)

lemma bounds_allExpanded (fuel : Nat) (rs : List ReadTerm) :
    (Limits.unconditional o).Ensures (Clauses fun _ => True) (allExpanded o fuel rs)
      (allExpanded o fuel rs) :=
  ensures_allExpanded fun _ _ => ensures_expanded Unconditional.preparing
    (fun _ _ _ _ _ _ _ => trivial) fun _ _ _ _ => Unconditional.completes fuel _

def decided (o : Observer σ) (position : Text.Position) (s : Context × σ) :
    Conditional.Frames.Move → EStateM.Result CompileError (Context × σ) (List Output)
  | .to frames => .ok [] ({ s.1 with conditionals := frames }, s.2)
  | .ask t next =>
    match o.condition t (seen s) with
    | .ok holds x => .ok [] ({ (resumed s x).1 with conditionals := next holds }, x.2)
    | .error e x => .error e (resumed s x)
  | .refuse fault => .error (.conditional fault position) s

section Decided

variable {o} {position : Position} {s s' : Context × σ} {move : Frames.Move}

lemma ok_of_decided (ran : decided o position s move = .ok outputs s') :
    (∃ frames, move = .to frames ∧ s' = ({ s.1 with conditionals := frames }, s.2)) ∨
      ∃ t next holds x, move = .ask t next ∧ o.condition t (seen s) = .ok holds x ∧
        s' = ({ (resumed s x).1 with conditionals := next holds }, x.2) := by
  rcases move with frames | ⟨t, next⟩ | fault
  · cases ran
    exact .inl ⟨frames, rfl, rfl⟩
  · rw [decided] at ran
    cases asked : o.condition t (seen s) with
    | ok holds x =>
      rw [asked] at ran
      cases ran
      exact .inr ⟨t, next, holds, x, rfl, asked, rfl⟩
    | error e x =>
      rw [asked] at ran
      cases ran
  · cases ran

lemma error_of_decided {e : CompileError} (failed : decided o position s move = .error e s') :
    (∃ fault, move = .refuse fault ∧ e = .conditional fault position ∧ s' = s) ∨
      ∃ t next x, move = .ask t next ∧ o.condition t (seen s) = .error e x ∧ s' = resumed s x := by
  rcases move with frames | ⟨t, next⟩ | fault
  · cases failed
  · rw [decided] at failed
    cases asked : o.condition t (seen s) with
    | ok holds x =>
      rw [asked] at failed
      cases failed
    | error e' x =>
      rw [asked] at failed
      cases failed
      exact .inr ⟨t, next, x, rfl, asked, rfl⟩
  · cases failed
    exact .inl ⟨fault, rfl, rfl, rfl⟩

end Decided

lemma term_of_sifted {admitted : Bool} {frames : Frames} {s s' : Context × σ}
    (sifted : s.1.conditionals.sift (fun t => ask (o.condition t)) r.term r.position s =
      .ok (admitted, frames) s')
    (fuel : Nat) :
    term o fuel r s =
      if admitted then
        (located r.position (Expansion.terms o r.term) >>= fun ts =>
          allExpanded o fuel (ts.map fun t => { r with term := t }))
            ({ s'.1 with conditionals := frames }, s'.2)
      else .ok [] ({ s'.1 with conditionals := frames }, s'.2) := by
  have start : (context : Compiling σ Context) s = .ok s.1 s := rfl
  rw [term_eq, termStages, bind_ok start, bind_ok sifted]
  cases admitted <;> rfl

lemma term_directive {d : Conditional.Directive}
    (found : Conditional.Directive.ofTerm? r.term = some d) (fuel : Nat) (s : Context × σ) :
    term o fuel r s = decided o r.position s (s.1.conditionals.move d r.position) := by
  let condition (t : Term) : Compiling σ Bool := ask (o.condition t)
  have sift : s.1.conditionals.sift condition r.term r.position =
      (false, ·) <$> s.1.conditionals.apply condition d r.position := by
    simp only [Conditional.Frames.sift, found]
  have failed {e : CompileError} {s' : Context × σ}
      (h : s.1.conditionals.apply condition d r.position s = .error e s') :
      term o fuel r s = .error e s' := by
    have start : (context : Compiling σ Context) s = .ok s.1 s := rfl
    rw [term_eq, termStages, bind_ok start]
    exact bind_error (sift ▸ map_of_error h)
  have ran {frames : Conditional.Frames} {s' : Context × σ}
      (h : s.1.conditionals.apply condition d r.position s = .ok frames s') :
      term o fuel r s = .ok [] ({ s'.1 with conditionals := frames }, s'.2) :=
    term_of_sifted o (sift ▸ map_of_ok h) fuel
  unfold Conditional.Frames.apply at failed ran
  generalize s.1.conditionals.move d r.position = move at failed ran
  rcases move with frames | ⟨t, next⟩ | fault
  · exact ran rfl
  · simp only [decided]
    cases asked : o.condition t (seen s) with
    | ok holds x => exact ran (map_of_ok (ask_of_ok asked))
    | error e x => exact failed (map_of_error (ask_of_error asked))
  · exact failed rfl

lemma term_plain (plain : Directive.ofTerm? r.term = none) (fuel : Nat) (s : Context × σ) :
    term o fuel r s =
      if s.1.isSkipping then .ok [] s
      else (located r.position (Expansion.terms o r.term) >>= fun ts =>
        allExpanded o fuel (ts.map fun t => { r with term := t })) s := by
  have sifted : s.1.conditionals.sift (fun t => ask (o.condition t)) r.term r.position s =
      .ok (!s.1.isSkipping, s.1.conditionals) s := by
    simp only [Frames.sift, plain]
    rfl
  rw [term_of_sifted o sifted]
  cases s.1.isSkipping <;> rfl

end Preparation

end Horn
