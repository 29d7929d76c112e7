import Horn.Proofs.PairedActions

/-!
# What a call comes to

A plan says what is done for a call, without the stack of choices: which goals take its place and
which choice is left, and how far the cuts in those goals go. To call a goal is to carry out its
plan.
-/

namespace Horn

open List Search

lemma Builtin.mem_catalogue {f : Functor} {b : Builtin} (h : lookup? f = some b) :
    (b, f) ∈ catalogue := by
  obtain ⟨e, found, rfl⟩ := Option.map_eq_some_iff.1 h
  have eq : e.2 = f := by simpa using find?_some found
  exact eq ▸ mem_of_find?_eq_some found

namespace Machine

section Stacks

variable {α : Type} {cs : Array α} {c : α}

lemma shrink_push {height : Nat} (h : height ≤ cs.size) :
    (cs.push c).shrink height = cs.shrink height := by
  apply Array.ext <;> grind [Array.size_shrink, Array.getElem_shrink]

lemma shrink_size : cs.shrink cs.size = cs := by
  apply Array.ext <;> grind [Array.size_shrink, Array.getElem_shrink]

lemma modify_push {i : Nat} (h : i < cs.size) (f : α → α) :
    (cs.push c).modify i f = (cs.modify i f).push c := by
  apply Array.ext <;> grind [Array.size_modify]

lemma modify_push_last (f : α → α) : (cs.push c).modify cs.size f = cs.push (f c) := by
  apply Array.ext <;> grind [Array.size_modify]

end Stacks

/-- What becomes of the choices when a goal has been solved that keeps its cuts to itself. -/
inductive Guard where
  | free
  /-- All that were made since the call are given up. If there is another way, a choice was left for
  it. -/
  | cut (other : Option Term)
  /-- A choice was left for the other way, and that one alone is given up. -/
  | softCut (other : Term)

inductive Plan where
  | cut
  | raise (e : ExecutionError)
  | fail
  | both (left right : Term)
  | either (left right : Term)
  /-- Solve a goal that keeps its cuts to itself, and then others that do not. -/
  | guarded (guard : Guard) (goal : Term) (rest : List Term)
  | collect (template goal result : Term)
  | act (b : Builtin) (args : List Term)
  | resolve (goal : Term) (clauses : List CompiledClause)

namespace Plan

def ofDisjunction (left right : Term) : Plan :=
  match left.functor?, left.args with
  | some f, [a, b] =>
    if f.name = "->" then .guarded (.cut (some right)) a [b]
    else if f.name = "*->" then .guarded (.softCut right) a [b]
    else .either left right
  | _, _ => .either left right

def apply (b : Bindings) (target : Term) (extra : List Term) : Plan :=
  match addArgs (b.walk target).unmarked extra with
  | .ok goal => .guarded .free goal []
  | .error e => .raise e

def ofBuiltin (b : Bindings) : Builtin → List Term → Plan
  | .conjunction, [left, right] => .both left right
  | .disjunction, [left, right] => ofDisjunction (b.walk left).unmarked right
  | .ifThen, [condition, consequence] => .guarded (.cut none) condition [consequence]
  | .softIfThen, [condition, consequence] => .guarded .free condition [consequence]
  | .negation, [inner] => .guarded (.cut (some (.atom "true"))) inner [.atom "fail"]
  | .call _, target :: extra => apply b target extra
  | .findall, [template, inner, result] => .collect template inner result
  | builtin, args => .act builtin args

def unknown (p : Program) (f : Functor) : Plan :=
  match p.unknown with
  | .error => .raise (.unknownProcedure f)
  | .fail => .fail

def ofUser (p : Program) (b : Bindings) (goal : Term) (f : Functor) : Plan :=
  match p.domain.find? f, goal.args with
  | some predicate, _ => .resolve goal predicate.clauses
  | none, target :: extra =>
    if f.name = "apply" && 1 < f.arity then apply b target extra else unknown p f
  | none, [] => unknown p f

def fault (goal : Term) : ExecutionError :=
  if goal.isVar then .instantiation else .notA .callable goal

def ofGoal (p : Program) (b : Bindings) (goal : Term) : Plan :=
  if goal.isAtom "!" then .cut
  else match goal.functor? with
    | none => .raise (fault goal)
    | some f =>
      match Builtin.lookup? f with
      | some builtin => ofBuiltin b builtin goal.args
      | none => ofUser p b goal f

end Plan

namespace Guard

def leave (m : Machine) (barrier : Nat) : Guard → Machine
  | .free | .cut none => m
  | .cut (some t) | .softCut t => m.pushChoice (.goal t barrier)

def ending (height : Nat) : Guard → List Goal
  | .free => []
  | .cut _ => [.cutTo height]
  | .softCut _ => [.softCut height]

end Guard

def guarded (m : Machine) (barrier : Nat) (guard : Guard) (goal : Term) (rest : List Term) :
    Machine :=
  let left := guard.leave m barrier
  { left with goals := .call goal left.choices.size ::
      (guard.ending m.choices.size ++ (rest.map (.call · barrier) ++ m.goals)) }

def Plan.run (p : Program) (fuel : Nat) (m : Machine) (barrier : Nat) : Plan → Step
  | .cut => .go (m.cutTo barrier)
  | .raise e => .halt (.raised e) m
  | .fail => .fail m
  | .both left right => .go ((m.push (.call right barrier)).push (.call left barrier))
  | .either left right => .go ((m.pushChoice (.goal right barrier)).push (.call left barrier))
  | .guarded guard goal rest => .go (m.guarded barrier guard goal rest)
  | .collect template goal result => .collect template goal result m
  | .act b args => m.act (b.run fuel args) fun verdict m =>
    match verdict with
    | .succeed => .go m
    | .fail => .fail m
    | .solve t => .go (m.push (.call t barrier))
  | .resolve goal clauses => tryClauses p fuel m goal clauses

section Calls

variable (p : Program) (fuel : Nat) (m : Machine) (barrier : Nat)

lemma run_apply (target : Term) (extra : List Term) :
    (Plan.apply m.world.bindings target extra).run p fuel m barrier =
      m.callWith target extra := by
  unfold Plan.apply callWith
  cases addArgs (m.world.bindings.walk target).unmarked extra <;> rfl

lemma run_ofDisjunction (left right : Term) :
    (Plan.ofDisjunction left right).run p fuel m barrier = .go (m.disjunction left right barrier) := by
  cases left with
  | compound f args =>
    rcases args with _ | ⟨a, _ | ⟨b, _ | ⟨c, args⟩⟩⟩
    case cons.cons.nil =>
      simp only [disjunction, Plan.ofDisjunction, Term.functor?, Term.name?, Term.args, Option.map_some]
      split
      · rfl
      · split <;> rfl
    all_goals rfl
  | _ => rfl

lemma run_ofBuiltin (b : Builtin) (goal : Term) :
    (Plan.ofBuiltin m.world.bindings b goal.args).run p fuel m barrier =
      callBuiltin fuel m b goal barrier := by
  unfold Plan.ofBuiltin callBuiltin
  generalize goal.args = args
  rcases args with _ | ⟨x, _ | ⟨y, _ | ⟨z, _ | ⟨_, _⟩⟩⟩⟩ <;> cases b <;>
    first
    | rfl
    | exact run_ofDisjunction p fuel m barrier _ _
    | exact run_apply p fuel m barrier _ _

lemma run_ofUser (goal : Term) (f : Functor) :
    (Plan.ofUser p m.world.bindings goal f).run p fuel m barrier = callUser p fuel m goal f := by
  have unknown : (Plan.unknown p f).run p fuel m barrier = callUser.unknown p m f := by
    unfold Plan.unknown callUser.unknown
    cases p.unknown <;> rfl
  unfold Plan.ofUser callUser
  generalize p.domain.find? f = found, goal.args = args
  split
  · rfl
  · split
    · exact run_apply p fuel m barrier _ _
    · exact unknown
  · exact unknown

/-- To call a goal is to carry out its plan. -/
theorem call_eq_run (t : Term) :
    call p fuel m t barrier =
      (Plan.ofGoal p m.world.bindings (m.world.bindings.walk t).unmarked).run p fuel m barrier := by
  unfold call Plan.ofGoal
  dsimp only
  generalize (m.world.bindings.walk t).unmarked = goal
  split
  · rfl
  cases goal.functor? with
  | none =>
    dsimp only [Plan.run, Plan.fault]
    split <;> rfl
  | some f =>
    dsimp only
    cases Builtin.lookup? f with
    | some b => exact (run_ofBuiltin p fuel m barrier b goal).symm
    | none => exact (run_ofUser p fuel m barrier goal f).symm

end Calls

inductive Guard.Rel (G : Term → Term → Prop) : Guard → Guard → Prop where
  | free : Rel G .free .free
  | cut {x x' : Option Term} (other : Option.Rel G x x') : Rel G (.cut x) (.cut x')
  | softCut {t t' : Term} (other : G t t') : Rel G (.softCut t) (.softCut t')

/-- Plans on two sides, where `G` is what goals have in common, `T` what other terms have, `E` errors
and `C` clauses. -/
inductive Plan.Rel (G T : Term → Term → Prop) (E : ExecutionError → ExecutionError → Prop)
    (C : List CompiledClause → List CompiledClause → Prop) : Plan → Plan → Prop where
  | cut : Rel G T E C .cut .cut
  | raise {e e' : ExecutionError} (h : E e e') : Rel G T E C (.raise e) (.raise e')
  | fail : Rel G T E C .fail .fail
  | both {t t' u u' : Term} (left : G t t') (right : G u u') :
    Rel G T E C (.both t u) (.both t' u')
  | either {t t' u u' : Term} (left : G t t') (right : G u u') :
    Rel G T E C (.either t u) (.either t' u')
  | guarded {guard guard' : Guard} {t t' : Term} {ts ts' : List Term} (guards : guard.Rel G guard')
    (goal : G t t') (rest : Forall₂ G ts ts') :
    Rel G T E C (.guarded guard t ts) (.guarded guard' t' ts')
  | collect {t t' g g' r r' : Term} (template : T t t') (goal : T g g') (result : T r r') :
    Rel G T E C (.collect t g r) (.collect t' g' r')
  | act (b : Builtin) {as as' : List Term} (args : Forall₂ T as as') :
    Rel G T E C (.act b as) (.act b as')
  | resolve {t t' : Term} {cs cs' : List CompiledClause} (goal : T t t') (clauses : C cs cs') :
    Rel G T E C (.resolve t cs) (.resolve t' cs')

/-- Goals whose values are known. -/
structure Seen (G T : Term → Term → Prop) (u u' : Term) : Prop where
  goal : G u u'
  isAtom : u'.isAtom "!" = u.isAtom "!"
  functor : u'.functor? = u.functor?
  args : Forall₂ G u.args u'.args
  plain : (∀ f, u.functor? = some f → isControl f = false) → T u u' ∧ Forall₂ T u.args u'.args

/-- What it takes for goals in the stores `b` and `b'` to have related plans. -/
structure Accord (b b' : Bindings) (G T : Term → Term → Prop)
    (E : ExecutionError → ExecutionError → Prop) : Prop where
  atom : ∀ a, G (.atom a) (.atom a)
  see : ∀ {t t'}, G t t' → Seen G T (b.walk t).unmarked (b'.walk t').unmarked
  apply : ∀ {t t' ts ts'}, T t t' → Forall₂ T ts ts' →
    (∃ r r', addArgs (b.walk t).unmarked ts = .ok r ∧ addArgs (b'.walk t').unmarked ts' = .ok r' ∧
      G r r') ∨
    ∃ e, addArgs (b.walk t).unmarked ts = .error e ∧ addArgs (b'.walk t').unmarked ts' = .error e
  same : ∀ e, E e e
  fault : ∀ {t t'}, T t t' → E (Plan.fault t) (Plan.fault t')

namespace Accord

variable {b b' : Bindings} {G T : Term → Term → Prop} {E : ExecutionError → ExecutionError → Prop}
  {C : List CompiledClause → List CompiledClause → Prop} {p p' : Program} {t t' u u' : Term}
  {ts ts' : List Term} (accord : Accord b b' G T E)

lemma ofDisjunction (seen : Seen G T t t') (hu : G u u') :
    Plan.Rel G T E C (.ofDisjunction t u) (.ofDisjunction t' u') := by
  have whole : Plan.Rel G T E C (.either t u) (.either t' u') := .either seen.goal hu
  have args := seen.args
  unfold Plan.ofDisjunction
  rw [seen.functor]
  generalize t.args = as, t'.args = as' at args
  cases t.functor? with
  | none => exact whole
  | some f =>
    rcases args with _ | ⟨ha, _ | ⟨hb, _ | ⟨_, _⟩⟩⟩
    case cons.cons.nil =>
      dsimp only
      split
      · exact .guarded (.cut (.some hu)) ha (.cons hb .nil)
      split
      · exact .guarded (.softCut hu) ha (.cons hb .nil)
      · exact whole
    all_goals exact whole

include accord

lemma applied (ht : T t t') (extra : Forall₂ T ts ts') :
    Plan.Rel G T E C (.apply b t ts) (.apply b' t' ts') := by
  unfold Plan.apply
  rcases accord.apply ht extra with ⟨r, r', eq, eq', goal⟩ | ⟨e, eq, eq'⟩
  · rw [eq, eq']
    exact .guarded .free goal .nil
  · rw [eq, eq']
    exact .raise (accord.same e)

lemma ofBuiltin {builtin : Builtin} {f : Functor} (listed : Builtin.lookup? f = some builtin)
    (arity : ts.length = f.arity) (args : Forall₂ G ts ts')
    (plain : builtin.goalArgs = [] → Forall₂ T ts ts') :
    Plan.Rel G T E C (.ofBuiltin b builtin ts) (.ofBuiltin b' builtin ts') := by
  have arities : ∀ e ∈ Builtin.catalogue, e.1.goalArgs = [] ∨ e.2.arity = e.1.goalArgs.length := by
    decide
  have arity := arity ▸ arities _ (Builtin.mem_catalogue listed)
  cases builtin
  case conjunction =>
    rcases args with _ | ⟨hl, _ | ⟨hr, _ | ⟨_, _⟩⟩⟩ <;> simp [Builtin.goalArgs] at arity
    exact .both hl hr
  case disjunction =>
    rcases args with _ | ⟨hl, _ | ⟨hr, _ | ⟨_, _⟩⟩⟩ <;> simp [Builtin.goalArgs] at arity
    exact ofDisjunction (accord.see hl) hr
  case ifThen =>
    rcases args with _ | ⟨hl, _ | ⟨hr, _ | ⟨_, _⟩⟩⟩ <;> simp [Builtin.goalArgs] at arity
    exact .guarded (.cut .none) hl (.cons hr .nil)
  case softIfThen =>
    rcases args with _ | ⟨hl, _ | ⟨hr, _ | ⟨_, _⟩⟩⟩ <;> simp [Builtin.goalArgs] at arity
    exact .guarded .free hl (.cons hr .nil)
  case negation =>
    rcases args with _ | ⟨hl, _ | ⟨_, _⟩⟩ <;> simp [Builtin.goalArgs] at arity
    exact .guarded (.cut (.some (accord.atom _))) hl (.cons (accord.atom _) .nil)
  -- The goals that the others call are not goals of the clause around them.
  case call =>
    cases plain rfl with
    | nil => exact .act _ .nil
    | cons target extra => exact accord.applied target extra
  case findall =>
    have args := plain rfl
    rcases args with _ | ⟨ht, _ | ⟨hg, _ | ⟨hr, _ | ⟨_, _⟩⟩⟩⟩
    case cons.cons.cons.nil => exact .collect ht hg hr
    all_goals exact .act _ (plain rfl)
  all_goals exact .act _ (plain rfl)

lemma ofUser (unknown : p'.unknown = p.unknown)
    (found : ∀ f, Option.Rel (fun q q' => C q.clauses q'.clauses) (p.domain.find? f)
      (p'.domain.find? f)) (ht : T t t') (args : Forall₂ T t.args t'.args) (f : Functor) :
    Plan.Rel G T E C (.ofUser p b t f) (.ofUser p' b' t' f) := by
  have missing : Plan.Rel G T E C (.unknown p f) (.unknown p' f) := by
    unfold Plan.unknown
    rw [unknown]
    cases p.unknown with
    | error => exact .raise (accord.same _)
    | fail => exact .fail
  have found := found f
  unfold Plan.ofUser
  generalize p.domain.find? f = q, p'.domain.find? f = q' at found
  generalize t.args = as, t'.args = as' at args
  cases found with
  | some clauses => exact .resolve ht clauses
  | none =>
    cases args with
    | nil => exact missing
    | cons target extra =>
      dsimp only
      split
      · exact accord.applied target extra
      · exact missing

lemma ofGoal (unknown : p'.unknown = p.unknown)
    (found : ∀ f, Option.Rel (fun q q' => C q.clauses q'.clauses) (p.domain.find? f)
      (p'.domain.find? f)) (seen : Seen G T t t') :
    Plan.Rel G T E C (.ofGoal p b t) (.ofGoal p' b' t') := by
  unfold Plan.ofGoal
  rw [seen.isAtom, seen.functor]
  split
  · exact .cut
  cases functor : t.functor? with
  | none =>
    have plain := seen.plain fun f eq => by rw [functor] at eq; cases eq
    exact .raise (accord.fault plain.1)
  | some f =>
    have plain (other : isControl f = false) :=
      seen.plain fun g eq => by rw [functor] at eq; cases eq; exact other
    cases listed : Builtin.lookup? f with
    | none =>
      obtain ⟨goal, args⟩ := plain (by rw [isControl, listed]; rfl)
      simp only [listed]
      exact accord.ofUser unknown found goal args f
    | some builtin =>
      simp only [listed]
      have arity : t.args.length = f.arity := by
        obtain ⟨name, -, rfl⟩ := Option.map_eq_some_iff.1 functor
        rfl
      refine accord.ofBuiltin listed arity seen.args fun none => (plain ?_).2
      rw [isControl, listed, Option.any_some, none]
      rfl

end Accord

/-- Terms of a likeness are goals with related plans. -/
lemma accord_of_likeness {ρ : Link} {R : Term → Term → Prop} (like : Term.Likeness ρ R)
    {b b' : Bindings} (walk : ∀ {t t'}, R t t' → R (b.walk t) (b'.walk t')) :
    Accord b b' R R (ExecutionError.Alike ρ) where
  atom := like.atom
  see h :=
    have seen := like.unmarked (walk h)
    have alike := like.alike seen
    ⟨seen, alike.isAtom_eq _, alike.functor?_eq, like.args seen, fun _ => ⟨seen, like.args seen⟩⟩
  apply h extra := addArgs_alike like (like.unmarked (walk h)) extra
  same := .same
  fault h := by
    have alike := like.alike h
    unfold Plan.fault
    rw [alike.isVar_eq]
    split
    · exact .same _
    · exact .notA .callable alike

end Machine

end Horn
