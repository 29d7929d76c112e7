import Horn.Proofs.IntroducedVariables
import Horn.Proofs.ObservedCalls

/-!
# Goals that lowering cannot take

Lowering takes every goal but a number. A number gets through to it in two ways: in a conjunction on
the left of another, and as a goal of `initialization/1`.
-/

namespace Horn

open List Term Bool Option Compiling BodyGoal Preparation EventLog Expansion Clause Limits Directive
  Text Conditional Lowering

variable {r : ReadTerm} {t : Term} {e : CompileError} {G : Number → Prop} {text : String}

lemma BodyGoal.ofTerm_error (h : ofTerm t = .error e) :
    t.functor? = none ∧ e = .internal (.goal t) := by
  unfold ofTerm at h
  split at h
  · cases h
  · split at h
    · cases h
    · cases h
    · next functor =>
      cases h
      exact ⟨functor, rfl⟩

lemma Term.functor?_mark (h : t.mark.functor? = none) :
    ∃ n, t = .number n ∧ t.mark = .number n := by
  cases t with
  | number n => exact ⟨n, rfl, rfl⟩
  | cell | var => cases h
  | atom a =>
    rw [mark] at h
    split at h <;> cases h
  | compound f args =>
    rw [mark] at h
    split at h
    · cases h
    · split at h <;> cases h

lemma mapM_error {α β ε : Type} {f : α → Except ε β} {xs : List α} {e : ε}
    (h : xs.mapM f = .error e) : ∃ x ∈ xs, f x = .error e := by
  induction xs with
  | nil => cases h
  | cons x xs ih =>
    rw [mapM_cons] at h
    cases first : f x with
    | error e' =>
      rw [first] at h
      cases h
      exact ⟨x, mem_cons_self, first⟩
    | ok y =>
      rw [first] at h
      cases rest : xs.mapM f with
      | error e' =>
        obtain ⟨z, hz, failed⟩ := ih (by
          change (xs.mapM f >>= fun ys => pure (y :: ys)) = _ at h
          rw [rest] at h
          cases h
          exact rest)
        exact ⟨z, mem_cons_of_mem _ hz, failed⟩
      | ok ys =>
        change (xs.mapM f >>= fun ys => pure (y :: ys)) = _ at h
        rw [rest] at h
        cases h

/-- A number that is a goal; `G` says of which numbers it is known where they come from. -/
def Lost (G : Number → Prop) (e : CompileError) : Prop :=
  ∃ n, e = .internal (.goal (.number n)) ∧ G n

structure PreparedClause.Fit (G : Number → Prop) (p : PreparedClause) : Prop where
  head : ∀ head, p.clause.head = some head → head.functor?.isSome
  key : p.clause.head.isSome → p.key.isSome
  goals : ∃ ts : List Term, p.clause.body = ts.map Term.mark ∧ ∀ n, .number n ∈ ts → G n

namespace PreparedClause

variable {p : PreparedClause} {chainRule : Bool}

lemma Fit.lost (fit : p.Fit G) (h : p.clause.body.mapM ofTerm = .error e) :
    Lost G e := by
  obtain ⟨ts, body, numbers⟩ := fit.goals
  rw [body] at h
  obtain ⟨_, marked, failed⟩ := mapM_error h
  obtain ⟨t, ht, rfl⟩ := mem_map.1 marked
  obtain ⟨none, rfl⟩ := ofTerm_error failed
  obtain ⟨n, rfl, same⟩ := functor?_mark none
  exact ⟨n, by rw [same], numbers n ht⟩

lemma compileClause_error (h : p.compileClause chainRule = .error e) :
    p.clause.body.mapM ofTerm = .error e ∨
      (∃ f, e = .internal f) ∧ ∀ head, p.clause.head = some head →
        head.functor? = none ∨ p.key = none := by
  cases hhead : p.clause.head with
  | none =>
    simp only [compileClause, hhead] at h
    cases h
    exact .inr ⟨⟨_, rfl⟩, fun _ eq => by cases eq⟩
  | some head =>
    cases functor : head.functor? with
    | none =>
      simp only [compileClause, hhead, functor] at h
      cases h
      exact .inr ⟨⟨_, rfl⟩, fun _ eq => some.inj eq ▸ .inl functor⟩
    | some f =>
      cases hkey : p.key with
      | none =>
        simp only [compileClause, hhead, functor, hkey] at h
        cases h
        exact .inr ⟨⟨_, rfl⟩, fun _ _ => .inr rfl⟩
      | some key =>
        cases goals : p.clause.body.mapM ofTerm with
        | ok goals =>
          obtain ⟨c, ok⟩ := CodeReading.compileClause_isOk hhead functor hkey goals chainRule
          rw [ok] at h
          cases h
        | error e' =>
          simp only [compileClause, hhead, functor, hkey, goals] at h
          cases h
          exact .inl rfl

lemma compileQuery_error (h : p.compileQuery = .error e) :
    p.clause.body.mapM ofTerm = .error e ∨
      e = .internal (.notQuery p.clause) ∧ p.clause.head.isSome = true := by
  by_cases hhead : p.clause.head.isSome = true
  · simp only [compileQuery, hhead] at h
    cases h
    exact .inr ⟨rfl, hhead⟩
  have none : p.clause.head.isSome = false := eq_false_iff.2 hhead
  cases lowered : p.clause.body.mapM ofTerm with
  | error e' =>
    simp only [compileQuery, none, lowered] at h
    cases h
    exact .inl rfl
  | ok goals =>
    have fits := Layout.ofClause_fits Option.none goals (answerIds p.names)
    generalize hl : Layout.ofClause Option.none goals (answerIds p.names) = l at fits
    obtain ⟨body, r', hbody⟩ := CodeReading.bodyCode_isOk
      (fun c hc pos => fits.levelSlot (fits.chunks ▸ hc) pos) false
      (0 < l.frameSize || goals.any BodyGoal.endsChunk) (Lowering.start Option.none goals)
    have code : ((Lowering.queryCode goals l).run (Lowering.start Option.none goals)).1 =
        .ok (entry l (0 < l.frameSize || goals.any endsChunk) ++ body ++
          [.proceed]) :=
      congrArg Prod.fst (CodeReading.run_bind hbody)
    have ok : p.compileQuery = ((queryCode goals l).run
        (Lowering.start Option.none goals)).1 >>= fun code =>
          pure ⟨p.clause, p.names, code, l.frameSize⟩ := by
      simp only [compileQuery, none, lowered, ← hl]
      rfl
    rw [ok, code] at h
    cases h

lemma Fit.compileClause_error (fit : p.Fit G) (rule : p.isQuery = false)
    (h : p.compileClause chainRule = .error e) : Lost G e := by
  rcases PreparedClause.compileClause_error h with goals | ⟨-, missing⟩
  · exact fit.lost goals
  cases hhead : p.clause.head with
  | none => simp [isQuery, hhead] at rule
  | some head =>
    obtain ⟨f, functor⟩ := isSome_iff_exists.1 (fit.head head hhead)
    obtain ⟨key, hkey⟩ := isSome_iff_exists.1 (fit.key (by simp [hhead]))
    rcases missing head hhead with none | none
    · cases functor.symm.trans none
    · cases hkey.symm.trans none

lemma Fit.compileQuery_error (fit : p.Fit G) (query : p.isQuery = true)
    (h : p.compileQuery = .error e) : Lost G e := by
  have none : p.clause.head.isSome = false := by simpa [isQuery] using query
  rcases PreparedClause.compileQuery_error h with goals | ⟨-, head⟩
  · exact fit.lost goals
  · rw [none] at head
    cases head

end PreparedClause

/-- An error that, if it is no fault of the source, such a number is to blame for. -/
def Tame (G : Number → Prop) (e : CompileError) : Prop := ∀ f, e = .internal f → Lost G e

lemma Tame.source {fault : SourceFault} {position : Position} :
    Tame G (.source fault text position) := nofun

structure Pending.Sendable (G : Number → Prop) (p : Pending) : Prop where
  head : ∀ head, p.clause.head = some head → head.functor?.isSome
  goals : ∀ n, .number n ∈ p.clause.body.flatMap conjuncts → G n

lemma PreparedClause.Fit.lowers {p : PreparedClause} (fit : p.Fit G) :
    p.Lowers fun e => ∀ _ : Context × EventLog, Tame G e :=
  ⟨fun _ query failed _ _ _ => fit.compileQuery_error query failed,
    fun _ _ rule failed _ _ _ => fit.compileClause_error rule failed⟩

variable {σ α β : Type}

/-- There are no rules for expansion, and what was put off to the end of the unit can be lowered up
to such numbers. -/
structure Calm (G : Number → Prop) (s : Context × σ) : Prop where
  hooks : s.1.hooks = []
  last : ∀ p ∈ s.1.initialization, p.Sendable G

abbrev Limits.calm (G : Number → Prop) : Limits EventLog EventLog where
  view := id
  invariant := Calm G
  change _ _ := True
  error _ := Tame G
  refl _ := trivial
  trans _ _ := trivial
  located {_ e} _ tame f eq := by
    cases e with
    | internal f' => exact tame _ rfl
    | _ => cases eq

open EventLog (observer)

def Stays (a : α) (s : Context × σ) (x : Compiling σ α) : Prop :=
  x s = .ok a s ∨ x s = .error .outOfFuel s

lemma Stays.bind {x : Compiling σ α} {f : α → Compiling σ β} {a : α} {b : β} {s : Context × σ}
    (hx : Stays a s x) (hf : Stays b s (f a)) : Stays b s (x >>= f) := by
  rcases hx with hx | hx
  · exact hf.imp (bind_ok hx).trans (bind_ok hx).trans
  · exact .inr (bind_error hx)

namespace Expansion

variable {s : Context × EventLog}

lemma settle_plain (unsettled : CompileError) (rounds : Nat) (t : Term)
    (s : Context × EventLog) : settle observer [] unsettled rounds t s = .ok t s := by
  unfold settle
  split <;> rfl

lemma goal_plain (rounds n : Nat) (s : Context × EventLog) :
    (∀ t, Stays t s (goal observer [] rounds n t)) ∧
    (∀ goals i ts, Stays ts s (goalArgs observer [] rounds n goals i ts)) := by
  induction n with
  | zero => exact ⟨fun _ => .inr rfl, fun _ _ _ => .inr rfl⟩
  | succ n ih =>
    obtain ⟨one, all⟩ := ih
    constructor
    · intro t
      refine Stays.bind (.inl (settle_plain _ rounds t s)) ?_
      cases t with
      | compound f args => exact (all _ _ args).bind (.inl rfl)
      | _ => exact .inl rfl
    · intro goals i ts
      cases ts with
      | nil => exact .inl rfl
      | cons a ts =>
        unfold goalArgs
        split
        · exact (one a).bind ((all _ _ ts).bind (.inl rfl))
        · exact Stays.bind (.inl rfl) ((all _ _ ts).bind (.inl rfl))

lemma renameIntroduced_self (t : Term) (nextId : Nat) :
    renameIntroduced t t nextId = (t, nextId) := by
  have known : Threads (introduce (knownIds t)) t.namedVars (· = ([], nextId)) Eq (fun _ => .var)
      fun _ _ => True := by
    refine ⟨fun _ => rfl, Eq.trans, fun v hv s start => ?_⟩
    have isKnown : (knownIds t).contains v.2 = true :=
      contains_iff_mem.2 (mem_knownIds.2 (mem_map_of_mem hv))
    rw [introduce, isKnown]
    exact ⟨start, rfl, fun _ _ => ⟨rfl, trivial⟩⟩
  obtain ⟨start, -, last⟩ := known.mapVarsWith (Subset.refl _) rfl
  change ((t.mapVarsWith (introduce (knownIds t)) ([], nextId)).1,
    (t.mapVarsWith (introduce (knownIds t)) ([], nextId)).2.2) = _
  rw [(last _ rfl).1, start, mapVars_var]

lemma bodyGoals_plain (plain : s.1.hooks = []) (fuel : Nat) (position : Position)
    (nextId : Nat) (ts : List Term) :
    Stays (ts.flatMap conjuncts) s (bodyGoals observer fuel position nextId ts) := by
  induction ts generalizing nextId with
  | nil => exact .inl rfl
  | cons t ts ih =>
    refine Stays.bind (a := s.1) (.inl rfl) (Stays.bind (a := t) ?_ ?_)
    · rw [plain]
      unfold Stays Compiling.located
      rcases (goal_plain s.1.config.maxExpansionDepth fuel s).1 t with same | spent
      · exact .inl (by rw [same])
      · exact .inr (by rw [spent]; rfl)
    · dsimp only
      rw [renameIntroduced_self]
      exact (ih _).bind (.inl rfl)

lemma clause_plain (plain : s.1.hooks = []) (fuel : Nat) (c : Clause) :
    Stays { c with body := c.body.flatMap conjuncts } s (clause observer fuel c) :=
  (bodyGoals_plain plain fuel _ _ _).bind (.inl rfl)

def stated : Term → Term
  | .compound f [t] => if f = "\x7b\x7d" then t else .compound f [t]
  | t => t

lemma args_of_braces (h : t.isFunctor "\x7b\x7d" 1 = true) : t.args = [stated t] := by
  have functor := of_decide_eq_true h
  cases t with
  | compound f args =>
    obtain ⟨rfl, one⟩ := Functor.mk.inj (some.inj functor)
    obtain ⟨a, rfl⟩ := length_eq_one_iff.1 one
    rfl
  | _ => simp [Term.functor?, Term.name?, Term.arity, Term.args] at functor

lemma stated_of_other (h : t.isFunctor "\x7b\x7d" 1 = false) : stated t = t := by
  unfold stated
  split
  · split
    · next braces =>
      subst braces
      cases h
    · rfl
  · rfl

lemma terms_plain (plain : s.1.hooks = []) (t : Term) :
    terms observer t s = .ok [stated t] s := by
  unfold terms
  split
  · next braces => rw [← args_of_braces braces]; rfl
  · next other =>
    change observedTerms observer (s.1.hooks.foldl (fun ts h => hookTerms h ts) [t]) s = _
    rw [plain, stated_of_other (eq_false_iff.2 other)]
    rfl

end Expansion

namespace SymbolTable

lemma mark_key (t : SymbolTable) (c : Clause) : (t.mark c).1.isSome = c.head.isSome := by
  unfold mark
  cases c.head <;> rfl

end SymbolTable

/-- A number among the goals of a clause that is not looked at when the clause is made: it is inside
a conjunction that is itself a member of one, or a goal of `initialization/1`. -/
inductive Clause.Overlooks (c : Clause) (n : Number) : Prop where
  | nested {a b : Term} (goal : .compound "," [a, b] ∈ c.body)
    (inside : .number n ∈ (compound "," [a, b]).conjuncts)
  | initialization {goal : Term} (kind : c.kind = .directive)
    (directive : conjoin c.body = .compound "initialization" [goal])
    (inside : .number n ∈ goal.conjuncts)

namespace Clause

variable {position : Position} {c : Clause}

lemma ofTerm_ok (ok : ofTerm t position = .ok c) :
    (∀ head, c.head = some head → head.isCallable = true) ∧ ∀ g ∈ c.body, isGoal g = true := by
  unfold ofTerm at ok
  dsimp only at ok
  split at ok
  · cases ok
  · cases ok
  · next callable goals =>
    cases ok
    refine ⟨fun head isHead => ?_, fun g hg => ?_⟩
    · have kept := filter_eq_none_iff.1 callable head isHead
      simpa using kept
    · simpa using find?_eq_none.1 goals g hg

lemma overlooks_of_conjuncts (goals : ∀ g ∈ c.body, isGoal g = true) {n : Number}
    (h : .number n ∈ c.body.flatMap conjuncts) : c.Overlooks n := by
  obtain ⟨g, hg, inside⟩ := mem_flatMap.1 h
  have isGoal := goals g hg
  unfold conjuncts at inside
  split at inside
  · next f args =>
    split at inside
    · next a b =>
      split at inside
      · next comma =>
        subst comma
        exact .nested hg (by rwa [conjuncts, if_pos rfl])
      · simp at inside
    · simp at inside
  · rw [← mem_singleton.1 inside] at isGoal
    cases isGoal

end Clause

lemma Conditional.evaluateStatic_error {ops : OperatorTable} (h : evaluateStatic ops t = .error e) :
    ∃ fault text position, e = .source fault text position := by
  have truth_error {name : String} {goal : Term} (h : truth name goal = .error e) :
      ∃ fault text position, e = .source fault text position := by
    unfold truth at h
    repeat' split at h
    all_goals cases h <;> exact ⟨_, _, _, rfl⟩
  fun_induction evaluateStatic ops t with
  | case1 a => exact truth_error h
  | case2 a ih =>
    cases first : evaluateStatic ops a with
    | error e' =>
      rw [first] at h ih
      exact ih h
    | ok holds =>
      rw [first] at h
      cases h
  | case4 a b iha ihb | case5 a b _ iha ihb =>
    cases first : evaluateStatic ops a with
    | error e' =>
      rw [first] at h iha
      exact iha h
    | ok holds =>
      rw [first] at h
      cases holds <;> first | exact ihb h | cases h
  | case13 f => exact truth_error h
  | _ => cases h <;> exact ⟨_, _, _, rfl⟩

namespace EventLog

variable {ops : OperatorTable}

lemma get_bind (f : OperatorTable × EventLog → Watching EventLog α)
    (x : OperatorTable × EventLog) : (get >>= f) x = f x x := rfl

lemma condition_ok {holds : Bool} (log : EventLog)
    (answer : evaluateStatic ops t = .ok holds) :
    observer.condition t (ops, log) = .ok holds (ops, log) := by
  simp only [observer]
  rw [get_bind, answer]
  rfl

lemma condition_error (log : EventLog) (answer : evaluateStatic ops t = .error e) :
    observer.condition t (ops, log) = .error e (ops, log) := by
  simp only [observer]
  rw [get_bind, answer]
  rfl

end EventLog

namespace Preparation

variable {s : Context × EventLog} {fuel : Nat}

lemma calm_complete {p : Pending} (sendable : p.Sendable G) :
    (calm G).Ensures (PreparedClause.Fit G) (complete observer fuel p)
      (complete observer fuel p) := by
  intro s calm
  change Within _ _ _ (complete observer fuel p s) _
  unfold complete
  rcases clause_plain calm.hooks fuel p.clause with same | spent
  · rw [bind_ok same]
    refine .ok (L := .calm G) ⟨calm.hooks, calm.last⟩ trivial ⟨sendable.head, fun some => ?_, ?_⟩
    · exact (SymbolTable.mark_key _ _).trans some
    · exact ⟨_, rfl, sendable.goals⟩
  · rw [bind_error spent]
    exact .error (L := .calm G) calm trivial nofun

def Takes (G : Number → Prop) (goal : Term) : Prop := ∀ n, .number n ∈ goal.conjuncts → G n

lemma calm_preparing : (calm G).Preparing (Takes G) observer observer where
  edit edited calm :=
    ⟨⟨edited.hooks.trans calm.hooks, by rw [edited.initialization]; exact calm.last⟩, trivial⟩
  defer {s goal} position known calm := by
    refine ⟨⟨calm.hooks, fun p hp => ?_⟩, trivial⟩
    rcases mem_append.1 hp with hp | hp
    · exact calm.last p hp
    · rw [mem_singleton.1 hp]
      exact ⟨fun _ eq => (by cases eq), fun n hn => known n (by simpa using hn)⟩
  declared _ _ calm := .ok (L := .calm G) ⟨calm.hooks, calm.last⟩ trivial trivial
  warned _ _ calm := .ok (L := .calm G) ⟨calm.hooks, calm.last⟩ trivial trivial
  source _ _ _ _ := .source

lemma ofGoal?_initialization {init : Term}
    (h : ofGoal? t = some (.initialization init)) :
    t = .compound "initialization" [init] := by
  unfold ofGoal? at h
  split at h
  · next f a =>
    repeat' split at h
    all_goals cases h
    next name => rw [name]
  · split at h <;> cases h
  · split at h <;> cases h
  · cases h

/-- Of the numbers in a term, those that are overlooked are known. -/
def Known (G : Number → Prop) (r : ReadTerm) : Prop :=
  ∀ c, ofTerm r.term r.position = .ok c → ∀ n, c.Overlooks n → G n

lemma Known.defers (known : Known G r) : Defers (Takes G) r :=
  fun c _ ok kind directive n hn =>
    known c ok n (.initialization kind (ofGoal?_initialization directive) hn)

lemma Known.sendable {c : Clause} (known : Known G r)
    (ok : ofTerm r.term r.position = .ok c) : Pending.Sendable G ⟨c, r.names⟩ := by
  obtain ⟨callable, goals⟩ := ofTerm_ok ok
  refine ⟨fun head isHead => ?_, fun n hn => ?_⟩
  · have isCallable := callable head isHead
    cases head <;> first | rfl | cases isCallable
  · exact known c ok n (overlooks_of_conjuncts goals hn)

def AllFit (G : Number → Prop) (outputs : List Output) : Prop :=
  ∀ x ∈ outputs, ∀ p, x = .clause p → p.Fit G

lemma Clauses.allFit {outputs : List Output} (h : Clauses (PreparedClause.Fit G) outputs) :
    AllFit G outputs := by
  rintro x hx p rfl
  obtain ⟨_, eq, fit⟩ := h _ hx
  cases eq
  exact fit

def Understood (G : Number → Prop) (r : ReadTerm) : Prop :=
  ∀ r', withoutGrammar { r with term := stated r.term } = .ok r' → Known G r'

lemma calm_term (calm : Calm G s) (known : s.1.isSkipping = false → Understood G r) :
    (Limits.calm G).Within (AllFit G) s (term observer fuel r s) (term observer fuel r s) := by
  cases found : Directive.ofTerm? r.term with
  | some d =>
    rw [term_directive observer found]
    rcases s.1.conditionals.move d r.position with frames | ⟨t, next⟩ | fault
    · exact .ok (L := .calm G) ⟨calm.hooks, calm.last⟩ trivial (forall_mem_nil _)
    · cases answer : evaluateStatic s.1.operators t with
      | ok holds =>
        simp only [decided, seen, condition_ok s.2 answer]
        exact .ok (L := .calm G) ⟨calm.hooks, calm.last⟩ trivial (forall_mem_nil _)
      | error e =>
        obtain ⟨_, _, _, rfl⟩ := evaluateStatic_error answer
        simp only [decided, seen, condition_error s.2 answer]
        exact .error (L := .calm G) ⟨calm.hooks, calm.last⟩ trivial .source
    · exact .error (L := .calm G) calm trivial (by rintro _ ⟨⟩)
  | none =>
    rw [term_plain observer found]
    split
    · exact .ok (L := .calm G) calm trivial (forall_mem_nil _)
    · next shown =>
      have terms : located r.position (terms observer r.term) s =
          .ok [stated r.term] s := by
        unfold Compiling.located
        rw [terms_plain calm.hooks]
      rw [bind_ok terms]
      have known := known (eq_false_iff.2 shown)
      refine (ensures_allExpanded fun r' one => ?_).weaken (fun _ => Clauses.allFit) s calm
      obtain rfl := mem_singleton.1 one
      exact ensures_expanded calm_preparing (fun r' translated => (known r' translated).defers)
        fun r' c translated ok => calm_complete ((known r' translated).sendable ok)

lemma calm_closeUnit :
    (calm G).Ensures (AllFit G) (closeUnit observer fuel) (closeUnit observer fuel) := by
  intro s calm
  have emptied : Calm G ({ s.1 with conditionals := [], initialization := [] }, s.2) :=
    ⟨calm.hooks, nofun⟩
  have last : (Limits.calm G).Within (AllFit G) s (lastGoals observer fuel s)
      (lastGoals observer fuel s) := by
    have all : (Limits.calm G).Ensures (AllFit G) (completeAll observer fuel s.1.initialization)
        (completeAll observer fuel s.1.initialization) :=
      (ensures_completeAll fun p hp => calm_complete (calm.last p hp)).weaken fun _ => Clauses.allFit
    have finish : (Limits.calm G).Bounds (Compiling.ofExcept s.1.conditionals.finish)
        (Compiling.ofExcept s.1.conditionals.finish) := by
      cases s.1.conditionals with
      | nil => exact .pure trivial
      | cons top rest => exact .throw fun _ => nofun
    exact ((finish.bind fun _ _ => all) _ emptied).after (L := .calm G) trivial
  rw [closeUnit_eq]
  change Within _ _ _ ((ensuring (lastGoals observer fuel) closing >>= _) s) _
  refine Within.bind (P := fun r => AllFit G r.1) ?_ ?_
  · unfold ensuring
    generalize lastGoals observer fuel s = r at last
    cases last with
    | ok calm _ fit => exact .ok (L := .calm G) ⟨calm.hooks, calm.last⟩ trivial fit
    | error calm _ tame => exact .error (L := .calm G) ⟨calm.hooks, calm.last⟩ trivial tame
  · rintro ⟨outputs, closed⟩ fit
    refine .pure ?_
    rintro x hx p rfl
    rcases mem_append.1 hx with hx | hx
    · exact fit _ hx p rfl
    · simp at hx

end Preparation

namespace SourceUnit

def Mild (report : UnitReport) : Prop := ∀ e ∈ report.errors, e.isFatal = false

variable {o : Observer σ} {fuel : Nat} {report : UnitReport} {s : Context × σ}

/-- The terms of a text, each with the state in which its turn comes to be handled. -/
def visitsFrom (handle : UnitReport → Except SyntaxError ReadTerm →
      Compiling σ (ForInStep UnitReport)) :
    Nat → Reader → UnitReport → Context × σ → List (ReadTerm × Context × σ)
  | 0, _, _, _ => []
  | n + 1, r, report, s =>
    match r.readTerm s.1.readMode with
    | .ok none _ => []
    | .ok (some t) r =>
      (t, s) :: match handle report (.ok t) s with
        | .ok (.yield report) s => visitsFrom handle n r report s
        | _ => []
    | .error e r =>
      match r.skipClause with
      | .ok () r => visitsFrom handle n r (addError report (.reading e)) s
      | .error _ _ => []

def visits (o : Observer σ) (fuel : Nat) (name : String) (reader : Reader) (s : Context × σ) :
    List (ReadTerm × Context × σ) :=
  match openUnit o name s with
  | .ok () s => visitsFrom (readOne o fuel) reader.rounds reader ⟨name, 0, 0, [], none⟩ s
  | .error _ _ => []

/-- The terms of a text, each with the context in which its turn comes. -/
def turns (o : Observer σ) (fuel : Nat) (name : String) (reader : Reader) (s : Context × σ) :
    List (ReadTerm × Context) :=
  (visits o fuel name reader s).map fun v => (v.1, v.2.1)

/-- Where the reading of a text comes to: its end, with no term left, or a term that puts an end to
the unit. -/
inductive Reached (o : Observer σ) (fuel : Nat)
    (J : List (ReadTerm × Context × σ) → UnitReport → Context × σ → Prop) :
    EStateM.Result CompileError (Context × σ) UnitReport → Prop where
  | ended {report : UnitReport} {s : Context × σ} (h : J [] report s) :
      Reached o fuel J (.ok report s)
  | stopped {v : ReadTerm × Context × σ} {vs : List (ReadTerm × Context × σ)} {report : UnitReport}
      {e : CompileError} {s : Context × σ} (h : J (v :: vs) report v.2)
      (failed : readOne o fuel report (.ok v.1) v.2 = .error e s) : Reached o fuel J (.error e s)

/-- What each term preserves of the state and the terms to come, the reading of a text does. -/
lemma forEach_reached {J : List (ReadTerm × Context × σ) → UnitReport → Context × σ → Prop}
    (step : ∀ v vs report next s', J (v :: vs) report v.2 →
      readOne o fuel report (.ok v.1) v.2 = .ok next s' → J vs next.value s')
    (noted : ∀ vs report e s, J vs report s → J vs (addError report (.reading e)) s)
    (n : Nat) (r : Reader) (start : J (visitsFrom (readOne o fuel) n r report s) report s) :
    Reached o fuel J
      (r.forEach (do return (← context).readMode) (readOne o fuel) n report s) := by
  induction n generalizing r report s with
  | zero => exact .ended start
  | succ n ih =>
    have mode : (do return (← context).readMode : Compiling σ ReadMode) s =
        .ok s.1.readMode s := rfl
    rw [Reader.forEach, bind_ok mode]
    rw [visitsFrom] at start
    rcases read : r.readTerm s.1.readMode with ⟨_ | t, r'⟩ | ⟨e, r'⟩
    · rw [read] at start
      exact .ended start
    · rw [read] at start
      dsimp only at start ⊢
      cases ran : readOne o fuel report (.ok t) s with
      | error e s' =>
        rw [bind_error ran]
        exact .stopped start ran
      | ok next s' =>
        rw [bind_ok ran]
        have later := step (t, s) _ report next s' start ran
        rw [ran] at later
        cases next with
        | done report' => exact .ended later
        | yield report' => exact ih r' later
    · rw [read] at start
      change Reached o fuel J ((match r'.skipClause with
        | .ok () r => _
        | .error e _ => _ : Compiling σ UnitReport) s)
      dsimp only at start
      rcases skipped : r'.skipClause with ⟨u, r''⟩ | ⟨e', r''⟩
      · rw [skipped] at start
        exact ih r'' (noted _ _ _ _ start)
      · rw [skipped] at start
        exact .ended (noted _ _ _ _ (noted _ _ _ _ start))

lemma steady_mild : Steady Mild := by
  refine ⟨id, id, fun {report e} mild before e' he' => ?_⟩
  rcases mem_append.1 he' with he' | he'
  · exact before e' he'
  · rw [mem_singleton.1 he']
    exact mild

lemma calm_dispatch (report : UnitReport) (x : Output) (mild : Mild report)
    (fit : ∀ p, x = .clause p → p.Fit G) :
    (calm G).Ensures Mild (dispatch observer report x) (dispatch observer report x) := by
  have told (s : Context × EventLog) (log : EventLog) (calm : Calm G s) : Calm G (s.1, log) :=
    ⟨calm.hooks, calm.last⟩
  cases x with
  | unitClosed u => exact fun s calm => .ok (L := .calm G) (told s _ calm) trivial mild
  | clause p =>
    exact ensures_dispatch steady_mild
      (fun _ s calm => .ok (L := .calm G) (told s _ calm) trivial trivial)
      (fun _ s calm => .ok (L := .calm G) (told s _ calm) trivial trivial) (fit p rfl).lowers mild

lemma calm_readOne (fuel : Nat) {s : Context × EventLog} (calm : Calm G s) (mild : Mild report)
    (known : s.1.isSkipping = false → Understood G r) :
    (Limits.calm G).Within (fun step => Mild step.value) s (readOne observer fuel report (.ok r) s)
      (readOne observer fuel report (.ok r) s) := by
  unfold readOne
  dsimp only
  split
  · exact .ok (L := .calm G) calm trivial mild
  · refine (within_advance steady_mild calm_dispatch (calm_term calm known) mild).bind ?_
    exact fun _ mild => .pure mild

structure Going (G : Number → Prop) (vs : List (ReadTerm × Context × EventLog)) (report : UnitReport)
    (s : Context × EventLog) : Prop where
  calm : Calm G s
  mild : Mild report
  known : ∀ v ∈ vs, v.2.1.isSkipping = false → Preparation.Understood G v.1

/-- What is known of the numbers in all terms whose turn comes is known of those to blame. -/
lemma calm_compile {c : Context} (plain : c.hooks = []) (log : EventLog) (fuel : Nat)
    (name : String) (reader : Reader)
    (known : ∀ turn ∈ turns observer fuel name reader (c, log),
      turn.2.isSkipping = false → Understood G turn.1) :
    (∀ report s, compile observer fuel name reader (c, log) = .ok report s → Mild report) ∧
      ∀ e s, compile observer fuel name reader (c, log) = .error e s → Tame G e := by
  have begun : Reached observer fuel (Going G) (begin observer fuel name reader (c, log)) := by
    refine forEach_reached (s := (_, _)) ?_ ?_ _ _ ⟨⟨plain, nofun⟩, forall_mem_nil _, ?_⟩
    · intro v vs report next s' going ran
      obtain ⟨here, later⟩ := forall_mem_cons.1 going.known
      cases ran ▸ calm_readOne fuel going.calm going.mild here with
      | ok calm _ mild => exact ⟨calm, mild, later⟩
    · exact fun vs report e s going => ⟨going.calm, steady_mild.noted rfl going.mild, going.known⟩
    · intro v hv
      exact known (v.1, v.2.1) (mem_map_of_mem hv)
  rw [compile_eq]
  constructor
  · intro report s ran
    obtain ⟨report₁, s₁, first, ran⟩ := ok_of_bind ran
    cases first ▸ begun with
    | ended going =>
      cases ran ▸ within_advance steady_mild calm_dispatch
        (calm_closeUnit s₁ going.calm) going.mild with
      | ok _ _ mild => exact mild
  · intro e s failed
    rcases error_of_bind failed with failed | ⟨report₁, s₁, first, failed⟩
    · cases failed ▸ begun with
      | stopped going failed =>
        cases failed ▸ calm_readOne fuel going.calm going.mild
          (going.known _ mem_cons_self) with
        | error _ _ tame => exact tame
    · cases first ▸ begun with
      | ended going =>
        cases failed ▸ within_advance steady_mild calm_dispatch
          (calm_closeUnit s₁ going.calm) going.mild with
        | error _ _ tame => exact tame

/-- A number that is overlooked in the clause of a term that is not skipped. -/
def OverlookedIn (turns : List (ReadTerm × Context)) (n : Number) : Prop :=
  ∃ turn ∈ turns, turn.2.isSkipping = false ∧ ∃ r clause,
    withoutGrammar { turn.1 with term := stated turn.1.term } = .ok r ∧
    ofTerm r.term r.position = .ok clause ∧ clause.Overlooks n

/-- Without rules for expansion a unit has none but faults of its source in its report. It ends
without a report for another reason only if lowering comes upon a goal that is a number, which was
overlooked in one of its clauses. -/
theorem compile_internal {c : Context} (plain : c.hooks = []) (log : EventLog) (fuel : Nat)
    (name : String) (reader : Reader) :
    (∀ report s, compile observer fuel name reader (c, log) = .ok report s →
      ∀ f, .internal f ∉ report.errors) ∧
    ∀ f s, compile observer fuel name reader (c, log) = .error (.internal f) s →
      ∃ n, f = .goal (.number n) ∧ OverlookedIn (turns observer fuel name reader (c, log)) n := by
  obtain ⟨mild, tame⟩ := calm_compile (G := OverlookedIn (turns observer fuel name reader (c, log)))
    plain log fuel name reader fun turn ht skipping r translated clause made n overlooks =>
      ⟨turn, ht, skipping, r, clause, translated, made, overlooks⟩
  constructor
  · intro report s ok f noted
    exact nomatch mild report s ok _ noted
  · intro f s failed
    obtain ⟨n, eq, origin⟩ := tame _ s failed f rfl
    exact ⟨n, CompileError.internal.inj eq, origin⟩

def faultOf (text : String) : Option InternalFault :=
  match compile observer 20 "unit" (.ofText text) (.new .standard .standard, .empty) with
  | .error (.internal f) _ => some f
  | _ => none

lemma faultOf_eq_some {f : InternalFault} (h : faultOf text = some f) :
    ∃ s, compile observer 20 "unit" (.ofText text) (.new .standard .standard, .empty) =
      .error (.internal f) s := by
  unfold faultOf at h
  split at h
  · next ended =>
    cases h
    exact ⟨_, ended⟩
  · cases h

/-- A unit that is ended by the number in a conjunction on the left of another. -/
theorem compile_internal_nested :
    let text := "q.\np :- (a, 1), b.\nr.\n"
    ∃ s, compile observer 20 "unit" (.ofText text) (.new .standard .standard, .empty) =
        .error (.internal (.goal (.int 1))) s ∧
      OverlookedIn
        (turns observer 20 "unit" (.ofText text) (.new .standard .standard, .empty)) (.int 1) := by
  intro text
  have fault : faultOf text = some (.goal (.int 1)) := by
    rw [faultOf, compile_eq_stages]
    decide +kernel
  obtain ⟨s, ended⟩ := faultOf_eq_some fault
  have internal := compile_internal (c := .new .standard .standard) rfl .empty 20 "unit"
    (.ofText text)
  obtain ⟨n, eq, origin⟩ := internal.2 _ _ ended
  cases eq
  exact ⟨s, ended, origin⟩

/-- Numbers get through to lowering in a directive, in a clause and in a grammar rule. -/
theorem compile_reaches_numbers :
    faultOf "q.\n:- initialization(42).\nr.\n" = some (.goal (.int 42)) ∧
    faultOf "q.\np :- (a, 1), b.\nr.\n" = some (.goal (.int 1)) ∧
    faultOf "q.\na --> \x7b1\x7d, b.\nr.\n" = some (.goal (.int 1)) := by
  simp only [faultOf, compile_eq_stages]
  decide +kernel

end SourceUnit

end Horn
