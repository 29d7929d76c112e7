import Horn.Proofs.ClauseSearch

/-!
# The machine follows the search

Calling a goal follows the search for its answers, by induction on the fuel of the search.
-/

namespace Horn

open Machine List Term

namespace Search

def dispatch (s : State) (goal : Term) (stop : Answers) (builtin : Builtin → List Term → Answers)
    (user : Term → Functor → Answers) : Answers :=
  let goal := s.look goal
  if goal.isAtom "!" then stop
  else match goal.functor? with
    | none => .stuck
    | some f =>
      if f = ⟨Term.markFunctor, 2⟩ then .stuck
      else match Builtin.lookup? f with
        | some b => builtin b goal.args
        | none => user goal f

section

variable {p : Program} {n : Nat} {t : Term} {s : State}

lemma dispatch_of_uncallable {stop : Answers} {builtin : Builtin → List Term → Answers}
    {user : Term → Functor → Answers} (h : (s.look t).functor? = none ∨
      (s.look t).functor? = some ⟨markFunctor, 2⟩) :
    dispatch s t stop builtin user = .stuck := by
  have noCut : (s.look t).isAtom "!" = false := by
    cases e : s.look t with
    | atom a => rcases e ▸ h with h | h <;> cases h
    | _ => rfl
  rcases h with h | h
  all_goals
    simp only [dispatch, noCut, h]
    rfl

lemma solve_succ : solve p (n + 1) t s = dispatch s t (.answer s fun _ => .cut)
    (solveBuiltin (solve p n) n · · s) (solveUser p (solve p n) n · · s) :=
  rfl

lemma solve_of_uncallable (h : (s.look t).functor? = none ∨
    (s.look t).functor? = some ⟨markFunctor, 2⟩) : solve p n t s = .stuck := by
  cases n with
  | zero => rfl
  | succ n => rw [solve_succ, dispatch_of_uncallable h]

end

lemma isVar_of_functor? {t : Term} {f : Functor} (h : t.functor? = some f) : t.isVar = false := by
  cases t with
  | var name v => cases h
  | _ => rfl

lemma Image.Shows.args {i : Image} {g t : Term} {f f' : Functor} (shows : i.Shows g t)
    (callable : g.functor? = some f) (callable' : t.functor? = some f') :
    Forall₂ i.Shows g.args t.args := by
  have top := shows.top
  rw [Image.walk_of_nonvar (isVar_of_functor? callable)] at top
  exact (top.of_apply (isVar_of_functor? callable') shows.below).args

namespace Setting

variable {e : Setting} {pending : List Goal} {barrier : Nat} {below : List Choice} {x : Course}
  {solve : Term → State → Answers} {i : Image}

lemma begins_call (e : Setting) (b : Bindings) (u : Term) (barrier : Nat) (pending : List Goal)
    (below : List Choice) :
    Begins e.program (e.going b (.call u barrier :: pending) below) fun n =>
      call e.program n (e.machine b pending below) u barrier :=
  begins_run fun _ => rfl

lemma call_atom (m : Machine) (n : Nat) (a : String) (barrier : Nat) :
    call e.program n m (.atom a) barrier =
      if a = "!" then .go (m.cutTo barrier)
      else match Builtin.lookup? ⟨a, 0⟩ with
        | some b => callBuiltin n m b (.atom a) barrier
        | none => callUser e.program n m (.atom a) ⟨a, 0⟩ := by
  have stays : m.world.bindings.walk (.atom a) = .atom a := Image.walk_of_nonvar rfl
  rw [call, stays]
  by_cases cut : a = "!"
  · simp [unmarked, marked?, isAtom, cut]
  · simp only [unmarked, marked?, isAtom, cut, decide_false]
    rfl

lemma going_true (b : Bindings) :
    LeadsTo (e.going b (.call (.atom "true") barrier :: pending) below)
      (e.going b pending below) :=
  leadsTo_going (begins_call e b _ barrier pending below) (N := 0) fun n _ => call_atom _ n _ _

lemma going_fail (b : Bindings) :
    LeadsTo (e.going b (.call (.atom "fail") barrier :: pending) below)
      (e.failing b pending below) :=
  leadsTo_failing (begins_call e b _ barrier pending below) (N := 0) fun n _ => call_atom _ n _ _

section Constructs

variable {l l' r r' c c' : Term}

lemma Solves.once (h : e.Solves solve) (condition : i.Reads c' c) {above choices : List Choice}
    {inner : Nat} {goals : List Goal} {k : State → Answers} {otherwise : Answers}
    (split : choices = below ++ above) (height : inner = choices.length)
    (consequence : ∀ j, i.Before j →
      e.Follows pending barrier j (k j.state) false below (e.going j.store goals below))
    (alternative : ∀ b gs, i.store.Later b →
      e.Follows pending barrier i otherwise false below (e.failing b gs choices)) :
    e.Follows pending barrier i ((solve c i.state).once k otherwise) false below
      (e.going i.store (.call c' inner :: .cutTo below.length :: goals) choices) := by
  subst split height
  exact Follows.once (h i c' c _ _ _ condition (Nat.le_refl _)) consequence alternative

lemma Solves.negation (h : e.Solves solve) (condition : i.Reads c' c) :
    e.Follows pending barrier i ((solve c i.state).once (fun _ => .failed) (.one i.state)) false
      below
      (e.going i.store
        (.call c' (below.length + 1) :: .cutTo below.length :: .call (.atom "fail") barrier ::
          pending)
        (below ++ [⟨i.store.mark, pending, .goal (.atom "true") barrier⟩])) := by
  refine h.once condition rfl (by simp) ?_ ?_
  · exact fun j _ => fails_of_leadsTo (going_fail j.store)
  · intro b gs later
    exact follows_one (j := i.restore b later) (Image.before_restore later)
      ((failing_goal later).trans (going_true _))

section

variable (h : e.Solves solve) (condition : i.Reads c' c) (left : i.Reads l' l)
  (right : i.Reads r' r) (high : barrier ≤ below.length)

include h right high

lemma Solves.alternative {b : Bindings} (goals : List Goal) (later : i.store.Later b) :
    e.Follows pending barrier i (solve r i.state) false below
      (e.failing b goals (below ++ [⟨i.store.mark, pending, .goal r' barrier⟩])) := by
  have before := Image.before_restore later
  have follows := h (i.restore b later) r' r pending barrier below (right.mono before) high
  exact (follows.leadsTo (failing_goal later)).before before

include left

lemma Solves.conjunction :
    e.Follows pending barrier i ((solve l i.state).bind (solve r)) false below
      (e.going i.store (.call l' barrier :: .call r' barrier :: pending) below) := by
  refine Follows.bind (h i l' l _ barrier below left high) high Bool.noConfusion ?_
  exact fun j choices before high' => h j r' r pending barrier choices (right.mono before) high'

lemma Solves.either :
    e.Follows pending barrier i ((solve l i.state).append fun _ => solve r i.state) false below
      (e.going i.store (.call l' barrier :: pending)
        (below ++ [⟨i.store.mark, pending, .goal r' barrier⟩])) := by
  have first := h i l' l pending barrier (below ++ [⟨i.store.mark, pending, .goal r' barrier⟩]) left
    (Nat.le_trans high (by simp))
  refine Follows.append first (.refl i) high Bool.noConfusion fun below' b goals length later => ?_
  exact h.alternative right (length ▸ high) goals later

include condition

lemma Solves.ifThenElse :
    e.Follows pending barrier i ((solve c i.state).once (solve l) (solve r i.state)) false below
      (e.going i.store
        (.call c' (below.length + 1) :: .cutTo below.length :: .call l' barrier :: pending)
        (below ++ [⟨i.store.mark, pending, .goal r' barrier⟩])) :=
  h.once condition rfl (by simp)
    (fun j before => h j l' l pending barrier below (left.mono before) high)
    fun _ gs later => h.alternative right high gs later

lemma Solves.softIfThenElse :
    e.Follows pending barrier i ((solve c i.state).each (solve l) (solve r i.state)) false below
      (e.going i.store
        (.call c' (below.length + 1) :: .softCut below.length :: .call l' barrier :: pending)
        (below ++ [⟨i.store.mark, pending, .goal r' barrier⟩])) := by
  refine Follows.each rfl (h i c' c _ _ _ condition (by simp)) high ?_ ?_
  · exact fun j choices before high' => h j l' l pending barrier choices (left.mono before) high'
  · exact fun _ gs later => h.alternative right high gs later

omit right

lemma Solves.ifThen :
    e.Follows pending barrier i ((solve c i.state).once (solve l) .failed) false below
      (e.going i.store (.call c' below.length :: .cutTo below.length :: .call l' barrier :: pending)
        below) := by
  refine h.once condition (append_nil below).symm rfl ?_ ?_
  · exact fun j before => h j l' l pending barrier below (left.mono before) high
  · exact fun b gs later => ⟨rfl, b, gs, later, .refl _⟩

lemma Solves.softIfThen :
    e.Follows pending barrier i ((solve c i.state).enclose.bind (solve l)) false below
      (e.going i.store (.call c' below.length :: .call l' barrier :: pending) below) := by
  refine Follows.bind (Follows.enclose (h i c' c _ _ _ condition (Nat.le_refl _))) high
    Bool.noConfusion ?_
  exact fun j choices before high' => h j l' l pending barrier choices (left.mono before) high'

end

lemma compound_of_functor? {t : Term} {f : String} (h : t.functor? = some ⟨f, 2⟩)
    (other : f ≠ ".") : ∃ a b, t = .compound f [a, b] := by
  cases t with
  | compound g args =>
    simp only [functor?, name?, Option.map_some, Option.some.injEq, Functor.mk.injEq] at h
    obtain ⟨rfl, length⟩ := h
    obtain ⟨a, b, rfl⟩ := length_eq_two.1 length
    exact ⟨a, b, rfl⟩
  | cell h t =>
    cases h
    exact absurd rfl other
  | atom | number | var => cases h

lemma disjunction_plain (m : Machine) {left : Term} (right : Term) (barrier : Nat)
    (noIf : left.functor? ≠ some ⟨"->", 2⟩) (noSoft : left.functor? ≠ some ⟨"*->", 2⟩) :
    m.disjunction left right barrier = m.eitherOf left right barrier := by
  unfold disjunction
  split
  · next f a b =>
    rw [if_neg fun eq => noIf (by rw [eq]; rfl), if_neg fun eq => noSoft (by rw [eq]; rfl)]
  · rfl

lemma solveDisjunction_plain {left : Term} (right : Term) {s : State}
    (noIf : (s.look left).functor? ≠ some ⟨"->", 2⟩)
    (noSoft : (s.look left).functor? ≠ some ⟨"*->", 2⟩) :
    solveDisjunction solve left right s = (solve left s).append fun _ => solve right s := by
  unfold solveDisjunction
  split
  · next f a b eq =>
    rw [eq] at noIf noSoft
    rw [if_neg fun eq => noIf (by rw [eq]; rfl), if_neg fun eq => noSoft (by rw [eq]; rfl)]
  · rfl

lemma ifThenElse_machine (b : Bindings) (c l r : Term) :
    (e.machine b pending below).ifThenElse c l (some r) barrier =
      e.machine b (.call c (below.length + 1) :: .cutTo below.length :: .call l barrier :: pending)
        (below ++ [⟨b.mark, pending, .goal r barrier⟩]) ∧
    (e.machine b pending below).softIfThenElse c l r barrier =
      e.machine b (.call c (below.length + 1) :: .softCut below.length :: .call l barrier :: pending)
        (below ++ [⟨b.mark, pending, .goal r barrier⟩]) := by
  simp only [ifThenElse, softIfThenElse, pushChoice_machine]
  simp [machine]

lemma Solves.disjunction {n : Nat} (h : e.Solves (Search.solve e.program n)) (left : i.Reads l' l)
    (right : i.Reads r' r) (high : barrier ≤ below.length)
    (begins : Begins e.program x fun _ => .go
      ((e.machine i.store pending below).disjunction (i.store.walk l').unmarked r' barrier)) :
    e.Follows pending barrier i (solveDisjunction (Search.solve e.program n) l r i.state) false
      below x := by
  by_cases marked : (i.state.look l).functor? = some ⟨markFunctor, 2⟩
  · rw [solveDisjunction_plain r (by rw [marked]; decide) (by rw [marked]; decide),
      solve_of_uncallable (.inr marked)]
    trivial
  obtain ⟨meets, reads⟩ := left.strip marked
  -- A conditional is the same conditional on both sides, with its parts.
  have parts {f : String} (other : f ≠ ".") (same : (i.state.look l).functor? = some ⟨f, 2⟩) :
      ∃ a' b' a b, (i.store.walk l').unmarked = .compound f [a', b'] ∧
        i.state.look l = .compound f [a, b] ∧ i.Reads a' a ∧ i.Reads b' b := by
    obtain ⟨a, b, eq⟩ := compound_of_functor? same other
    obtain ⟨a', b', eq'⟩ := compound_of_functor? (meets.functor.trans same) other
    have args := meets.args
    rw [eq, eq'] at args
    obtain _ | @⟨_, _, _, _, first, _ | @⟨_, _, _, _, second, _⟩⟩ := args
    exact ⟨a', b', a, b, eq', eq, first, second⟩
  by_cases hard : (i.state.look l).functor? = some ⟨"->", 2⟩
  · obtain ⟨a', b', a, b, eq', eq, first, second⟩ := parts (by decide) hard
    rw [eq'] at begins
    rw [solveDisjunction, eq]
    refine (h.ifThenElse first second right high).leadsTo (leadsTo_going begins (N := 0) ?_)
    exact fun _ _ => congrArg Step.go (ifThenElse_machine i.store a' b' r').1
  by_cases soft : (i.state.look l).functor? = some ⟨"*->", 2⟩
  · obtain ⟨a', b', a, b, eq', eq, first, second⟩ := parts (by decide) soft
    rw [eq'] at begins
    rw [solveDisjunction, eq]
    refine (h.softIfThenElse first second right high).leadsTo (leadsTo_going begins (N := 0) ?_)
    exact fun _ _ => congrArg Step.go (ifThenElse_machine i.store a' b' r').2
  · rw [solveDisjunction_plain r hard soft]
    rw [disjunction_plain _ _ _ (meets.functor ▸ hard) (meets.functor ▸ soft), eitherOf,
      pushChoice_machine] at begins
    exact (h.either reads right high).leadsTo (leadsTo_going begins (N := 0) fun _ _ => rfl)

lemma Solves.call {n : Nat} (h : e.Solves (Search.solve e.program n)) (target : i.Reads l' l)
    (begins : Begins e.program x fun _ => (e.machine i.store pending below).callWith l' []) :
    e.Follows pending barrier i (Search.solve e.program n l i.state).enclose false below x := by
  by_cases marked : (i.state.look l).functor? = some ⟨markFunctor, 2⟩
  · rw [solve_of_uncallable (.inr marked)]
    trivial
  cases callable : (i.state.look l).functor? with
  | none =>
    rw [solve_of_uncallable (.inl callable)]
    trivial
  | some f =>
    obtain ⟨meets, reads⟩ := target.strip marked
    have added : addArgs (i.store.walk l').unmarked [] = .ok (i.store.walk l').unmarked := by
      have functor := meets.functor.trans callable
      cases top : (i.store.walk l').unmarked with
      | var | number => rw [top] at functor; cases functor
      | _ => rfl
    have step : (e.machine i.store pending below).callWith l' [] =
        .go (e.machine i.store (.call (i.store.walk l').unmarked below.length :: pending) below) := by
      have store : (e.machine i.store pending below).world.bindings = i.store := rfl
      rw [callWith, store, added]
      rfl
    rw [step] at begins
    have follows := h i _ _ pending below.length below reads (Nat.le_refl _)
    exact Follows.enclose (follows.leadsTo (leadsTo_going begins (N := 0) fun _ _ => rfl))

lemma act_unify (m : Machine) (n : Nat) (s t : Term) {k : Verdict → Machine → Step}
    (succeed : ∀ m, k .succeed m = .go m) (fail : ∀ m, k .fail m = .fail m) :
    act m (Builtin.unify.run n [s, t]) k =
      act m (Action.unify n s t) ofBool := by
  obtain ⟨w, goals, choices⟩ := m
  have run : Builtin.unify.run n [s, t] w =
      EStateM.bind (Action.unify n s t) (fun unified => pure (Verdict.ofBool unified)) w := rfl
  rw [act, act, run, EStateM.bind]
  cases Action.unify n s t w with
  | ok unified w =>
    cases unified with
    | true => exact succeed _
    | false => exact fail _
  | error h w => rfl

lemma follows_unify (n : Nat) (left : i.Shows l' l) (right : i.Shows r' r)
    (begins : Begins e.program x fun n =>
      act (e.machine i.store pending below) (Action.unify n l' r') ofBool) :
    e.Follows pending barrier i
      (match i.state.subst.unify? n [(l, r)] with
        | none => .stuck
        | some none => .failed
        | some (some σ) => .one ⟨σ, i.state.next⟩) false below x := by
  have pairs : i.ShowsPairs [(l', r')] [(l, r)] := .cons ⟨left, right⟩ .nil
  have unifies := Image.unifies (n := n) pairs
  cases result : i.state.subst.unify? n [(l, r)] with
  | none => trivial
  | some result' =>
    rw [result] at unifies
    cases result' with
    | none =>
      obtain ⟨b, later, unified⟩ := unifies
      refine ⟨rfl, b, pending, later, leadsTo_failing begins (N := n) fun m le => ?_⟩
      rw [unify_eq (unified m le)]
      rfl
    | some σ =>
      obtain ⟨j, before, state, unified⟩ := unifies
      change e.Follows pending barrier i (.one ⟨σ, i.state.next⟩) false below x
      rw [← state]
      refine follows_one before (leadsTo_going begins (N := n) fun m le => ?_)
      rw [unify_eq (unified m le)]
      rfl

lemma Solves.builtin {n : Nat} (h : e.Solves (Search.solve e.program n)) {b : Builtin}
    {g : Term} {ts : List Term} (args : Forall₂ i.Reads g.args ts)
    (shows : b = .unify → Forall₂ i.Shows g.args ts) (high : barrier ≤ below.length)
    (begins : Begins e.program x fun n =>
      callBuiltin n (e.machine i.store pending below) b g barrier) :
    e.Follows pending barrier i (solveBuiltin (Search.solve e.program n) n b ts i.state) false below
      x := by
  unfold solveBuiltin
  unfold callBuiltin at begins
  generalize g.args = us at args shows begins
  split
  · obtain _ | ⟨left, _ | ⟨right, _ | _⟩⟩ := args
    exact (h.conjunction left right high).leadsTo (leadsTo_going begins (N := 0) fun _ _ => rfl)
  · obtain _ | ⟨left, _ | ⟨right, _ | _⟩⟩ := args
    exact h.disjunction left right high begins
  · obtain _ | ⟨condition, _ | ⟨consequence, _ | _⟩⟩ := args
    exact (h.ifThen condition consequence high).leadsTo
      (leadsTo_going begins (N := 0) fun _ _ => rfl)
  · obtain _ | ⟨condition, _ | ⟨consequence, _ | _⟩⟩ := args
    exact (h.softIfThen condition consequence high).leadsTo
      (leadsTo_going begins (N := 0) fun _ _ => rfl)
  · obtain _ | ⟨inner, _ | _⟩ := args
    refine (h.negation inner).leadsTo (leadsTo_going begins (N := 0) fun _ _ => ?_)
    exact congrArg Step.go (ifThenElse_machine _ _ _ _).1
  · obtain _ | ⟨target, _ | _⟩ := args
    exact h.call target begins
  · exact follows_one (.refl i) (leadsTo_going begins (N := 0) fun _ _ => rfl)
  · exact fails_of_leadsTo (leadsTo_failing begins (N := 0) fun _ _ => rfl)
  · obtain _ | ⟨left, _ | ⟨right, _ | _⟩⟩ := shows rfl
    refine follows_unify n left right ?_
    rwa [funext fun n => act_unify _ n _ _ (fun _ => rfl) fun _ => rfl] at begins
  · trivial

lemma Solves.user {n : Nat} (h : e.Solves solve) (selects : e.program.selects = mayUnify)
    {g t : Term} (shows : i.Shows g t) {f : Functor}
    (begins : Begins e.program x fun n =>
      callUser e.program n (e.machine i.store pending below) g f) :
    e.Follows pending barrier i (solveUser e.program solve n t f i.state) false below x := by
  unfold solveUser
  cases found : e.program.domain.find? f with
  | some predicate =>
    simp only [callUser, found] at begins
    exact Follows.enclose (h.tryClauses selects predicate.clauses shows begins)
  | none =>
    by_cases applies : f.name = "apply" ∧ 1 < f.arity
    · simp only [applies, and_self, if_true]
      trivial
    · simp only [applies, if_false]
      cases unknown : e.program.unknown with
      | error => trivial
      | fail =>
        have step (n : Nat) : callUser e.program n (e.machine i.store pending below) g f =
            .fail (e.machine i.store pending below) := by
          have unknown : callUser.unknown e.program (e.machine i.store pending below) f =
              .fail (e.machine i.store pending below) := by
            rw [callUser.unknown, unknown]
          rw [callUser, found]
          cases g.args with
          | nil => exact unknown
          | cons target extra =>
            refine (if_neg ?_).trans unknown
            rwa [Bool.and_eq_true_iff, decide_eq_true_eq, decide_eq_true_eq]
        simp only [step] at begins
        exact fails_of_leadsTo (leadsTo_failing begins (N := 0) fun _ _ => rfl)

end Constructs

lemma follows_cut (high : barrier ≤ below.length)
    (leads : LeadsTo x (e.going i.store pending (below.take barrier))) :
    e.Follows pending barrier i (.answer i.state fun _ => .cut) false below x := by
  refine ⟨i, true, [], .refl i, rfl, fun _ => rfl, ?_, fun below' b goals length later => ?_⟩
  · rw [append_nil]
    exact leads
  · have whole : below'.take barrier = below' := by
      refine take_of_length_le ?_
      rw [length, left, if_pos rfl, length_take]
      omega
    change e.Fails i (below'.take barrier) (e.failing b goals (below' ++ []))
    rw [whole, append_nil]
    exact ⟨b, goals, later, .refl _⟩

lemma follows_dispatch {u t : Term} {stop : Answers} {builtin : Builtin → List Term → Answers}
    {user : Term → Functor → Answers} (reads : i.Reads u t)
    (onCut : ∀ {x}, LeadsTo x (e.going i.store pending (below.take barrier)) →
      e.Follows pending barrier i stop false below x)
    (onBuiltin : ∀ {x b g ts}, Forall₂ i.Reads g.args ts →
      (b.goalArgs.isEmpty → Forall₂ i.Shows g.args ts) →
      (Begins e.program x fun n =>
        callBuiltin n (e.machine i.store pending below) b g barrier) →
      e.Follows pending barrier i (builtin b ts) false below x)
    (onUser : ∀ {x g t f}, i.Shows g t →
      (Begins e.program x fun n =>
        callUser e.program n (e.machine i.store pending below) g f) →
      e.Follows pending barrier i (user t f) false below x) :
    e.Follows pending barrier i (dispatch i.state t stop builtin user) false below
      (e.going i.store (.call u barrier :: pending) below) := by
  by_cases marked : (i.state.look t).functor? = some ⟨markFunctor, 2⟩
  · rw [dispatch_of_uncallable (.inr marked)]
    trivial
  obtain ⟨meets, -⟩ := reads.strip marked
  have begins := begins_call e i.store u barrier pending below
  have store : (e.machine i.store pending below).world.bindings = i.store := rfl
  simp only [call, store, meets.atom, meets.functor] at begins
  rw [dispatch]
  by_cases cut : (i.state.look t).isAtom "!" = true
  · simp only [cut, if_true] at begins ⊢
    refine onCut (leadsTo_going begins (N := 0) fun _ _ => ?_)
    simp [cutTo, machine]
  simp only [cut] at begins ⊢
  cases functor : (i.state.look t).functor? with
  | none => trivial
  | some f =>
    rw [functor] at marked
    have other : f ≠ ⟨markFunctor, 2⟩ := fun eq => marked (congrArg some eq)
    simp only [functor, other, if_false] at begins ⊢
    cases listed : Builtin.lookup? f with
    | none =>
      have plain : isControl f = false := by rw [isControl, listed]; rfl
      simp only [listed] at begins ⊢
      exact onUser (meets.whole f functor plain) begins
    | some b =>
      simp only [listed] at begins ⊢
      refine onBuiltin meets.args (fun empty => ?_) begins
      have plain : isControl f = false := by simp [isControl, listed, empty]
      exact (meets.whole f functor plain).args (meets.functor.trans functor) functor

lemma Solves.succ {n : Nat} (h : e.Solves (Search.solve e.program n))
    (selects : e.program.selects = mayUnify) : e.Solves (Search.solve e.program (n + 1)) := by
  intro i u t pending barrier below reads high
  rw [solve_succ]
  exact follows_dispatch reads (follows_cut high)
    (fun args shows begins => h.builtin args (fun eq => shows (eq ▸ rfl)) high begins)
    fun shows begins => h.user selects shows begins

lemma solves (selects : e.program.selects = mayUnify) (n : Nat) :
    e.Solves (Search.solve e.program n) := by
  induction n with
  | zero => exact fun _ _ _ _ _ _ _ _ => trivial
  | succ n ih => exact ih.succ selects

end Setting

end Search

end Horn
