import Horn.Proofs.AppendAnswers
import Horn.Proofs.ExactArithmetic

/-!
# Counting

The search is extended by the built-ins that they use, and the machine follows it there too. The
recursion stops below the larger integer, so it never adds one to the largest there is.
-/

namespace Horn

open List Term Machine Subst Builtin Arithmetic Int64

variable {k : Verdict → Machine → Machine.Step} {value : Number}

def betweenGoal (l h x : Term) : Term := .compound "between" [l, h, x]

/-- The head of `between(L, H, L) :- L =< H`. -/
def betweenFirst : Term := betweenGoal (.var "L" 0) (.var "H" 1) (.var "L" 0)

/-- The head of `between(L, H, X) :- L < H, L1 is L + 1, between(L1, H, X)`. -/
def betweenLater : Term := betweenGoal (.var "L" 0) (.var "H" 1) (.var "X" 2)

/-- The domain has these two clauses of `between/3`, and no others. -/
def Domain.HasBetween (d : Domain) : Prop :=
  ((d.find? ⟨"between", 3⟩).map fun p => p.clauses.map fun c => (c.clause.head, c.clause.body)) =
    some [(some betweenFirst, [Term.mark (.compound "=<" [.var "L" 0, .var "H" 1])]),
      (some betweenLater, [Term.mark (.compound "<" [.var "L" 0, .var "H" 1]),
        Term.mark (.compound "is" [.var "L1" 3, .compound "+" [.var "L" 0, .int 1]]),
        betweenGoal (.var "L1" 3) (.var "H" 1) (.var "X" 2)])]

instance (d : Domain) : Decidable d.HasBetween := by
  unfold Domain.HasBetween
  infer_instance

namespace Arithmetic

lemma evaluate_mapVars {f : String → Nat → Term} (vars : ∀ name id, (f name id).isVar) (t : Term) :
    evaluate (t.mapVars f) = evaluate t := by
  induction t using induct with
  | atom | number => rfl
  | var name id =>
    have := vars name id
    rw [mapVars]
    cases h : f name id <;> simp_all [isVar, evaluate]
  | cell h t ihh iht =>
    have nil : (t.mapVars f).isNil = t.isNil := by
      cases t with
      | var name id =>
        have := vars name id
        rw [mapVars]
        cases h : f name id <;> simp_all [isVar, isNil, isAtom]
      | _ => rfl
    rw [mapVars, evaluate, evaluate, nil, ihh]
  | compound g args ih =>
    rw [mapVars, mapAllVars_eq]
    rcases args with _ | ⟨a, _ | ⟨b, _ | ⟨c, rest⟩⟩⟩
    · rfl
    · simp [evaluate, ih a]
    · simp [evaluate, ih a, ih b]
    · simp [evaluate]

end Arithmetic

namespace Search

open Subst (free)
open Answers (ofList)

lemma Moved.evaluate {place : Nat → Nat} {u t : Term} (h : Moved place u t) :
    evaluate u = evaluate t := by
  have left := evaluate_mapVars (f := fun _ id => free id) (fun _ _ => rfl) u
  have right := evaluate_mapVars (f := fun _ id => free (place id)) (fun _ _ => rfl) t
  rw [← left, ← right]
  exact congrArg Arithmetic.evaluate h

lemma Image.Shows.resolves {i : Image} {u t : Term} (h : i.Shows u t) :
    ∃ N, ∀ n, N ≤ n → ∃ r, i.store.resolve? n u = some r ∧
      Moved i.place r (i.state.subst.apply t) := by
  obtain ⟨N, resolves⟩ := i.sound.resolvable i.solves u
  refine ⟨N, fun n le => ?_⟩
  obtain ⟨r, resolved, value⟩ := resolves n le
  exact ⟨r, resolved, value.trans h.value⟩

def compared (c : Comparison) (l r : Term) (s : State) : Answers :=
  match c.test (s.subst.apply l) (s.subst.apply r) with
  | .ok true => .one s
  | .ok false => .failed
  | .error _ => .stuck

def evaluated (fuel : Nat) (v t : Term) (s : State) : Answers :=
  match evaluate (s.subst.apply t) with
  | .error _ => .stuck
  | .ok x =>
    match s.subst.unify? fuel [(v, .number x)] with
    | none => .stuck
    | some none => .failed
    | some (some σ) => .one ⟨σ, s.next⟩

def reckonBuiltin (fuel : Nat) (b : Builtin) (args : List Term) (s : State) : Answers :=
  match b, args with
  | .less, [l, r] => compared .less l r s
  | .lessEq, [l, r] => compared .lessEq l r s
  | .is, [v, t] => evaluated fuel v t s
  | _, _ => .stuck

/-- The search with arithmetic, but without cuts and control constructs. -/
def reckon (p : Program) : Nat → Term → State → Answers
  | 0, _, _ => .stuck
  | n + 1, goal, s =>
    dispatch s goal .stuck (reckonBuiltin n · · s) (solveUser p (reckon p n) n · · s)

lemma Begins.eventually {p : Program} {x : Course} {step step' : Nat → Step}
    (h : Begins p x step) {N : Nat} (same : ∀ n, N ≤ n → step n = step' n) :
    ∃ y, LeadsTo x y ∧ Begins p y step' := by
  refine ⟨fun n => if n ≤ N then
      match step' (n - 1) with
      | .go m => run p (n - 1) false m
      | .fail m => run p (n - 1) true m
      | _ => x n
    else x n, ⟨0, N + 1, fun n le => (if_neg (by omega)).symm⟩, fun n m eq => ?_, fun n m eq => ?_⟩
  · split
    · simp [eq]
    · exact h.go n m ((same n (by omega)).trans eq)
  · split
    · simp [eq]
    · exact h.fail n m ((same n (by omega)).trans eq)

namespace Setting

variable {e : Setting} {pending : List Goal} {barrier : Nat} {below : List Choice} {x : Course}
  {i : Image} {l l' r r' : Term}

lemma follows_compared {c : Comparison} (left : i.Shows l' l) (right : i.Shows r' r)
    (succeed : ∀ m, k .succeed m = .go m) (fail : ∀ m, k .fail m = .fail m)
    (begins : Begins e.program x fun n =>
      act (e.machine i.store pending below) (runComparison n c l' r') k) :
    e.Follows pending barrier i (compared c l r i.state) false below x := by
  obtain ⟨N, left⟩ := left.resolves
  obtain ⟨N', right⟩ := right.resolves
  unfold compared
  cases tested : c.test (i.state.subst.apply l) (i.state.subst.apply r) with
  | error => trivial
  | ok holds =>
    have acted (n : Nat) (le : max N N' ≤ n) :
        act (e.machine i.store pending below) (runComparison n c l' r') k =
          k (.ofBool holds) (e.machine i.store pending below) := by
      obtain ⟨u, resolved, moved⟩ := left n (by omega)
      obtain ⟨u', resolved', moved'⟩ := right n (by omega)
      have same : c.test u u' = .ok holds := by
        rw [← tested, Comparison.test, Comparison.test, Arithmetic.order, Arithmetic.order,
          moved.evaluate, moved'.evaluate]
      have ran : runComparison n c l' r' ⟨i.store, e.operators, e.output⟩ =
          .ok (.ofBool holds) ⟨i.store, e.operators, e.output⟩ := by
        simp only [runComparison, Action.resolve, resolved, resolved', raising, same,
          bind, EStateM.bind]
        rfl
      simp only [act, machine, ran]
    cases holds with
    | true =>
      exact follows_one (.refl i) (leadsTo_going begins fun n le => (acted n le).trans (succeed _))
    | false =>
      exact fails_of_leadsTo (leadsTo_failing begins fun n le => (acted n le).trans (fail _))

lemma act_is (m : Machine) {n : Nat} {v t u : Term} (succeed : ∀ m, k .succeed m = .go m)
    (fail : ∀ m, k .fail m = .fail m) (resolved : m.world.bindings.resolve? n t = some u)
    (evaluated : evaluate u = .ok value) :
    act m (is.run n [v, t]) k =
      act m (Action.unify n v (.number value)) ofBool := by
  rw [← act_unify m n v (.number value) succeed fail]
  obtain ⟨w, goals, choices⟩ := m
  have run : is.run n [v, t] w = unify.run n [v, .number value] w := by
    have known : Action.resolve n t w = .ok u w := by rw [Action.resolve, resolved]
    simp only [Builtin.run, bind, EStateM.bind, List.getElem?_cons_succ, List.getElem?_cons_zero,
      Option.getD_some, known, raising, evaluated]
    rfl
  rw [act, act, run]

lemma follows_evaluated {n : Nat} (left : i.Shows l' l) (right : i.Shows r' r)
    {k : Verdict → Machine → Step} (succeed : ∀ m, k .succeed m = .go m)
    (fail : ∀ m, k .fail m = .fail m)
    (begins : Begins e.program x fun n =>
      act (e.machine i.store pending below) (is.run n [l', r']) k) :
    e.Follows pending barrier i (evaluated n l r i.state) false below x := by
  obtain ⟨N, right⟩ := right.resolves
  unfold evaluated
  cases value : evaluate (i.state.subst.apply r) with
  | error => trivial
  | ok value' =>
    obtain ⟨y, leads, begins⟩ := begins.eventually (N := N) fun n le => by
      obtain ⟨u, resolved, moved⟩ := right n le
      exact act_is _ succeed fail resolved (moved.evaluate.trans value)
    have number : i.Shows (.number value') (.number value') := Image.shows_moved nofun rfl
    exact (follows_unify n left number begins).leadsTo leads

lemma reckons (selects : e.program.selects = mayUnify) (n : Nat) :
    e.Solves (reckon e.program n) := by
  induction n with
  | zero => exact fun _ _ _ _ _ _ _ _ => trivial
  | succ n ih =>
    intro i u t pending barrier below reads high
    refine follows_dispatch reads (fun _ => trivial) (fun {x b g ts} _ shows begins => ?_)
      fun shows begins => ih.user selects shows begins
    unfold callBuiltin at begins
    generalize g.args = us at shows begins
    unfold reckonBuiltin
    split
    · obtain _ | ⟨left, _ | ⟨right, _ | _⟩⟩ := shows rfl
      exact follows_compared left right (fun _ => rfl) (fun _ => rfl) begins
    · obtain _ | ⟨left, _ | ⟨right, _ | _⟩⟩ := shows rfl
      exact follows_compared left right (fun _ => rfl) (fun _ => rfl) begins
    · obtain _ | ⟨left, _ | ⟨right, _ | _⟩⟩ := shows rfl
      exact follows_evaluated left right (fun _ => rfl) (fun _ => rfl) begins
    · trivial

end Setting

variable {p : Program} {s : State} {a b c : Term} {l h : Int64} {x : Nat}

lemma meets_between (idle : s.Idle) (ha : s.subst.apply a = .int l)
    (hb : s.subst.apply b = .int h) (hc : s.Open c x) :
    (∃ τ, s.Meets betweenFirst (betweenGoal a b c) (some τ) ∧ τ.apply (free s.next) = .int l ∧
      τ.apply (free (s.next + 1)) = .int h ∧ τ.apply (free x) = .int l) ∧
    ∃ τ, s.Meets betweenLater (betweenGoal a b c) (some τ) ∧ τ.apply (free s.next) = .int l ∧
      τ.apply (free (s.next + 1)) = .int h ∧ τ.apply (free (s.next + 2)) = free x ∧
      τ.apply (free x) = free x ∧ ∀ v, s.next + 3 ≤ v → τ.apply (free v) = free v := by
  obtain ⟨hc, hx, lt⟩ := hc
  have ground (n : Int64) (σ : Subst) : σ.apply (.int n) = .int n := rfl
  -- Both heads take the two bounds first.
  have bounds {u : Term} {r : Option Subst} (last : Unifies ((s.subst.assign s.next (.int l)).assign
      (s.next + 1) (.int h)) [(u, free x)] r) :
      Unifies s.subst [(free s.next, .int l), (free (s.next + 1), .int h), (u, free x)] r := by
    refine .assign_left (idle.new (by omega)) rfl rfl not_mem_nil ?_
    refine .assign_left (x := s.next + 1) ?_ rfl rfl not_mem_nil last
    simp (disch := omega) only [assign_apply, idle.new, single_free_of_ne]
  have new {k : Nat} : s.subst.apply (free (s.next + k)) = free (s.next + k) := idle.new (by omega)
  refine ⟨⟨_, unifies_triple ⟨new, new, new⟩ ⟨ha, hb, hc⟩ (bounds (u := free s.next)
      (.assign_right (u := .int l) (y := x) ?_ ?_ rfl not_mem_nil (.nil _))), ?_, ?_, ?_⟩,
    _, unifies_triple ⟨new, new, new⟩ ⟨ha, hb, hc⟩ (bounds (.vars (x := s.next + 2) (y := x)
      ?_ ?_ (by omega) (.nil _))), ?_, ?_, ?_, ?_, fun v le => ?_⟩
  all_goals simp (disch := omega) only [assign_apply, idle.new, hx, single_free_of_ne, single_free,
    ground]

section Bodies

variable {t u v : Term} {y n : Nat} {b : Builtin} {f : String}

lemma reckon_builtin (args : List Term) (unmarked : f ≠ markFunctor)
    (listed : lookup? ⟨f, args.length⟩ = some b) :
    reckon p (n + 1) (.compound f args) s = reckonBuiltin n b args s := by
  rw [reckon, dispatch_compound args unmarked, listed]

lemma compared_eq (c : Comparison) (ht : s.subst.apply t = .int l) (hu : s.subst.apply u = .int h) :
    compared c t u s = if c.holds (compare l.toInt h.toInt) then .one s else .failed := by
  have tested : c.test (.int l) (.int h) = .ok (c.holds (compare l.toInt h.toInt)) := rfl
  rw [compared, ht, hu, tested]
  cases c.holds (compare l.toInt h.toInt) <;> rfl

lemma solved_comparison (c : Comparison) (unmarked : f ≠ markFunctor)
    (listed : lookup? ⟨f, 2⟩ = some b) (kind : ∀ n, reckonBuiltin n b [t, u] s = compared c t u s)
    (ht : s.subst.apply t = .int l) (hu : s.subst.apply u = .int h) (goals : List Term) :
    ∃ N, ∀ n, N ≤ n → solveAll (reckon p n) (.compound f [t, u] :: goals) s =
      if c.holds (compare l.toInt h.toInt) then solveAll (reckon p n) goals s else .failed := by
  refine ⟨1, fun n le => ?_⟩
  obtain ⟨n, rfl⟩ := Nat.exists_eq_add_of_le' le
  rw [solveAll, reckon_builtin [t, u] unmarked listed, kind, compared_eq c ht hu]
  split
  · exact Answers.one_bind s _
  · rfl

lemma solved_is (evaluates : evaluate (s.subst.apply t) = .ok value) (hv : s.subst.apply v = free y)
    (goals : List Term) :
    ∃ N, ∀ n, N ≤ n → solveAll (reckon p n) (.compound "is" [v, t] :: goals) s =
      solveAll (reckon p n) goals ⟨s.subst.assign y (.number value), s.next⟩ := by
  have unified : Unifies s.subst [(v, .number value)] (some (s.subst.assign y (.number value))) :=
    .assign_left hv rfl rfl not_mem_nil (.nil _)
  obtain ⟨N, run⟩ := unified
  refine ⟨N + 1, fun n le => ?_⟩
  obtain ⟨n, rfl⟩ := Nat.exists_eq_add_of_le' (Nat.le_trans (Nat.le_add_left 1 N) le)
  have one : evaluated n v t s = .one ⟨s.subst.assign y (.number value), s.next⟩ := by
    simp only [evaluated, evaluates, run n (by omega)]
  rw [solveAll, reckon_builtin _ (by decide) rfl, reckonBuiltin, one, Answers.one_bind]

lemma holds_lessEq : Comparison.lessEq.holds (compare l.toInt h.toInt) ↔ l.toInt ≤ h.toInt := by
  simp [Comparison.holds, compare_gt_iff_gt]

lemma holds_less : Comparison.less.holds (compare l.toInt h.toInt) ↔ l.toInt < h.toInt := by
  simp [Comparison.holds, compare_lt_iff_lt]

end Bodies

lemma solved_clauses (has : p.domain.HasBetween) {τ τ' : Subst} {first later : List State}
    (meets : s.Meets betweenFirst (betweenGoal a b c) (some τ))
    (meets' : s.Meets betweenLater (betweenGoal a b c) (some τ'))
    (body : ∃ N, ∀ n, N ≤ n →
      solveAll (reckon p n) [.compound "=<" [free s.next, free (s.next + 1)]] ⟨τ, s.next + 2⟩ =
        ofList first)
    (body' : ∃ N, ∀ n, N ≤ n →
      solveAll (reckon p n) [.compound "<" [free s.next, free (s.next + 1)],
        .compound "is" [free (s.next + 3), .compound "+" [free s.next, .int 1]],
        betweenGoal (free (s.next + 3)) (free (s.next + 1)) (free (s.next + 2))] ⟨τ', s.next + 4⟩ =
        ofList later) :
    Solved (reckon p) (betweenGoal a b c) s (first ++ later) := by
  obtain ⟨pred, found, c₁, c₂, all, ⟨head₁, body₁⟩, head₂, body₂⟩ := Domain.two_clauses has
  have ⟨bound₁, bound₂⟩ : c₁.clause.idBound = 2 ∧ c₂.clause.idBound = 4 := by
    rw [Clause.idBound, head₁, body₁, Clause.idBound, head₂, body₂]
    exact ⟨rfl, rfl⟩
  have calls (n : Nat) : reckon p (n + 1) (.compound "between" [a, b, c]) s =
      solveUser p (reckon p n) n (.compound "between" [a, b, c]) ⟨"between", 3⟩ s := by
    rw [reckon, dispatch_compound _ (by decide)]
    rfl
  change Solved (reckon p) (.compound "between" [a, b, c]) s _
  refine SolvedBy.solved calls found (all ▸ .enter head₁ meets ?_ ?_)
  · have low : bare (Bindings.rename s.next (mark (.compound "=<" [.var "L" 0, .var "H" 1]))) =
        .compound "=<" [free s.next, free (s.next + 1)] := bare_of_top rfl rfl
    rw [bound₁, body₁, map_singleton, low]
    exact body
  · rw [← append_nil later]
    refine .enter head₂ meets' ?_ (.nil _ _)
    have low : bare (Bindings.rename s.next (mark (.compound "<" [.var "L" 0, .var "H" 1]))) =
        .compound "<" [free s.next, free (s.next + 1)] := bare_of_top rfl rfl
    have sum : bare (Bindings.rename s.next (mark (.compound "is" [.var "L1" 3,
        .compound "+" [.var "L" 0, .int 1]]))) = .compound "is" [free (s.next + 3),
          .compound "+" [free s.next, .int 1]] := bare_of_top rfl rfl
    have again : bare (Bindings.rename s.next (betweenGoal (.var "L1" 3) (.var "H" 1) (.var "X" 2))) =
        betweenGoal (free (s.next + 3)) (free (s.next + 1)) (free (s.next + 2)) :=
      bare_user rfl (by decide)
    rw [bound₂, body₂, map_cons, map_cons, map_singleton, low, sum, again]
    exact body'

lemma exists_succ (less : l.toInt < h.toInt) :
    ∃ l' : Int64, l'.toInt = l.toInt + 1 ∧ exactly (l.toInt + 1) = .ok (.int l') := by
  have fits : Number.int64? (l.toInt + 1) = some (ofInt (l.toInt + 1)) := by
    have := l.le_toInt
    have := h.toInt_lt
    exact int64?_of_fits (by omega) (by omega)
  exact ⟨_, toInt_of_int64? fits, by rw [exactly, fits]⟩

lemma solved_first {τ : Subst} {k m : Nat} (low : τ.apply (free k) = .int l)
    (high : τ.apply (free (k + 1)) = .int h) :
    ∃ N, ∀ n, N ≤ n → solveAll (reckon p n) [.compound "=<" [free k, free (k + 1)]] ⟨τ, m⟩ =
      ofList (if l.toInt ≤ h.toInt then [⟨τ, m⟩] else []) := by
  refine (solved_comparison (p := p) (s := ⟨τ, m⟩) (f := "=<") .lessEq (by decide) rfl (fun _ => rfl)
    low high []).imp fun N run n le => ?_
  rw [run n le]
  simp only [holds_lessEq]
  split <;> rfl

lemma solved_later {τ : Subst} {k m : Nat} {states : List State}
    (low : τ.apply (free k) = .int l) (high : τ.apply (free (k + 1)) = .int h)
    (fresh : τ.apply (free (k + 3)) = free (k + 3))
    (rest : h.toInt ≤ l.toInt ∧ states = [] ∨ ∃ l' : Int64,
      l.toInt < h.toInt ∧ exactly (l.toInt + 1) = .ok (.int l') ∧
      Solved (reckon p) (betweenGoal (free (k + 3)) (free (k + 1)) (free (k + 2)))
        ⟨τ.assign (k + 3) (.int l'), m⟩ states) :
    ∃ N, ∀ n, N ≤ n → solveAll (reckon p n) [.compound "<" [free k, free (k + 1)],
        .compound "is" [free (k + 3), .compound "+" [free k, .int 1]],
        betweenGoal (free (k + 3)) (free (k + 1)) (free (k + 2))] ⟨τ, m⟩ = ofList states := by
  obtain ⟨N, guard⟩ := solved_comparison (p := p) (s := ⟨τ, m⟩) (f := "<") .less (by decide) rfl
    (fun _ => rfl) low high [.compound "is" [free (k + 3), .compound "+" [free k, .int 1]],
      betweenGoal (free (k + 3)) (free (k + 1)) (free (k + 2))]
  rcases rest with ⟨stop, rfl⟩ | ⟨l', less, sum, M, counted⟩
  · refine ⟨N, fun n le => ?_⟩
    rw [guard n le, if_neg (by rw [holds_less]; omega)]
    rfl
  · have value : evaluate (τ.apply (.compound "+" [free k, .int 1])) = .ok (.int l') := by
      rw [apply_compound, map_cons, low]
      exact sum
    obtain ⟨N', added⟩ := solved_is (p := p) (s := ⟨τ, m⟩) value fresh
      [betweenGoal (free (k + 3)) (free (k + 1)) (free (k + 2))]
    refine ⟨N + N' + M, fun n le => ?_⟩
    rw [guard n (by omega), if_pos (holds_less.2 less), added n (by omega), solveAll]
    exact (Answers.bind_one _).trans (counted n (by omega))

/-- The states give a variable the values from `low` on up to `h`, in increasing order. -/
def Counts (low : Int) (h : Int64) (x : Nat) (states : List State) (vs : List Int64) : Prop :=
  (states.map fun s => s.subst.apply (free x)) = vs.map .int ∧ vs.Pairwise (· < ·) ∧
    ∀ v, v ∈ vs ↔ low ≤ v.toInt ∧ v ≤ h

/-- Counting goes on from the next integer while there is one, with the same variable open. -/
lemma solved_step (has : p.domain.HasBetween) (idle : s.Idle) (ha : s.subst.apply a = .int l)
    (hb : s.subst.apply b = .int h) (hc : s.Open c x)
    (rest : l.toInt < h.toInt → ∀ {l' : Int64} {s' : State} {a' b' c' : Term},
      l'.toInt = l.toInt + 1 → s'.Idle → s'.subst.apply a' = .int l' → s'.subst.apply b' = .int h →
      s'.Open c' x → ∃ vs states, Solved (reckon p) (betweenGoal a' b' c') s' states ∧
        Counts l'.toInt h x states vs) :
    ∃ s' vs states, s'.subst.apply (free x) = .int l ∧ Solved (reckon p) (betweenGoal a b c) s
      ((if l.toInt ≤ h.toInt then [s'] else []) ++ states) ∧ Counts (l.toInt + 1) h x states vs := by
  obtain ⟨⟨τ, meets, low, high, value⟩, τ', meets', low', high', same, unbound, above⟩ :=
    meets_between idle ha hb hc
  have solved {states : List State} := @solved_clauses _ _ _ _ _ has _ _ _ states meets meets'
    (solved_first low high)
  have fresh : τ'.apply (free (s.next + 3)) = free (s.next + 3) := above _ (Nat.le_refl _)
  rcases Int.lt_or_le l.toInt h.toInt with less | stop
  · obtain ⟨l', succ, sum⟩ := exists_succ less
    have ground : (single (s.next + 3) (.int l')).apply (.int h) = .int h := rfl
    have lt := hc.below
    obtain ⟨vs, states, counted, counts⟩ := @rest less l'
      ⟨τ'.assign (s.next + 3) (.int l'), s.next + 4⟩ (free (s.next + 3)) (free (s.next + 1))
      (free (s.next + 2)) succ (fun v (le : s.next + 4 ≤ v) => by
        simp (disch := omega) only [assign_apply, above, single_free_of_ne])
      (by simp only [assign_apply, fresh, single_free])
      (by simp only [assign_apply, high', ground])
      ⟨by simp (disch := omega) only [assign_apply, same, single_free_of_ne],
        by simp (disch := omega) only [assign_apply, unbound, single_free_of_ne],
        Nat.lt_add_right 4 lt⟩
    rw [succ] at counts
    exact ⟨_, vs, states, value, solved (solved_later low' high' fresh (.inr ⟨l', less, sum, counted⟩)),
      counts⟩
  · refine ⟨_, [], [], value, solved (solved_later low' high' fresh (.inl ⟨stop, rfl⟩)), rfl, .nil,
      fun v => ?_⟩
    simp only [not_mem_nil, le_iff_toInt_le, false_iff]
    omega

lemma solved_between (has : p.domain.HasBetween) {s : State} (idle : s.Idle) {a b c : Term}
    {l : Int64} (ha : s.subst.apply a = .int l) (hb : s.subst.apply b = .int h) (hc : s.Open c x) :
    ∃ vs states, Solved (reckon p) (betweenGoal a b c) s states ∧ Counts l.toInt h x states vs := by
  obtain ⟨s', vs, states, value, solved, values, sorted, mem⟩ := solved_step has idle ha hb hc
    fun less {l'} {_} {_} {_} {_} succ idle' ha' hb' hc' =>
      have : (h.toInt - l'.toInt).toNat < (h.toInt - l.toInt).toNat := by omega
      solved_between has idle' ha' hb' hc'
  by_cases le : l.toInt ≤ h.toInt
  · rw [if_pos le] at solved
    refine ⟨l :: vs, _, solved, by simp [value, values], ?_, fun v => ?_⟩
    · refine pairwise_cons.2 ⟨fun v hv => ?_, sorted⟩
      have := (mem v).1 hv
      rw [lt_iff_toInt_lt]
      omega
    · simp only [mem_cons, mem, le_iff_toInt_le, ← toInt_inj]
      omega
  · rw [if_neg le] at solved
    refine ⟨vs, _, solved, values, sorted, fun v => ?_⟩
    rw [mem, le_iff_toInt_le]
    omega
termination_by (h.toInt - l.toInt).toNat

end Search

namespace Engine

open Search

variable {e : Engine} {q : CompiledQuery} {x : String} {i : Nat} {l h : Int64}

/-- With the clauses of `between/3`, the integers between two others are counted up, each once, and
then the search ends without an error. -/
theorem between_counts (ops : OperatorTable) (has : e.domain.HasBetween) (query : e.query = some q)
    (goal : q.goal = betweenGoal (.int l) (.int h) (.var x i))
    (names : shownNames q.names = [(x, .var x i)]) :
    ∃ vs : List Int64, vs.Pairwise (· < ·) ∧ (∀ v, v ∈ vs ↔ l ≤ v ∧ v ≤ h) ∧
      ∃ N, ∀ fuel, N ≤ fuel → ∀ limit, answers fuel limit (ops, e) =
        .ok ((vs.map fun v => ⟨[(x, .int v)]⟩).take limit, none) (ops, e) := by
  have below : i < roomFor q := by
    refine Nat.lt_of_lt_of_le (lt_idBound ?_) (Nat.le_max_left _ _)
    simp [goal, betweenGoal]
  obtain ⟨vs, states, solved, values, sorted, mem⟩ := solved_between (p := e.program) has
    (s := ⟨free, roomFor q⟩) (fun _ _ => rfl) (a := .int l) (b := .int h) rfl rfl
    (c := .var x i) ⟨rfl, rfl, below⟩
  refine ⟨vs, sorted, fun v => by rw [mem, ← le_iff_toInt_le], ?_⟩
  have plain : bare q.goal = betweenGoal (.int l) (.int h) (.var x i) := by
    rw [goal]
    exact bare_user rfl (by decide)
  rw [← plain] at solved
  have ground : ∀ s ∈ states, (s.subst i).Ground := by
    intro s hs
    have : s.subst i ∈ vs.map int := values ▸ mem_map_of_mem hs
    obtain ⟨v, -, eq⟩ := mem_map.1 this
    rw [← eq]
    rfl
  obtain ⟨N, run⟩ := answers_of_solve e ops query (by simpa [names] using below)
    (Setting.reckons rfl) solved (by simpa [names] using ground)
  refine ⟨N, fun fuel le limit => ?_⟩
  have found : (states.map fun s => (⟨[(x, s.subst i)]⟩ : Solution)) =
      vs.map fun v => ⟨[(x, .int v)]⟩ := by
    have := congrArg (map fun t => (⟨[(x, t)]⟩ : Solution)) values
    rwa [map_map, map_map] at this
  rw [run fuel le limit, names, map_take, ← found]
  rfl

/-- The clauses of the library, and the goal that counts up to the largest integer. -/
theorem between_counts_library :
    let x : Term := .var "X" 0
    let low : Int64 := 9223372036854775805
    let high : Int64 := 9223372036854775807
    ∃ report s, Session.consult 20 Library.name
        (String.join (((Library.lines.drop 45).take 6).map (· ++ "\n"))) (.new .standard .standard) =
          .ok report s ∧ s.engine.domain.HasBetween ∧
      let e : Engine := { s.engine with
        query := some ⟨⟨none, [betweenGoal (.int low) (.int high) x], .query, ⟨1, 1⟩⟩, [("X", x)], [], 0⟩ }
      ∃ vs : List Int64, vs.Pairwise (· < ·) ∧ (∀ v, v ∈ vs ↔ low ≤ v ∧ v ≤ high) ∧
        ∃ N, ∀ fuel, N ≤ fuel → ∀ limit, answers fuel limit (.standard, e) =
          .ok ((vs.map fun v => ⟨[("X", .int v)]⟩).take limit, none) (.standard, e) := by
  intro x low high
  have run : (match Session.consult 20 Library.name
      (String.join (((Library.lines.drop 45).take 6).map (· ++ "\n"))) (.new .standard .standard) with
      | .ok _ s => decide s.engine.domain.HasBetween
      | .error _ _ => false) = true := by
    simp only [Session.consult, SourceUnit.compile_eq_stages]
    decide +kernel
  split at run
  · next report s consulted =>
    have has : s.engine.domain.HasBetween := of_decide_eq_true run
    exact ⟨report, s, consulted, has, between_counts (i := 0) .standard has rfl rfl (by decide)⟩
  · cases run

end Engine

end Horn
