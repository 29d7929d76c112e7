import Horn.Engine
import Horn.Proofs.MachineSearch

/-! # The answers of the engine -/

namespace Horn

open List Term Machine Subst Clause Engine

variable {states : List State} {v : Nat}

namespace Search

open Subst (free moved)

def report (names : List (String × Term)) (s : State) : List (String × Term) :=
  names.filterMap fun (name, v) =>
    if (s.subst.apply v).same v then none else some (name, s.subst.apply v)

lemma report_cons (label : String) (v : Term) (names : List (String × Term)) (s : State) :
    report ((label, v) :: names) s =
      if (s.subst.apply v).same v then report names s
      else (label, s.subst.apply v) :: report names s := by
  rw [report, filterMap_cons]
  by_cases idle : (s.subst.apply v).same v = true <;> simp only [idle] <;> rfl

def Reports (place : Nat → Nat) (a b : String × Term) : Prop := a.1 = b.1 ∧ Moved place a.2 b.2

/-- An answer of the engine gives the same values, up to the names of variables other than the first
`count`. -/
def Tells (count : Nat) (found : Solution) (expected : List (String × Term)) : Prop :=
  ∃ place : Nat → Nat, place.Injective ∧ (∀ v < count, place v = v) ∧
    List.Forall₂ (Reports place) found.bindings expected

lemma same_var_of_nonvar {t : Term} (h : t.isVar = false) (name : String) (v : Nat) :
    t.same (.var name v) = false := by
  cases t with
  | var x w => cases h
  | _ => rfl

lemma Moved.same_var {place : Nat → Nat} {u t : Term} (h : Moved place u t)
    (injective : place.Injective) (name name' : String) :
    u.same (.var name (place v)) = t.same (.var name' v) := by
  cases nonvar : t.isVar with
  | false =>
    rw [same_var_of_nonvar nonvar, same_var_of_nonvar (h.isVar.trans nonvar)]
  | true =>
    cases t with
    | var y w =>
      cases u with
      | var x w' =>
        simp only [Moved, apply_var, moved, free, Bindings.varOf, var.injEq] at h
        rw [h.2]
        simp [Term.same, injective.eq_iff]
      | _ => cases h
    | _ => cases nonvar

namespace Image

variable {i : Image} {count : Nat} {names : List (String × Term)}

lemma resolves_var (keeps : ∀ v < count, i.place v = v) (room : count ≤ i.state.next)
    (name : String) (hv : v < count) :
    ∃ N, ∀ n, N ≤ n → ∃ r, i.store.resolve? n (.var name v) = some r ∧
      Moved i.place r (i.state.subst v) ∧
      r.same (.var name v) = (i.state.subst v).same (.var name v) := by
  have shows : i.Shows (.var name v) (.var name v) := by
    refine shows_moved (fun w hw => ?_) (congrArg free (keeps v hv).symm)
    rw [mem_ids_var.1 hw]
    exact Nat.lt_of_lt_of_le hv room
  obtain ⟨N, resolves⟩ := i.sound.resolvable i.solves (.var name v)
  refine ⟨N, fun n le => ?_⟩
  obtain ⟨r, resolved, value⟩ := resolves n le
  have moves : Moved i.place r (i.state.subst v) := value.trans shows.value
  refine ⟨r, resolved, moves, ?_⟩
  have same := moves.same_var (v := v) i.injective name name
  rwa [keeps v hv] at same

lemma values (keeps : ∀ v < count, i.place v = v) (room : count ≤ i.state.next)
    (vars : ∀ p ∈ names, ∃ name, ∃ v < count, p.2 = .var name v) :
    ∃ N, ∀ n, N ≤ n → ∃ found, values? n i.store names = some found ∧
      Forall₂ (Reports i.place) found (report names i.state) := by
  induction names with
  | nil => exact ⟨0, fun _ _ => ⟨[], rfl, .nil⟩⟩
  | cons p names ih =>
    obtain ⟨first, others⟩ := forall_mem_cons.1 vars
    obtain ⟨label, v'⟩ := p
    obtain ⟨name, v, hv, rfl⟩ := first
    obtain ⟨N, first⟩ := resolves_var keeps room name hv
    obtain ⟨M, others⟩ := ih others
    refine ⟨max N M, fun n le => ?_⟩
    obtain ⟨r, resolved, moves, same⟩ := first n (by omega)
    obtain ⟨found, more, tells⟩ := others n (by omega)
    have step : values? n i.store ((label, .var name v) :: names) =
        some (if r.same (.var name v) then found else (label, r) :: found) := by
      rw [values?, resolved, more]
      rfl
    rw [step, same, report_cons]
    by_cases idle : (i.state.subst v).same (.var name v) = true
    · exact ⟨found, by rw [if_pos idle], by rwa [apply_var, if_pos idle]⟩
    · refine ⟨(label, r) :: found, by rw [if_neg idle], ?_⟩
      rw [apply_var, if_neg idle]
      exact .cons ⟨rfl, moves⟩ tells

end Image

lemma LeadsTo.eventually {x y : Course} {o : Outcome} (h : LeadsTo x y)
    (ends : ∀ n, y (n + 1) = o) : ∃ N, ∀ n, N ≤ n → x n = o := by
  obtain ⟨k, N, h⟩ := h
  refine ⟨N + 1 + k, fun n le => ?_⟩
  obtain ⟨n, rfl⟩ := Nat.exists_eq_add_of_le' le
  rw [← Nat.add_assoc, h _ (by omega), ← Nat.add_assoc, ends]

namespace Setting

variable {e : Setting} {i : Image} {count : Nat} {names : List (String × Term)}
  {choices : List Choice} {goals : List Goal} {failed : Bool} {b : Bindings}

/-- With enough fuel the engine finds these answers from the machine, or the first of them if there
is a limit, and comes to an end. -/
def Yields (e : Setting) (count : Nat) (names : List (String × Term)) (failed : Bool) (m : Machine)
    (states : List State) : Prop :=
  ∃ N, ∀ n, N ≤ n → ∀ limit earlier, ∃ found b,
    Engine.answersFrom e.program n names limit failed m earlier =
        (earlier.reverse ++ found, none, ⟨b, e.operators, e.output⟩) ∧
      List.Forall₂ (Tells count) found ((states.take limit).map (report names))

lemma yields_nothing
    (fails : e.Fails i [] fun n => run e.program n failed (e.machine b goals choices)) :
    e.Yields count names failed (e.machine b goals choices) [] := by
  obtain ⟨b', goals', -, leads⟩ := fails
  have ends (n : Nat) : e.failing b' goals' [] (n + 1) = .exhausted (e.machine b' goals' []) := rfl
  obtain ⟨N, ends⟩ := leads.eventually ends
  refine ⟨N, fun n le limit earlier => ?_⟩
  rw [take_nil, map_nil]
  cases limit with
  | zero => exact ⟨[], b, by rw [append_nil]; rfl, .nil⟩
  | succ limit =>
    rw [answersFrom, ends n le]
    exact ⟨[], b', by rw [append_nil]; rfl, .nil⟩

lemma Follows.yields (keeps : ∀ v < count, i.place v = v) (room : count ≤ i.state.next)
    (vars : ∀ p ∈ names, ∃ name, ∃ v < count, p.2 = .var name v) {a : Answers} {wasCut : Bool}
    (follows : e.Follows [] 0 i a wasCut [] fun n => run e.program n failed (e.machine b goals choices))
    (finite : a.toList? = some states) :
    e.Yields count names failed (e.machine b goals choices) states := by
  induction a generalizing wasCut failed b goals choices states with
  | stuck => cases finite
  | failed =>
    cases finite
    exact yields_nothing follows.2
  | cut =>
    cases finite
    exact yields_nothing follows
  | answer s rest ih =>
    obtain ⟨j, cutNow, above, before, rfl, -, first, resume⟩ := follows
    obtain ⟨states', finite', rfl⟩ := Option.map_eq_some_iff.1 finite
    have nothing : left 0 cutNow [] = [] := by cases cutNow <;> rfl
    rw [nothing, nil_append] at first
    rw [nothing] at resume
    have solved (n : Nat) : e.going j.store [] above (n + 1) =
        .solution (e.machine j.store [] above) := rfl
    have keeps' (v : Nat) (hv : v < count) : j.place v = v :=
      (before.place v (Nat.lt_of_lt_of_le hv room)).trans (keeps v hv)
    obtain ⟨N, solved⟩ := first.eventually solved
    obtain ⟨N', values⟩ := Image.values keeps' (Nat.le_trans room before.next) vars
    obtain ⟨N'', more⟩ := ih () (resume [] j.store [] rfl j.sound.later) finite'
    refine ⟨max N (max N' N''), fun n le limit earlier => ?_⟩
    cases limit with
    | zero => exact ⟨[], b, by rw [append_nil]; rfl, by simp⟩
    | succ limit =>
      obtain ⟨bindings, valued, reports⟩ := values n (by omega)
      obtain ⟨found, b', answers, tells⟩ := more n (by omega) limit (⟨bindings⟩ :: earlier)
      refine ⟨⟨bindings⟩ :: found, b', ?_, .cons ⟨j.place, j.injective, keeps', reports⟩ tells⟩
      have store : (e.machine j.store [] above).world.bindings = j.store := rfl
      rw [answersFrom, solved n (by omega)]
      simp only [store, valued]
      rw [reverse_cons, append_assoc] at answers
      exact answers

end Setting

def Image.start : Image where
  state := ⟨free, 0⟩
  store := .empty
  sol := free
  place := id
  sound := ⟨fun id => by simp [Bindings.empty, Bindings.value?], List.nodup_nil, nofun⟩
  solves := ⟨fun _ _ => rfl, nofun, fun v w hw => rfl⟩
  injective := Function.injective_id
  room := nofun
  idle _ _ := rfl
  closed := nofun
  settled _ _ _ := rfl
  shown := nofun

lemma Image.place_start (count v : Nat) : (Image.start.reserve count).place v = v := by
  change (if v < 0 then v else 0 + (v - 0)) = v
  rw [if_neg (Nat.not_lt_zero v), Nat.zero_add, Nat.sub_zero]

end Search

namespace Engine

open Search

def roomFor (q : CompiledQuery) : Nat := max q.goal.idBound q.clause.idBound

def querySpan (q : CompiledQuery) : Nat :=
  Term.idBoundAllFrom (roomFor q) ((shownNames q.names).map (·.2))

/-- What the search gives for the named variables of a query, if it comes to its end. -/
def searchAnswers (p : Program) (fuel : Nat) (q : CompiledQuery) :
    Option (List (List (String × Term))) :=
  (solve p fuel (bare q.goal) ⟨Subst.free, querySpan q⟩).toList?.map
    (·.map (report (shownNames q.names)))

lemma idBoundAllFrom_of_vars {bound : Nat} {names : List (String × Term)}
    (vars : ∀ p ∈ names, ∃ name, ∃ v < bound, p.2 = .var name v) :
    idBoundAllFrom bound (names.map (·.2)) = bound := by
  induction names with
  | nil => rfl
  | cons p names ih =>
    obtain ⟨⟨name, v, hv, eq⟩, others⟩ := forall_mem_cons.1 vars
    rw [map_cons, eq, idBoundAllFrom, idBoundFrom, Nat.max_eq_left hv, ih others]

variable {q : CompiledQuery}

lemma exists_answers (e : Engine) (ops : OperatorTable) (query : e.query = some q)
    (vars : ∀ p ∈ shownNames q.names, ∃ name, ∃ v < roomFor q, p.2 = .var name v)
    {solve : Term → State → Answers} (solves : Setting.Solves ⟨e.program, ops, e.output⟩ solve)
    (ended : (solve (bare q.goal) ⟨free, roomFor q⟩).toList? = some states) :
    ∃ N, ∀ fuel, N ≤ fuel → ∀ limit, ∃ found,
      answers fuel limit (ops, e) = .ok (found, none) (ops, e) ∧ Forall₂ (Tells (roomFor q))
        found ((states.take limit).map (report (shownNames q.names))) := by
  let i := Image.start.reserve (roomFor q)
  have next : i.state = ⟨free, roomFor q⟩ := congrArg (State.mk _) (Nat.zero_add _)
  have reads : i.Reads q.goal (bare q.goal) := by
    refine Image.reads_bare (fun v hv => ?_) ?_
    · rw [next]
      exact Nat.lt_of_lt_of_le (lt_idBound hv) (Nat.le_max_left _ _)
    · exact apply_eq_apply.2 fun v _ => congrArg free (Image.place_start _ v).symm
  have follows := solves i q.goal (bare q.goal) [] 0 [] reads (Nat.le_refl 0)
  rw [next] at follows
  have room : roomFor q ≤ i.state.next := Nat.le_of_eq (congrArg State.next next).symm
  obtain ⟨N, yields⟩ := follows.yields (fun v _ => Image.place_start _ v) room vars ended
  refine ⟨N, fun fuel le limit => ?_⟩
  obtain ⟨found, b, answered, tells⟩ := yields fuel le limit []
  refine ⟨found, ?_, tells⟩
  have answered : answersFrom e.program fuel (shownNames q.names) limit false
      (e.machine ops (max q.goal.idBound q.clause.idBound) q.goal) [] =
        (found, none, ⟨b, ops, e.output⟩) := answered
  simp only [answers, query, answered]
  rfl

/-- If the search for the answers to a query comes to its end, the engine gives these answers in
their order, as many as it is asked for, and reports no error. It ends by itself if it is asked for
more than there are. -/
theorem answers_follow_search (e : Engine) (ops : OperatorTable) {q : CompiledQuery}
    (query : e.query = some q)
    (vars : ∀ p ∈ shownNames q.names, ∃ name, ∃ v < roomFor q, p.2 = .var name v)
    {n : Nat} {expected : List (List (String × Term))}
    (finite : searchAnswers e.program n q = some expected) :
    ∃ N, ∀ fuel, N ≤ fuel → ∀ limit, ∃ found,
      answers fuel limit (ops, e) = .ok (found, none) (ops, e) ∧
        List.Forall₂ (Tells (querySpan q)) found (expected.take limit) := by
  have span : querySpan q = roomFor q := idBoundAllFrom_of_vars vars
  rw [searchAnswers, span] at finite
  rw [span]
  obtain ⟨states, ended, rfl⟩ := Option.map_eq_some_iff.1 finite
  obtain ⟨N, answered⟩ := exists_answers e ops query vars (Setting.solves rfl n) ended
  exact ⟨N, fun fuel le limit => map_take ▸ answered fuel le limit⟩

/-- With `p(1)`, `p(2)` and `one(X) :- p(X), !`, the query `one(X) ; p(X), \+ X = 1` has two answers,
and the engine ends when it is asked for a third. -/
theorem answers_follow_search_example :
    let x : Term := .var "X" 0
    let compiled (f : Functor) (head : Term) (body : List Term) : CompiledClause :=
      ⟨f, ⟨0⟩, mark ⟨some head, body, .rule, ⟨1, 1⟩⟩, [], 0, []⟩
    let p : Predicate := ⟨⟨"p", 1⟩, [compiled ⟨"p", 1⟩ (.compound "p" [.int 1]) [],
      compiled ⟨"p", 1⟩ (.compound "p" [.int 2]) []], false⟩
    let one : Predicate := ⟨⟨"one", 1⟩,
      [compiled ⟨"one", 1⟩ (.compound "one" [x]) [.compound "p" [x], .atom "!"]], false⟩
    let goal : Term := .compound ";" [.compound "one" [x],
      .compound "," [.compound "p" [x], .compound "\\+" [.compound "=" [x, .int 1]]]]
    let q : CompiledQuery := ⟨mark ⟨none, [goal], .query, ⟨1, 1⟩⟩, [("X", x)], [], 0⟩
    let e : Engine := ⟨.ofPredicates [p, one], .error, some q, ""⟩
    searchAnswers e.program 9 q = some [[("X", .int 1)], [("X", .int 2)]] ∧
    ∃ N, ∀ fuel, N ≤ fuel → ∀ limit, ∃ found,
      answers fuel limit (.standard, e) = .ok (found, none) (.standard, e) ∧
        Forall₂ (Tells (querySpan q)) found
          ([[("X", .int 1)], [("X", .int 2)]].take limit) := by
  intro x compiled p one goal q e
  have finite : searchAnswers e.program 9 q = some [[("X", .int 1)], [("X", .int 2)]] := by decide +kernel
  have vars : ∀ p ∈ shownNames q.names, ∃ name, ∃ v < roomFor q, p.2 = .var name v := by
    intro p hp
    obtain rfl : p = ("X", x) := mem_singleton.1 hp
    exact ⟨"X", 0, by decide, rfl⟩
  exact ⟨finite, answers_follow_search e .standard rfl vars finite⟩

lemma answers_of_query {e : Engine} (query : e.query = some q) {fuel limit : Nat}
    {ops : OperatorTable} :
    answers fuel limit (ops, e) =
      let run := answersFrom e.program fuel (shownNames q.names) limit false
        (e.machine ops (max q.goal.idBound q.clause.idBound) q.goal) []
      .ok (run.1, run.2.1) (e.after run.2.2) := by
  simp only [answers, query]

/-- With `p(1)` and `bar :- p(Y)`, the query `foo(X)` whose goal has been expanded to `bar` has one
answer, which gives no value for `X`. The engine gives it the value of `Y`, as `X` is not in the goal
and its place is taken. -/
theorem answers_take_place_of_name :
    let y : Term := .var "Y" 0
    let compiled (f : Functor) (head : Term) (body : List Term) : CompiledClause :=
      ⟨f, ⟨0⟩, mark ⟨some head, body, .rule, ⟨1, 1⟩⟩, [], 0, []⟩
    let p : Predicate := ⟨⟨"p", 1⟩, [compiled ⟨"p", 1⟩ (.compound "p" [.int 1]) []], false⟩
    let bar : Predicate := ⟨⟨"bar", 0⟩,
      [compiled ⟨"bar", 0⟩ (.atom "bar") [.compound "p" [y]]], false⟩
    let q : CompiledQuery := ⟨⟨none, [.atom "bar"], .query, ⟨1, 1⟩⟩, [("X", .var "X" 0)], [], 0⟩
    let e : Engine := ⟨.ofPredicates [p, bar], .error, some q, ""⟩
    searchAnswers e.program 9 q = some [[]] ∧
      answers 9 2 (.standard, e) = .ok ([⟨[("X", .int 1)]⟩], none) (.standard, e) := by
  intro y compiled p bar q e
  constructor
  · decide +kernel
  · have result :
        let run := answersFrom e.program 9 (shownNames q.names) 2 false
          (e.machine .standard (max q.goal.idBound q.clause.idBound) q.goal) []
        (run.1, run.2.1, run.2.2.operators, run.2.2.output) =
          ([⟨[("X", .int 1)]⟩], none, .standard, "") := by decide +kernel
    rw [answers_of_query rfl]
    generalize answersFrom _ _ _ _ _ _ _ = run at result ⊢
    obtain ⟨found, halt, w⟩ := run
    simp only [Prod.mk.injEq] at result
    obtain ⟨rfl, rfl, ops, out⟩ := result
    simp only [after, ops, out]
    rfl

end Engine

end Horn
