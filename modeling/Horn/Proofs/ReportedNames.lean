import Horn.Proofs.ClauseSelection
import Horn.Proofs.CompiledCode
import Horn.Proofs.PreparationTasks
import Horn.Session

/-!
# The names that answers tell of

The engine makes room for the variables of the goal that is run, and only those of the goal are ever
bound among them. A run is compared with itself here, with only the variables of the goal linked.
-/

namespace Horn

open List Term Bindings Option Preparation Clause Engine

variable {q : CompiledQuery} {fuel limit v n : Nat} {text : String} {b : Bindings} {d : Duo}

lemma exists_of_forall₂ {α β : Type} {R : α → β → Prop} {as : List α} {bs : List β}
    (h : Forall₂ R as bs) {a : α} (ha : a ∈ as) : ∃ b, R a b := by
  obtain ⟨i, hi, rfl⟩ := getElem_of_mem ha
  exact ⟨_, (forall₂_iff_get.1 h).2 i hi (h.length_eq ▸ hi)⟩

lemma Term.Alike.linked {ρ : Link} {t t' : Term} (h : t.Alike ρ t') (hv : v ∈ t.ids) :
    ∃ v', ρ v v' := by
  induction h using Alike.induct with
  | atom | number => cases hv
  | var linked =>
    rw [mem_ids_var.1 hv]
    exact ⟨_, linked⟩
  | cell _ _ ihx ihy =>
    rcases mem_ids_cell.1 hv with hv | hv
    · exact ihx hv
    · exact ihy hv
  | compound f _ ih =>
    obtain ⟨t, ht, hv⟩ := mem_ids_compound.1 hv
    obtain ⟨t', alike⟩ := exists_of_forall₂ ih ht
    exact alike.snd hv

lemma Bindings.Sound.resolve?_bound (h : b.Sound) {t : Term} (value : b.value? v = some t)
    (name : String) (n : Nat) : b.resolve? n (.var name v) = b.resolve? n t := by
  have walk : b.walk (.var name v) = b.walk t := by
    rw [← h.walkFor_eq (Nat.le_succ _), walkFor, value]
    rfl
  cases n with
  | zero => rfl
  | succ n => rw [resolve?, resolve?, walk]

lemma Duo.Matched.linked (h : d.Matched) {name : String} {r : Term}
    (resolved : d.left.resolve? n (.var name v) = some r) (other : r.same (.var name v) = false) :
    (∃ v', d.link v v') ∧ ∀ w ∈ r.ids, ∃ w', d.link w w' := by
  cases value : d.left.value? v with
  | none =>
    have walk : d.left.walk (.var name v) = .var name v :=
      walkFor_stays _ fun _ _ eq => by cases eq; exact value
    cases n with
    | zero => cases resolved
    | succ n =>
      rw [Bindings.resolve?, walk] at resolved
      cases resolved
      simp [Term.same] at other
  | some t =>
    have bound : v ∈ d.left.trail.toList := (d.leftSound.bound v).2 (by rw [value]; rfl)
    obtain ⟨v', linked⟩ := exists_of_forall₂ h.trail bound
    refine ⟨⟨v', linked⟩, ?_⟩
    have values := h.value linked
    rw [value] at values
    rw [d.leftSound.resolve?_bound value] at resolved
    generalize d.right.value? v' = x at values
    cases values with
    | some alike =>
      obtain ⟨r', alike, -⟩ := h.resolve? alike resolved
      exact fun w hw => alike.linked hw

namespace Engine

open Duo (Placed)

def Tells (count : Nat) (known : Nat → Prop) (names : List (String × Term)) (s : Solution) : Prop :=
  ∀ a ∈ s.bindings, ∃ v, (a.1, .var a.1 v) ∈ names ∧ (v < count → known v) ∧
    ∀ w ∈ a.2.ids, w < count → known w

lemma mem_values? {names vs : List (String × Term)} (h : values? n b names = some vs)
    {a : String × Term} (ha : a ∈ vs) :
    ∃ t, (a.1, t) ∈ names ∧ b.resolve? n t = some a.2 ∧ a.2.same t = false := by
  induction names generalizing vs with
  | nil =>
    cases h
    cases ha
  | cons entry names ih =>
    obtain ⟨name, t⟩ := entry
    obtain ⟨value, resolved, h⟩ := bind_eq_some_iff.1 h
    obtain ⟨more, rest, h⟩ := bind_eq_some_iff.1 h
    cases h
    have later (ha : a ∈ more) :
        ∃ u, (a.1, u) ∈ (name, t) :: names ∧ b.resolve? n u = some a.2 ∧ a.2.same u = false := by
      obtain ⟨u, hu, found⟩ := ih rest ha
      exact ⟨u, mem_cons_of_mem _ hu, found⟩
    cases idle : value.same t with
    | true =>
      rw [idle] at ha
      exact later ha
    | false =>
      rw [idle] at ha
      rcases mem_cons.1 ha with rfl | ha
      · exact ⟨t, mem_cons_self, resolved, idle⟩
      · exact later ha

variable {p : Program} {count : Nat} {known : Nat → Prop} {names : List (String × Term)}
  {found : List Solution}

lemma answersFrom_tells (fair : p.Fair) (vars : ∀ a ∈ names, ∃ v, a.2 = .var a.1 v) {failed : Bool}
    {m m' : Machine} (placed : Placed (startDuo count known) d failed m m')
    (earlier : ∀ s ∈ found, Tells count known names s) :
    ∀ s ∈ (answersFrom p n names limit failed m found).1, Tells count known names s := by
  have reversed : ∀ s ∈ found.reverse, Tells count known names s := fun s hs =>
    earlier s (mem_reverse.1 hs)
  induction limit generalizing d failed m m' found with
  | zero => exact reversed
  | succ limit ih =>
    rw [answersFrom]
    rcases (Duo.upto ⟨rfl, rfl, fair, fair⟩ n).run placed (Nat.le_refl n) with
      ⟨m₁, spent⟩ | ⟨r', -, outcomes⟩
    · rw [spent]
      exact reversed
    generalize Machine.run p n failed m = r at outcomes
    cases outcomes with
    | exhausted | raised => exact reversed
    | @solution e m₁ m₁' within going =>
      obtain ⟨S, T, ready⟩ := going
      simp only [ready.worlds.left]
      cases valued : values? n e.left names with
      | none => exact reversed
      | some vs =>
        have start := ready.choices.start
        have old {v : Nat} (linked : ∃ v', e.link v v') (room : v < count) : known v := by
          obtain ⟨v', linked⟩ := linked
          rcases start.new linked with ⟨-, -, known⟩ | ⟨above, -⟩
          · exact known
          · simp [startDuo, reserve, empty] at above
            omega
        have tells : Tells count known names ⟨vs⟩ := by
          intro a ha
          obtain ⟨t, ht, resolved, other⟩ := mem_values? valued ha
          obtain ⟨v, eq⟩ := vars _ ht
          obtain rfl : t = .var a.1 v := eq
          obtain ⟨linked, inside⟩ := ready.matched.linked resolved other
          exact ⟨v, ht, old linked, fun w hw => old (inside w hw)⟩
        have failing : Placed _ e true m₁ m₁' := ready.failing
        have all := forall_mem_cons.2 ⟨tells, earlier⟩
        exact ih failing all fun s hs => all s (mem_reverse.1 hs)

lemma answers_tell {e : Engine} {ops : OperatorTable} (query : e.query = some q)
    (vars : ∀ a ∈ q.names, ∃ v, a.2 = .var a.1 v) {halt : Option Halt} {s : OperatorTable × Engine}
    (answered : answers fuel limit (ops, e) = .ok (found, halt) s) :
    ∀ sol ∈ found, Tells (roomFor q) (· ∈ q.goal.ids) q.names sol := by
  have ids (v : Nat) (hv : v ∈ q.goal.ids) : v < roomFor q ∧ v ∈ q.goal.ids :=
    ⟨Nat.lt_of_lt_of_le (lt_idBound hv) (Nat.le_max_left _ _), hv⟩
  have placed := placed_start e ops ids
  have fair : e.program.Fair := Program.fair_ofDomain e.domain e.unknown
  have shown {a : String × Term} (ha : a ∈ shownNames q.names) : a ∈ q.names :=
    (mem_filter.1 ha).1
  have tells : ∀ sol ∈ (answersFrom e.program fuel (shownNames q.names) limit false
      (e.machine ops (roomFor q) q.goal) []).1,
        Tells (roomFor q) (· ∈ q.goal.ids) (shownNames q.names) sol :=
    answersFrom_tells fair (fun a ha => vars a (shown ha)) placed nofun
  simp only [answers, query] at answered
  cases answered
  intro sol hs a ha
  obtain ⟨v, hv, told⟩ := tells sol hs a ha
  exact ⟨v, shown hv, told⟩

end Engine

lemma Term.parse_names {mode : ReadMode} {read : ReadTerm} (h : parse mode text = .ok read) :
    ∀ a ∈ read.names, ∃ v, a.2 = .var a.1 v := by
  unfold parse Reader.readSingle at h
  split at h
  · next run =>
    cases h
    obtain ⟨_, r₁, -, run⟩ := ok_of_bind run
    obtain ⟨_, r₂, -, run⟩ := ok_of_bind run
    obtain ⟨first, r₃, -, run⟩ := ok_of_bind run
    obtain ⟨term, r₄, -, run⟩ := ok_of_bind run
    obtain ⟨_, r₅, -, run⟩ := ok_of_bind run
    cases run
    intro a ha
    obtain ⟨⟨name, v⟩, -, rfl⟩ := mem_map.1 ha
    exact ⟨v, rfl⟩
  · cases h

variable {p : PreparedClause}

lemma PreparedClause.names_compileQuery (h : p.compileQuery = .ok q) : q.names = p.names := by
  unfold compileQuery at h
  split at h
  · cases h
  · obtain ⟨goals, -, h⟩ := CodeReading.except_bind_ok h
    obtain ⟨code, -, h⟩ := CodeReading.except_bind_ok h
    cases h
    rfl

lemma Preparation.names_query {σ : Type} {o : Observer σ} {r : ReadTerm} {s s' : Context × σ}
    (h : query o fuel r s = .ok p s') : p.names = r.names := by
  rw [query_eq, queryStages] at h
  cases sorted : ofTerm (.compound "?-" [r.term]) r.position with
  | error e =>
    rw [sorted] at h
    cases h
  | ok clause =>
    rw [sorted] at h
    obtain ⟨_, s₁, -, h⟩ := ok_of_bind h
    obtain ⟨_, s₂, -, h⟩ := ok_of_bind h
    obtain ⟨_, s₃, -, h⟩ := ok_of_bind h
    cases h
    rfl

namespace Session

lemma prepare_query {s s' : Session} (h : prepare fuel text s = .ok () s') :
    ∃ read q, parse ⟨s.context.operators, .codes⟩ text = .ok read ∧
      s'.engine.query = some q ∧ q.names = read.names := by
  obtain ⟨s₁, s₂, got, h⟩ := ok_of_bind h
  cases got
  cases parsed : parse ⟨s.context.operators, .codes⟩ text with
  | error e =>
    simp only [parsed] at h
    cases h
  | ok read =>
    simp only [parsed] at h
    obtain ⟨p, s₃, prepared, h⟩ := ok_of_bind h
    cases compiled : p.compileQuery with
    | error e =>
      simp only [compiled] at h
      cases h
    | ok q =>
      simp only [compiled] at h
      cases h
      refine ⟨read, q, rfl, rfl, (PreparedClause.names_compileQuery compiled).trans ?_⟩
      cases ran : Preparation.query (Engine.observer fuel) fuel read (s.context, s.engine) with
      | ok p' t =>
        simp only [withError, compiling, ran] at prepared
        cases prepared
        exact names_query ran
      | error err t =>
        simp only [withError, compiling, ran] at prepared
        cases prepared

/-- Once a query text has been prepared, whatever its goal was expanded to, an answer tells of a named
variable that has room only if the variable is in the goal that is run. The variables that the run
makes have no room among them: those in the values that have room are in the goal too. -/
theorem answers_tell_of_goal {fuel : Nat} {text : String} {s s' : Session}
    (prepared : prepare fuel text s = .ok () s') :
    ∃ read q, Term.parse ⟨s.context.operators, .codes⟩ text = .ok read ∧
      s'.engine.query = some q ∧
      ∀ {fuel limit : Nat} {found : List Solution} {halt : Option Halt} {t : Session},
        running (Engine.answers fuel limit) s' = .ok (found, halt) t →
        ∀ sol ∈ found, ∀ a ∈ sol.bindings, ∃ v, (a.1, .var a.1 v) ∈ read.names ∧
          (v < Engine.roomFor q → v ∈ q.goal.ids) ∧
          ∀ w ∈ a.2.ids, w < Engine.roomFor q → w ∈ q.goal.ids := by
  obtain ⟨read, q, parsed, query, names⟩ := prepare_query prepared
  refine ⟨read, q, parsed, query, fun {fuel limit found halt t} answered => ?_⟩
  have vars := parse_names parsed
  rw [← names] at vars ⊢
  cases ran : answers fuel limit (s'.context.operators, s'.engine) with
  | ok result u =>
    simp only [running, ran] at answered
    cases answered
    exact answers_tell query vars ran
  | error h u =>
    simp only [running, ran] at answered
    cases answered

/-- The query `foo(X, Y)`, whose goal is expanded to `bar(Y)`, leaves room for `X`, so that no answer
to it tells of `X`. The first one tells of `Y`. -/
theorem answers_tell_of_kept_name :
    let compiled (f : Functor) (head : Term) : CompiledClause :=
      ⟨f, ⟨0⟩, mark ⟨some head, [], .fact, ⟨1, 1⟩⟩, [], 0, []⟩
    let hook : Predicate := ⟨⟨"goal_expansion", 2⟩, [compiled ⟨"goal_expansion", 2⟩
      (.compound "goal_expansion" [.compound "foo" [.var "A" 0, .var "B" 1],
        .compound "bar" [.var "B" 1]])], false⟩
    let bar : Predicate := ⟨⟨"bar", 1⟩, [compiled ⟨"bar", 1⟩ (.compound "bar" [.int 1])], false⟩
    let s : Session := ⟨.new .standard .standard, ⟨.ofPredicates [hook, bar], .error, none, ""⟩⟩
    ∃ s', prepare 20 "foo(X, Y)" s = .ok () s' ∧
      (∃ t, running (answers 20 1) s' = .ok ([⟨[("Y", .int 1)]⟩], none) t) ∧
      ∀ {fuel limit : Nat} {found : List Solution} {halt : Option Halt} {t : Session},
        running (answers fuel limit) s' = .ok (found, halt) t →
        ∀ sol ∈ found, ∀ a ∈ sol.bindings, a.1 = "Y" := by
  intro compiled hook bar s
  have run : (match prepare 20 "foo(X, Y)" s with
      | .ok _ s' => (s'.engine.query.map fun q => (q.goal.ids, roomFor q),
          match running (answers 20 1) s' with
          | .ok found _ => some found
          | .error _ _ => none)
      | .error _ _ => (none, none)) = (some ([1], 2), some ([⟨[("Y", .int 1)]⟩], none)) := by
    simp only [prepare, query_eq]
    decide +kernel
  have names : ((parse ⟨s.context.operators, .codes⟩ "foo(X, Y)").toOption.map (·.names)) =
      some [("X", .var "X" 0), ("Y", .var "Y" 1)] := by decide +kernel
  cases prepared : prepare 20 "foo(X, Y)" s with
  | error e t =>
    rw [prepared] at run
    cases run
  | ok u s' =>
    rw [prepared] at run
    obtain ⟨query, first⟩ := Prod.mk.inj run
    refine ⟨s', rfl, ?_, ?_⟩
    · split at first
      · next t ran =>
        cases first
        exact ⟨t, ran⟩
      · cases first
    · obtain ⟨read, q, parsed, given, tells⟩ := answers_tell_of_goal prepared
      intro fuel limit found halt t answered sol hs a ha
      obtain ⟨v, named, room, -⟩ := tells answered sol hs a ha
      rw [given] at query
      rw [parsed] at names
      obtain ⟨ids, count⟩ := Prod.mk.inj (some.inj query)
      rw [show read.names = _ from some.inj names] at named
      rw [ids, count] at room
      simp only [mem_cons, Prod.mk.injEq, not_mem_nil, or_false] at named
      rcases named with ⟨name, var⟩ | ⟨name, -⟩
      · rw [(Term.var.inj var).2] at room
        exact absurd (room (by decide)) (by decide)
      · exact name

/-- The query `foo(X)`, whose goal is expanded to `bar`, leaves no room for `X`. With `p(1)` and
`bar :- p(Y)` its answer tells of `X`, which is not in the goal, as the number of `X` is given to
`Y`. -/
theorem answers_tell_of_dropped_name :
    let compiled (f : Functor) (head : Term) (body : List Term) : CompiledClause :=
      ⟨f, ⟨0⟩, mark ⟨some head, body, .rule, ⟨1, 1⟩⟩, [], 0, []⟩
    let hook : Predicate := ⟨⟨"goal_expansion", 2⟩, [compiled ⟨"goal_expansion", 2⟩
      (.compound "goal_expansion" [.compound "foo" [.var "A" 0], .atom "bar"]) []], false⟩
    let bar : Predicate := ⟨⟨"bar", 0⟩,
      [compiled ⟨"bar", 0⟩ (.atom "bar") [.compound "p" [.var "Y" 0]]], false⟩
    let p : Predicate := ⟨⟨"p", 1⟩, [compiled ⟨"p", 1⟩ (.compound "p" [.int 1]) []], false⟩
    let s : Session := ⟨.new .standard .standard, ⟨.ofPredicates [hook, bar, p], .error, none, ""⟩⟩
    ∃ s' q, queryAll 20 "foo(X)" s = .ok [⟨[("X", .int 1)]⟩] s' ∧ s'.engine.query = some q ∧
      q.goal = .atom "bar" := by
  intro compiled hook bar p s
  have run : (match queryAll 20 "foo(X)" s with
      | .ok found s' => (some found, s'.engine.query.map (·.goal))
      | .error _ _ => (none, none)) = (some [⟨[("X", .int 1)]⟩], some (.atom "bar")) := by
    simp only [queryAll, prepare, query_eq]
    decide +kernel
  split at run
  · next found s' asked =>
    obtain ⟨found, query⟩ := Prod.mk.inj run
    cases found
    obtain ⟨q, query, goal⟩ := Option.map_eq_some_iff.1 query
    exact ⟨s', q, asked, query, goal⟩
  · cases run

end Session

end Horn
