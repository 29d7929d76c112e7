import Horn.Proofs.IntroducedVariables
import Horn.Proofs.PreparationOrder

/-! # Bodies of expanded clauses -/

namespace Horn

open List EventLog

variable {traces : List Trace} {w : Nat}

namespace Expansion

variable {σ : Type}

/-- A goal of a body, what it is expanded to, and that term with the variables that it has in the
new body. -/
structure Part where
  goal : Term
  result : Term
  term : Term

def Part.fresh (p : Part) : List Nat := p.term.ids.filter (· ∉ p.goal.ids)

/-- The goals are expanded one after the other, each in the state that the one before has left. -/
inductive InTurn (o : Observer σ) (fuel : Nat) : List Part → Context × σ → Context × σ → Prop where
  | nil {s : Context × σ} : InTurn o fuel [] s s
  | cons {p : Part} {ps : List Part} {s s₁ s₂ : Context × σ}
      (first : goal o s.1.hooks s.1.config.maxExpansionDepth fuel p.goal s = .ok p.result s₁)
      (rest : InTurn o fuel ps s₁ s₂) : InTurn o fuel (p :: ps) s s₂

/-- How the variables of a new body are chosen. -/
structure Assembled (c : Clause) (parts : List Part) : Prop where
  goals : parts.map (·.goal) = c.body
  /-- Variables of the goal stay, and different variables stay different. -/
  moved : ∀ p ∈ parts, ∃ place, Search.Moved place p.term p.result ∧
    (∀ v ∈ p.goal.ids, place v = v) ∧
    ∀ v ∈ p.result.ids, ∀ w ∈ p.result.ids, place v = place w → v = w
  above : ∀ p ∈ parts, ∀ v ∈ p.fresh, ∀ w ∈ c.ids, w < v
  /-- What is fresh for one goal has no place in what becomes of another. -/
  apart : ∀ (i j : Nat) (p q : Part), parts[i]? = some p → parts[j]? = some q → i ≠ j →
    ∀ v ∈ p.fresh, v ∉ q.term.ids

namespace Trace

variable {t : Trace}

def part (t : Trace) : Part := ⟨t.goal, t.result, t.renamed.1⟩

lemma mem_renamed : w ∈ t.renamed.1.ids ↔ ∃ v ∈ t.result.ids, t.place v = w := by
  rw [← Subst.mem_ids_free, t.moved, Subst.mem_ids_apply]
  simp only [Subst.moved, Subst.free, Bindings.varOf, Term.mem_ids_var, eq_comm]

lemma mem_fresh (h : w ∈ t.part.fresh) : ∃ v ∈ t.result.ids, v ∉ t.goal.ids ∧ t.place v = w := by
  obtain ⟨mem, new⟩ := mem_filter.1 h
  obtain ⟨v, hv, rfl⟩ := mem_renamed.1 mem
  refine ⟨v, hv, fun known => ?_, rfl⟩
  rw [Trace.place_known known] at new
  exact of_decide_eq_true new known

end Trace

lemma inTurn_of_bodyTraces {o : Observer σ} {fuel : Nat} {position : Text.Position} {nextId : Nat}
    {ts : List Term} {s s' : Context × σ}
    (ok : bodyTraces o fuel position nextId ts s = .ok traces s') :
    InTurn o fuel (traces.map Trace.part) s s' := by
  induction ts generalizing nextId s traces with
  | nil =>
    cases ok
    exact .nil
  | cons t ts ih =>
    rw [bodyTraces] at ok
    obtain ⟨c, s₁, context, ok⟩ := ok_of_bind ok
    cases context
    obtain ⟨⟨result, sites⟩, s₂, expanded, ok⟩ := ok_of_bind ok
    obtain ⟨more, s₃, rest, ok⟩ := ok_of_bind ok
    cases ok
    refine .cons ?_ (ih rest)
    change goal o s.1.hooks s.1.config.maxExpansionDepth fuel t s = .ok result s₂
    rw [← (goalSites_fst o _ _ fuel).1, map_eq_pure_bind]
    change EStateM.bind _ _ s = _
    rw [EStateM.bind, Compiling.located_eq_ok.1 expanded]
    rfl

lemma assembled {c : Clause} (chained : Chained c.idBound traces)
    (goals : traces.map (·.goal) = c.body) : Assembled c (traces.map Trace.part) where
  goals := by
    rw [map_map]
    exact goals
  moved := by
    refine forall_mem_map.2 fun t ht => ⟨t.place, t.moved, fun v => Trace.place_known, ?_⟩
    exact fun v hv w hw => (place_eq_iff_of_self chained goals ht hv hw).1
  above := by
    refine forall_mem_map.2 fun t ht w hw u hu => ?_
    obtain ⟨v, hv, new, rfl⟩ := Trace.mem_fresh hw
    obtain ⟨-, -, le, -⟩ := Trace.place_new hv new
    have base := chained.le t ht
    have lt := Clause.lt_idBound hu
    omega
  apart := by
    intro i j p q hi hj ne w hw mem
    rw [getElem?_map] at hi hj
    obtain ⟨t, first, rfl⟩ := Option.map_eq_some_iff.1 hi
    obtain ⟨u, second, rfl⟩ := Option.map_eq_some_iff.1 hj
    obtain ⟨v, hv, new, rfl⟩ := Trace.mem_fresh hw
    obtain ⟨v', hv', same⟩ := Trace.mem_renamed.1 mem
    have ht := mem_of_getElem? first
    have hu := mem_of_getElem? second
    -- Of two goals, one comes first, and a variable that both have is one of the clause.
    rcases Nat.lt_or_gt_of_ne ne with lt | lt
    · have order := chained.order lt first second
      exact new ((place_eq_iff_of_le chained goals ht hu order hv hv').1 same.symm).2.1
    · have order := chained.order lt second first
      exact new ((place_eq_iff_of_le chained goals hu ht order hv' hv).1 same).2.2

/-- A clause that is expanded has its goals expanded one after the other. What becomes of them is
the new body, and nothing else of the clause changes. -/
theorem clause_expands_goals {o : Observer σ} {fuel : Nat} {c c' : Clause} {s s' : Context × σ}
    (ok : Expansion.clause o fuel c s = .ok c' s') :
    c'.head = c.head ∧ c'.kind = c.kind ∧ c'.position = c.position ∧
      ∃ parts, InTurn o fuel parts s s' ∧ Assembled c parts ∧
        c'.body = parts.flatMap (·.term.conjuncts) := by
  obtain ⟨body, s₁, expanded, ok⟩ := ok_of_bind ok
  cases ok
  rw [bodyGoals_eq, map_eq_pure_bind] at expanded
  obtain ⟨traces, s₂, run, mapped⟩ := ok_of_bind expanded
  cases mapped
  obtain ⟨chained, goals, -⟩ := bodyTraces_ok run
  refine ⟨rfl, rfl, rfl, traces.map Trace.part, inTurn_of_bodyTraces run, assembled chained goals, ?_⟩
  rw [flatMap_map]
  rfl

/-- A goal becomes a conjunction, and two goals bring in a variable by the same number. -/
theorem clause_expands_goals_fooBar :
    let c : Clause := ⟨some (.compound "t" [.var "X" 0, .var "Y" 1]),
      [.compound "r" [.var "X" 0], .atom "foo", .compound "," [.atom "bar", .atom "foo"]], .rule,
      .start⟩
    let s : Context × EventLog := ((Context.new .standard .standard).addHook (fooBar 1), .empty)
    ∃ c' s' parts, clause observer 9 c s = .ok c' s' ∧ c'.head = c.head ∧
      c'.body = [.compound "r" [.var "X" 0], .compound "p" [.var "_" 2],
        .compound "q" [.var "_" 3], .compound "p" [.var "_" 3]] ∧
      InTurn observer 9 parts s s' ∧ Assembled c parts ∧
      c'.body = parts.flatMap (·.term.conjuncts) := by
  intro c s
  have body : bodyBy (fooBar 1) c =
      some [.compound "r" [.var "X" 0], .compound "p" [.var "_" 2], .compound "q" [.var "_" 3],
        .compound "p" [.var "_" 3]] := by decide +kernel
  obtain ⟨c', s', ok, body⟩ := bodyBy_eq_some body
  obtain ⟨head, -, -, parts, turns, assembled, whole⟩ := clause_expands_goals ok
  exact ⟨c', s', parts, ok, head, body, turns, assembled, whole⟩

end Expansion

end Horn
