import Horn.Proofs.GroundAnswers
import Horn.Proofs.InfixReading
import Horn.Proofs.ObservedCalls
import Horn.Proofs.TermPlaces

/-!
# Facts and their answers

Every line becomes a clause, since a fact that is repeated stands at another place than before.
-/

namespace Horn

open Text List Reader Subst WriteStyle String Preparation OperatorTable Engine Search

namespace Reader

open Word

lemma Reads.readTerm {mode : ReadMode} {words rest : List Word} {t : Term} {low p bound : Nat}
    {r : Reader} (h : Reads mode words t low p bound) (begins : Begins false words)
    (low_le : low ≤ maxPriority) (bound_le : bound ≤ maxPriority)
    (looked : r.lookahead = none) (yields : r.lexer.Yields (words ++ plain .clauseEnd :: rest))
    (roles : rolesShow mode.operators (words ++ plain .clauseEnd :: rest)) :
    ∃ position r', readTerm mode r =
        .ok (some ⟨(t.mapVarsWith readBack ([], 0)).1, position,
          (t.mapVarsWith readBack ([], 0)).2.1.map fun (name, id) => (name, .var name id)⟩) r' ∧
      r'.lookahead = none ∧ r'.lexer.Yields rest := by
  have fresh : Fresh { r with varIds := [], nextVar := 0 } (words ++ plain .clauseEnd :: rest)
      ([], 0) := ⟨looked, yields, rfl⟩
  obtain ⟨first, r₁, r₂, _, r₃, peeked, kind, closed, advanced, fresh⟩ := h.whole begins.length_pos
    low_le bound_le ⟨by rintro ⟨⟩, rfl⟩ (halts_of_none rfl) .clause rfl fresh roles
  have more : first.lexeme ≠ .inputEnd := by
    obtain ⟨w, ws, rfl, starts⟩ := begins
    intro last
    have last : w.lexeme = .inputEnd := kind.symm.trans last
    rw [last] at starts
    cases starts
  refine ⟨first.position, { r₃ with varIds := [] }, ?_, fresh.lookahead, fresh.words⟩
  rw [readTerm_eq, bind_ok peeked, if_neg more, clauseFrom]
  refine (bind_ok closed).trans ?_
  rw [bind_ok advanced, ← fresh.vars]
  rfl

end Reader

structure Fact where
  value : Int64
  position : Position

namespace Fact

open Word

variable {f : Fact} {fs : List Fact}

def functor : Functor := ⟨"value", 1⟩

def term (v : Int64) : Term := .compound "value" [.int v]

def line (v : Int64) : String := "value(" ++ toString v.toInt ++ ").\n"

def words (v : Int64) : List Word :=
  ofName .plain "value" ++ [plain .openCall, plain (.integer v), plain .closeParen]

lemma line_spells {cs : List Char} {ws : List Word} (v : Int64) (next : Spells false cs ws) :
    Spells false ((line v).toList ++ cs) (words v ++ plain .clauseEnd :: ws) := by
  have layout : Spells true ('\n' :: cs) ws := .blank rfl next
  have stop : Spells true ('.' :: '\n' :: cs) (plain .clauseEnd :: ws) :=
    .word (.clauseEnd fun c hc => .inl (Option.some.inj hc ▸ rfl)) layout
  have close : Spells true (')' :: _) (plain .closeParen :: _) := .word (.delimiter rfl) stop
  have number : Spells true _ (plain (.integer v) :: _) :=
    .word (.integer v (stops_cons (by decide) _)) close
  have opened : Spells true ('(' :: _) (plain .openCall :: _) := .word (.delimiter rfl) number
  have named : Spells false ((standard.atomText "value").toList ++ _) _ :=
    name_spells rfl .plain rfl opened (stops_cons (by decide) _)
  have plain : standard.atomText "value" = "value" := by decide +kernel
  rw [plain] at named
  simpa [line, words] using named

lemma reads_term (mode : ReadMode) (v : Int64) : Reads mode (words v) (term v) 0 0 0 := by
  have value : Reader.ReadsBack .standard mode WriteStyle.argPriority (.int v) :=
    readsBack_primary fun _ => reads_integer v
  exact reads_call (f := "value") (forall_mem_singleton.2 value)
    fun list => absurd list.1 (by decide)

def textWords : List Int64 → List Word
  | [] => []
  | v :: vs => words v ++ plain .clauseEnd :: textWords vs

lemma text_spells (vs : List Int64) :
    Spells false (join (vs.map line)).toList (textWords vs) := by
  induction vs with
  | nil => exact .done
  | cons v vs ih =>
    have := line_spells v ih
    simpa [textWords] using this

lemma rolesShow_textWords (ops : OperatorTable) (vs : List Int64) :
    rolesShow ops (textWords vs) := by
  induction vs with
  | nil => rfl
  | cons v vs ih => simpa [textWords, words, rolesShow_ofName, roleShows] using ih

def clause (f : Fact) : Clause := ⟨some (term f.value), [], .fact, f.position⟩

def compiled (f : Fact) : CompiledClause :=
  ⟨functor, ⟨0⟩, f.clause, [.getConstant (.int f.value) 1, .proceed], 0, []⟩

lemma compileClause_fact (f : Fact) (chainRule : Bool) :
    PreparedClause.compileClause ⟨f.clause, some ⟨0⟩, [], []⟩ chainRule = .ok f.compiled := by
  with_unfolding_all rfl

def predicate (fs : List Fact) : Predicate := ⟨functor, fs.map compiled, false⟩

lemma addClause_predicate (added : Nat) (new : ∀ g ∈ fs, g.position ≠ f.position) :
    Predicate.addClause (added, predicate fs) f.compiled = (added + 1, predicate (fs ++ [f])) := by
  have apart : (predicate fs).clauses.any (·.clause.same f.compiled.clause) = false := by
    rw [predicate, any_map, any_eq_false]
    intro g mem
    simp [Clause.same, compiled, clause, new g mem]
  rw [Predicate.addClause, apart, predicate, predicate, map_append]
  rfl

def domain : List Fact → Domain
  | [] => .empty
  | fs => ⟨#[predicate fs], [(functor, 0)]⟩

lemma addClause_domain (new : ∀ g ∈ fs, g.position ≠ f.position) :
    ((domain fs).addClause f.compiled).2 = domain (fs ++ [f]) := by
  cases fs with
  | nil => rfl
  | cons g fs => exact congrArg (fun p => Domain.mk #[p.2] [(functor, 0)]) (addClause_predicate 0 new)

def symbols (name : String) : List Fact → SymbolTable
  | [] => ⟨[], [], some ⟨name, [], [], none, [], [], 0⟩⟩
  | _ :: _ =>
    ⟨[(functor, ⟨0⟩)], [functor], some ⟨name, [functor], [functor], some functor, [], [], 1⟩⟩

def context (table : SymbolTable) : Context := ⟨.standard, .standard, table, [], [], []⟩

def engine (fs : List Fact) (query : Option CompiledQuery) : Engine :=
  ⟨domain fs, .error, query, ""⟩

def unitState (name : String) (fs : List Fact) : Context × Engine :=
  (context (symbols name fs), engine fs none)

lemma readOne_fact (fuel : Nat) (report : UnitReport) (name : String)
    (new : ∀ g ∈ fs, g.position ≠ f.position) :
    SourceUnit.readOne (observer fuel) fuel report (.ok ⟨term f.value, f.position, []⟩)
        (unitState name fs) =
      .ok (.yield { report with clauses := report.clauses + 1 }) (unitState name (fs ++ [f])) := by
  have prepared : termStages (observer fuel) fuel ⟨term f.value, f.position, []⟩
      (unitState name fs) = .ok [.clause ⟨f.clause, some ⟨0⟩, [], []⟩]
        (context (symbols name (fs ++ [f])), engine fs none) := by
    -- The first fact brings in the functor. The others find it there.
    cases fs <;> rfl
  have added : (observer fuel).clauseCompiled f.compiled (.standard, engine fs none) =
      .ok () (.standard, engine (fs ++ [f]) none) := by
    rw [engine, engine, ← addClause_domain new]
    rfl
  have dispatched := SourceUnit.dispatch_clause (s := (context (symbols name (fs ++ [f])),
    engine fs none)) report rfl (compileClause_fact f true) added
  have advanced : SourceUnit.advance (observer fuel) report (termStages
      (observer fuel) fuel ⟨term f.value, f.position, []⟩) (unitState name fs) =
        .ok { report with clauses := report.clauses + 1 } (unitState name (fs ++ [f])) := by
    rw [SourceUnit.advance_of_ok prepared, SourceUnit.dispatchAll, bind_ok dispatched]
    rfl
  have other : ¬(term f.value).isAtom "end_of_file" = true := Bool.false_ne_true
  rw [SourceUnit.readOne, term_eq, if_neg other, bind_ok advanced]
  rfl

structure Remaining (text : List Char) (k : Nat) (fs : List Fact) (vs : List Int64) (r : Reader) :
    Prop where
  stands : r.Stands text k
  yields : r.lexer.Yields (textWords vs)
  earlier : ∀ f ∈ fs, ∃ i < k, f.position = positionAt text i

namespace Remaining

variable {text : List Char} {k : Nat} {vs : List Int64} {r : Reader}

lemma readTerm_nil (h : Remaining text k fs [] r) (mode : ReadMode) :
    ∃ r', readTerm mode r = .ok none r' := by
  have fresh : Fresh { r with varIds := [], nextVar := 0 } [] ([], 0) :=
    ⟨h.stands.lookahead, h.yields, rfl⟩
  obtain ⟨first, r', peeked, kind, -⟩ := Ahead.peek (.inl fresh) fun _ => rfl
  have last : first.lexeme = .inputEnd := kind
  refine ⟨r', ?_⟩
  rw [readTerm_eq, bind_ok peeked, if_pos last]
  rfl

lemma readTerm_cons {v : Int64} (h : Remaining text k fs (v :: vs) r) (mode : ReadMode) :
    ∃ f r' k', f.value = v ∧ readTerm mode r = .ok (some ⟨term f.value, f.position, []⟩) r' ∧
      (∀ g ∈ fs, g.position ≠ f.position) ∧ Remaining text k' (fs ++ [f]) vs r' := by
  obtain ⟨position, r', read, -, yields⟩ := (reads_term mode v).readTerm
    ((Begins.ofName false .plain "value").append _) (Nat.zero_le _) (Nat.zero_le _)
    h.stands.lookahead h.yields (rolesShow_textWords mode.operators (v :: vs))
  obtain ⟨i, k', onward, further, within, place, stands⟩ := h.stands.readTerm read
  have place : position = positionAt text i := place
  refine ⟨⟨v, position⟩, r', k', rfl, read, fun g mem => ?_, stands, yields, ?_⟩
  · obtain ⟨j, lt, here⟩ := h.earlier g mem
    rw [here]
    exact place ▸ (positionAt_before (by omega) (by omega)).ne
  · refine forall_mem_append.2
      ⟨fun g mem => ?_, forall_mem_singleton.2 ⟨i, further, place⟩⟩
    obtain ⟨j, lt, here⟩ := h.earlier g mem
    exact ⟨j, by omega, here⟩

lemma forEach (h : Remaining text k fs vs r) {n : Nat} (rounds : vs.length < n) (name : String) :
    ∃ gs : List Fact, gs.map value = vs ∧ ∀ (fuel : Nat) (report : UnitReport),
      Reader.forEach (do return (← Compiling.context).readMode)
          (SourceUnit.readOne (observer fuel) fuel) n r report (unitState name fs) =
        .ok { report with clauses := report.clauses + vs.length } (unitState name (fs ++ gs)) := by
  have mode (fs : List Fact) :
      (do return (← Compiling.context).readMode : Compiling Engine ReadMode) (unitState name fs) =
        .ok ⟨.standard, .codes⟩ (unitState name fs) := rfl
  induction vs generalizing n k fs r with
  | nil =>
    obtain ⟨n, rfl⟩ := Nat.exists_eq_add_of_lt rounds
    obtain ⟨r', read⟩ := h.readTerm_nil ⟨.standard, .codes⟩
    refine ⟨[], rfl, fun fuel report => ?_⟩
    rw [append_nil, forEach, bind_ok (mode fs), read]
    rfl
  | cons v vs ih =>
    obtain ⟨n, rfl⟩ := Nat.exists_eq_add_of_lt rounds
    obtain ⟨f, r', k', rfl, read, new, left⟩ := h.readTerm_cons ⟨.standard, .codes⟩
    obtain ⟨gs, rfl, run⟩ := ih left (n := (f.value :: vs).length + n) (by simp; omega)
    refine ⟨f :: gs, rfl, fun fuel report => ?_⟩
    rw [forEach, bind_ok (mode fs), read]
    refine (bind_ok (readOne_fact fuel report name new)).trans ((run fuel _).trans ?_)
    rw [List.append_assoc, List.singleton_append, List.length_cons, Nat.add_assoc, Nat.add_comm 1]

end Remaining

lemma length_le_textWords (vs : List Int64) : vs.length ≤ (textWords vs).length := by
  induction vs with
  | nil => exact Nat.le_refl 0
  | cons v vs ih =>
    simp only [textWords, List.length_append, List.length_cons]
    omega

def session (fs : List Fact) (query : Option CompiledQuery) : Session :=
  ⟨context ⟨[(functor, ⟨0⟩)], [functor], none⟩, engine fs query⟩

lemma closeUnit_facts (fuel : Nat) (report : UnitReport) (name : String) (f : Fact)
    (fs : List Fact) :
    SourceUnit.advance (observer fuel) report
        (closeUnit (observer fuel) fuel) (unitState name (f :: fs)) =
      .ok { report with summary := some ⟨name, [functor], 1⟩ }
        (context ⟨[(functor, ⟨0⟩)], [functor], none⟩, engine (f :: fs) none) := by
  have last : lastGoals (observer fuel) fuel (unitState name (f :: fs)) =
      .ok [] (unitState name (f :: fs)) := rfl
  rw [SourceUnit.advance_closeUnit_ok last rfl]
  rfl

lemma consult_facts (name : String) {vs : List Int64} (nonempty : vs ≠ []) :
    ∃ f fs, (f :: fs).map value = vs ∧ ∀ fuel,
      Session.consult fuel name (join (vs.map line)) (.new .standard .standard) =
        .ok ⟨name, vs.length, 0, [], some ⟨name, [functor], 1⟩⟩ (session (f :: fs) none) := by
  have left : Remaining _ 0 [] vs (ofText (join (vs.map line))) :=
    ⟨stands_ofText _, ⟨_, CharStream.at_ofText _, text_spells vs⟩, nofun⟩
  have rounds : vs.length < (ofText (join (vs.map line))).rounds := by
    have := left.yields.length_le
    have := length_le_textWords vs
    rw [rounds]
    omega
  obtain ⟨fs, values, run⟩ := left.forEach rounds name
  obtain ⟨f, fs, rfl⟩ : ∃ f gs, fs = f :: gs := by
    refine exists_cons_of_ne_nil ?_
    rintro rfl
    exact nonempty values.symm
  refine ⟨f, fs, values, fun fuel => ?_⟩
  have compiled : SourceUnit.compile (observer fuel) fuel name
      (ofText (join (vs.map line))) (Context.new .standard .standard, .new .error) =
        .ok ⟨name, vs.length, 0, [], some ⟨name, [functor], 1⟩⟩
          (context ⟨[(functor, ⟨0⟩)], [functor], none⟩, engine (f :: fs) none) := by
    rw [SourceUnit.compile]
    refine (bind_ok rfl).trans ((bind_ok (run fuel _)).trans ?_)
    rw [nil_append, closeUnit_facts, Nat.zero_add]
  have opened : Session.new .standard .standard = ⟨.new .standard .standard, .new .error⟩ := rfl
  rw [Session.consult, Session.compiling, opened, compiled]
  rfl

def query : CompiledQuery where
  clause := ⟨none, [.compound "value" [.var "X" 0]], .query, ⟨1, 1⟩⟩
  names := [("X", .var "X" 0)]
  code := [.allocate 1, .putVariable (.y 1) 1, .call functor 1, .proceed]
  permanentVars := 1

lemma prepare_query (f : Fact) (fs : List Fact) (n : Nat) :
    Session.prepare (n + 3) "value(X)" (session (f :: fs) none) =
      .ok () (session (f :: fs) (some query)) := by
  let read : ReadTerm := ⟨.compound "value" [.var "X" 0], ⟨1, 1⟩, [("X", .var "X" 0)]⟩
  let prepared : PreparedClause := ⟨query.clause, none, [⟨functor, ⟨0⟩, true⟩], query.names⟩
  have parsed : Term.parse ⟨.standard, .codes⟩ "value(X)" = .ok read := by decide +kernel
  have prepares : Session.withError .compilation (Session.compiling (Preparation.query
      (observer (n + 3)) (n + 3) read)) (session (f :: fs) none) =
        .ok prepared (session (f :: fs) none) := by
    rw [query_eq]
    rfl
  have lowered : prepared.compileQuery = .ok query := by with_unfolding_all rfl
  have parsing : Term.parse ⟨(session (f :: fs) none).context.operators, .codes⟩ "value(X)" =
      .ok read := parsed
  rw [Session.prepare]
  refine (bind_ok rfl).trans ?_
  rw [parsing]
  refine (bind_ok prepares).trans ?_
  rw [lowered]
  rfl

open Search in
lemma solvedBy_facts (p : Program) (next : Nat) (fs : List Fact) :
    SolvedBy (solve p) (.compound "value" [.var "X" 0]) (fs.map compiled) ⟨free, next⟩
      (fs.map fun f => ⟨free.assign 0 (.int f.value), next⟩) := by
  induction fs with
  | nil => exact .nil _ _
  | cons f fs ih =>
    have unified : Unifies free [(Bindings.rename next (term f.value),
        .compound "value" [.var "X" 0])] (some (free.assign 0 (.int f.value))) :=
      .compound rfl (.assign_right rfl rfl rfl not_mem_nil (.nil _))
    exact .fact rfl rfl unified ih

lemma answers_facts (f : Fact) (fs : List Fact) (ops : OperatorTable) :
    ∃ N, ∀ fuel, N ≤ fuel → ∀ limit,
      answers fuel limit (ops, engine (f :: fs) (some query)) =
        .ok (((f :: fs).map fun f => ⟨[("X", .int f.value)]⟩).take limit, none)
          (ops, engine (f :: fs) (some query)) := by
  have plain : bare query.goal = .compound "value" [.var "X" 0] :=
    bare_user rfl (by decide)
  have found : (domain (f :: fs)).find? functor = some (predicate (f :: fs)) := rfl
  have solved : Solved (solve (engine (f :: fs) (some query)).program)
      (.compound "value" [.var "X" 0]) ⟨free, roomFor query⟩ _ :=
    SolvedBy.solved (solve_user rfl (by decide)) found
      (solvedBy_facts _ _ (f :: fs))
  rw [← plain] at solved
  obtain ⟨N, run⟩ := answers_of_solve (engine (f :: fs) (some query)) ops rfl
    (forall_mem_singleton.2 ⟨"X", 0, by decide, rfl⟩) (Setting.solves rfl) solved
    (forall_mem_map.2 fun f _ => forall_mem_singleton.2 rfl)
  refine ⟨N, fun fuel le limit => ?_⟩
  rw [run fuel le limit, List.map_take, List.map_map]
  rfl

lemma queryAll_facts (f : Fact) (fs : List Fact) :
    ∃ N, ∀ fuel, N ≤ fuel → Session.queryAll fuel "value(X)" (session (f :: fs) none) =
      .ok (((f :: fs).map value).map fun v => ⟨[("X", .int v)]⟩)
        (session (f :: fs) (some query)) := by
  obtain ⟨N, answered⟩ := answers_facts f fs .standard
  refine ⟨N + (f :: fs).length + 3, fun fuel enough => ?_⟩
  obtain ⟨n, rfl⟩ := Nat.exists_eq_add_of_le' (Nat.le_trans (Nat.le_add_left 3 _) enough)
  have answered := answered (n + 3) (by omega) (n + 3)
  rw [List.take_of_length_le (by rw [List.length_map]; omega)] at answered
  have all : allAnswers (n + 3) (.standard, engine (f :: fs) (some query)) =
      .ok ((f :: fs).map fun f => ⟨[("X", .int f.value)]⟩)
        (.standard, engine (f :: fs) (some query)) := by
    rw [allAnswers, bind_ok answered]
    rfl
  rw [Session.queryAll, bind_ok (prepare_query f fs n), Session.act, Session.withError,
    Session.running, session, context]
  dsimp only
  rw [all, List.map_map]
  rfl

end Fact

/-- Consult a text with a fact in each line, in any order and with repetitions: no error is reported
and each line is a clause, and the query for all values finds the value of each line in turn. -/
theorem facts_answer_in_order (name : String) (vs : List Int64) (nonempty : vs ≠ []) :
    ∃ N, ∀ fuel, N ≤ fuel → ∃ report s₁ s₂,
      Session.consult fuel name
          (String.join (vs.map fun v => "value(" ++ toString v.toInt ++ ").\n"))
          (.new .standard .standard) = .ok report s₁ ∧
        report.errors = [] ∧ report.clauses = vs.length ∧
        Session.queryAll fuel "value(X)" s₁ = .ok (vs.map fun v => ⟨[("X", .int v)]⟩) s₂ := by
  obtain ⟨f, fs, rfl, consulted⟩ := Fact.consult_facts name nonempty
  obtain ⟨N, answered⟩ := Fact.queryAll_facts f fs
  exact ⟨N, fun fuel enough => ⟨_, _, _, consulted fuel, rfl, rfl, answered fuel enough⟩⟩

theorem facts_answer_in_order_extremes :
    let vs : List Int64 := [7, .minValue, .maxValue, 7]
    ∃ N, ∀ fuel, N ≤ fuel → ∃ report s₁ s₂,
      Session.consult fuel "values"
          (String.join (vs.map fun v => "value(" ++ toString v.toInt ++ ").\n"))
          (.new .standard .standard) = .ok report s₁ ∧
        report.errors = [] ∧ report.clauses = 4 ∧
        Session.queryAll fuel "value(X)" s₁ = .ok (vs.map fun v => ⟨[("X", .int v)]⟩) s₂ :=
  facts_answer_in_order "values" [7, .minValue, .maxValue, 7] (by decide)

end Horn
