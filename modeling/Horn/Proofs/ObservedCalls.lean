import Horn.Proofs.ReportedNames
import Horn.Proofs.StepLimits

/-!
# What an observer of a unit is called for

An observer is replaced by one that does the same and keeps a list of the calls.
-/

namespace Horn

open List Compiling Preparation Expansion Limits

inductive Call where
  | unitOpened (name : String)
  | unitClosed (u : UnitSummary)
  | clauseCompiled (c : CompiledClause)
  | queryCompiled (q : CompiledQuery)
  | declared (d : Declaration)
  | warned (w : Warning)
  | condition (t : Term)
  | expandTerm (t : Term)
  | expandGoal (t : Term)
  deriving DecidableEq, Repr

def Call.isInner : Call → Bool
  | .unitOpened _ | .unitClosed _ => false
  | _ => true

variable {σ α β : Type}

def Watching.noting (k : Call) (w : Watching σ α) : Watching (σ × List Call) α :=
  fun (ops, s, calls) =>
    match w (ops, s) with
    | .ok a (ops, s) => .ok a (ops, s, calls ++ [k])
    | .error e (ops, s) => .error e (ops, s, calls ++ [k])

def Observer.noted (o : Observer σ) : Observer (σ × List Call) where
  clauseCompiled c := Watching.noting (.clauseCompiled c) (o.clauseCompiled c)
  queryCompiled q := Watching.noting (.queryCompiled q) (o.queryCompiled q)
  unitOpened name s := (o.unitOpened name s.1, s.2 ++ [.unitOpened name])
  unitClosed u s := (o.unitClosed u s.1, s.2 ++ [.unitClosed u])
  declared d s := (o.declared d s.1, s.2 ++ [.declared d])
  warned w s := (o.warned w s.1, s.2 ++ [.warned w])
  condition t := Watching.noting (.condition t) (o.condition t)
  expandTerm t := Watching.noting (.expandTerm t) (o.expandTerm t)
  expandGoal t := Watching.noting (.expandGoal t) (o.expandGoal t)

def Call.Grows (calls calls' : List Call) : Prop :=
  ∃ more, calls' = calls ++ more ∧ ∀ k ∈ more, k.isInner = true

namespace Call.Grows

variable {calls calls' calls'' : List Call}

lemma refl (calls : List Call) : Grows calls calls := ⟨[], (append_nil _).symm, nofun⟩

lemma trans (h : Grows calls calls') (h' : Grows calls' calls'') : Grows calls calls'' := by
  obtain ⟨more, rfl, inner⟩ := h
  obtain ⟨more', rfl, inner'⟩ := h'
  refine ⟨more ++ more', append_assoc _ _ _, fun k hk => ?_⟩
  exact (mem_append.1 hk).elim (inner k) (inner' k)

lemma one {k : Call} (inner : k.isInner = true) : Grows calls (calls ++ [k]) :=
  ⟨[k], rfl, fun _ hk => mem_singleton.1 hk ▸ inner⟩

end Call.Grows

/-- Steps during which no unit is opened or closed and an open unit stays open, without and with a
list of the calls. -/
abbrev Limits.noting : Limits σ (σ × List Call) where
  view := Prod.fst
  invariant _ := True
  change s s' := Call.Grows s.2.2 s'.2.2 ∧ (s.1.symbols.scope.isSome → s'.1.symbols.scope.isSome)
  error _ _ := True
  refl s := ⟨.refl s.2.2, id⟩
  trans h h' := ⟨h.1.trans h'.1, h'.2 ∘ h.2⟩
  located _ := id

namespace Noting

open Preparation SourceUnit

variable (o : Observer σ)

lemma ask {k : Call} (inner : k.isInner = true) (w : Watching σ α) :
    noting.Bounds (ask w) (ask (Watching.noting k w)) := by
  rintro ⟨c, s, calls⟩ _
  change Limits.Within _ _ _ (Compiling.ask w (c, s)) _
  simp only [Compiling.ask, Watching.noting]
  cases w (c.operators, s) with
  | ok a s => exact .ok (L := .noting) (t := (_, _)) trivial ⟨.one inner, id⟩ trivial
  | error e s => exact .error (L := .noting) (t := (_, _)) trivial ⟨.one inner, id⟩ trivial

lemma tell {k : Call} (inner : k.isInner = true) (f : σ → σ) :
    noting.Bounds (tell f) (tell fun s => (f s.1, s.2 ++ [k])) :=
  fun _ _ => .ok (L := .noting) (t := (_, _)) trivial ⟨.one inner, id⟩ trivial

section

variable {o} {P : α → Prop} {x : Compiling σ α} {y : Compiling (σ × List Call) α} {a : α}
  {e : CompileError} {c c' : Context} {s s' : σ}

lemma exists_ok (h : noting.Ensures P x y) (ran : x (c, s) = .ok a (c', s'))
    (calls : List Call) :
    ∃ calls', y (c, s, calls) = .ok a (c', s', calls') ∧ Call.Grows calls calls' ∧
      (c.symbols.scope.isSome → c'.symbols.scope.isSome) ∧ P a := by
  have within := h (c, s, calls) trivial
  generalize noted : y (c, s, calls) = r at within
  dsimp only at within
  rw [ran] at within
  cases within with
  | ok _ change post => exact ⟨_, rfl, change.1, change.2, post⟩

lemma exists_error (h : noting.Ensures P x y) (failed : x (c, s) = .error e (c', s'))
    (calls : List Call) :
    ∃ calls', y (c, s, calls) = .error e (c', s', calls') ∧ Call.Grows calls calls' := by
  have within := h (c, s, calls) trivial
  generalize noted : y (c, s, calls) = r at within
  dsimp only at within
  rw [failed] at within
  cases within with
  | error _ change _ => exact ⟨_, rfl, change.1⟩

end

lemma preparing : noting.Preparing (fun _ => True) o o.noted where
  edit {s _} edited _ := ⟨trivial, .refl s.2.2, edited.opened⟩
  defer {s _} _ _ _ := ⟨trivial, .refl s.2.2, id⟩
  declared _ := tell rfl _
  warned _ := tell rfl _
  source _ _ _ _ := trivial

lemma completes (fuel : Nat) (p : Pending) :
    noting.Bounds (complete o fuel p) (complete o.noted fuel p) :=
  bounds_complete (preparing o) (.free (fun _ => ask rfl _) (fun _ _ _ _ => trivial) fun _ => trivial) p

lemma ensures_term (fuel : Nat) (r : ReadTerm) :
    noting.Ensures (Clauses fun _ => True) (term o fuel r) (term o.noted fuel r) := by
  have frames (frames : Conditional.Frames) : noting.Bounds (σ := σ)
      (changeContext ({ · with conditionals := frames }))
      (changeContext ({ · with conditionals := frames })) :=
    .changeContext fun s _ => ⟨trivial, .refl s.2.2, id⟩
  rw [term_eq, term_eq]
  refine Ensures.context.bind fun c _ => ?_
  refine (bounds_sift (fun _ => ask rfl _) (fun _ _ _ => trivial) _ _ _).bind ?_
  rintro ⟨_ | _, next⟩ - <;> refine (frames next).bind fun _ _ => ?_
  · exact .pure nofun
  · have terms : noting.Bounds (terms o r.term) (terms o.noted r.term) :=
      bounds_terms (fun t => ask rfl _) r.term
    refine (terms.located r.position).bind fun _ _ => ensures_allExpanded fun _ _ => ?_
    exact ensures_expanded (preparing o) (fun _ _ _ _ _ _ _ => trivial)
      fun _ _ _ _ => completes o fuel _

lemma steady (summary : Option UnitSummary) : Steady fun report => report.summary = summary :=
  ⟨id, id, fun _ => id⟩

lemma ensures_clause {summary : Option UnitSummary} (report : UnitReport) (x : Output)
    (start : report.summary = summary) (clause : ∃ p, x = .clause p ∧ True) :
    noting.Ensures (·.summary = summary) (dispatch o report x)
      (dispatch o.noted report x) := by
  obtain ⟨p, rfl, -⟩ := clause
  exact ensures_dispatch (steady summary) (fun _ => ask rfl _) (fun _ => ask rfl _)
    ⟨fun _ _ _ _ => trivial, fun _ _ _ _ _ => trivial⟩ start

end Noting

lemma Reader.ensures_forEach {τ : Type} {L : Limits σ τ} {J : β → Prop} {mode : Compiling σ ReadMode}
    {mode' : Compiling τ ReadMode}
    {handle : β → Except SyntaxError ReadTerm → Compiling σ (ForInStep β)}
    {handle' : β → Except SyntaxError ReadTerm → Compiling τ (ForInStep β)}
    (modes : L.Bounds mode mode')
    (handles : ∀ b x, J b → L.Ensures (fun step => J step.value) (handle b x) (handle' b x))
    (n : Nat) (r : Reader) {b : β} (hb : J b) :
    L.Ensures J (r.forEach mode handle n b) (r.forEach mode' handle' n b) := by
  induction n generalizing r b with
  | zero => exact .pure hb
  | succ n ih =>
    refine modes.bind fun m _ => ?_
    split
    · exact .pure hb
    · refine (handles _ _ hb).bind fun step post => ?_
      cases step with
      | done b => exact .pure post
      | yield b => exact ih _ post
    · refine (handles _ _ hb).bind fun step post => ?_
      cases step with
      | done b => exact .pure post
      | yield b =>
        dsimp only
        split
        · exact ih _ post
        · refine (handles _ _ post).bind fun step post => ?_
          cases step <;> exact .pure post

namespace SourceUnit

variable (o : Observer σ)

lemma ensures_readAll (fuel : Nat) (reader : Reader) (report : UnitReport) :
    noting.Ensures (·.summary = report.summary) (readAll o fuel reader report)
      (readAll o.noted fuel reader report) := by
  refine Reader.ensures_forEach (Ensures.context.bind fun _ _ => .pure trivial) ?_ _ _ rfl
  intro report' x same
  cases x with
  | error e => exact .pure same
  | ok r =>
    unfold readOne
    dsimp only
    split
    · exact .pure same
    · intro s start
      refine (within_advance (Noting.steady report.summary) (Noting.ensures_clause o)
        (Noting.ensures_term o fuel r s start) same).bind fun _ same => ?_
      exact .pure same

lemma dispatchAll_concat (report : UnitReport) (outputs : List Output) (x : Output) :
    dispatchAll o report (outputs ++ [x]) =
      dispatchAll o report outputs >>= fun report => dispatch o report x := by
  induction outputs generalizing report with
  | nil => simp [dispatchAll]
  | cons y outputs ih => simp [dispatchAll, ih]

end SourceUnit

namespace Preparation

def lastGoals (o : Observer σ) (fuel : Nat) : Compiling σ (List Output) := do
  let c ← Compiling.context
  Compiling.changeContext ({ · with conditionals := [], initialization := [] })
  Compiling.ofExcept c.conditionals.finish
  completeAll o fuel c.initialization

def closing : Compiling σ (Option UnitSummary) := fun (c, s) =>
  .ok (c.symbols.closeUnit).1 ({ c with symbols := c.symbols.closeUnit.2 }, s)

lemma closeUnit_eq (o : Observer σ) (fuel : Nat) :
    closeUnit o fuel = ensuring (lastGoals o fuel) closing >>= fun (outputs, closed) =>
      return outputs ++ closed.toList.map .unitClosed := by
  simp only [closeUnit, Task.pushAll_eq, append_nil, run_goalExpansions]
  rfl

lemma ensures_lastGoals (o : Observer σ) (fuel : Nat) :
    noting.Ensures (Clauses fun _ => True) (lastGoals o fuel) (lastGoals o.noted fuel) := by
  refine Ensures.context.bind fun c _ => ?_
  refine (Ensures.changeContext (L := .noting)
    fun s _ => ⟨trivial, .refl s.2.2, id⟩).bind fun _ _ => ?_
  refine (Ensures.ofExcept fun _ _ _ => trivial).bind fun _ _ => ?_
  exact ensures_completeAll fun p _ => Noting.completes o fuel p

end Preparation

namespace SourceUnit

variable {o : Observer σ} {fuel : Nat} {report : UnitReport} {s : Context × σ} {s' : Context × σ}
  {outputs : List Output}

def closed (s : Context × σ) : Context × σ := ({ s.1 with symbols := s.1.symbols.closeUnit.2 }, s.2)

lemma dispatch_clause (report : UnitReport) {p : PreparedClause} {c : CompiledClause}
    {x : OperatorTable × σ} (isClause : p.isQuery = false)
    (lowered : p.compileClause s.1.config.chainRule = .ok c)
    (told : o.clauseCompiled c (seen s) = .ok () x) :
    dispatch o report (.clause p) s =
      .ok { report with clauses := report.clauses + 1 } (resumed s x) := by
  have tried : attempt (ask (o.clauseCompiled c)) s = .ok (.ok ()) (resumed s x) := by
    rw [attempt, ask_of_ok told]
  have here : (context : Compiling σ Context) s = .ok s.1 s := rfl
  simp only [dispatch, isClause, Bool.false_eq_true, if_false, bind_ok here, lowered,
    bind_ok tried]
  rfl

lemma advance_of_ok {x : Compiling σ (List Output)} (h : x s = .ok outputs s') :
    advance o report x s = dispatchAll o report outputs s' := by
  have tried : attempt x s = .ok (.ok outputs) s' := by rw [attempt, h]
  rw [advance, bind_ok tried]

lemma advance_closeUnit_ok {scope : UnitScope} (last : lastGoals o fuel s = .ok outputs s')
    (opened : s'.1.symbols.scope = some scope) :
    advance o report (closeUnit o fuel) s =
      (dispatchAll o report outputs >>= fun report =>
        dispatch o report (.unitClosed scope.summary)) (closed s') := by
  have done : closeUnit o fuel s =
      .ok (outputs ++ [.unitClosed scope.summary]) (closed s') := by
    rw [closeUnit_eq]
    have ensured : ensuring (lastGoals o fuel) closing s =
        .ok (outputs, s'.1.symbols.closeUnit.1) (closed s') := by
      unfold ensuring
      rw [last]
      rfl
    rw [bind_ok ensured, SymbolTable.closeUnit, opened]
    rfl
  rw [advance_of_ok done, ← dispatchAll_concat]

lemma advance_closeUnit_error {e : CompileError} (last : lastGoals o fuel s = .error e s') :
    advance o report (closeUnit o fuel) s = record report e (closed s') := by
  have tried : attempt (closeUnit o fuel) s = .ok (.error e) (closed s') := by
    have ensured : ensuring (lastGoals o fuel) closing s =
        .error e (closed s') := by
      unfold ensuring
      rw [last]
      rfl
    rw [attempt, closeUnit_eq, bind_error ensured]
  rw [advance, bind_ok tried]

def begin (o : Observer σ) (fuel : Nat) (name : String) (reader : Reader) :
    Compiling σ UnitReport := do
  Preparation.openUnit o name
  readAll o fuel reader ⟨name, 0, 0, [], none⟩

lemma compile_eq (o : Observer σ) (fuel : Nat) (name : String) (reader : Reader) :
    compile o fuel name reader =
      begin o fuel name reader >>= fun report => advance o report (closeUnit o fuel) := by
  simp [compile, begin]

def readStages (o : Observer σ) (fuel : Nat) (report : UnitReport) :
    Except SyntaxError ReadTerm → Compiling σ (ForInStep UnitReport)
  | .error e => return .yield (addError report (.reading e))
  | .ok r => do
    if r.term.isAtom "end_of_file" then return .done report
    else return .yield (← advance o report (Preparation.termStages o fuel r))

def compileStages (o : Observer σ) (fuel : Nat) (name : String) (reader : Reader) :
    Compiling σ UnitReport := do
  Preparation.openUnit o name
  let report ← reader.forEach (do return (← Compiling.context).readMode) (readStages o fuel)
    reader.rounds ⟨name, 0, 0, [], none⟩
  advance o report do
    let (outputs, closed) ← Preparation.ensuring (Preparation.lastGoals o fuel) Preparation.closing
    return outputs ++ closed.toList.map .unitClosed

lemma readOne_eq_stages (o : Observer σ) (fuel : Nat) : readOne o fuel = readStages o fuel := by
  funext report read
  cases read with
  | error e => rfl
  | ok r => rw [readOne, readStages, term_eq]

lemma compile_eq_stages (o : Observer σ) (fuel : Nat) (name : String) (reader : Reader) :
    compile o fuel name reader = compileStages o fuel name reader := by
  rw [compile, compileStages, readAll, readOne_eq_stages, closeUnit_eq]

lemma begin_calls {name : String} {reader : Reader} {c c' : Context} {s s' : σ}
    (ok : begin o fuel name reader (c, s) = .ok report (c', s')) :
    ∃ calls, begin o.noted fuel name reader (c, s, []) = .ok report (c', s', calls) ∧
      Call.Grows [.unitOpened name] calls ∧ c'.symbols.scope.isSome ∧ report.summary = none := by
  obtain ⟨calls, read, grows, kept, post⟩ :=
    Noting.exists_ok (ensures_readAll o fuel reader ⟨name, 0, 0, [], none⟩) ok [.unitOpened name]
  exact ⟨calls, read, grows, kept rfl, post⟩

def Ending (o : Observer σ) (fuel : Nat) (begun : UnitReport) (s : Context × σ)
    (report : UnitReport) (name : String) (inner calls : List Call) : Prop :=
  match Preparation.lastGoals o fuel s with
  | .ok _ _ => ∃ u, report.summary = some u ∧ calls = .unitOpened name :: inner ++ [.unitClosed u]
  | .error e _ => report = addError begun e ∧ report.summary = none ∧
      calls = .unitOpened name :: inner

/-- All the calls for a unit. It is opened first, and between that and its end it is neither opened
nor closed. -/
theorem compile_calls {name : String} {reader : Reader} {c c' : Context} {s s' : σ}
    (ok : compile o fuel name reader (c, s) = .ok report (c', s')) :
    ∃ calls inner report₁ s₁,
      compile o.noted fuel name reader (c, s, []) = .ok report (c', s', calls) ∧
      (∀ k ∈ inner, k.isInner = true) ∧ begin o fuel name reader (c, s) = .ok report₁ s₁ ∧
      Ending o fuel report₁ s₁ report name inner calls := by
  rw [compile_eq] at ok
  obtain ⟨report₁, ⟨c₁, s₁⟩, begun, ended⟩ := ok_of_bind ok
  obtain ⟨_, begun', ⟨inner₁, rfl, isInner₁⟩, opened, none⟩ := begin_calls begun
  have ensures := ensures_lastGoals o fuel
  rcases last : lastGoals o fuel (c₁, s₁) with ⟨outputs, c₂, s₂⟩ | ⟨e, c₂, s₂⟩
  · obtain ⟨calls₂, last', grows, kept, clauses⟩ :=
      Noting.exists_ok ensures last ([.unitOpened name] ++ inner₁)
    obtain ⟨scope, inScope⟩ := Option.isSome_iff_exists.1 (kept opened)
    rw [advance_closeUnit_ok last inScope] at ended
    obtain ⟨report₂, ⟨c₃, s₃⟩, dispatched, ended⟩ := ok_of_bind ended
    cases ended
    obtain ⟨_, dispatched', grows', -⟩ := Noting.exists_ok
      (ensures_dispatchAll (Noting.ensures_clause o) clauses rfl) dispatched calls₂
    obtain ⟨inner₂, rfl, isInner₂⟩ := grows.trans grows'
    refine ⟨[.unitOpened name] ++ inner₁ ++ inner₂ ++ [.unitClosed scope.summary],
      inner₁ ++ inner₂, report₁, (c₁, s₁), ?_, ?_, begun, ?_⟩
    · rw [compile_eq, bind_ok begun', advance_closeUnit_ok last' inScope]
      exact (bind_ok dispatched').trans rfl
    · exact fun k hk => (mem_append.1 hk).elim (isInner₁ k) (isInner₂ k)
    · rw [Ending, last]
      exact ⟨scope.summary, rfl, by simp⟩
  · obtain ⟨_, last', inner₂, rfl, isInner₂⟩ :=
      Noting.exists_error ensures last ([.unitOpened name] ++ inner₁)
    rw [advance_closeUnit_error last, record] at ended
    split at ended
    · cases ended
    · next notFatal =>
      cases ended
      refine ⟨[.unitOpened name] ++ inner₁ ++ inner₂, inner₁ ++ inner₂, report₁, (c₁, s₁), ?_, ?_,
        begun, ?_⟩
      · rw [compile_eq, bind_ok begun', advance_closeUnit_error last', record, if_neg notFatal]
        rfl
      · exact fun k hk => (mem_append.1 hk).elim (isInner₁ k) (isInner₂ k)
      · rw [Ending, last]
        exact ⟨rfl, none, by simp⟩

def succeeds (r : EStateM.Result CompileError (Context × σ) α) : Bool :=
  match r with
  | .ok _ _ => true
  | .error _ _ => false

lemma exists_of_succeeds {r : EStateM.Result CompileError (Context × σ) α}
    (h : succeeds r = true) : ∃ a s, r = .ok a s := by
  cases r with
  | ok a s => exact ⟨a, s, rfl⟩
  | error e s => cases h

def looping : Hook where
  name := "looping"
  expandTerm _ := none
  expandGoal g :=
    if g = .atom "loop" then some (.atom "pool")
    else if g = .atom "pool" then some (.atom "loop")
    else none

/-- What becomes of a text with that rule: the summary of its unit, and the openings and closings. -/
def fateOf (text : String) : Option (Option UnitSummary × List Call) :=
  match compile EventLog.observer.noted 20 "unit" (.ofText text)
      ((Context.new .standard .standard).addHook looping, .empty, []) with
  | .ok report (_, _, calls) => some (report.summary, calls.filter (!·.isInner))
  | .error _ _ => none

/-- A unit with a goal that is put off to its end. -/
theorem compile_calls_initialization :
    let text := "q.\n:- initialization(q).\nr.\n"
    let c := (Context.new .standard .standard).addHook looping
    ∃ report c' s' calls inner report₁ s₁,
      compile EventLog.observer 20 "unit" (.ofText text) (c, .empty) = .ok report (c', s') ∧
      compile EventLog.observer.noted 20 "unit" (.ofText text) (c, .empty, []) =
        .ok report (c', s', calls) ∧
      (∀ k ∈ inner, k.isInner = true) ∧
      begin EventLog.observer 20 "unit" (.ofText text) (c, .empty) = .ok report₁ s₁ ∧
      Ending EventLog.observer 20 report₁ s₁ report "unit" inner calls := by
  intro text c
  have ok : succeeds (compile EventLog.observer 20 "unit" (.ofText text) (c, .empty)) = true := by
    rw [compile_eq_stages]
    decide +kernel
  obtain ⟨report, ⟨c', s'⟩, ok⟩ := exists_of_succeeds ok
  obtain ⟨calls, inner, report₁, s₁, noted, isInner, begun, ending⟩ := compile_calls ok
  exact ⟨report, c', s', calls, inner, report₁, s₁, ok, noted, isInner, begun, ending⟩

/-- Of this unit only the opening is told. -/
theorem compile_loses_closing :
    fateOf "q.\n:- initialization(q).\nr.\n" =
      some (some ⟨"unit", [⟨"q", 0⟩, ⟨"r", 0⟩], 2⟩,
        [.unitOpened "unit", .unitClosed ⟨"unit", [⟨"q", 0⟩, ⟨"r", 0⟩], 2⟩]) ∧
    fateOf "q.\n:- initialization(loop).\nr.\n" = some (none, [.unitOpened "unit"]) := by
  simp only [fateOf, compile_eq_stages]
  decide +kernel

end SourceUnit

end Horn
