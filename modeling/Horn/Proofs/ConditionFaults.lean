import Horn.Proofs.CallableGoals
import Horn.Proofs.ConditionalBlocks

/-!
# Conditions that cannot be decided

An `if` without an answer opens no frame, so the unit has one frame less than its text has open
blocks.
-/

namespace Horn

open List Compiling EventLog Text

variable {σ α β : Type} {f : Conditional.Fault} {position : Position} {t : Term}

variable {undecided : Prop} {last : List Conditional.Word} {text : String}

namespace Conditional

variable {words words' opened opened' : List Word} {r : ReadTerm} {rs : List ReadTerm}

lemma followsAll_of_wellNested (h : WellNested rs) : FollowsAll [] rs [] := by
  let oracle : Oracle := fun _ _ => true
  obtain ⟨acts, whole⟩ := passAll_wellNested oracle h
  rcases passAll_cases oracle rs [] [] with ⟨frames, acts', run, follows⟩ |
    ⟨before, r, after, d, frames, acts', fault, rfl, run, -, -, refused⟩
  · cases whole.symm.trans run
    exact follows
  · refine absurd ⟨after, ?_⟩ (not_begins_of_refused oracle run refused)
    rwa [append_assoc]

lemma FollowsAll.of_append {more : List ReadTerm} (h : FollowsAll words (rs ++ more) words') :
    ∃ between, FollowsAll words rs between ∧ FollowsAll between more words' := by
  induction rs generalizing words with
  | nil => exact ⟨words, .nil, h⟩
  | cons r rs ih =>
    cases h with
    | cons first others =>
      obtain ⟨between, here, there⟩ := ih others
      exact ⟨between, .cons first here, there⟩

lemma followsAll_of_begins (h : Begins rs) : ∃ words, FollowsAll [] rs words := by
  obtain ⟨more, nested⟩ := h
  obtain ⟨words, here, -⟩ := (followsAll_of_wellNested nested).of_append
  exact ⟨words, here⟩

def Matches : List Word → List Word → Prop :=
  List.Forall₂ fun word word' => ∀ next : Word, next.mayFollow word = next.mayFollow word'

lemma Word.mayFollow_elif {word : Word} (h : Word.elif.mayFollow word = true) (next : Word) :
    next.mayFollow .elif = next.mayFollow word := by
  cases word with
  | opening => cases next <;> rfl
  | elif => rfl
  | otherwise | endif => cases h

namespace Follows

section

variable (h : Follows words r words')

include h

lemma matched (h' : Follows opened r opened') (same : Matches words opened) :
    Matches words' opened' := by
  cases h <;> cases h' <;> simp_all [Matches]

lemma length_lt (h' : Follows opened r opened') (lt : opened.length < words.length) :
    opened'.length < words'.length := by
  cases h <;> cases h' <;> simp_all

lemma exists_of_matches (same : Matches words opened) : ∃ opened', Follows opened r opened' := by
  cases h with
  | plain plain => exact ⟨_, .plain plain⟩
  | opening opens => exact ⟨_, .opening opens⟩
  | elif opens follows =>
    cases same with
    | cons row _ => exact ⟨_, .elif opens (row _ ▸ follows)⟩
  | otherwise opens follows =>
    cases same with
    | cons row _ => exact ⟨_, .otherwise opens (row _ ▸ follows)⟩
  | endif ends follows =>
    cases same with
    | cons row _ => exact ⟨_, .endif ends (row _ ▸ follows)⟩

lemma of_opening (opens : Directive.ofTerm? r.term = some (.opening t)) :
    words' = .opening :: words := by
  cases h <;> simp_all

lemma of_elif (opens : Directive.ofTerm? r.term = some (.elif t)) :
    words'.length = words.length ∧ (Matches words opened → Matches words' opened) := by
  cases h with
  | elif _ follows =>
    refine ⟨rfl, fun same => ?_⟩
    cases same with
    | cons row others =>
      exact .cons (fun next => (Word.mayFollow_elif follows next).trans (row next)) others
  | _ => simp_all

end

end Follows

section Moves

variable {frames frames' : Frames} {d : Directive} {next : Bool → Frames}

lemma follows_of_result (oracle : Oracle) {acts : List Act}
    (found : Directive.ofTerm? r.term = some d)
    (ran : (frames.move d r.position).result oracle r.position [] = .ok frames' acts) :
    Follows frames.words r frames'.words := by
  rw [← Frames.pass_directive found] at ran
  rcases pass_cases oracle frames r [] with ⟨_, _, passed, follows⟩ | ⟨_, _, -, refused⟩
  · cases ran.symm.trans passed
    exact follows
  · cases ran.symm.trans refused

lemma not_refused (found : Directive.ofTerm? r.term = some d)
    (follows : Follows frames.words r opened) (fault : Fault) :
    frames.move d r.position ≠ .refuse fault := by
  intro refused
  have pass : frames.pass (fun _ _ => true) r [] = .error (.conditional fault r.position) [] := by
    rw [Frames.pass_directive found, refused]
    rfl
  generalize isOpen : frames.words = before at follows
  cases follows with
  | plain plain => cases found.symm.trans plain
  | opening opens =>
    rw [pass_opening opens] at pass
    split at pass <;> cases pass
  | elif opens follows =>
    cases frames with
    | nil => cases isOpen
    | cons top frames =>
      cases isOpen
      rw [pass_elif opens follows] at pass
      split at pass <;> cases pass
  | otherwise opens follows =>
    cases frames with
    | nil => cases isOpen
    | cons top frames =>
      cases isOpen
      rw [pass_otherwise opens follows] at pass
      cases pass
  | endif ends follows =>
    cases frames with
    | nil => cases isOpen
    | cons top frames =>
      cases isOpen
      rw [pass_endif ends follows] at pass
      cases pass

lemma of_ask (moved : frames.move d r.position = .ask t next) :
    (d = .opening t ∧ frames.isSkipping = false) ∨ d = .elif t := by
  unfold Frames.move at moved
  split at moved
  · split at moved
    · cases moved
    · next running =>
      cases moved
      exact .inl ⟨rfl, Bool.eq_false_iff.2 running⟩
  · split at moved
    · cases moved
    · split at moved
      · cases moved
      · split at moved
        · cases moved
        · cases moved
        · split at moved
          · cases moved
            exact .inr rfl
          · cases moved
        · cases moved

end Moves

end Conditional

open Compiling (seen resumed)
open Conditional (Follows FollowsAll Matches)

/-- An `if` that is not skipped, with the state in which its turn comes, where its condition has no
answer. -/
def Undecided (o : Observer σ) (v : ReadTerm × Context × σ) : Prop :=
  ∃ t e x, Conditional.Directive.ofTerm? v.1.term = some (.opening t) ∧ v.2.1.isSkipping = false ∧
    o.condition t (seen v.2) = .error e x

def Compiling.Passes (x : Compiling σ α) (s s' : Context × σ) : Prop :=
  (∃ a, x s = .ok a s') ∨ ∃ e, x s = .error e s' ∧ e.isFatal = false

namespace Preparation

variable {o : Observer σ} {fuel : Nat} {r : ReadTerm} {s s' : Context × σ}

def made (o : Observer σ) (fuel : Nat) (r : ReadTerm) : Compiling σ (List Output) := do
  let ts ← located r.position (Expansion.terms o r.term)
  allExpanded o fuel (ts.map fun t => { r with term := t })

lemma ensures_made (r : ReadTerm) : (Limits.unconditional o).Ensures (Clauses fun _ => True)
    (made o fuel r) (made o fuel r) :=
  ((Expansion.bounds_terms (fun _ => Unconditional.ask .expandTerm) r.term).located
    r.position).bind fun _ _ => bounds_allExpanded o fuel _

lemma plain_passes (plain : Conditional.Directive.ofTerm? r.term = none)
    (passes : (term o fuel r).Passes s s') : s'.1.conditionals = s.1.conditionals := by
  unfold Passes at passes
  rw [term_plain o plain] at passes
  split at passes
  · rcases passes with ⟨_, ran⟩ | ⟨_, failed, -⟩
    · cases ran
      rfl
    · cases failed
  · rcases passes with ⟨_, ran⟩ | ⟨_, failed, -⟩
    · exact ((ensures_made r).of_ok trivial ran).1.1
    · exact ((ensures_made r).of_error trivial failed).1.1

lemma undecided_iff {d : Conditional.Directive}
    (found : Conditional.Directive.ofTerm? r.term = some d) :
    Undecided o (r, s) ↔ ∃ t next e x, d = .opening t ∧
      s.1.conditionals.move d r.position = .ask t next ∧ o.condition t (seen s) = .error e x := by
  constructor
  · rintro ⟨t, e, x, opens, running, failed⟩
    cases found.symm.trans opens
    exact ⟨t, _, e, x, rfl, if_neg (Bool.eq_false_iff.1 running), failed⟩
  · rintro ⟨t, next, e, x, rfl, moved, failed⟩
    rcases Conditional.of_ask moved with ⟨-, running⟩ | impossible
    · exact ⟨t, e, x, found, running, failed⟩
    · cases impossible

lemma term_passes (passes : (term o fuel r).Passes s s') :
    (Follows s.1.conditionals.words r s'.1.conditionals.words ∧ ¬Undecided o (r, s)) ∨
    (s'.1.conditionals = s.1.conditionals ∧
      ((∃ t, Conditional.Directive.ofTerm? r.term = some (.elif t)) ∨ Undecided o (r, s))) := by
  cases found : Conditional.Directive.ofTerm? r.term with
  | none =>
    rw [plain_passes found passes]
    refine .inl ⟨.plain found, ?_⟩
    rintro ⟨t, e, x, opens, -⟩
    cases found.symm.trans opens
  | some d =>
    rw [undecided_iff found]
    unfold Passes at passes
    rw [term_directive o found] at passes
    rcases passes with ⟨_, ran⟩ | ⟨e, failed, mild⟩
    · rcases ok_of_decided ran with ⟨frames, moved, rfl⟩ | ⟨t, next, holds, x, moved, asked, rfl⟩
      · have follows := Conditional.follows_of_result (fun _ _ => true) found (by rw [moved]; rfl)
        refine .inl ⟨follows, ?_⟩
        rintro ⟨_, _, _, _, rfl, asks, -⟩
        cases moved.symm.trans asks
      · have follows := Conditional.follows_of_result (fun _ _ => holds) found (by rw [moved]; rfl)
        refine .inl ⟨follows, ?_⟩
        rintro ⟨_, _, _, _, rfl, asks, failed⟩
        cases moved.symm.trans asks
        cases asked.symm.trans failed
    · rcases error_of_decided failed with ⟨fault, -, rfl, -⟩ | ⟨t, next, x, moved, asked, rfl⟩
      · cases mild
      · refine .inr ⟨rfl, ?_⟩
        rcases Conditional.of_ask moved with ⟨rfl, -⟩ | rfl
        · exact .inr ⟨t, next, e, x, rfl, moved, asked⟩
        · exact .inl ⟨t, rfl⟩

lemma term_conditional (failed : term o fuel r s = .error (.conditional f position) s') :
    o.Raises (.conditional f position) (seen s') ∨
      ∃ d fault, Conditional.Directive.ofTerm? r.term = some d ∧
        s.1.conditionals.move d r.position = .refuse fault := by
  cases found : Conditional.Directive.ofTerm? r.term with
  | none =>
    rw [term_plain o found] at failed
    split at failed
    · cases failed
    · exact .inl (((ensures_made r).of_error trivial failed).2.2 f position rfl)
  | some d =>
    rw [term_directive o found] at failed
    rcases error_of_decided failed with ⟨fault, moved, -⟩ | ⟨t, next, x, -, asked, rfl⟩
    · exact .inr ⟨d, fault, rfl, moved⟩
    · exact .inl (.condition asked)

end Preparation

namespace SourceUnit

variable {o : Observer σ} {fuel : Nat} {report report' : UnitReport} {s s' : Context × σ}
  {e : CompileError} {vs : List (ReadTerm × Context × σ)} {x : Compiling σ (List Output)}
  {next : ForInStep UnitReport} {v : ReadTerm × Context × σ}

lemma lowers_unconditional (p : PreparedClause) :
    p.Lowers fun e => ∀ s, (Limits.unconditional o).error s e := by
  have goals {e : CompileError} (h : p.clause.body.mapM BodyGoal.ofTerm = .error e) :
      ∀ s, (Limits.unconditional o).error s e := by
    obtain ⟨t, -, failed⟩ := mapM_error h
    obtain ⟨-, rfl⟩ := BodyGoal.ofTerm_error failed
    exact fun _ => nofun
  constructor
  · intro e _ failed
    rcases PreparedClause.compileQuery_error failed with failed | ⟨rfl, -⟩
    · exact goals failed
    · exact fun _ => nofun
  · intro chainRule e _ failed
    rcases PreparedClause.compileClause_error failed with failed | ⟨⟨_, rfl⟩, -⟩
    · exact goals failed
    · exact fun _ => nofun

lemma bounds_dispatchAll (outputs : List Output) : (Limits.unconditional o).Bounds
    (dispatchAll o report outputs) (dispatchAll o report outputs) := by
  refine ensures_dispatchAll (R := fun _ => True) (fun report x _ _ => ?_) (fun _ _ => trivial) trivial
  cases x with
  | unitClosed u => exact fun s _ => .ok (L := .unconditional o) trivial ⟨rfl, rfl⟩ trivial
  | clause p =>
    exact ensures_dispatch ⟨id, id, fun _ => id⟩ (fun _ => Unconditional.ask .queryCompiled)
      (fun _ => Unconditional.ask .clauseCompiled) (lowers_unconditional p) trivial

lemma advance_ok (ran : advance o report x s = .ok report' s') :
    ∃ s₁, x.Passes s s₁ ∧ s'.1.conditionals = s₁.1.conditionals := by
  cases stepped : x s with
  | ok outputs s₁ =>
    rw [advance_of_ok stepped] at ran
    exact ⟨s₁, .inl ⟨outputs, stepped⟩, ((bounds_dispatchAll outputs).of_ok trivial ran).1.1⟩
  | error e s₁ =>
    have tried : attempt x s = .ok (.error e) s₁ := by rw [attempt, stepped]
    rw [advance, bind_ok tried] at ran
    dsimp only [record] at ran
    split at ran
    · cases ran
    · next mild =>
      cases ran
      exact ⟨s', .inr ⟨e, stepped, Bool.eq_false_iff.2 mild⟩, rfl⟩

lemma advance_error (failed : advance o report x s = .error e s') :
    x s = .error e s' ∨ (Limits.unconditional o).error s' e := by
  cases stepped : x s with
  | ok outputs s₁ =>
    rw [advance_of_ok stepped] at failed
    exact .inr ((bounds_dispatchAll outputs).of_error trivial failed).2.2
  | error e₁ s₁ =>
    have tried : attempt x s = .ok (.error e₁) s₁ := by rw [attempt, stepped]
    rw [advance, bind_ok tried] at failed
    dsimp only [record] at failed
    split at failed
    · cases failed
      exact .inl rfl
    · cases failed

def InStep (o : Observer σ) (undecided : Prop) (last : List Conditional.Word)
    (vs : List (ReadTerm × Context × σ)) (s : Context × σ) : Prop :=
  ∃ words, FollowsAll words (vs.map (·.1)) last ∧ (∀ v ∈ vs, Undecided o v → undecided) ∧
    ((Matches words s.1.conditionals.words ∧ (undecided → ∃ v ∈ vs, Undecided o v)) ∨
      (undecided ∧ s.1.conditionals.words.length < words.length))

lemma readOne_passes {r : ReadTerm} (ran : readOne o fuel report (.ok r) s = .ok next s') :
    (Follows s.1.conditionals.words r s'.1.conditionals.words ∧ ¬Undecided o (r, s)) ∨
    (s'.1.conditionals = s.1.conditionals ∧
      ((∃ t, Conditional.Directive.ofTerm? r.term = some (.elif t)) ∨ Undecided o (r, s))) := by
  unfold readOne at ran
  dsimp only at ran
  split at ran
  · next ends =>
    cases ran
    have plain : Conditional.Directive.ofTerm? r.term = none := by
      generalize r.term = t at ends
      cases t with
      | atom a => rfl
      | _ => cases ends
    refine .inl ⟨.plain plain, ?_⟩
    rintro ⟨t, e, x, opens, -⟩
    cases plain.symm.trans opens
  · obtain ⟨report', s₁, advanced, ran⟩ := ok_of_bind ran
    cases ran
    obtain ⟨s₂, passes, same⟩ := advance_ok advanced
    rw [same]
    exact Preparation.term_passes passes

lemma readOne_inStep (before : InStep o undecided last (v :: vs) v.2)
    (ran : readOne o fuel report (.ok v.1) v.2 = .ok next s') : InStep o undecided last vs s' := by
  obtain ⟨r, s⟩ := v
  obtain ⟨words, follows, all, state⟩ := before
  obtain ⟨known, all⟩ := forall_mem_cons.1 all
  -- An `if` without an answer that is still to come is a later one, unless it is this.
  have later (decided : ¬Undecided o (r, s)) (h : ∃ v ∈ (r, s) :: vs, Undecided o v) :
      ∃ v ∈ vs, Undecided o v := by
    obtain ⟨v, hv, failed⟩ := h
    rcases mem_cons.1 hv with rfl | hv
    · exact absurd failed decided
    · exact ⟨v, hv, failed⟩
  cases follows with
  | @cons _ words' _ _ _ first others =>
    refine ⟨words', others, all, ?_⟩
    rcases readOne_passes ran with ⟨follows, decided⟩ | ⟨same, ⟨t, elif⟩ | failed⟩
    · rcases state with ⟨matched, coming⟩ | ⟨found, fewer⟩
      · exact .inl ⟨first.matched follows matched, later decided ∘ coming⟩
      · exact .inr ⟨found, first.length_lt follows fewer⟩
    · obtain ⟨length, still⟩ := first.of_elif elif
      rw [same]
      rcases state with ⟨matched, coming⟩ | ⟨found, fewer⟩
      · refine .inl ⟨still matched, later ?_ ∘ coming⟩
        rintro ⟨t', e, x, opens, -⟩
        cases elif.symm.trans opens
      · exact .inr ⟨found, length ▸ fewer⟩
    · have ⟨t, e, x, opens, _⟩ := failed
      obtain rfl := first.of_opening opens
      rw [same]
      refine .inr ⟨known failed, ?_⟩
      rcases state with ⟨matched, -⟩ | ⟨-, fewer⟩
      · rw [length_cons, matched.length_eq]
        exact Nat.lt_succ_self _
      · exact Nat.lt_succ_of_lt fewer

lemma readOne_conditional (before : InStep o undecided last (v :: vs) v.2)
    (failed : readOne o fuel report (.ok v.1) v.2 = .error (.conditional f position) s') :
    o.Raises (.conditional f position) (seen s') ∨ undecided := by
  obtain ⟨words, follows, -, ⟨matched, -⟩ | ⟨found, -⟩⟩ := before
  · unfold readOne at failed
    dsimp only at failed
    split at failed
    · cases failed
    · rcases error_of_bind failed with failed | ⟨_, _, -, failed⟩
      · rcases advance_error failed with failed | raised
        · rcases Preparation.term_conditional failed with raised | ⟨d, fault, found, refused⟩
          · exact .inl raised
          · cases follows with
            | cons first others =>
              obtain ⟨opened, follows⟩ := first.exists_of_matches matched
              exact absurd refused (Conditional.not_refused found follows fault)
        · exact .inl (raised f position rfl)
      · cases failed
  · exact .inr found

lemma inStep_end (h : InStep o undecided [] [] s) : s.1.conditionals = [] ∧ ¬undecided := by
  obtain ⟨words, follows, -, state⟩ := h
  cases follows
  rcases state with ⟨matched, later⟩ | ⟨-, fewer⟩
  · refine ⟨map_eq_nil_iff.1 (forall₂_nil_left_iff.1 matched), fun found => ?_⟩
    obtain ⟨v, hv, -⟩ := later found
    cases hv
  · exact absurd fewer (Nat.not_lt_zero _)

lemma closeUnit_error (none : s.1.conditionals = [])
    (failed : Preparation.closeUnit o fuel s = .error e s') :
    (Limits.unconditional o).error s' e := by
  rw [Preparation.closeUnit_eq] at failed
  rcases error_of_bind failed with failed | ⟨_, _, -, failed⟩
  · unfold Preparation.ensuring at failed
    cases last : Preparation.lastGoals o fuel s with
    | ok outputs s₁ =>
      rw [last] at failed
      cases failed
    | error e₁ s₁ =>
      rw [last] at failed
      cases failed
      change (ofExcept s.1.conditionals.finish >>= fun _ =>
        Preparation.completeAll o fuel s.1.initialization) _ = _ at last
      rw [none] at last
      exact ((Preparation.ensures_completeAll fun p _ => Unconditional.completes fuel p).of_error
        trivial last).2.2
  · cases failed

def termsRead (o : Observer σ) (fuel : Nat) (name : String) (reader : Reader) (s : Context × σ) :
    List ReadTerm :=
  (turns o fuel name reader s).map (·.1)

/-- The conditional directives of a unit are well nested as far as it is read. -/
structure Nested (o : Observer σ) (fuel : Nat) (name : String) (reader : Reader)
    (s : Context × σ) : Prop where
  begins : Conditional.Begins (termsRead o fuel name reader s)
  ends : ∀ report s', begin o fuel name reader s = .ok report s' →
    Conditional.WellNested (termsRead o fuel name reader s)

variable {name : String} {reader : Reader}

lemma begin_reached (follows : FollowsAll [] (termsRead o fuel name reader s) last) :
    Reached o fuel
      (fun vs _ => InStep o (∃ v ∈ visits o fuel name reader s, Undecided o v) last vs)
      (begin o fuel name reader s) := by
  rw [termsRead, turns, map_map] at follows
  refine forEach_reached (s := (_, _)) (fun v vs report next s' => readOne_inStep)
    (fun _ _ _ _ => id) _ _ ?_
  exact ⟨[], follows, fun v hv failed => ⟨v, hv, failed⟩, .inl ⟨.nil, id⟩⟩

/-- A unit whose conditional directives are well nested ends with a conditional error only if the
observer gives it at last, or some `if` that is not skipped has no answer. With such an `if` it is never
compiled to its end. What an `elif` has for an answer makes no difference. -/
theorem compile_conditional (nested : Nested o fuel name reader s) :
    (∀ f position s', compile o fuel name reader s = .error (.conditional f position) s' →
      o.Raises (.conditional f position) (seen s') ∨
        ∃ v ∈ visits o fuel name reader s, Undecided o v) ∧
    ((∃ v ∈ visits o fuel name reader s, Undecided o v) →
      ∀ report s', compile o fuel name reader s ≠ .ok report s') := by
  rw [compile_eq]
  have ended {report : UnitReport} {s₁ : Context × σ}
      (begun : begin o fuel name reader s = .ok report s₁) :
      s₁.1.conditionals = [] ∧ ¬∃ v ∈ visits o fuel name reader s, Undecided o v := by
    have whole := Conditional.followsAll_of_wellNested (nested.ends report s₁ begun)
    cases begun ▸ begin_reached whole with
    | ended h => exact inStep_end h
  constructor
  · intro f position s' failed
    rcases error_of_bind failed with failed | ⟨report, s₁, begun, failed⟩
    · obtain ⟨words, follows⟩ := Conditional.followsAll_of_begins nested.begins
      cases failed ▸ begin_reached follows with
      | stopped h failed => exact readOne_conditional h failed
    · have raised : (Limits.unconditional o).error s' (.conditional f position) := by
        rcases advance_error failed with failed | raised
        · exact closeUnit_error (ended begun).1 failed
        · exact raised
      exact .inl (raised f position rfl)
  · intro found report s' ran
    obtain ⟨report₁, s₁, begun, -⟩ := ok_of_bind ran
    exact (ended begun).2 found

lemma eventLog_quiet (f : Conditional.Fault) (position : Position) (y : OperatorTable × EventLog) :
    ¬observer.Raises (.conditional f position) y := by
  intro raised
  cases raised with
  | clauseCompiled h | queryCompiled h => cases h
  | @condition t x h =>
    cases answer : Conditional.evaluateStatic x.1 t with
    | ok holds =>
      cases h.symm.trans (condition_ok x.2 answer)
    | error e =>
      cases h.symm.trans (condition_error x.2 answer)
      obtain ⟨_, _, _, other⟩ := Conditional.evaluateStatic_error answer
      cases other
  | expandTerm h | expandGoal h => cases h

def termsOf (text : String) : List ReadTerm :=
  termsRead observer 20 "unit" (.ofText text) (.new .standard .standard, .empty)

lemma nested_of_blocks (blocks : Conditional.Blocks) (terms : termsOf text = blocks.terms) :
    Nested observer 20 "unit" (.ofText text) (.new .standard .standard, .empty) := by
  have whole : Conditional.WellNested (termsOf text) := ⟨blocks, terms.symm⟩
  exact ⟨⟨[], by rwa [append_nil]⟩, fun _ _ _ => whole⟩

def undecidedIf : Conditional.Blocks :=
  .block ⟨.compound ":-" [.compound "if" [.atom "foo"]], ⟨1, 1⟩, []⟩ (.atom "foo") rfl .nil
    (.endif ⟨.compound ":-" [.atom "endif"], ⟨2, 1⟩, []⟩ rfl) .nil

lemma nested_undecidedIf : Nested observer 20 "unit" (.ofText ":- if(foo).\n:- endif.\n")
    (.new .standard .standard, .empty) :=
  nested_of_blocks undecidedIf <| by
    simp only [termsOf, termsRead, turns, visits, readOne_eq_stages]
    decide +kernel

def undecidedElif : Conditional.Blocks :=
  .block ⟨.compound ":-" [.compound "if" [.atom "fail"]], ⟨1, 1⟩, []⟩ (.atom "fail") rfl .nil
    (.elif ⟨.compound ":-" [.compound "elif" [.atom "foo"]], ⟨2, 1⟩, []⟩ (.atom "foo") rfl .nil
      (.otherwise ⟨.compound ":-" [.atom "else"], ⟨3, 1⟩, []⟩ rfl
        (.term ⟨.atom "q", ⟨4, 1⟩, []⟩ rfl .nil)
        ⟨.compound ":-" [.atom "endif"], ⟨5, 1⟩, []⟩ rfl)) .nil

def endOf (text : String) : Option CompileError :=
  match compile observer 20 "unit" (.ofText text) (.new .standard .standard, .empty) with
  | .ok _ _ => none
  | .error e _ => some e

lemma endOf_eq_some (h : endOf text = some e) :
    ∃ s', compile observer 20 "unit" (.ofText text) (.new .standard .standard, .empty) =
      .error e s' := by
  unfold endOf at h
  split at h
  · cases h
  · next ended =>
    cases h
    exact ⟨_, ended⟩

lemma endOf_eq_none (h : endOf text = none) : ∃ report s',
    compile observer 20 "unit" (.ofText text) (.new .standard .standard, .empty) =
      .ok report s' := by
  unfold endOf at h
  split at h
  · next ran => exact ⟨_, _, ran⟩
  · cases h

lemma endOf_undecidedIf :
    endOf ":- if(foo).\n:- endif.\n" = some (.conditional (.unmatched .endif) ⟨2, 1⟩) := by
  rw [endOf, compile_eq_stages]
  decide +kernel

/-- An `if` and an `elif` without an answer. -/
theorem compile_conditional_undecided :
    let s : Context × EventLog := (.new .standard .standard, .empty)
    let first := Reader.ofText ":- if(foo).\n:- endif.\n"
    let second := Reader.ofText ":- if(fail).\n:- elif(foo).\n:- else.\nq.\n:- endif.\n"
    Nested EventLog.observer 20 "unit" first s ∧
      Nested EventLog.observer 20 "unit" second s ∧
      (∃ v ∈ visits EventLog.observer 20 "unit" first s, Undecided EventLog.observer v) ∧
      ¬∃ v ∈ visits EventLog.observer 20 "unit" second s, Undecided EventLog.observer v := by
  intro s first second
  have nested : Nested observer 20 "unit" second s :=
    nested_of_blocks undecidedElif <| by
      simp only [termsOf, termsRead, turns, visits, readOne_eq_stages]
      decide +kernel
  have goesOn : endOf ":- if(fail).\n:- elif(foo).\n:- else.\nq.\n:- endif.\n" = none := by
    rw [endOf, compile_eq_stages]
    decide +kernel
  obtain ⟨s', failed⟩ := endOf_eq_some endOf_undecidedIf
  obtain ⟨report, s'', ran⟩ := endOf_eq_none goesOn
  have found := (compile_conditional nested_undecidedIf).1 _ _ s' failed
  exact ⟨nested_undecidedIf, nested, found.resolve_left (eventLog_quiet _ _ _),
    fun found => (compile_conditional nested).2 found report s'' ran⟩

/-- The `endif` of a well nested text finds no block open where the condition of its `if` has no
answer. -/
theorem compile_misses_if :
    Nested EventLog.observer 20 "unit" (.ofText ":- if(foo).\n:- endif.\n")
        (.new .standard .standard, .empty) ∧
      endOf ":- if(foo).\n:- endif.\n" = some (.conditional (.unmatched .endif) ⟨2, 1⟩) :=
  ⟨nested_undecidedIf, endOf_undecidedIf⟩

end SourceUnit

end Horn
