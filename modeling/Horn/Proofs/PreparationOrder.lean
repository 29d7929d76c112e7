import Horn.Proofs.NestedExpansion

/-! # The order of preparation -/

namespace Horn

open List Compiling EventLog Expansion Text Conditional

variable {σ α β : Type}

namespace Compiling

variable {s : Context × σ} {x : Compiling σ α}

lemma Stable.ended_bind {x : Nat → Compiling σ α} {f : Nat → α → Compiling σ β}
    (hx : Stable fun n => x n s) (hf : ∀ a s', Stable fun n => f n a s')
    (first : ∃ n, Ended (x n s)) (next : ∀ n a s', x n s = .ok a s' → ∃ m, Ended (f m a s')) :
    ∃ n, Ended ((x n >>= f n) s) := by
  obtain ⟨n, first⟩ := first
  cases ran : x n s with
  | error e s' => exact ⟨n, first.bind fun _ _ ok => by rw [ran] at ok; cases ok⟩
  | ok a s' =>
    obtain ⟨m, second⟩ := next n a s' ran
    have enough := hx.eq_of_le first (Nat.le_max_left n m)
    refine ⟨max n m, ?_⟩
    rw [bind_ok (enough.trans ran), (hf a s').eq_of_le second (Nat.le_max_right n m)]
    exact second

def unspent : Limits σ σ where
  view := id
  invariant _ := True
  change _ _ := True
  error _ e := e ≠ .outOfFuel
  refl _ := trivial
  trans _ _ := trivial
  located {_ e} position enough := by
    cases e with
    | outOfFuel => exact absurd rfl enough
    | _ => exact nofun

lemma unspent_preparing (o : Observer σ) : unspent.Preparing (fun _ => True) o o where
  edit _ _ := ⟨trivial, trivial⟩
  defer _ _ _ := ⟨trivial, trivial⟩
  declared _ _ _ := .ok (L := unspent) trivial trivial trivial
  warned _ _ _ := .ok (L := unspent) trivial trivial trivial
  source _ _ _ _ := nofun

lemma ended_of_ensures {P : α → Prop} (h : unspent.Ensures P x x) (s : Context × σ) :
    Ended (x s) := by
  intro s' spent
  exact (h.of_error trivial spent).2.2 rfl

lemma ended_error {e : CompileError} :
    Ended (.error e s : EStateM.Result CompileError (Context × σ) α) ↔ e ≠ .outOfFuel := by
  simp [Ended]

lemma ended_located {position : Position} : Ended (located position x s) ↔ Ended (x s) := by
  unfold located
  cases x s with
  | ok a s' => exact ⟨fun _ => .ok a s', fun _ => .ok a s'⟩
  | error e s' =>
    rw [ended_error, ended_error]
    cases e <;> simp [CompileError.withPosition]

end Compiling

open Compiling (Ended Stable ended_of_ensures ended_error ended_located unspent_preparing)

def Observer.ReturnsTerms (o : Observer σ) : Prop := ∀ t x y, o.expandTerm t x ≠ .error .outOfFuel y

namespace Expansion

variable (o : Observer σ)

lemma stable_located (position : Position) (hooks : List Hook) (rounds : Nat) (t : Term)
    (s : Context × σ) : Stable fun n => located position (goal o hooks rounds n t) s := by
  intro n ended
  have same := stable_goal o hooks rounds t s n (ended_located.1 ended)
  simp only [located, same]

lemma bodyGoals_cons (fuel : Nat) (position : Position) (nextId : Nat) (t : Term)
    (ts : List Term) (s : Context × σ) :
    bodyGoals o fuel position nextId (t :: ts) s =
      (located position (goal o s.1.hooks s.1.config.maxExpansionDepth fuel t) >>=
        fun t' => bodyGoals o fuel position (renameIntroduced t t' nextId).2 ts >>=
          fun more => pure ((renameIntroduced t t' nextId).1.conjuncts ++ more)) s := rfl

lemma stable_bodyGoals (position : Position) (nextId : Nat) (ts : List Term)
    (s : Context × σ) : Stable fun n => bodyGoals o n position nextId ts s := by
  intro n
  induction ts generalizing nextId s with
  | nil => exact fun _ => rfl
  | cons t ts ih =>
    simp only [bodyGoals_cons]
    intro ended
    exact ended.bind_eq (stable_located o position _ _ t s n) fun t' s₁ _ ended =>
      ended.bind_eq (ih _ _) fun _ _ _ _ => rfl

lemma stable_clause (c : Clause) (s : Context × σ) : Stable fun n => clause o n c s :=
  fun n ended => ended.bind_eq (stable_bodyGoals o _ _ _ s n) fun _ _ _ _ => rfl

/-- The turn of a goal comes in a state: those before it are expanded, which leads to the state. -/
inductive GoalTurn (position : Text.Position) : Nat → List Term → Context × σ → Term → Context × σ →
    Prop where
  | now {nextId : Nat} {t : Term} {ts : List Term} {s : Context × σ} :
      GoalTurn position nextId (t :: ts) s t s
  | later {nextId n : Nat} {t t' g : Term} {ts : List Term} {s s₁ s' : Context × σ}
      (first : Compiling.located position
        (goal o s.1.hooks s.1.config.maxExpansionDepth n t) s = .ok t' s₁)
      (turn : GoalTurn position (renameIntroduced t t' nextId).2 ts s₁ g s') :
      GoalTurn position nextId (t :: ts) s g s'

variable {o} {position : Position} {nextId : Nat} {ts : List Term} {s s' : Context × σ}

lemma ended_goalTurn {fuel : Nat} {g : Term} (turn : GoalTurn o position nextId ts s g s')
    (ended : Ended (bodyGoals o fuel position nextId ts s)) :
    Ended (goal o s'.1.hooks s'.1.config.maxExpansionDepth fuel g s') := by
  induction turn with
  | now =>
    rw [bodyGoals_cons] at ended
    exact ended_located.1 ended.first
  | @later nextId n t t' g ts s s₁ s' first turn ih =>
    rw [bodyGoals_cons] at ended
    have same := (stable_located o position s.1.hooks s.1.config.maxExpansionDepth t s).unique
      ended.first (m := n) (first ▸ Ended.ok t' s₁)
    exact ih (ended.next (same.trans first)).first

lemma ended_bodyGoals
    (each : ∀ g s', GoalTurn o position nextId ts s g s' →
      ∃ n, Ended (goal o s'.1.hooks s'.1.config.maxExpansionDepth n g s')) :
    ∃ n, Ended (bodyGoals o n position nextId ts s) := by
  induction ts generalizing nextId s with
  | nil => exact ⟨0, .ok [] s⟩
  | cons t ts ih =>
    obtain ⟨n, first⟩ := each t s .now
    simp only [bodyGoals_cons]
    refine Stable.ended_bind (stable_located o position s.1.hooks _ t s) (fun t' s₁ m ended => ?_)
      ⟨n, ended_located.2 first⟩ fun n t' s₁ ran => ?_
    · exact ended.bind_eq (stable_bodyGoals o position _ ts s₁ m) fun _ _ _ _ => rfl
    · obtain ⟨m, others⟩ := ih fun g s' turn => each g s' (.later ran turn)
      exact ⟨m, others.bind fun _ _ _ => .ok _ _⟩

lemma ended_clause_iff (returns : o.Returns) (c : Clause) (s : Context × σ) :
    (∃ fuel, Ended (clause o fuel c s)) ↔
      ∀ g s', GoalTurn o c.position c.idBound c.body s g s' →
        Acc (Inner o s'.1.hooks s'.1.config.maxExpansionDepth) (g, s') := by
  constructor
  · rintro ⟨fuel, ended⟩ g s' turn
    exact acc_of_ended fuel g s' (ended_goalTurn turn ended.first)
  · intro acc
    obtain ⟨fuel, ended⟩ := ended_bodyGoals fun g s' turn => ended_of_acc returns (acc g s' turn)
    exact ⟨fuel, ended.bind fun _ _ _ => .ok _ _⟩

lemma inner_nesting (s : Context × EventLog) :
    Inner observer [nesting] 64 (.atom "a", s) (.atom "a", s) := by
  have settled : settle observer [nesting] (unsettledAt 64 (.atom "a")) 64 (.atom "a") s =
      .ok (.compound "call" ([] ++ Term.atom "a" :: [])) s := rfl
  exact .argument settled (by decide) (.nil 0 s)

end Expansion

namespace Preparation

variable (o : Observer σ)

lemma stable_expanded (r : ReadTerm) (s : Context × σ) : Stable fun n => expanded o n r s := by
  intro n ended
  refine ended.bind_eq (fun _ => rfl) fun r' s₁ _ ended => ?_
  refine ended.bind_eq (fun _ => rfl) fun found s₂ _ ended => ?_
  cases found with
  | none => rfl
  | some p =>
    refine ended.bind_eq (fun ended => ?_) fun _ _ _ _ => rfl
    exact ended.bind_eq (stable_clause o p.clause s₂ n) fun _ _ _ _ => rfl

lemma stable_allExpanded (rs : List ReadTerm) (s : Context × σ) :
    Stable fun n => allExpanded o n rs s := by
  intro n
  induction rs generalizing s with
  | nil => exact fun _ => rfl
  | cons r rs ih =>
    intro ended
    exact ended.bind_eq (stable_expanded o r s n) fun _ _ _ ended =>
      ended.bind_eq (ih _) fun _ _ _ _ => rfl

/-- A term goes through grammar translation, classification, goal expansion, marking of built-ins
and keys, from one state to another. -/
inductive Prepares (r : ReadTerm) (s : Context × σ) : List Output → Context × σ → Prop where
  | directive {r' : ReadTerm} {s' : Context × σ} (translated : withoutGrammar r = .ok r')
      (classified : classify o r' s = .ok none s') : Prepares r s [] s'
  | clause {r' : ReadTerm} {p : Pending} {s₁ s₂ : Context × σ} {fuel : Nat} {c : Clause}
      {key : Option SymbolKey} {marks : List GoalMark} {symbols : SymbolTable}
      (translated : withoutGrammar r = .ok r')
      (classified : classify o r' s = .ok (some p) s₁)
      (expanded : Expansion.clause o fuel p.clause s₁ = .ok c s₂)
      (marked : s₂.1.symbols.mark c.mark = (key, marks, symbols)) :
      Prepares r s [.clause ⟨c.mark, key, marks, p.names⟩] ({ s₂.1 with symbols }, s₂.2)

/-- Terms are prepared one after the other, each in the state that the one before it leaves. -/
inductive PreparesAll : List ReadTerm → Context × σ → List Output → Context × σ → Prop where
  | nil (s : Context × σ) : PreparesAll [] s [] s
  | cons {r : ReadTerm} {rs : List ReadTerm} {s s₁ s' : Context × σ} {outputs more : List Output}
      (first : Prepares o r s outputs s₁) (others : PreparesAll rs s₁ more s') :
      PreparesAll (r :: rs) s (outputs ++ more) s'

variable {o} {r : ReadTerm} {rs : List ReadTerm} {s s' : Context × σ} {outputs : List Output}

section Stages

variable {fuel : Nat} {r' : ReadTerm} {p : Pending} {c : Clause} {e : CompileError}

lemma expanded_of_refused (refused : withoutGrammar r = .error e) :
    expanded o fuel r s = .error e s := by
  rw [expanded, refused]
  rfl

lemma expanded_of_fault (translated : withoutGrammar r = .ok r')
    (fault : classify o r' s = .error e s') : expanded o fuel r s = .error e s' := by
  rw [expanded, translated]
  exact (bind_ok rfl).trans (bind_error fault)

lemma expanded_of_directive (translated : withoutGrammar r = .ok r')
    (classified : classify o r' s = .ok none s') : expanded o fuel r s = .ok [] s' := by
  rw [expanded, translated]
  exact bind_ok classified

lemma expanded_of_clause (translated : withoutGrammar r = .ok r')
    (classified : classify o r' s = .ok (some p) s') :
    expanded o fuel r s = (complete o fuel p >>= fun done => pure [.clause done]) s' := by
  rw [expanded, translated]
  exact bind_ok classified

lemma complete_of_ok (ran : clause o fuel p.clause s = .ok c s') :
    complete o fuel p s =
      .ok ⟨c.mark, (s'.1.symbols.mark c.mark).1, (s'.1.symbols.mark c.mark).2.1, p.names⟩
        ({ s'.1 with symbols := (s'.1.symbols.mark c.mark).2.2 }, s'.2) :=
  (bind_ok ran).trans rfl

end Stages

variable {fuel : Nat}

lemma prepares_of_expanded (ran : expanded o fuel r s = .ok outputs s') :
    Prepares o r s outputs s' := by
  cases translated : withoutGrammar r with
  | error e => cases (expanded_of_refused translated).symm.trans ran
  | ok r' =>
    cases classified : classify o r' s with
    | error e s₁ => cases (expanded_of_fault translated classified).symm.trans ran
    | ok found s₁ =>
      cases found with
      | none =>
        cases (expanded_of_directive translated classified).symm.trans ran
        exact .directive translated classified
      | some p =>
        rw [expanded_of_clause translated classified] at ran
        obtain ⟨prepared, s₂, completed, ran⟩ := ok_of_bind ran
        obtain ⟨c, s₃, expanded, -⟩ := ok_of_bind completed
        cases (complete_of_ok expanded).symm.trans completed
        cases ran
        exact .clause translated classified expanded rfl

lemma ok_of_prepares (h : Prepares o r s outputs s') :
    ∃ fuel, expanded o fuel r s = .ok outputs s' := by
  cases h with
  | directive translated classified => exact ⟨0, expanded_of_directive translated classified⟩
  | @clause r' p s₁ s₂ fuel c _ _ _ translated classified expanded marked =>
    refine ⟨fuel, ?_⟩
    rw [expanded_of_clause translated classified, bind_ok (complete_of_ok expanded), marked]
    rfl

lemma preparesAll_of_allExpanded (ran : allExpanded o fuel rs s = .ok outputs s') :
    PreparesAll o rs s outputs s' := by
  induction rs generalizing s outputs with
  | nil =>
    cases ran
    exact .nil _
  | cons r rs ih =>
    obtain ⟨first, s₁, ran₁, ran⟩ := ok_of_bind ran
    obtain ⟨more, s₂, ran₂, ran⟩ := ok_of_bind ran
    cases ran
    exact .cons (prepares_of_expanded ran₁) (ih ran₂)

lemma ok_of_preparesAll (h : PreparesAll o rs s outputs s') :
    ∃ fuel, allExpanded o fuel rs s = .ok outputs s' := by
  induction h with
  | nil => exact ⟨0, rfl⟩
  | @cons r rs s s₁ s' outputs more first others ih =>
    obtain ⟨n, ran₁⟩ := ok_of_prepares first
    obtain ⟨m, ran₂⟩ := ih
    -- Fuel for the first term and for the others.
    have enough₁ := (stable_expanded o r s).eq_of_le (ran₁ ▸ Ended.ok _ _) (Nat.le_max_left n m)
    have enough₂ := (stable_allExpanded o rs s₁).eq_of_le (ran₂ ▸ Ended.ok _ _)
      (Nat.le_max_right n m)
    refine ⟨max n m, ?_⟩
    rw [allExpanded, bind_ok (enough₁.trans ran₁), bind_ok (enough₂.trans ran₂)]
    rfl

/-- The turn of a clause comes in a state: the terms before its term are prepared, it is classified,
and its goals are the next to be expanded. -/
inductive Turn (o : Observer σ) (rs : List ReadTerm) (s : Context × σ) :
    Pending → Context × σ → Prop where
  | intro {before after : List ReadTerm} {r r' : ReadTerm} {outputs : List Output}
      {s₁ s₂ : Context × σ} {p : Pending} (split : rs = before ++ r :: after)
      (earlier : PreparesAll o before s outputs s₁) (translated : withoutGrammar r = .ok r')
      (classified : classify o r' s₁ = .ok (some p) s₂) : Turn o rs s p s₂

lemma ended_turn {p : Pending} (turn : Turn o rs s p s') (ended : Ended (allExpanded o fuel rs s)) :
    Ended (clause o fuel p.clause s') := by
  obtain ⟨rfl, earlier, translated, classified⟩ := turn
  induction earlier with
  | nil s =>
    have first := ended.first
    rw [expanded_of_clause translated classified] at first
    exact first.first.first
  | @cons d ds s s₁ s₂ outputs more first others ih =>
    obtain ⟨n, ran⟩ := ok_of_prepares first
    have same := (stable_expanded o d s).unique ended.first (m := n) (ran ▸ Ended.ok _ _)
    exact ih classified (ended.next (same.trans ran)).first

lemma ended_expanded (own : ∀ p s', Turn o (r :: rs) s p s' →
      ∃ fuel, Ended (clause o fuel p.clause s')) :
    ∃ fuel, Ended (expanded o fuel r s) := by
  have grammar := ended_of_ensures (ensures_withoutGrammar (unspent_preparing o) r) s
  cases translated : withoutGrammar r with
  | error e =>
    rw [translated] at grammar
    refine ⟨0, ?_⟩
    rw [expanded_of_refused translated]
    exact ended_error.2 (ended_error.1 grammar)
  | ok r' =>
    have kinds := ended_of_ensures
      (ensures_classify (unspent_preparing o) (r := r') fun _ _ _ _ _ => trivial) s
    cases classified : classify o r' s with
    | error e s₁ =>
      rw [classified] at kinds
      refine ⟨0, ?_⟩
      rw [expanded_of_fault translated classified]
      exact ended_error.2 (ended_error.1 kinds)
    | ok found s₁ =>
      cases found with
      | none =>
        refine ⟨0, ?_⟩
        rw [expanded_of_directive translated classified]
        exact .ok [] s₁
      | some p =>
        have turn : Turn o (r :: rs) s p s₁ :=
          .intro (nil_append _).symm (.nil s) translated classified
        obtain ⟨fuel, ended⟩ := own p s₁ turn
        refine ⟨fuel, ?_⟩
        rw [expanded_of_clause translated classified]
        refine Ended.bind (ended.bind fun c s₂ ran => ?_) fun done s₂ _ => .ok _ _
        exact .ok _ _

lemma ended_allExpanded (each : ∀ p s', Turn o rs s p s' →
      ∃ fuel, Ended (clause o fuel p.clause s')) :
    ∃ fuel, Ended (allExpanded o fuel rs s) := by
  induction rs generalizing s with
  | nil => exact ⟨0, .ok [] s⟩
  | cons r rs ih =>
    refine Stable.ended_bind (stable_expanded o r s) (fun outputs s₁ m ended => ?_)
      (ended_expanded each) fun n outputs s₁ ran => ?_
    · exact ended.bind_eq (stable_allExpanded o rs s₁ m) fun _ _ _ _ => rfl
    · have later : ∃ fuel, Ended (allExpanded o fuel rs s₁) := by
        apply ih
        rintro p s' ⟨rfl, earlier, translated, classified⟩
        exact each p s' (.intro (cons_append ..).symm
          (.cons (prepares_of_expanded ran) earlier) translated classified)
      obtain ⟨m, others⟩ := later
      exact ⟨m, others.bind fun _ _ _ => .ok _ _⟩

lemma ended_terms (returns : o.ReturnsTerms) (t : Term) (s : Context × σ) :
    Ended (terms o t s) := by
  refine ended_of_ensures (bounds_terms (fun t s _ => ?_) t) s
  change Limits.Within _ _ _ (ask (o.expandTerm t) s) _
  cases asked : o.expandTerm t (seen s) with
  | ok a x =>
    rw [ask_of_ok asked]
    exact .ok (L := unspent) trivial trivial trivial
  | error e x =>
    rw [ask_of_error asked]
    exact .error (L := unspent) trivial trivial fun spent =>
      returns t _ x (spent ▸ asked)

/-- A term that is kept and is no conditional directive is prepared as the terms that it stands for,
one after the other, each through all its stages in the state that the one before it leaves. Its
preparation ends exactly if no goal whose turn comes has an endless chain of goals inside it, and
then more fuel makes no difference. -/
theorem term_prepares_in_order (o : Observer σ) (r : ReadTerm) (s : Context × σ)
    (plain : Conditional.Directive.ofTerm? r.term = none) (shown : s.1.isSkipping = false) :
    (∀ outputs s', (∃ fuel, term o fuel r s = .ok outputs s') ↔
      ∃ ts s₁, Expansion.terms o r.term s = .ok ts s₁ ∧
        PreparesAll o (ts.map fun t => { r with term := t }) s₁ outputs s') ∧
    (o.Returns → o.ReturnsTerms → ((∃ fuel, Ended (term o fuel r s)) ↔
      ∀ ts s₁ p s₂ g s', Expansion.terms o r.term s = .ok ts s₁ →
        Turn o (ts.map fun t => { r with term := t }) s₁ p s₂ →
        Expansion.GoalTurn o p.clause.position p.clause.idBound p.clause.body s₂ g s' →
        Acc (Expansion.Inner o s'.1.hooks s'.1.config.maxExpansionDepth) (g, s'))) ∧
    ∀ fuel more, Ended (term o fuel r s) → term o (fuel + more) r s = term o fuel r s := by
  have staged (fuel : Nat) : term o fuel r s =
      (located r.position (terms o r.term) >>= fun ts =>
        allExpanded o fuel (ts.map fun t => { r with term := t })) s := by
    rw [term_plain o plain, shown]
    rfl
  simp only [staged]
  refine ⟨fun outputs s' => ⟨?_, ?_⟩, fun returns returnsTerms => ⟨?_, ?_⟩,
    fun fuel more ended => ?_⟩
  · rintro ⟨fuel, ran⟩
    obtain ⟨ts, s₁, terms, ran⟩ := ok_of_bind ran
    exact ⟨ts, s₁, located_eq_ok.1 terms, preparesAll_of_allExpanded ran⟩
  · rintro ⟨ts, s₁, terms, prepares⟩
    obtain ⟨fuel, ran⟩ := ok_of_preparesAll prepares
    exact ⟨fuel, (bind_ok (located_eq_ok.2 terms)).trans ran⟩
  · rintro ⟨fuel, ended⟩ ts s₁ p s₂ g s' terms turn goalTurn
    have all := ended.next (located_eq_ok.2 terms)
    have body := (ended_clause_iff returns p.clause s₂).1 ⟨fuel, ended_turn turn all⟩
    exact body g s' goalTurn
  · intro acc
    refine Stable.ended_bind (fun _ _ => rfl) (fun ts s₁ => stable_allExpanded o _ s₁)
      ⟨0, ended_located.2 (ended_terms returnsTerms r.term s)⟩ fun _ ts s₁ terms => ?_
    refine ended_allExpanded fun p s₂ turn => ?_
    rw [ended_clause_iff returns]
    exact fun g s' => acc ts s₁ p s₂ g s' (located_eq_ok.1 terms) turn
  · have stable : Stable fun n => (located r.position (terms o r.term) >>=
        fun ts => allExpanded o n (ts.map fun t => { r with term := t })) s := fun n ended =>
      ended.bind_eq (fun _ => rfl) fun ts s₁ _ => stable_allExpanded o _ s₁ n
    exact stable.eq_of_le ended (Nat.le_add_right fuel more)

lemma eventLog_returnsTerms : observer.ReturnsTerms := by
  intro t x y failed
  cases failed

/-- The hook that makes a directive and a clause of `both`, and `c` of the goal `b`. -/
def pairing : Hook where
  name := "pairing"
  expandTerm
    | .atom "both" => some [
        .compound ":-" [.compound "set_prolog_flag" [.atom "unknown", .atom "fail"]],
        .compound ":-" [.atom "p", .atom "b"]]
    | _ => none
  expandGoal
    | .atom "b" => some (.atom "c")
    | _ => none

/-- `both` is obeyed and then made into the clause `p :- c`. -/
theorem term_prepares_in_order_both :
    let s : Context × EventLog := ((Context.new .standard .standard).addHook pairing, .empty)
    let r : ReadTerm := ⟨.atom "both", .start, []⟩
    Directive.ofTerm? r.term = none ∧ s.1.isSkipping = false ∧
      ∃ ts s₁ outputs s', terms observer r.term s = .ok ts s₁ ∧ ts.length = 2 ∧
        PreparesAll observer (ts.map fun t => { r with term := t }) s₁ outputs s' ∧
        outputs.map (fun | .clause p => p.clause.body | .unitClosed _ => []) = [[.atom "c"]] ∧
        s'.1.config.unknown = .fail ∧
        ∀ more, term observer (9 + more) r s = .ok outputs s' := by
  intro s r
  have plain : Directive.ofTerm? r.term = none := rfl
  have shown : s.1.isSkipping = false := rfl
  obtain ⟨outputs, s', ran, body, flag⟩ : ∃ outputs s',
      term observer 9 r s = .ok outputs s' ∧
      outputs.map (fun | .clause p => p.clause.body | .unitClosed _ => []) = [[.atom "c"]] ∧
      s'.1.config.unknown = .fail := by
    rw [term_eq]
    exact ⟨_, _, rfl, rfl, rfl⟩
  obtain ⟨inOrder, -, stable⟩ := term_prepares_in_order observer r s plain shown
  obtain ⟨ts, s₁, terms, prepares⟩ := (inOrder outputs s').1 ⟨9, ran⟩
  have two : ts.length = 2 := by
    cases terms
    rfl
  exact ⟨plain, shown, ts, s₁, outputs, s', terms, two, prepares, body, flag, fun more =>
    (stable 9 more (ran ▸ Ended.ok _ _)).trans ran⟩

/-- With the hook that puts `a` into a call of itself no fuel is enough for `p :- a`, though the
observer returns and no stage has an error to report. -/
theorem term_nests_forever :
    let c := (Context.new .standard .standard).addHook Expansion.nesting
    let s : Context × EventLog := (c, .empty)
    let r : ReadTerm := ⟨.compound ":-" [.atom "p", .atom "a"], .start, []⟩
    Directive.ofTerm? r.term = none ∧ s.1.isSkipping = false ∧
      observer.Returns ∧ observer.ReturnsTerms ∧
      ∀ fuel, ∃ s', term observer fuel r s = .error .outOfFuel s' := by
  intro c s r
  refine ⟨rfl, rfl, eventLog_returns, eventLog_returnsTerms, fun fuel => ?_⟩
  by_contra unspent
  have ended : Ended (term observer fuel r s) := not_exists.1 unspent
  rw [term_plain observer rfl] at ended
  have all : Ended (allExpanded observer fuel [r] s) := ended.next rfl
  have turn : Turn observer [r] s _ _ :=
    .intro (nil_append [r]).symm (.nil s) rfl rfl
  have body := ended_turn turn all
  have goal := ended_goalTurn .now body.first
  exact not_acc_iff_exists_descending_chain.2
    ⟨fun _ => _, rfl, fun _ => inner_nesting _⟩ (acc_of_ended fuel _ _ goal)

end Preparation

end Horn
