import Horn.Proofs.ReaderInvariants

/-!
# Two readers side by side

Two readers that look at corresponding tokens do the same, whatever the correspondence, and number
the variables of a term in the order of their occurrences.
-/

namespace Horn

variable {name : String} {valued : Bool}

lemma Closing.fault_ne_tooDeep (closing : Closing) (found : Lexeme) :
    closing.fault found ≠ .tooDeep := by
  intro h
  unfold Closing.fault at h
  repeat' split at h
  all_goals cases h

def Lexeme.named : Lexeme → List String
  | .variable name => [name]
  | _ => []

lemma Lexeme.mem_named {l : Lexeme} : name ∈ l.named ↔ l = .variable name := by
  cases l <;> simp [named, eq_comm]

namespace Reader

lemma numbering_peek {r s : Reader} {t : Token} (run : peek valued r = .ok t s) :
    s.numbering = r.numbering := by
  rcases peek_ok run with ⟨-, rfl⟩ | ⟨-, l, -, rfl⟩ <;> rfl

/-- A correspondence between readers, of which neither or both have looked at a token. -/
structure Pairing where
  token : Token → Token
  error : SyntaxError → SyntaxError
  Beside : Nat → List String → Reader → Reader → Prop
  Looking : Nat → Token → List String → Reader → Reader → Prop
  Failed : SyntaxError → Reader → Reader → Prop
  lexeme_token : ∀ t, (token t).lexeme = t.lexeme
  error_atToken : ∀ t cause, error (.atToken t cause) = .atToken (token t) cause
  beside : ∀ {n t ws r r'}, Looking n t ws r r' → Beside n ws r r'
  peek : ∀ {n ws r r'} valued, Beside n ws r r' →
    (∃ t s s', peek valued r = .ok (token t) s ∧ peek valued r' = .ok t s' ∧
      Looking n t ws s s') ∨
    ∃ e s s', peek valued r = .error (error e) s ∧ peek valued r' = .error e s' ∧
      Failed e s s'
  advance : ∀ {n t ws r r'}, Looking n t ws r r' → t.lexeme.isEnd = false →
    ∃ k s, n = k + 1 ∧ advance r = .ok (token t) s ∧ r'.lookahead = some t ∧
      Beside k (ws ++ t.lexeme.named) s { r' with lookahead := none }
  varNamed : ∀ {n ws r r'} name, Beside n ws r r' →
    ∃ v s s', varNamed name r = .ok v s ∧ varNamed name r' = .ok v s' ∧
      Beside n ws s s'
  failed : ∀ {n t ws r r'} cause, Looking n t ws r r' → cause ≠ .tooDeep →
    Failed (.atToken t cause) r r'

def At (A : List String → Reader → Reader → Prop) (vs : Tally) (r r' : Reader) : Prop :=
  A vs.2 r r' ∧ r'.numbering = vs.1

namespace Pairing

variable (π : Pairing)

/-- From readers related by `P`, both computations return and `Q` holds, or both fail at the same
place with the same error. -/
def Sim {α : Type} (P : Reader → Reader → Prop) (x x' : Reading α)
    (Q : α → α → Reader → Reader → Prop) : Prop :=
  ∀ r r', P r r' →
    (∃ a a' s s', x r = .ok a s ∧ x' r' = .ok a' s' ∧ Q a a' s s') ∨
      ∃ e s s', x r = .error (π.error e) s ∧ x' r' = .error e s' ∧ π.Failed e s s'

def Returns {α : Type} (R : Nat → Prop) (A : Nat → List String → Reader → Reader → Prop)
    (V : α → Tally → Prop) (a a' : α) (s s' : Reader) : Prop :=
  a = a' ∧ ∃ k vs, R k ∧ V a vs ∧ At (A k) vs s s'

variable {π} {n : Nat} {vs : Tally}

namespace Sim

variable {α β : Type} {x x' : Reading α} {f f' : α → Reading β} {P : Reader → Reader → Prop}
  {Q : α → α → Reader → Reader → Prop} {S : β → β → Reader → Reader → Prop} {t : Token}
  {R R' : Nat → Prop} {A : Nat → List String → Reader → Reader → Prop} {V : α → Tally → Prop}
  {B : List String → Reader → Reader → Prop}

lemma bind (hx : π.Sim P x x' Q) (hf : ∀ a a', π.Sim (Q a a') (f a) (f' a') S) :
    π.Sim P (x >>= f) (x' >>= f') S := by
  intro r r' h
  rcases hx r r' h with ⟨a, a', s, s', run, run', post⟩ | ⟨e, s, s', run, run', failed⟩
  · rw [bind_ok run, bind_ok run']
    exact hf a a' s s' post
  · exact .inr ⟨e, s, s', bind_error run, bind_error run', failed⟩

lemma andThen (hx : π.Sim P x x' (Returns R A V))
    (hf : ∀ a k vs, R k → V a vs → π.Sim (At (A k) vs) (f a) (f' a) S) :
    π.Sim P (x >>= f) (x' >>= f') S :=
  hx.bind fun a a' s s' ⟨same, k, vs, hk, value, h⟩ => by
    subst same
    exact hf a k vs hk value s s' h

lemma pure {a a' : α} (h : ∀ r r', P r r' → Q a a' r r') :
    π.Sim P (Pure.pure a) (Pure.pure a') Q :=
  fun r r' pre => .inl ⟨a, a', r, r', rfl, rfl, h r r' pre⟩

lemma returns {a : α} (hn : R n) (value : V a vs) (h : ∀ r r', B vs.2 r r' → A n vs.2 r r') :
    π.Sim (At B vs) (Pure.pure a) (Pure.pure a) (Returns R A V) :=
  pure fun r r' pre => ⟨rfl, n, vs, hn, value, h r r' pre.1, pre.2⟩

lemma weaken (hx : π.Sim P x x' (Returns R A V)) (h : ∀ k, R k → R' k) :
    π.Sim P x x' (Returns R' A V) := by
  intro r r' pre
  rcases hx r r' pre with ⟨a, a', s, s', run, run', same, k, vs, hk, related⟩ | failed
  · exact .inl ⟨a, a', s, s', run, run', same, k, vs, h k hk, related⟩
  · exact .inr failed

lemma ite {c : Prop} [Decidable c] {y y' : Reading α} (yes : c → π.Sim P x x' Q)
    (no : ¬c → π.Sim P y y' Q) : π.Sim P (if c then x else y) (if c then x' else y') Q := by
  split
  · exact yes ‹c›
  · exact no ‹¬c›

lemma pre {B' : List String → Reader → Reader → Prop} (hx : π.Sim (At B vs) x x' Q)
    (h : ∀ r r', B' vs.2 r r' → B vs.2 r r') : π.Sim (At B' vs) x x' Q :=
  fun r r' pre => hx r r' ⟨h r r' pre.1, pre.2⟩

lemma throw {cause : SyntaxError.Cause} (other : cause ≠ .tooDeep) :
    π.Sim (At (π.Looking n t) vs) (throw (.atToken (π.token t) cause))
      (throw (.atToken t cause)) Q := by
  intro r r' looking
  rw [← π.error_atToken]
  exact .inr ⟨_, r, r', rfl, rfl, π.failed cause looking.1 other⟩

lemma peek {g g' : Token → Reading β}
    (h : ∀ t, π.Sim (At (π.Looking n t) vs) (g (π.token t)) (g' t) S) :
    π.Sim (At (π.Beside n) vs) (Reader.peek valued >>= g) (Reader.peek valued >>= g') S := by
  rintro r r' ⟨beside, numbers⟩
  rcases π.peek valued beside with ⟨t, s, s', run, run', looking⟩ | ⟨e, s, s', run, run', failed⟩
  · rw [bind_ok run, bind_ok run']
    exact h t s s' ⟨looking, (numbering_peek run').trans numbers⟩
  · exact .inr ⟨e, s, s', bind_error run, bind_error run', failed⟩

lemma advance {names : List String} (more : t.lexeme.isEnd = false ∧ t.lexeme.named = names)
    {g g' : Token → Reading β}
    (h : ∀ k, n = k + 1 → π.Sim (At (π.Beside k) (vs.1, vs.2 ++ names)) (g (π.token t)) (g' t) S) :
    π.Sim (At (π.Looking n t) vs) (Reader.advance >>= g) (Reader.advance >>= g') S := by
  rintro r r' ⟨looking, numbers⟩
  obtain ⟨k, s, hk, run, looked, beside⟩ := π.advance looking more.1
  rw [bind_ok run, bind_ok (advance_of_looked looked)]
  exact h k hk s _ ⟨more.2 ▸ beside, numbers⟩

lemma skip (more : t.lexeme.isEnd = false ∧ t.lexeme.named = []) {g g' : Token → Reading β}
    (h : ∀ k, n = k + 1 → π.Sim (At (π.Beside k) vs) (g (π.token t)) (g' t) S) :
    π.Sim (At (π.Looking n t) vs) (Reader.advance >>= g) (Reader.advance >>= g') S :=
  advance more (by simpa using h)

lemma advanceClosing {closing : Closing} (inner : closing ≠ .clause ∧ closing ≠ .single)
    {g g' : Token → Reading β}
    (h : ∀ t k, n = k + 1 → closing.accepts t.lexeme →
      π.Sim (At (π.Beside k) vs) (g (π.token t)) (g' t) S) :
    π.Sim (At (fun ws r r' => ∃ t, π.Looking n t ws r r' ∧ closing.accepts t.lexeme) vs)
      (Reader.advance >>= g) (Reader.advance >>= g') S := by
  rintro r r' ⟨⟨t, looking, accepted⟩, numbers⟩
  have more : t.lexeme.isEnd = false ∧ t.lexeme.named = [] := by
    revert accepted
    cases closing <;> cases t.lexeme <;>
      simp [Closing.accepts, Lexeme.isEnd, Lexeme.named] at inner ⊢
  exact skip more (fun k hk => h t k hk accepted) r r' ⟨looking, numbers⟩

lemma varNamed :
    π.Sim (At (π.Beside n) (vs.1, vs.2 ++ [name])) (Reader.varNamed name) (Reader.varNamed name)
      (Returns (· = n) π.Beside (TermRead vs)) := by
  rintro r r' ⟨beside, numbers⟩
  obtain ⟨v, s, s', run, run', beside⟩ := π.varNamed name beside
  have read := varNamed_read run' vs.2
  rw [numbers] at read
  exact .inl ⟨v, v, s, s', run, run', rfl, n, _, rfl, read, beside, rfl⟩

end Sim

/-- From readers beside each other, with at most `n` tokens to come, both computations return the
same value, beside each other again, or both fail. -/
abbrev Reads {α : Type} (π : Pairing) (n : Nat) (vs : Tally) (x x' : Reading α) (R : Nat → Prop)
    (V : α → Tally → Prop) : Prop :=
  π.Sim (At (π.Beside n) vs) x x' (Returns R π.Beside V)

/-! What the parts of the reader do with so much fuel. The bounds say that fuel for four calls a token
is enough, and then it does not matter how much more there is. Parts that go on from terms already
read number the variables of these terms and of the rest together. -/

section

variable (π : Pairing) (mode : ReadMode) (f f' : Nat)

def Closed : Prop :=
  ∀ n vs closing max, 4 * n + 3 ≤ min f f' →
    π.Sim (At (π.Beside n) vs) (closed mode f closing max) (closed mode f' closing max)
      (Returns (· < n) (fun k ws r r' => ∃ t, π.Looking k t ws r r' ∧ closing.accepts t.lexeme)
        (TermRead vs))

def Expr : Prop :=
  ∀ n vs max, 4 * n + 2 ≤ min f f' →
    π.Reads n vs (expr mode f max) (expr mode f' max) (· < n) fun x => TermRead vs x.1

def Primary : Prop :=
  ∀ n vs max, 4 * n + 1 ≤ min f f' →
    π.Reads n vs (primary mode f max) (primary mode f' max) (· < n) fun x => TermRead vs x.1

def NameTerm : Prop :=
  ∀ n vs name max, 4 * n + 3 ≤ min f f' →
    π.Reads n vs (nameTerm mode f name max) (nameTerm mode f' name max) (· ≤ n)
      fun x => TermRead vs x.1

def Extend : Prop :=
  ∀ n {vs vs₀ left} p max, 4 * n + 1 ≤ min f f' → TermRead vs₀ left vs →
    π.Reads n vs (extend mode f left p max) (extend mode f' left p max) (· ≤ n)
      fun x => TermRead vs₀ x.1

def Arguments : Prop :=
  ∀ n {vs vs₀ before}, 4 * n + 4 ≤ min f f' → ListRead vs₀ before.reverse vs →
    π.Reads n vs (arguments mode f before) (arguments mode f' before) (· ≤ n) (ListRead vs₀)

def ListFrom : Prop :=
  ∀ n {vs vs₀ before}, 4 * n + 4 ≤ min f f' → ListRead vs₀ before.reverse vs →
    π.Reads n vs (listFrom mode f before) (listFrom mode f' before) (· ≤ n) (TermRead vs₀)

def Applied : Prop :=
  ∀ n {vs vs₀ term}, 4 * n + 1 ≤ min f f' → TermRead vs₀ term vs →
    π.Reads n vs (applied mode f term) (applied mode f' term) (· ≤ n) (TermRead vs₀)

structure Matched : Prop where
  closed : π.Closed mode f f'
  expr : π.Expr mode f f'
  primary : π.Primary mode f f'
  nameTerm : π.NameTerm mode f f'
  extend : π.Extend mode f f'
  arguments : π.Arguments mode f f'
  listFrom : π.ListFrom mode f f'
  applied : π.Applied mode f f'

end

namespace Matched

variable {mode : ReadMode} {f f' : Nat}

lemma spent (h : min f f' = 0) : π.Matched mode f f' where
  closed _ _ _ _ enough := by omega
  expr _ _ _ enough := by omega
  primary _ _ _ enough := by omega
  nameTerm _ _ _ _ enough := by omega
  extend _ _ _ _ _ _ enough := by omega
  arguments _ _ _ _ enough := by omega
  listFrom _ _ _ _ enough := by omega
  applied _ _ _ _ enough := by omega

variable (h : π.Matched mode f f')

include h

lemma closed_succ : π.Closed mode (f + 1) (f' + 1) := by
  intro n vs closing max enough
  rw [Reader.closed, Reader.closed]
  refine (h.expr n vs max (by omega)).andThen fun x k vs' hk read => .peek fun t => ?_
  rw [π.lexeme_token]
  refine .ite (fun accepted => ?_) fun _ => .throw (Closing.fault_ne_tooDeep _ _)
  exact .returns hk read fun r r' looking => ⟨t, looking, accepted⟩

lemma expr_succ : π.Expr mode (f + 1) (f' + 1) := by
  intro n vs max enough
  rw [Reader.expr, Reader.expr]
  refine (h.primary n vs max (by omega)).andThen fun x k vs' hk read => ?_
  exact (h.extend k x.2 max (by omega) read).weaken fun j hj => Nat.lt_of_le_of_lt hj hk

lemma arguments_succ : π.Arguments mode (f + 1) (f' + 1) := by
  intro n vs vs₀ before enough earlier
  rw [Reader.arguments, Reader.arguments]
  refine (h.closed n vs .argument _ (by omega)).andThen fun arg k vs' hk read => ?_
  have all : ListRead vs₀ (arg :: before).reverse vs' := by
    rw [List.reverse_cons]
    exact earlier.snoc read
  refine .advanceClosing (by decide) fun t j hj _ => ?_
  rw [π.lexeme_token]
  refine .ite (fun _ => ?_) fun _ => ?_
  · exact .returns (n := j) (by omega) all fun _ _ beside => beside
  · exact (h.arguments j (by omega) all).weaken fun i hi => by omega

lemma listFrom_succ : π.ListFrom mode (f + 1) (f' + 1) := by
  intro n vs vs₀ before enough earlier
  rw [Reader.listFrom, Reader.listFrom]
  refine (h.closed n vs .listItem _ (by omega)).andThen fun item k vs' hk read => ?_
  have all : ListRead vs₀ (item :: before).reverse vs' := by
    rw [List.reverse_cons]
    exact earlier.snoc read
  refine .advanceClosing (by decide) fun t j hj accepted => ?_
  rw [π.lexeme_token]
  split
  · exact (h.listFrom j (by omega) all).weaken fun i hi => by omega
  · refine (h.closed j vs' .listTail _ (by omega)).andThen fun tail i vs'' hi last => ?_
    refine .advanceClosing (by decide) fun u m hm _ => ?_
    exact .returns (n := m) (by omega) (all.listTo last) fun _ _ beside => beside
  · exact .returns (n := j) (by omega) (all.listTo (.atomic rfl _)) fun _ _ beside => beside

lemma applied_succ : π.Applied mode (f + 1) (f' + 1) := by
  intro n vs vs₀ term enough earlier
  rw [Reader.applied, Reader.applied]
  refine .peek fun t => ?_
  rw [π.lexeme_token]
  refine .ite (fun call => ?_) fun _ => ?_
  · refine .skip (call ▸ ⟨rfl, rfl⟩) fun k hk => ?_
    refine (h.arguments k (by omega) (.nil vs)).andThen fun args j vs' hj read => ?_
    refine (h.applied j (by omega) ?_).weaken fun i hi => by omega
    exact (ListRead.cons earlier read).build "apply"
  · exact .returns (Nat.le_refl n) earlier fun _ _ looking => π.beside looking

lemma nameTerm_succ : π.NameTerm mode (f + 1) (f' + 1) := by
  intro n vs name max enough
  have stays {t : Token} : π.Sim (At (π.Looking n t) vs) (pure (.atom name, 0))
      (pure (.atom name, 0)) (Returns (· ≤ n) π.Beside fun x => TermRead vs x.1) :=
    .returns (Nat.le_refl n) (.atomic rfl vs) fun _ _ looking => π.beside looking
  rw [Reader.nameTerm, Reader.nameTerm]
  refine .peek fun t => ?_
  rw [π.lexeme_token]
  refine .ite (fun call => ?_) fun _ => ?_
  · refine .skip (call ▸ ⟨rfl, rfl⟩) fun k hk => ?_
    refine (h.arguments k (by omega) (.nil vs)).andThen fun args j vs' hj read => ?_
    refine (h.applied j (by omega) (read.build name)).andThen fun term i vs'' hi read => ?_
    exact .returns (n := i) (by omega) read fun _ _ beside => beside
  · cases mode.operators.prefixOp? name with
    | none => exact stays
    | some op =>
      refine .ite (fun _ => ?_) fun _ => stays
      obtain ⟨priority, operandMax⟩ := prefixPriorities op max
      refine ((h.expr n vs operandMax (by omega)).pre fun _ _ looking =>
        π.beside looking).andThen fun operand k vs' hk read => ?_
      exact .returns (n := k) (by omega) (read.single.build name) fun _ _ beside => beside

lemma extend_succ : π.Extend mode (f + 1) (f' + 1) := by
  intro n vs vs₀ left p max enough earlier
  have stays {t : Token} : π.Sim (At (π.Looking n t) vs) (pure (left, p)) (pure (left, p))
      (Returns (· ≤ n) π.Beside fun x => TermRead vs₀ x.1) :=
    .returns (Nat.le_refl n) earlier fun _ _ looking => π.beside looking
  rw [Reader.extend, Reader.extend]
  refine .peek fun t => ?_
  rw [π.lexeme_token]
  cases found : infixToken? mode.operators t.lexeme with
  | none => exact stays
  | some entry =>
    obtain ⟨op, functor⟩ := entry
    have more : t.lexeme.isEnd = false ∧ t.lexeme.named = [] := by
      revert found
      cases t.lexeme with
      | clauseEnd | inputEnd | «variable» => rintro ⟨⟩
      | _ => exact fun _ => ⟨rfl, rfl⟩
    refine .ite (fun _ => stays) fun _ => .skip more fun k hk => .ite (fun _ => ?_) fun _ => ?_
    · exact (h.extend k _ _ (by omega) (earlier.single.build functor)).weaken fun j hj => by omega
    · refine (h.expr k vs _ (by omega)).andThen fun right j vs' hj read => ?_
      refine (h.extend j _ _ (by omega) ?_).weaken fun i hi => by omega
      exact (ListRead.cons earlier read.single).build functor

lemma primary_succ : π.Primary mode (f + 1) (f' + 1) := by
  intro n vs max enough
  rw [Reader.primary, Reader.primary]
  refine .peek fun t => ?_
  have here {k : Nat} {vs' : Tally} {x : Term × Nat} (hk : k < n) (read : TermRead vs x.1 vs') :
      π.Reads k vs' (pure x) (pure x) (· < n) fun x => TermRead vs x.1 :=
    .returns (n := k) hk read fun _ _ beside => beside
  have named {k : Nat} (name : String) (hk : k < n) :
      π.Reads k vs (Reader.nameTerm mode f name max) (Reader.nameTerm mode f' name max) (· < n)
        fun x => TermRead vs x.1 :=
    (h.nameTerm k vs name max (by omega)).weaken fun j hj => by omega
  have enclosed {k : Nat} (closing : Closing) (inner : closing ≠ .clause ∧ closing ≠ .single)
      (g : Term → Term) (kept : ∀ {t vs'}, TermRead vs t vs' → TermRead vs (g t) vs')
      (hk : k < n) : π.Reads k vs
      (Reader.closed mode f closing OperatorTable.maxPriority >>= fun x =>
        Reader.advance >>= fun _ => pure (g x, 0))
      (Reader.closed mode f' closing OperatorTable.maxPriority >>= fun x =>
        Reader.advance >>= fun _ => pure (g x, 0)) (· < n) fun x => TermRead vs x.1 := by
    refine (h.closed k vs closing _ (by omega)).andThen fun x j vs' hj read => ?_
    exact .advanceClosing inner fun u i hi _ => here (by omega) (kept read)
  rw [π.lexeme_token]
  cases kind : t.lexeme with
  | inputEnd | clauseEnd | closeParen | closeBracket | closeCurly | comma | bar =>
    exact .throw (by decide)
  | integer | float =>
    exact .skip (kind ▸ ⟨rfl, rfl⟩) fun k hk => here (by omega) (.atomic rfl vs)
  | doubleQuoted text =>
    exact .skip (kind ▸ ⟨rfl, rfl⟩) fun k hk => here (by omega) (doubleQuoted_read _ _ vs)
  | backQuoted text =>
    exact .skip (kind ▸ ⟨rfl, rfl⟩) fun k hk => here (by omega) (codes_read _ vs)
  | atom name quoted => exact .skip (kind ▸ ⟨rfl, rfl⟩) fun k hk => named name (by omega)
  | «variable» name =>
    refine .advance (kind ▸ ⟨rfl, rfl⟩) fun k hk => Sim.varNamed.andThen ?_
    rintro v _ vs' rfl read
    refine (h.applied _ (by omega) read).andThen fun term j vs'' hj read => ?_
    exact here (by omega) read
  | openParen =>
    exact .skip (kind ▸ ⟨rfl, rfl⟩) fun k hk => enclosed .paren (by decide) id id (by omega)
  | openCall =>
    exact .skip (kind ▸ ⟨rfl, rfl⟩) fun k hk => enclosed .paren (by decide) id id (by omega)
  | openBracket =>
    refine .skip (kind ▸ ⟨rfl, rfl⟩) fun k hk => .peek fun u => ?_
    rw [π.lexeme_token]
    refine .ite (fun close => ?_) fun _ => ?_
    · exact .skip (close ▸ ⟨rfl, rfl⟩) fun j hj => named _ (by omega)
    · refine ((h.listFrom k (by omega) (.nil vs)).pre fun _ _ looking =>
        π.beside looking).andThen fun term j vs' hj read => ?_
      exact here (by omega) read
  | openCurly =>
    refine .skip (kind ▸ ⟨rfl, rfl⟩) fun k hk => .peek fun u => ?_
    rw [π.lexeme_token]
    refine .ite (fun close => ?_) fun _ => ?_
    · exact .skip (close ▸ ⟨rfl, rfl⟩) fun j hj => named _ (by omega)
    · exact (enclosed (k := k) .curly (by decide) (fun x => .build "\x7b\x7d" [x])
        (fun read => read.single.build "\x7b\x7d") (by omega)).pre fun _ _ looking =>
          π.beside looking

lemma succ : π.Matched mode (f + 1) (f' + 1) :=
  ⟨h.closed_succ, h.expr_succ, h.primary_succ, h.nameTerm_succ, h.extend_succ, h.arguments_succ,
    h.listFrom_succ, h.applied_succ⟩

end Matched

lemma matched (π : Pairing) (mode : ReadMode) (f f' : Nat) : π.Matched mode f f' := by
  induction f generalizing f' with
  | zero => exact .spent (Nat.zero_min f')
  | succ f ih =>
    cases f' with
    | zero => exact .spent (Nat.min_zero _)
    | succ f' => exact (ih f').succ

end Pairing

end Reader

end Horn
