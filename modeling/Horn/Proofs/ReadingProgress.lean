import Horn.Proofs.ReaderPairs
import Horn.Proofs.UnreadInput

/-!
# Reading comes to an end

Every round of reading takes from what the source has left or finds that it has no more, unless the
reader of the source reports malformed data again and again.
-/

namespace Horn

open Text List Lexer

inductive Lexer.Gave (l : Lexer) : List Token → Lexer → Prop where
  | nil : Gave l [] l
  | snoc {ts : List Token} {t : Token} {l' l'' : Lexer} {valued : Bool} (before : Gave l ts l')
      (last : l'.next valued = .ok t l'') : Gave l (ts ++ [t]) l''

lemma Lexer.Gave.genuine {l l' : Lexer} {ts : List Token} (h : l.Gave ts l') :
    ∀ t ∈ ts, t.lexeme.Genuine := by
  induction h with
  | nil => nofun
  | snoc _ last ih =>
    intro t ht
    rcases mem_append.1 ht with ht | ht
    · exact ih t ht
    · rw [mem_singleton.1 ht]
      exact next_genuine last

namespace Reader

variable {r' : Reader}

def ahead (r : Reader) : Nat := (r.lookahead.map Token.worth).getD 0

lemma ahead_le_one (r : Reader) : r.ahead ≤ 1 := by
  unfold ahead
  cases r.lookahead with
  | none => exact Nat.zero_le 1
  | some t => exact t.worth_le_one

structure Within (D : Discipline) (n : Nat) (r : Reader) : Prop where
  holds : D.holds [] r.lexer.stream
  light : r.lexer.stream.size + r.ahead ≤ n

structure Looking (D : Discipline) (n : Nat) (t : Token) (r : Reader) : Prop where
  holds : D.holds [] r.lexer.stream
  looked : r.lookahead = some t
  light : r.lexer.stream.size + t.worth ≤ n

variable {D : Discipline} {n : Nat} {t : Token} {r : Reader}

lemma Looking.within (h : r.Looking D n t) : r.Within D n := by
  refine ⟨h.holds, ?_⟩
  rw [ahead, h.looked]
  exact h.light

/-- From a reader that satisfies `P`, the computation returns and `Q` holds, or it fails for another
reason than a spent budget. Either way it keeps `D`. -/
def Sparing {α : Type} (D : Discipline) (P : Reader → Prop) (x : Reading α)
    (Q : α → Reader → Prop) : Prop :=
  ∀ r, P r → match x r with
    | .ok a r' => Q a r'
    | .error e r' => e.cause ≠ .tooDeep ∧ D.holds [] r'.lexer.stream

namespace Sparing

variable {α β : Type} {P : Reader → Prop} {x : Reading α} {f : α → Reading β}
  {Q : α → Reader → Prop} {S : β → Reader → Prop}

lemma bind (hx : Sparing D P x Q) (hf : ∀ a, Sparing D (Q a) (f a) S) :
    Sparing D P (x >>= f) S := by
  intro r start
  have first := hx r start
  cases run : x r with
  | ok a r' =>
    rw [run] at first
    rw [bind_ok run]
    exact hf a r' first
  | error e r' =>
    rw [run] at first
    rw [bind_error run]
    exact first

lemma pure {a : α} (h : ∀ r, P r → Q a r) : Sparing D P (Pure.pure a) Q := h

lemma pre {P' : Reader → Prop} (hx : Sparing D P x Q) (h : ∀ r, P' r → P r) :
    Sparing D P' x Q :=
  fun r start => hx r (h r start)

lemma mono {Q' : α → Reader → Prop} (hx : Sparing D P x Q) (h : ∀ a r, Q a r → Q' a r) :
    Sparing D P x Q' := by
  intro r start
  have first := hx r start
  split
  · next run =>
    rw [run] at first
    exact h _ _ first
  · next run =>
    rw [run] at first
    exact first

lemma ite {c : Prop} [Decidable c] {y : Reading α} (yes : c → Sparing D P x Q)
    (no : ¬c → Sparing D P y Q) : Sparing D P (if c then x else y) Q := by
  split
  · exact yes ‹c›
  · exact no ‹¬c›

end Sparing

lemma peek_sparing (valued : Bool) :
    Sparing D (Within D n) (peek valued) fun t => Looking D n t := by
  intro r start
  have light := start.light
  cases looked : r.lookahead with
  | some t =>
    rw [peek_of_looked looked]
    rw [ahead, looked] at light
    exact ⟨start.holds, looked, light⟩
  | none =>
    have kept := holds_next valued start.holds
    have less := weigh_next .chars valued r.lexer
    cases run : r.lexer.next valued with
    | ok t l =>
      rw [run] at kept less
      dsimp only at less
      rw [Weighing.chars_of, Weighing.chars_of] at less
      rw [peek_of_next looked run]
      exact ⟨kept, rfl, Nat.le_trans less (Nat.le_of_add_right_le light)⟩
    | error e l =>
      rw [run] at kept
      rw [peek_of_next_error looked run]
      exact ⟨nofun, kept⟩

lemma varNamed_quiet (r : Reader) (name : String) :
    ∃ v s, varNamed name r = .ok v s ∧ s.lexer = r.lexer ∧ s.lookahead = r.lookahead := by
  rw [varNamed]
  by_cases anonymous : name = "_"
  · rw [if_pos anonymous]
    exact ⟨_, _, rfl, rfl, rfl⟩
  · rw [if_neg anonymous, get_bind]
    cases r.varIds.find? (·.1 = name) with
    | some | none => exact ⟨_, _, rfl, rfl, rfl⟩

def Takes (r : Reader) (ts : List Token) (r' : Reader) : Prop :=
  ∃ given, r.lexer.Gave given r'.lexer ∧
    r.lookahead.toList ++ given = ts ++ r'.lookahead.toList

namespace Takes

variable {r₀ s : Reader} {ts : List Token}

lemma refl (r : Reader) : r.Takes [] r := ⟨[], .nil, by simp⟩

lemma peek (h : r₀.Takes ts r) {valued : Bool} (run : peek valued r = .ok t s) :
    r₀.Takes ts s := by
  rcases peek_ok run with ⟨-, rfl⟩ | ⟨looked, l, next, rfl⟩
  · exact h
  · obtain ⟨given, gave, same⟩ := h
    refine ⟨given ++ [t], gave.snoc next, ?_⟩
    simp [← append_assoc, same, looked]

lemma advance (h : r₀.Takes ts r) (looked : r.lookahead = some t) :
    r₀.Takes (ts ++ [t]) { r with lookahead := none } := by
  obtain ⟨given, gave, same⟩ := h
  exact ⟨given, gave, by simpa [looked] using same⟩

lemma quiet (h : r₀.Takes ts r) (lexer : s.lexer = r.lexer) (looked : s.lookahead = r.lookahead) :
    r₀.Takes ts s := by
  rwa [Takes, lexer, looked]

end Takes

/-- The readers are one, and since `r₀` it has taken variables of these names. -/
@[reducible] def pairing (D : Discipline) (r₀ : Reader) : Pairing where
  token := id
  error := id
  Beside n ws r r' := r' = r ∧ r.Within D n ∧
    ∃ ts, r₀.Takes ts r ∧ ws = ts.flatMap (·.lexeme.named)
  Looking n t ws r r' := r' = r ∧ r.Looking D n t ∧
    ∃ ts, r₀.Takes ts r ∧ ws = ts.flatMap (·.lexeme.named)
  Failed e r r' := r' = r ∧ e.cause ≠ .tooDeep ∧ D.holds [] r.lexer.stream
  lexeme_token _ := rfl
  error_atToken _ _ := rfl
  beside looking := ⟨looking.1, looking.2.1.within, looking.2.2⟩
  peek := by
    rintro n ws _ r valued ⟨rfl, within, ts, takes, names⟩
    have peeked := peek_sparing valued r within
    cases run : peek valued r with
    | ok t s =>
      rw [run] at peeked
      exact .inl ⟨t, s, s, rfl, rfl, rfl, peeked, ts, takes.peek run, names⟩
    | error e s =>
      rw [run] at peeked
      exact .inr ⟨e, s, s, rfl, rfl, rfl, peeked⟩
  advance := by
    rintro n t ws _ r ⟨rfl, looking, ts, takes, names⟩ more
    have light := looking.light
    rw [Token.worth_of_ne fun last => by rw [last] at more; cases more] at light
    refine ⟨n - 1, _, by omega, advance_of_looked looking.looked, looking.looked, rfl,
      ⟨looking.holds, ?_⟩, ts ++ [t], takes.advance looking.looked, by simp [names]⟩
    change r.lexer.stream.size + 0 ≤ n - 1
    omega
  varNamed := by
    rintro n ws _ r name ⟨rfl, within, ts, takes, names⟩
    obtain ⟨v, s, run, lexer, looked⟩ := r.varNamed_quiet name
    refine ⟨v, s, s, run, run, rfl, ⟨?_, ?_⟩, ts, takes.quiet lexer looked, names⟩
    · rw [lexer]
      exact within.holds
    · rw [lexer, ahead, looked]
      exact within.light
  failed cause looking other := ⟨looking.1, other, looking.2.1.holds⟩

lemma closed_sparing (mode : ReadMode) {f : Nat} (closing : Closing) (max : Nat)
    (enough : 4 * n + 3 ≤ f) :
    Sparing D (Within D n) (closed mode f closing max)
      fun _ r => ∃ t k, k < n ∧ Looking D k t r ∧ closing.accepts t.lexeme := by
  intro r within
  rcases ((pairing D r).matched mode f f).closed n (_, []) closing max (by omega) r r
    ⟨⟨rfl, within, [], .refl r, rfl⟩, rfl⟩
    with ⟨a, _, s, s', run, run', -, k, vs, hk, -, ⟨t, looking, accepted⟩, -⟩ |
      ⟨e, s, s', run, run', failed⟩
  · rw [run]
    exact ⟨t, k, hk, looking.2.1, accepted⟩
  · rw [run]
    exact failed.2

lemma clauseFrom_sparing (mode : ReadMode) {f : Nat} (first : Token) (enough : 4 * n + 3 ≤ f) :
    Sparing D (Within D n) (clauseFrom mode f first)
      fun _ r => r.lookahead = none ∧ D.holds [] r.lexer.stream := by
  refine (closed_sparing mode .clause _ enough).bind fun term => ?_
  rintro r ⟨t, k, -, looking, accepted⟩
  rw [bind_ok (advance_of_looked looking.looked)]
  exact ⟨rfl, looking.holds⟩

lemma depth_enough (r : Reader) : 4 * (r.lexer.stream.size + r.ahead) + 3 ≤ r.depth := by
  have := r.ahead_le_one
  rw [depth]
  omega

lemma readTerm_sparing (D : Discipline) (mode : ReadMode) :
    Sparing D (fun r => D.holds [] r.lexer.stream) (readTerm mode)
      fun _ r => D.holds [] r.lexer.stream := by
  intro r start
  rw [readTerm_eq]
  refine (peek_sparing true).bind (fun first => ?_) _
    ⟨start, Nat.le_refl (r.lexer.stream.size + r.ahead)⟩
  refine .ite (fun _ => .pure fun r looking => looking.holds) fun _ => ?_
  exact ((clauseFrom_sparing mode first r.depth_enough).pre fun r looking =>
    looking.within).mono fun _ r done => done.2

lemma cause_ne_tooDeep {mode : ReadMode} {e : SyntaxError}
    (failed : readTerm mode r = .error e r') : e.cause ≠ .tooDeep := by
  have spared := readTerm_sparing (Weighing.chars.under (Weighing.chars.of r.lexer.stream)) mode r
    (Nat.le_refl _)
  rw [failed] at spared
  exact spared.1

def Uses (W : Weighing) (r r' : Reader) : Prop :=
  W.of r'.lexer.stream < W.of r.lexer.stream + r.ahead ∨
    W.of r'.lexer.stream ≤ W.of r.lexer.stream ∧ r.lexer.stream.exhausted = false ∧
      r'.lexer.stream.exhausted = true

lemma peek_uses (W : Weighing) (valued : Bool) (r : Reader) :
    match peek valued r with
    | .ok t r' => r'.lookahead = some t ∧
        W.of r'.lexer.stream + t.worth ≤ W.of r.lexer.stream + r.ahead
    | .error _ r' => ¬r.lexer.stream.Stalls → Uses W r r' := by
  cases looked : r.lookahead with
  | some t =>
    rw [peek_of_looked looked, ahead, looked]
    exact ⟨looked, Nat.le_refl _⟩
  | none =>
    have next := r.lexer.weigh_next W valued
    cases run : r.lexer.next valued with
    | ok t l =>
      rw [run] at next
      rw [peek_of_next looked run]
      exact ⟨rfl, Nat.le_add_right_of_le next⟩
    | error e l =>
      rw [run] at next
      rw [peek_of_next_error looked run]
      intro lasts
      rcases next with less | ⟨-, spent⟩ | ⟨-, stalls⟩
      · exact .inl (Nat.lt_add_right _ less)
      · exact .inr spent
      · exact absurd stalls lasts

lemma readTerm_uses (W : Weighing) (mode : ReadMode) (r : Reader) :
    match readTerm mode r with
    | .ok none _ => True
    | .ok (some _) r' => r'.lookahead = none ∧ Uses W r r'
    | .error _ r' => ¬r.lexer.stream.Stalls → Uses W r r' := by
  rw [readTerm_eq]
  have first := peek_uses W true { r with varIds := [], nextVar := 0 }
  have short := peek_uses .chars true { r with varIds := [], nextVar := 0 }
  cases looked : peek true { r with varIds := [], nextVar := 0 } with
  | error e r₁ =>
    rw [looked] at first
    rw [bind_error looked]
    exact first
  | ok t r₁ =>
    rw [looked] at first short
    rw [bind_ok looked]
    by_cases last : t.lexeme = .inputEnd
    · rw [if_pos last]
      trivial
    · rw [if_neg last]
      have less : W.of r₁.lexer.stream < W.of r.lexer.stream + r.ahead := by
        have := first.2
        rw [Token.worth_of_ne last] at this
        exact this
      have within : r₁.Within (W.under (W.of r₁.lexer.stream))
          (r.lexer.stream.size + r.ahead) := by
        refine ⟨Nat.le_refl _, ?_⟩
        have := short.2
        rw [Weighing.chars_of, Weighing.chars_of] at this
        rwa [ahead, short.1]
      have rest := clauseFrom_sparing mode t r.depth_enough r₁ within
      split
      · trivial
      · next run =>
        rw [run] at rest
        exact ⟨rest.1, .inl (Nat.lt_of_le_of_lt rest.2 less)⟩
      · next run =>
        rw [run] at rest
        exact fun _ => .inl (Nat.lt_of_le_of_lt rest.2 less)

lemma skipClause_keeps (h : skipClause r = .ok () r') :
    r'.lookahead = none ∧
      ∀ D : Discipline, D.holds [] r.lexer.stream → D.holds [] r'.lexer.stream := by
  have kept (D : Discipline) (start : D.holds [] r.lexer.stream) :
      D.holds [] (left r.lexer.skipToEnd).stream := holds_skipTokens _ start
  unfold skipClause at h
  cases ended : r.lexer.skipToEnd <;> rw [ended] at h kept <;> dsimp only at h <;> split at h
  all_goals try split at h
  all_goals cases h
  · exact ⟨rfl, fun D start => start⟩
  · exact ⟨rfl, kept⟩
  · exact ⟨rfl, kept⟩
  · exact ⟨rfl, fun D start => start⟩

def round? (mode : ReadMode) (r : Reader) : Option Reader :=
  match readTerm mode r with
  | .ok none _ => none
  | .ok (some _) r' => some r'
  | .error _ r₁ =>
    match skipClause r₁ with
    | .ok () r' => some r'
    | .error _ _ => none

def Round (r r' : Reader) : Prop := ∃ mode, round? mode r = some r'

namespace Round

lemma term_or_error (h : Round r r') :
    (∃ mode t, readTerm mode r = .ok (some t) r') ∨
      ∃ mode e r₁, readTerm mode r = .error e r₁ ∧ skipClause r₁ = .ok () r' := by
  obtain ⟨mode, h⟩ := h
  unfold round? at h
  split at h
  · cases h
  · next t r₁ read =>
    cases h
    exact .inl ⟨mode, t, read⟩
  · next e r₁ failed =>
    split at h
    · next skipped =>
      cases h
      exact .inr ⟨mode, e, r₁, failed, skipped⟩
    · cases h

lemma keeps (h : Round r r') (D : Discipline) (start : D.holds [] r.lexer.stream) :
    D.holds [] r'.lexer.stream := by
  rcases h.term_or_error with ⟨mode, t, read⟩ | ⟨mode, e, r₁, failed, skipped⟩
  · have kept := readTerm_sparing D mode r start
    rwa [read] at kept
  · have kept := readTerm_sparing D mode r start
    rw [failed] at kept
    exact (skipClause_keeps skipped).2 D kept.2

lemma lasts (h : Round r r') (lasts : ¬r.lexer.stream.Stalls) : ¬r'.lexer.stream.Stalls := by
  intro stalls
  exact lasts ((h.keeps (.reader _) rfl).symm.trans stalls)

lemma lookahead (h : Round r r') : r'.lookahead = none := by
  rcases h.term_or_error with ⟨mode, t, read⟩ | ⟨mode, e, r₁, failed, skipped⟩
  · have uses := readTerm_uses .chars mode r
    rw [read] at uses
    exact uses.1
  · exact (skipClause_keeps skipped).1

lemma uses (h : Round r r') (lasts : ¬r.lexer.stream.Stalls) (W : Weighing) : Uses W r r' := by
  rcases h.term_or_error with ⟨mode, t, read⟩ | ⟨mode, e, r₁, failed, skipped⟩
  · have uses := readTerm_uses W mode r
    rw [read] at uses
    exact uses.2
  · have uses := readTerm_uses W mode r
    rw [failed] at uses
    have light := (skipClause_keeps skipped).2 (W.under (W.of r₁.lexer.stream)) (Nat.le_refl _)
    refine (uses lasts).imp (Nat.lt_of_le_of_lt light) fun ⟨le, before, after⟩ => ?_
    exact ⟨Nat.le_trans light le, before, (skipClause_keeps skipped).2 .exhausted after⟩

end Round

def potential (W : Weighing) (r : Reader) : Nat :=
  W.of r.lexer.stream + r.ahead + if r.lexer.stream.exhausted then 0 else 1

lemma Round.potential_lt (h : Round r r') (lasts : ¬r.lexer.stream.Stalls) (W : Weighing) :
    potential W r' < potential W r := by
  have nothing : r'.ahead = 0 := by rw [ahead, h.lookahead]; rfl
  unfold potential
  rw [nothing]
  rcases h.uses lasts W with less | ⟨le, before, after⟩
  · split
    · split <;> omega
    · next more =>
      rw [if_neg fun (done : r.lexer.stream.exhausted = true) => more (h.keeps .exhausted done)]
      omega
  · rw [if_pos after, before, if_neg Bool.false_ne_true]
    omega

section

variable {m : Type → Type} [Monad m] {β : Type} {mode : m ReadMode}
  {handle : β → Except SyntaxError ReadTerm → m (ForInStep β)}

lemma forEach_eq_of_lt {n' : Nat} (lasts : ¬r.lexer.stream.Stalls)
    (enough : potential .chars r < n) (enough' : potential .chars r < n') (b : β) :
    forEach mode handle n r b = forEach mode handle n' r b := by
  induction n generalizing n' r b with
  | zero => omega
  | succ n ih =>
    cases n' with
    | zero => omega
    | succ n' =>
      have rest {r' : Reader} (round : Round r r') (b : β) :
          forEach mode handle n r' b = forEach mode handle n' r' b := by
        have := round.potential_lt lasts .chars
        exact ih (round.lasts lasts) (by omega) (by omega) b
      rw [forEach, forEach]
      congr 1
      funext now
      split
      · rfl
      · next t r' read =>
        congr 1
        funext step
        cases step with
        | done b => rfl
        | yield b => exact rest ⟨now, by rw [round?, read]⟩ b
      · next e r₁ failed =>
        congr 1
        funext step
        cases step with
        | done b => rfl
        | yield b =>
          dsimp only
          split
          · next r' skipped => exact rest ⟨now, by rw [round?, failed]; dsimp only; rw [skipped]⟩ b
          · rfl

lemma potential_lt_rounds (r : Reader) : potential .chars r < r.rounds := by
  have := r.ahead_le_one
  rw [potential, Weighing.chars_of, rounds]
  split <;> omega

end

lemma rounds_le_potential (W : Weighing) (trace : Nat → Reader) (k : Nat)
    (lasts : ¬(trace 0).lexer.stream.Stalls) (rounds : ∀ i < k, Round (trace i) (trace (i + 1))) :
    ¬(trace k).lexer.stream.Stalls ∧ k + potential W (trace k) ≤ potential W (trace 0) := by
  induction k with
  | zero => exact ⟨lasts, Nat.le_of_eq (Nat.zero_add _)⟩
  | succ k ih =>
    obtain ⟨lasts, before⟩ := ih fun i hi => rounds i (Nat.lt_succ_of_lt hi)
    have round := rounds k (Nat.lt_succ_self k)
    have last := round.potential_lt lasts W
    exact ⟨round.lasts lasts, by omega⟩

/-- The bytes of the source that were not read, with the characters of the line at hand and those
that were taken back. -/
def unread (r : Reader) : Nat := Weighing.bytes.of r.lexer.stream

lemma unread_ofBytes (bytes : List UInt8) : (ofSource (.ofBytes bytes)).unread = bytes.length := by
  rw [← Source.bytes_ofBytes]
  exact Nat.zero_add _

lemma Round.unread_le (h : Round r r') (lasts : ¬r.lexer.stream.Stalls) :
    r'.unread ≤ r.unread := by
  have one := r.ahead_le_one
  have uses := h.uses lasts .bytes
  unfold Uses at uses
  unfold unread
  omega

/-- Unless a source is from a reader that stalls, reading its terms ends, whatever it holds and
however else it fails. Tokens and errors are spent, skipping a clause ends before its bound, reading
a term before its budget, and each round that begins with no token looked at leaves less unread, or
a source that has no more for good. So the rounds are bounded by the bytes, and no larger bound on
their number gives another result. -/
theorem reading_ends (r : Reader) :
    (∀ bytes, (ofSource (.ofBytes bytes)).unread = bytes.length) ∧
    (∀ (valued : Bool) (l : Lexer), match l.next valued with
      | .ok t l' => Weighing.bytes.of l'.stream + t.worth ≤ Weighing.bytes.of l.stream
      | .error e l' => Weighing.bytes.Spent l.stream e l'.stream) ∧
    (∀ l : Lexer, ¬l.stream.Stalls → l.Skips l.skipToEnd) ∧
    (∀ mode e r', readTerm mode r = .error e r' → e.cause ≠ .tooDeep) ∧
    (¬r.lexer.stream.Stalls →
      (∀ r', Round r r' →
        ¬r'.lexer.stream.Stalls ∧ r'.lookahead = none ∧ r'.unread ≤ r.unread ∧
        (r.lookahead = none → r'.unread < r.unread ∨
          r.lexer.stream.exhausted = false ∧ r'.lexer.stream.exhausted = true) ∧
        (r.lexer.stream.exhausted = true → r'.lexer.stream.exhausted = true)) ∧
      (∀ (trace : Nat → Reader) (k : Nat), trace 0 = r →
        (∀ i < k, Round (trace i) (trace (i + 1))) → k ≤ r.unread + 2) ∧
      ∀ {m : Type → Type} [Monad m] {β : Type} (mode : m ReadMode)
        (handle : β → Except SyntaxError ReadTerm → m (ForInStep β)) (n : Nat) (b : β),
        r.rounds ≤ n → forEach mode handle n r b = forEach mode handle r.rounds r b) := by
  refine ⟨unread_ofBytes, fun valued l => l.weigh_next .bytes valued, fun l => skips_skipToEnd,
    fun mode e r' failed => cause_ne_tooDeep failed, fun lasts => ⟨fun r' round => ⟨round.lasts lasts,
      round.lookahead, round.unread_le lasts, fun fresh => ?_, round.keeps .exhausted⟩,
    fun trace k start rounds => ?_, fun mode handle n b enough => ?_⟩⟩
  · have uses := round.uses lasts .bytes
    rw [Uses, ahead, fresh] at uses
    exact uses.imp_right And.right
  · subst start
    have bound := (rounds_le_potential .bytes trace k lasts rounds).2
    have flag : (if (trace 0).lexer.stream.exhausted then 0 else 1) ≤ 1 := by split <;> omega
    have one := (trace 0).ahead_le_one
    rw [potential.eq_1 _ (trace 0)] at bound
    rw [unread]
    omega
  · have := r.potential_lt_rounds
    exact forEach_eq_of_lt lasts (by omega) this b

/-- An undecodable line before a clause, in a source that fails after it. -/
theorem reading_ends_failing :
    ∃ r', Round (ofSource (.failing [255, 10, 113, 46, 10, 120] "gone")) r' ∧
      r'.lookahead = none ∧
      r'.unread < (ofSource (.failing [255, 10, 113, 46, 10, 120] "gone")).unread := by
  generalize start : ofSource (.failing [255, 10, 113, 46, 10, 120] "gone") = r
  have found : (round? ⟨.standard, .codes⟩ r).map (·.lexer.stream.exhausted) = some false := by
    subst start
    decide +kernel
  obtain ⟨r', round, more⟩ := Option.map_eq_some_iff.1 found
  have lasts : ¬r.lexer.stream.Stalls := by
    subst start
    simp [ofSource, Lexer.ofSource, CharStream.ofSource, CharStream.Stalls, Source.failing]
  obtain ⟨-, fresh, -, used, -⟩ := ((reading_ends r).2.2.2.2 lasts).1 r' ⟨_, round⟩
  refine ⟨r', ⟨_, round⟩, fresh, ?_⟩
  rcases used (by rw [← start]; rfl) with less | ⟨-, done⟩
  · rwa [← start] at less ⊢
  · rw [more] at done
    cases done

/-- A reader that reports malformed data for ever: no term is read and skipping the clause never
ends. And an end that was looked at is all that a round need take. -/
theorem reading_stalls :
    (∃ r, r = ofSource ⟨[], some .refusing⟩ ∧ (∀ mode, ∃ e, readTerm mode r = .error e r) ∧
      ∀ result, ¬r.lexer.Skips result) ∧
    ∃ e r r', readTerm ⟨.standard, .codes⟩ (ofText ". p.") = .error e r ∧ Round r r' ∧
      r'.unread = r.unread ∧ r'.lexer.stream.exhausted = false := by
  refine ⟨⟨_, rfl, fun mode => ⟨.ofLex ⟨.undecodable, .start⟩, ?_⟩, not_skips rfl (by decide)⟩, ?_⟩
  · rw [readTerm_eq]
    refine bind_error (peek_of_next_error rfl ?_)
    rw [Lexer.next, token_of_read_error _ _ rfl]
    rfl
  · have found : (readTerm ⟨.standard, .codes⟩ (ofText ". p.")).casesOn
        (motive := fun _ => Option Bool) (fun _ _ => none)
        (fun _ r => (round? ⟨.standard, .codes⟩ r).map fun r' =>
          decide (r'.unread = r.unread) && !r'.lexer.stream.exhausted) = some true := by
      decide +kernel
    cases failed : readTerm ⟨.standard, .codes⟩ (ofText ". p.") with
    | ok t r =>
      rw [failed] at found
      cases found
    | error e r =>
      rw [failed] at found
      obtain ⟨r', round, same⟩ := Option.map_eq_some_iff.1 found
      exact ⟨e, r, r', rfl, ⟨_, round⟩, by simpa using same⟩

end Reader

end Horn
