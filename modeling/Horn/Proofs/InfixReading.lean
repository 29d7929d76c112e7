import Horn.Proofs.CanonicalRoundTrip
import Horn.Proofs.PrecedenceClimbing

/-! # Reading infix expressions -/

namespace Horn

open Text List Term Reader Scan OperatorTable

variable {rest after : List (Operator × Term)} {x : Term} {T : InfixTree}
  {ls : List Lexeme}

/-- The text begins with these tokens, whether or not a term may begin where they stand. Blanks may
stand before each of them. -/
inductive Tokens : List Char → List Lexeme → Prop where
  | nil {cs : List Char} : Tokens cs []
  | token {cs rest : List Char} {l : Lexeme} {ls : List Lexeme}
      (lexes : ∀ glued, Lexes glued cs l rest) (unsigned : l.isSigned = false)
      (others : Tokens rest ls) : Tokens cs (l :: ls)
  | blank {c : Char} {cs : List Char} {ls : List Lexeme} (blank : isBlank c)
      (others : Tokens cs ls) : Tokens (c :: cs) ls

namespace Tokens

open Scan

variable {cs : List Char} {l : Lexeme}

lemma skipLayout (h : Tokens cs (l :: ls)) :
    ∃ cs' rest, (∀ seen, Scans (fun s => s.skipLayout seen) cs (fun _ => True) cs') ∧
      (∀ glued, Lexes glued cs' l rest) ∧ l.isSigned = false ∧ Tokens rest ls := by
  generalize eq : l :: ls = ls' at h
  induction h with
  | nil => cases eq
  | @token cs rest _ _ lexes unsigned others =>
    cases eq
    refine ⟨cs, rest, fun seen => ?_, lexes, unsigned, others⟩
    intro s hs
    obtain ⟨b, t, run, -, ht⟩ := skipLayout_scans (lexes false).layoutFree s hs
    exact ⟨b, t, run, trivial, ht⟩
  | blank blank _ ih =>
    obtain ⟨cs', rest, skips, found⟩ := ih eq
    exact ⟨cs', rest, fun seen => skipLayout_cons blank (skips true), found⟩

lemma token_scans (h : Tokens cs (l :: ls)) :
    ∃ rest, Tokens rest ls ∧
      ∀ first valued, Scans (Scan.token first valued) cs (·.lexeme = l) rest := by
  obtain ⟨cs', rest, skips, lexes, unsigned, others⟩ := h.skipLayout
  refine ⟨rest, others, fun first valued => ?_⟩
  refine (skips false).bind fun layout _ => ?_
  obtain ⟨c, tail, rfl, -, scans⟩ := (lexes (!layout && !first)).scans
  refine char?_cons.bind ?_
  rintro _ ⟨p, rfl⟩
  refine (scans valued p ?_).map fun _ h => h
  rw [unsigned]
  exact fun e => nomatch e

lemma length_le (h : Tokens cs ls) : ls.length ≤ cs.length := by
  induction h with
  | nil => exact Nat.zero_le _
  | token lexes _ _ ih =>
    obtain ⟨c, tail, rfl, shorter, _⟩ := (lexes false).scans
    exact Nat.succ_le_succ (Nat.le_trans ih shorter)
  | blank _ _ ih => exact Nat.le_succ_of_le ih

end Tokens

lemma Lexes.clauseEnd {glued : Bool} {rest : List Char}
    (ends : ∀ c, rest.head? = some c → isBlank c ∨ c = '%') :
    Lexes glued ('.' :: rest) .clauseEnd rest := by
  refine ⟨.of_ne (by decide) (by decide) (by decide), '.', rest, rfl, by simp, fun valued p _ => ?_⟩
  change Scans pointOrAtom rest _ rest
  refine peek?_scans.bind_eq ?_
  cases rest with
  | nil => exact .pure rfl
  | cons c rest =>
    have ends : (isBlank c || decide (c = '%')) = true := by simpa using ends c rfl
    simp only [head?_cons, ends, if_true]
    exact .pure rfl

def Lexer.Hands : List Lexeme → Lexer → Prop
  | [], _ => True
  | x :: xs, l => ∀ valued, ∃ t l', l.next valued = .ok t l' ∧ t.lexeme = x ∧ Hands xs l'

lemma Tokens.hands {cs : List Char} (h : Tokens cs ls) {l : Lexer}
    (place : l.stream.At cs) : l.Hands ls := by
  induction ls generalizing cs l with
  | nil => trivial
  | cons x xs ih =>
    intro valued
    obtain ⟨rest, others, scans⟩ := h.token_scans
    obtain ⟨t, s, run, kind, there⟩ := scans l.last.isNone valued l.stream place
    exact ⟨t, ⟨s, some t⟩, by rw [Lexer.next, run], kind, ih others there⟩

namespace Reader

inductive Holds : Reader → List Lexeme → Prop where
  | fresh {r : Reader} {ls : List Lexeme} (lookahead : r.lookahead = none)
      (hands : r.lexer.Hands ls) : Holds r ls
  | seen {r : Reader} {t : Token} {l : Lexeme} {ls : List Lexeme} (lookahead : r.lookahead = some t)
      (kind : t.lexeme = l) (hands : r.lexer.Hands ls) : Holds r (l :: ls)

variable {r : Reader} {l : Lexeme}

def Sees (t : Token) (ls : List Lexeme) (r : Reader) : Prop :=
  r.lookahead = some t ∧ r.lexer.Hands ls

lemma Holds.peek (h : r.Holds (l :: ls)) (valued : Bool) :
    ∃ t r', peek valued r = .ok t r' ∧ t.lexeme = l ∧ r'.Sees t ls := by
  generalize eq : l :: ls = ls' at h
  cases h with
  | fresh lookahead hands =>
    subst eq
    obtain ⟨t, l', run, kind, hands⟩ := hands valued
    exact ⟨t, _, peek_of_next lookahead run, kind, rfl, hands⟩
  | seen lookahead kind hands =>
    cases eq
    exact ⟨_, r, peek_of_looked lookahead, kind, lookahead, hands⟩

section

variable {α : Type} {g : Token → Reading α} {y : Reading α} {t : Token} {valued : Bool}
  {Q : Reader → Prop}

lemma Becomes.peek_held (h : ∀ t : Token, t.lexeme = l → Becomes (Sees t ls) (g t) y Q) :
    Becomes (Holds · (l :: ls)) (Reader.peek valued >>= g) y Q := by
  intro r holds
  obtain ⟨t, r', peeked, kind, sees⟩ := holds.peek valued
  rw [bind_ok peeked]
  exact h t kind r' sees

lemma Becomes.advance_held (h : Becomes (Holds · ls) (g t) y Q) :
    Becomes (Sees t ls) (Reader.advance >>= g) y Q := by
  intro r sees
  rw [bind_ok (advance_of_looked sees.1)]
  exact h _ (.fresh rfl sees.2)

lemma Becomes.held (kind : t.lexeme = l) {x : Reading α}
    (h : Becomes (Holds · (l :: ls)) x y Q) :
    Becomes (Sees t ls) x y Q :=
  fun r sees => h r (.seen sees.1 kind sees.2)

end

end Reader

/-- Operands of which each is one token: integers that are not negative, and atoms that are no
operators. -/
inductive OperandToken (ops : OperatorTable) : Lexeme → Term → Prop where
  | integer {i : Int64} (nonneg : 0 ≤ i.toInt) : OperandToken ops (.integer i) (.int i)
  | atom {name : String} (quoted : Bool) (plain : ops.isOperator name = false) :
      OperandToken ops (.atom name quoted) (.atom name)

inductive InfixToken (ops : OperatorTable) : Lexeme → Operator → Prop where
  | comma : InfixToken ops .comma ⟨",", 1000, .xfy⟩
  | atom {name : String} {op : Operator} (quoted : Bool) (found : ops.infixOp? name = some op)
      (fixity : op.fixity = .infixOp) (bar : name ≠ "|") : InfixToken ops (.atom name quoted) op

inductive InfixTokens (ops : OperatorTable) : List Lexeme → List (Operator × Term) → Prop where
  | nil : InfixTokens ops [] []
  | cons {k l : Lexeme} {ls : List Lexeme} {op : Operator} {x : Term}
      {rest : List (Operator × Term)} (operator : InfixToken ops k op)
      (operand : OperandToken ops l x) (others : InfixTokens ops ls rest) :
      InfixTokens ops (k :: l :: ls) ((op, x) :: rest)

namespace OperatorTable

lemma Reachable.infix_permitted {ops : OperatorTable} (h : ops.Reachable) :
    ∀ op ∈ ops.infixOps, Permitted op :=
  fun op ho => h.wellKept.permitted op (mem_append_right _ ho)

end OperatorTable

variable {ops : OperatorTable} {op : Operator} {k : Lexeme}

lemma InfixToken.infixToken? (h : InfixToken ops k op) (reachable : ops.Reachable) :
    Reader.infixToken? ops k = some (op, op.name) := by
  cases h with
  | comma => rfl
  | @atom name op quoted found fixity bar =>
    have named : op.name = name := by simpa using List.find?_some found
    rw [Reader.infixToken?]
    split
    · next comma =>
      rw [(reachable.infix_permitted op (List.mem_of_find?_eq_some found)).comma (named.trans comma)]
    · rw [found, named]
      rfl

lemma InfixToken.allowed (h : InfixToken ops k op) (reachable : ops.Reachable) :
    op.fixity = .infixOp ∧ 0 < op.priority ∧ op.priority ≤ maxPriority := by
  cases h with
  | comma => decide
  | atom quoted found fixity bar =>
    have permitted := reachable.infix_permitted op (mem_of_find?_eq_some found)
    exact ⟨fixity, permitted.positive, permitted.bounded⟩

lemma InfixTokens.allInfix (h : InfixTokens ops ls rest)
    (reachable : ops.Reachable) : InfixTree.AllInfix rest := by
  induction h with
  | nil => exact fun _ hp => nomatch hp
  | cons operator _ _ ih => exact forall_mem_cons.2 ⟨operator.allowed reachable, ih⟩

lemma InfixTokens.length_eq (h : InfixTokens ops ls rest) :
    ls.length = 2 * rest.length := by
  induction h with
  | nil => rfl
  | cons _ _ _ ih =>
    rw [length_cons, length_cons, length_cons, ih]
    omega

def clauseRest (ls : List Lexeme) : List Lexeme := ls ++ [.clauseEnd]

lemma InfixTokens.next_ne_openCall (h : InfixTokens ops ls rest) :
    ∃ k ks, clauseRest ls = k :: ks ∧ k ≠ .openCall := by
  cases h with
  | nil => exact ⟨_, _, rfl, nofun⟩
  | cons operator _ _ =>
    cases operator with
    | comma | atom => exact ⟨_, _, rfl, nofun⟩

namespace Reader

open InfixTree

variable {r : Reader} {mode : ReadMode} {n max : Nat} {l : Lexeme}

lemma operand_held (n max : Nat) (operand : OperandToken mode.operators l x)
    (others : InfixTokens mode.operators ls rest) :
    Becomes (Holds · (l :: clauseRest ls)) (expr mode (n + 3) max) (extend mode (n + 2) x 0 max)
      (Holds · (clauseRest ls)) := by
  rw [expr, primary]
  cases operand with
  | @integer i nonneg =>
    refine .bind (b := (.int i, 0)) (.peek_held fun _ kind => ?_) .refl
    rw [kind]
    exact .advance_held .refl
  | @atom name quoted plain =>
    obtain ⟨none, -⟩ : mode.operators.prefixOp? name = none ∧ _ := by
      simpa [isOperator] using plain
    obtain ⟨k, ks, eq, call⟩ := InfixTokens.next_ne_openCall others
    refine .bind (b := (.atom name, 0)) (.peek_held fun _ kind => ?_) .refl
    rw [kind, eq]
    refine .advance_held ?_
    rw [nameTerm, none]
    refine .peek_held fun _ kind' => .held kind' ?_
    rw [if_neg (kind' ▸ call)]
    exact .refl

lemma extend_held (reachable : mode.operators.Reachable) {L : InfixTree}
    (climbs : Climbs max L rest T after) (tokens : InfixTokens mode.operators ls rest)
    (fuel : 2 * rest.length + 2 ≤ n) :
    ∃ ls', InfixTokens mode.operators ls' after ∧
      Becomes (Holds · (clauseRest ls)) (extend mode n L.term L.priority max)
        (pure (T.term, T.priority)) (Holds · (clauseRest ls')) := by
  induction climbs generalizing ls n with
  | @stop max left rest refused =>
    obtain ⟨n, rfl⟩ : ∃ k, n = k + 1 := ⟨n - 1, by omega⟩
    refine ⟨ls, tokens, ?_⟩
    rw [extend]
    cases tokens with
    | nil =>
      refine .peek_held fun _ kind => .held kind ?_
      rw [kind]
      exact .refl
    | @cons k l ls op x more operator operand others =>
      have refused : (decide (max < op.priority) || decide (op.leftMax < left.priority)) = true := by
        simpa using refused op x more rfl
      refine .peek_held fun _ kind => .held kind ?_
      rw [kind, operator.infixToken? reachable]
      simp only [refused, if_true]
      exact .refl
  | @step max left right T op x rest more after low fits operand further ih ih' =>
    obtain ⟨n, rfl⟩ : ∃ k, n = k + 3 + 1 := ⟨n - 4, by simp at fuel; omega⟩
    rw [length_cons] at fuel
    cases tokens with
    | @cons k l ls _ _ _ operator operand' others =>
      obtain ⟨ls', others', right⟩ := ih others (n := n + 2) (by omega)
      have shorter := operand.length_le
      obtain ⟨ls'', tokens, whole⟩ := ih' others' (n := n + 3) (by omega)
      refine ⟨ls'', tokens, ?_⟩
      have taken : (decide (max < op.priority) || decide (op.leftMax < left.priority)) = false := by
        simpa using ⟨low, fits⟩
      have infixed : op.fixity ≠ .postfixOp := by
        rw [(operator.allowed reachable).1]
        rintro ⟨⟩
      rw [extend]
      refine .peek_held fun _ kind => ?_
      rw [kind, operator.infixToken? reachable]
      simp only [taken, Bool.false_eq_true, if_false, if_neg infixed]
      exact .advance_held (((operand_held n op.rightMax operand' others).trans right).bind whole)

lemma Holds.closed (reachable : mode.operators.Reachable)
    (climbs : Climbs maxPriority (leaf x) rest T after)
    (operand : OperandToken mode.operators l x) (others : InfixTokens mode.operators ls rest)
    (h : r.Holds (l :: clauseRest ls)) (fuel : 2 * rest.length + 4 ≤ n) :
    (after = [] → ∃ t r', closed mode n .clause maxPriority r = .ok T.term r' ∧
      r'.lookahead = some t) ∧
    (after ≠ [] → ∃ e r', closed mode n .clause maxPriority r = .error e r') := by
  obtain ⟨n, rfl⟩ : ∃ k, n = k + 3 + 1 := ⟨n - 4, by omega⟩
  obtain ⟨ls', tokens, run⟩ := extend_held reachable climbs others (n := n + 2) (by omega)
  obtain ⟨r₂, read, holds⟩ := (operand_held n maxPriority operand others).trans run r h
  rw [Reader.closed, bind_ok read]
  cases tokens with
  | nil =>
    obtain ⟨t, r₃, peeked, kind, sees⟩ := holds.peek false
    refine ⟨fun _ => ⟨t, r₃, ?_, sees.1⟩, fun some => absurd rfl some⟩
    refine (bind_ok peeked).trans ?_
    rw [kind]
    rfl
  | @cons k _ _ _ _ _ operator _ _ =>
    obtain ⟨t, r₃, peeked, kind, -⟩ := holds.peek false
    refine ⟨fun none => absurd none (cons_ne_nil _ _),
      fun _ => ⟨.atToken t (Closing.clause.fault k), r₃, ?_⟩⟩
    have refused : Closing.clause.accepts k = false := by cases operator <;> rfl
    refine (bind_ok peeked).trans ?_
    rw [kind, refused]
    rfl

lemma Holds.readTerm (mode : ReadMode) (reachable : mode.operators.Reachable)
    (climbs : Climbs maxPriority (leaf x) rest T after)
    (operand : OperandToken mode.operators l x) (others : InfixTokens mode.operators ls rest)
    (h : r.Holds (l :: clauseRest ls)) (fuel : 2 * rest.length + 4 ≤ r.depth) :
    (after = [] → ∃ read r', readTerm mode r = .ok (some read) r' ∧ read.term = T.term) ∧
    (after ≠ [] → ∃ e r', readTerm mode r = .error e r') := by
  let start : Reader := { r with varIds := [], nextVar := 0 }
  have holds : start.Holds (l :: clauseRest ls) := by
    cases h with
    | fresh lookahead hands => exact .fresh lookahead hands
    | seen lookahead kind hands => exact .seen lookahead kind hands
  obtain ⟨first, r₁, peeked, kind, lookahead, hands⟩ := holds.peek true
  have begins : first.lexeme ≠ .inputEnd := by
    rw [kind]
    cases operand <;> nofun
  have closed := Holds.closed reachable climbs operand others (.seen lookahead kind hands) fuel
  rw [readTerm_eq, bind_ok peeked, if_neg begins, clauseFrom]
  refine ⟨fun done => ?_, fun left => ?_⟩
  · obtain ⟨t, r₂, closed, lookahead⟩ := closed.1 done
    refine ⟨_, _, (bind_ok closed).trans (bind_ok (advance_of_looked lookahead)), rfl⟩
  · obtain ⟨e, r₂, closed⟩ := closed.2 left
    exact ⟨e, r₂, bind_error closed⟩

/-- An expression of operands and infix operators is read exactly if there is a tree for it that the
types of the operators allow. The term is such a tree, and there is no other if no two of the
operators of one priority associate to different sides. -/
theorem infix_expression_reads {ops : OperatorTable} (reachable : ops.Reachable)
    (quotes : DoubleQuotes) {r : Reader} {cs : List Char} {l : Lexeme} {ls : List Lexeme} {x : Term}
    {rest : List (Operator × Term)} (start : r.lookahead = none) (place : r.lexer.stream.At cs)
    (text : Tokens cs (l :: ls ++ [.clauseEnd])) (operand : OperandToken ops l x)
    (others : InfixTokens ops ls rest) :
    ((∃ read r', readTerm ⟨ops, quotes⟩ r = .ok (some read) r') ↔
      ∃ T : InfixTree, T.Allowed ∧ T.first = x ∧ T.rest = rest) ∧
    ∀ read r', readTerm ⟨ops, quotes⟩ r = .ok (some read) r' →
      ∃ T : InfixTree, (T.Allowed ∧ T.first = x ∧ T.rest = rest) ∧ read.term = T.term ∧
        (Unmixed rest → ∀ U : InfixTree, U.Allowed ∧ U.first = x ∧ U.rest = rest → U = T) := by
  have infixes := others.allInfix reachable
  have fuel : 2 * rest.length + 4 ≤ r.depth := by
    have short := text.length_le
    have pairs := others.length_eq
    rw [length_append, length_cons] at short
    rw [depth, place.size]
    omega
  obtain ⟨T, after, climbs⟩ := exists_climbs maxPriority (leaf x) rest
  obtain ⟨reads, fails⟩ := Holds.readTerm ⟨ops, quotes⟩ reachable climbs operand others
    (.fresh start (text.hands place)) fuel
  have taken {read : ReadTerm} {r' : Reader}
      (h : readTerm ⟨ops, quotes⟩ r = .ok (some read) r') : after = [] := by
    cases after with
    | nil => rfl
    | cons first others =>
      obtain ⟨e, r'', failed⟩ := fails (cons_ne_nil _ _)
      cases failed.symm.trans h
  refine ⟨⟨?_, fun tree => ?_⟩, fun read r' returned => ?_⟩
  · rintro ⟨read, r', returned⟩
    cases taken returned
    exact (climbs_whole_iff infixes).1 ⟨T, climbs⟩
  · obtain ⟨U, whole⟩ := (climbs_whole_iff infixes).2 tree
    obtain ⟨read, r', returned, -⟩ := reads (climbs.unique whole).2
    exact ⟨read, r', returned⟩
  · cases taken returned
    obtain ⟨allowed, -, first, parts⟩ := climbs.sound trivial (Nat.zero_le _)
    obtain ⟨read', r'', returned', term⟩ := reads rfl
    cases returned.symm.trans returned'
    refine ⟨T, ⟨allowed, first, ?_⟩, term, ?_⟩
    · rw [append_nil] at parts
      exact parts.symm
    · rintro unmixed U ⟨allowed', rfl, rfl⟩
      exact ((allowed'.canonical infixes unmixed).climbs_whole allowed' infixes |>.unique climbs).1

/-- Operators that associate to the left, below one that does not associate. -/
theorem infix_expression_reads_example :
    ∃ read r', readTerm ⟨.standard, .codes⟩ (.ofText "a - 1 - b = c .") = .ok (some read) r' ∧
      read.term = .compound "="
        [.compound "-" [.compound "-" [.atom "a", .int 1], .atom "b"], .atom "c"] := by
  let minus : Operator := ⟨"-", 500, .yfx⟩
  let equals : Operator := ⟨"=", 700, .xfx⟩
  let rest : List (Operator × Term) := [(minus, .int 1), (minus, .atom "b"), (equals, .atom "c")]
  let T : InfixTree := node (node (node (leaf (.atom "a")) minus (leaf (.int 1))) minus
    (leaf (.atom "b"))) equals (leaf (.atom "c"))
  have stops (rest : List Char) : Stops (' ' :: rest) := by
    intro c hc
    cases hc
    decide
  have blank : isBlank ' ' := by decide
  have atom (name : String) {rest : List Char} {ls : List Lexeme}
      (plain : opensComment name = false ∧ name ≠ "[]" ∧ name ≠ "\x7b\x7d")
      (others : Tokens rest ls) : Tokens ((quoteAtom name).toList ++ ' ' :: rest)
        (.atom name (!isBareAtom name) :: ls) :=
    .token (fun _ => .atom plain.1 plain.2 (stops rest)) rfl (.blank blank others)
  have one {rest : List Char} {ls : List Lexeme} (others : Tokens rest ls) :
      Tokens ((toString (1 : Int64).toInt).toList ++ ' ' :: rest) (.integer 1 :: ls) :=
    .token (fun _ => .integer 1 (stops rest)) rfl (.blank blank others)
  let ls : List Lexeme := [.atom "-" false, .integer 1, .atom "-" false, .atom "b" false,
    .atom "=" false, .atom "c" false]
  have text : Tokens "a - 1 - b = c .".toList (.atom "a" false :: ls ++ [.clauseEnd]) :=
    atom "a" (by decide) <| atom "-" (by decide) <| one <| atom "-" (by decide) <|
      atom "b" (by decide) <| atom "=" (by decide) <| atom "c" (by decide) <|
      .token (fun _ => .clauseEnd nofun) rfl .nil
  have operand (name : String) (plain : standard.isOperator name = false) :
      OperandToken .standard (.atom name false) (.atom name) := .atom false plain
  have operator (name : String) (op : Operator) (found : standard.infixOp? name =
      some op ∧ op.fixity = .infixOp ∧ name ≠ "|") : InfixToken .standard (.atom name false) op :=
    .atom false found.1 found.2.1 found.2.2
  have others : InfixTokens .standard ls rest :=
    .cons (operator "-" minus (by decide)) (.integer (by decide)) <|
      .cons (operator "-" minus (by decide)) (operand "b" (by decide)) <|
      .cons (operator "=" equals (by decide)) (operand "c" (by decide)) .nil
  have allowed : T.Allowed := by decide
  have unmixed : Unmixed rest := by unfold Unmixed; decide
  let r : Reader := .ofText "a - 1 - b = c ."
  have place : r.lexer.stream.At "a - 1 - b = c .".toList := CharStream.at_ofText _
  have start : r.lookahead = none := rfl
  obtain ⟨reads, tree⟩ := infix_expression_reads .standard .codes start place text
    (operand "a" (by decide)) others
  obtain ⟨read, r', returned⟩ := reads.2 ⟨T, allowed, rfl, rfl⟩
  obtain ⟨U, -, term, unique⟩ := tree read r' returned
  refine ⟨read, r', returned, ?_⟩
  rw [term, ← unique unmixed T ⟨allowed, rfl, rfl⟩]
  rfl

end Reader

end Horn
