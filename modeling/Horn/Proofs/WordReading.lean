import Horn.Proofs.WrittenWords
import Horn.Reader.Basic

/-!
# Reading words

A reader has looked at no word or at one word ahead; all it does is to look at the next word and to
take it.
-/

namespace Horn

open Text Reader WriteStyle

variable {l : Lexer} {α β : Type} {r' : Reader} {t : Token} {ws : List Word}

/-- The lexer hands out these words and then the end of the text. -/
def Lexer.Yields (l : Lexer) (ws : List Word) : Prop :=
  ∃ cs, l.stream.At cs ∧ Spells (!l.last.isNone) cs ws

def nextLexeme : List Word → Lexeme
  | [] => .inputEnd
  | w :: _ => w.lexeme

lemma Lexer.Yields.next {valued : Bool} (h : l.Yields ws)
    (sign : (nextLexeme ws).isSigned → valued = true) :
    ∃ t l', l.next valued = .ok t l' ∧ t.lexeme = nextLexeme ws ∧ l'.Yields ws.tail := by
  obtain ⟨cs, at_cs, spells⟩ := h
  cases ws with
  | nil =>
    obtain ⟨t, s, run, kind, at_nil⟩ := spells.token_end l.stream at_cs
    exact ⟨t, ⟨s, some t⟩, by rw [Lexer.next, run], kind, [], at_nil, .done⟩
  | cons w ws =>
    obtain ⟨rest, scans, others⟩ := spells.token_scans rfl sign
    obtain ⟨t, s, run, kind, at_rest⟩ := scans l.stream at_cs
    exact ⟨t, ⟨s, some t⟩, by rw [Lexer.next, run], kind, rest, at_rest, others⟩

lemma Lexer.Yields.length_le (h : l.Yields ws) : ws.length ≤ l.stream.size := by
  obtain ⟨cs, at_cs, spells⟩ := h
  rw [at_cs.size]
  exact spells.length_le

open Word

variable {ops : OperatorTable}

/-- Whether the role of a word shows in the token after it. A prefix operator needs a token that
begins an operand; an atom that is a prefix operator must not have one. -/
def Word.roleShows (ops : OperatorTable) (w : Word) (next : Lexeme) : Bool :=
  match w.role with
  | .prefixOp => Reader.startsOperand ops next
  | .operand name => (ops.prefixOp? name).isNone || !Reader.startsOperand ops next
  | .plain => true

def rolesShow (ops : OperatorTable) : List Word → Bool
  | [] => true
  | w :: ws => w.roleShows ops (nextLexeme ws) && rolesShow ops ws

@[simp]
lemma rolesShow_plain (ops : OperatorTable) (l : Lexeme) (ws : List Word) :
    rolesShow ops (plain l :: ws) = rolesShow ops ws := rfl

lemma rolesShow_ofName (ops : OperatorTable) (role : Role) (name : String) (ws : List Word) :
    rolesShow ops (ofName role name ++ ws) =
      (roleShows ops ⟨.inputEnd, role⟩ (nextLexeme ws) && rolesShow ops ws) := by
  unfold ofName
  split
  · rfl
  split
  · rfl
  · rfl

namespace Reader

abbrev Numbering := List (String × Nat) × Nat

structure Fresh (r : Reader) (ws : List Word) (vs : Numbering) : Prop where
  lookahead : r.lookahead = none
  words : r.lexer.Yields ws
  vars : (r.varIds, r.nextVar) = vs

structure Seen (r : Reader) (ws : List Word) (vs : Numbering) : Prop where
  lookahead : ∃ t, r.lookahead = some t ∧ t.lexeme = nextLexeme ws
  words : r.lexer.Yields ws.tail
  vars : (r.varIds, r.nextVar) = vs

def Ahead (r : Reader) (ws : List Word) (vs : Numbering) : Prop := r.Fresh ws vs ∨ r.Seen ws vs

variable {r : Reader} {vs : Numbering} {valued : Bool}

lemma get_bind (r : Reader) (f : Reader → Reading α) : (get >>= f) r = f r r := rfl

lemma peek_of_looked (h : r.lookahead = some t) : peek valued r = .ok t r := by
  rw [peek, get_bind, h]
  rfl

lemma peek_of_next (h : r.lookahead = none) (run : r.lexer.next valued = .ok t l) :
    peek valued r = .ok t { r with lexer := l, lookahead := some t } := by
  have token : nextToken valued r = .ok t { r with lexer := l } := by rw [nextToken, run]
  rw [peek, get_bind, h]
  exact (bind_ok token).trans rfl

lemma peek_of_next_error {e : LexError} (h : r.lookahead = none)
    (run : r.lexer.next valued = .error e l) :
    peek valued r = .error (.ofLex e) { r with lexer := l } := by
  have failed : nextToken valued r = .error (.ofLex e) { r with lexer := l } := by
    rw [nextToken, run]
  rw [h] at failed
  rw [peek, get_bind, h]
  exact bind_error failed

lemma peek_ok (run : peek valued r = .ok t r') :
    r.lookahead = some t ∧ r' = r ∨ r.lookahead = none ∧
      ∃ l, r.lexer.next valued = .ok t l ∧ r' = { r with lexer := l, lookahead := some t } := by
  cases looked : r.lookahead with
  | some u =>
    rw [peek_of_looked looked] at run
    cases run
    exact .inl ⟨rfl, rfl⟩
  | none =>
    cases next : r.lexer.next valued with
    | ok u l =>
      rw [peek_of_next looked next] at run
      cases run
      exact .inr ⟨rfl, l, rfl, rfl⟩
    | error e l =>
      rw [peek_of_next_error looked next] at run
      cases run

lemma advance_of_looked (h : r.lookahead = some t) :
    advance r = .ok t { r with lookahead := none } := by
  rw [advance, get_bind, h]
  rfl

lemma Ahead.peek (h : r.Ahead ws vs) (sign : (nextLexeme ws).isSigned → valued = true) :
    ∃ t r', peek valued r = .ok t r' ∧ t.lexeme = nextLexeme ws ∧ r'.Seen ws vs := by
  rcases h with fresh | seen
  · obtain ⟨t, l, run, kind, words⟩ := fresh.words.next sign
    exact ⟨t, _, peek_of_next fresh.lookahead run, kind, ⟨t, rfl, kind⟩, words, fresh.vars⟩
  · obtain ⟨t, looked, kind⟩ := seen.lookahead
    exact ⟨t, r, peek_of_looked looked, kind, seen⟩

lemma Seen.advance (h : r.Seen ws vs) :
    ∃ t r', advance r = .ok t r' ∧ t.lexeme = nextLexeme ws ∧ r'.Fresh ws.tail vs := by
  obtain ⟨t, looked, kind⟩ := h.lookahead
  exact ⟨t, _, advance_of_looked looked, kind, rfl, h.words, h.vars⟩

def clauseFrom (mode : ReadMode) (depth : Nat) (first : Token) : Reading (Option ReadTerm) := do
  let term ← closed mode depth .clause OperatorTable.maxPriority
  let _ ← advance
  return some (← finish term first.position)

lemma readTerm_eq (mode : ReadMode) (r : Reader) :
    readTerm mode r = (peek true >>= fun first =>
      if first.lexeme = .inputEnd then pure none else clauseFrom mode r.depth first)
      { r with varIds := [], nextVar := 0 } :=
  rfl

def readBack (name : String) (id : Nat) (vs : Numbering) : Term × Numbering :=
  let text := WriteStyle.varText name id
  match vs.1.find? (·.1 = text) with
  | some (_, i) => (.var text i, vs)
  | none => (.var text vs.2, (vs.1 ++ [(text, vs.2)], vs.2 + 1))

lemma varText_ne_underscore (name : String) (id : Nat) : varText name id ≠ "_" := by
  unfold varText
  split
  · intro h
    have := congrArg String.toList h
    rw [String.toList_append] at this
    cases this
  · next h => exact fun e => h (by simp [e])

/-- From such a reader on, the one reading goes on as the other. -/
def Becomes (P : Reader → Prop) (x y : Reading α) (Q : Reader → Prop) : Prop :=
  ∀ r, P r → ∃ r', x r = y r' ∧ Q r'

def Facing (ops : OperatorTable) (ws : List Word) (vs : Numbering) (r : Reader) : Prop :=
  r.Ahead ws vs ∧ rolesShow ops ws

def Viewing (ops : OperatorTable) (ws : List Word) (vs : Numbering) (r : Reader) : Prop :=
  r.Seen ws vs ∧ rolesShow ops ws

/-- A token that neither opens arguments nor begins with a sign. -/
def Apart (l : Lexeme) : Prop := l ≠ .openCall ∧ l.isSigned = false

lemma Apart.sign {l : Lexeme} (h : Apart l) : l.isSigned → valued = true := by
  rw [h.2]
  exact fun e => nomatch e

namespace Becomes

variable {P Q R : Reader → Prop} {x y z : Reading α} {g : Token → Reading α}

lemma refl : Becomes P x x P := fun r h => ⟨r, rfl, h⟩

lemma trans (h : Becomes P x y Q) (h' : Becomes Q y z R) : Becomes P x z R := by
  intro r p
  obtain ⟨r₁, run, q⟩ := h r p
  obtain ⟨r₂, run', q'⟩ := h' r₁ q
  exact ⟨r₂, run.trans run', q'⟩

lemma bind {x : Reading β} {f : β → Reading α} {b : β} (h : Becomes P x (pure b) Q)
    (h' : Becomes Q (f b) z R) : Becomes P (x >>= f) z R := by
  intro r p
  obtain ⟨r₁, run, q⟩ := h r p
  obtain ⟨r₂, run', q'⟩ := h' r₁ q
  exact ⟨r₂, (bind_ok run).trans run', q'⟩

lemma looked (h : Becomes (Facing ops ws vs) x y Q) : Becomes (Viewing ops ws vs) x y Q :=
  fun r p => h r ⟨.inr p.1, p.2⟩

lemma given_roles (h : rolesShow ops ws → Becomes (Facing ops ws vs) x y Q) :
    Becomes (Facing ops ws vs) x y Q :=
  fun r p => h p.2 r p

lemma peek (sign : (nextLexeme ws).isSigned → valued = true)
    (h : ∀ t : Token, t.lexeme = nextLexeme ws → Becomes (Viewing ops ws vs) (g t) y Q) :
    Becomes (Facing ops ws vs) (Reader.peek valued >>= g) y Q := by
  rintro r ⟨ahead, roles⟩
  obtain ⟨t, r₁, peeked, kind, seen⟩ := ahead.peek sign
  rw [bind_ok peeked]
  exact h t kind r₁ ⟨seen, roles⟩

lemma advance {w : Word}
    (h : ∀ t : Token, t.lexeme = w.lexeme → Becomes (Facing ops ws vs) (g t) y Q) :
    Becomes (Viewing ops (w :: ws) vs) (Reader.advance >>= g) y Q := by
  rintro r ⟨seen, roles⟩
  obtain ⟨t, r₁, advanced, kind, fresh⟩ := seen.advance
  rw [bind_ok advanced]
  exact h t kind r₁ ⟨.inl fresh, (Bool.and_eq_true_iff.1 roles).2⟩

end Becomes

lemma varNamed_becomes (name : String) (id : Nat) :
    Becomes (Facing ops ws vs) (varNamed (varText name id)) (pure (readBack name id vs).1)
      (Facing ops ws (readBack name id vs).2) := by
  rintro r ⟨ahead, roles⟩
  obtain rfl : (r.varIds, r.nextVar) = vs := ahead.elim Fresh.vars Seen.vars
  rw [varNamed, if_neg (varText_ne_underscore name id), get_bind]
  unfold readBack
  cases found : r.varIds.find? (·.1 = varText name id) with
  | some entry =>
    simp only [found]
    exact ⟨r, rfl, ahead, roles⟩
  | none =>
    simp only [found]
    exact ⟨{ r with
        nextVar := r.nextVar + 1
        varIds := r.varIds ++ [(varText name id, r.nextVar)] },
      rfl, ahead.imp (fun h => ⟨h.1, h.2, rfl⟩) fun h => ⟨h.1, h.2, rfl⟩, roles⟩

variable {mode : ReadMode} {n max : Nat} {name : String}

lemma primary_name {role : Role} :
    Becomes (Facing ops (ofName role name ++ ws) vs) (primary mode (n + 1) max)
      (nameTerm mode n name max) (Facing ops ws vs) := by
  rw [primary]
  unfold ofName
  iterate 2
    split
    · next bracket =>
      subst bracket
      refine .peek (fun _ => rfl) fun _ kind => ?_
      rw [kind]
      refine .advance fun _ _ => .peek (fun _ => rfl) fun _ kind' => ?_
      rw [kind']
      exact .advance fun _ _ => .refl
  refine .peek (fun _ => rfl) fun _ kind => ?_
  rw [kind]
  exact .advance fun _ _ => .refl

lemma applied_alone (apart : Apart (nextLexeme ws)) (t : Term) :
    Becomes (Facing ops ws vs) (applied mode (n + 1) t) (pure t) (Facing ops ws vs) := by
  rw [applied]
  refine .peek apart.sign fun _ kind => ?_
  rw [kind, if_neg apart.1]
  exact .looked .refl

lemma nameTerm_atom (name : String) (apart : Apart (nextLexeme ws))
    (stands : (mode.operators.prefixOp? name).isSome →
      startsOperand mode.operators (nextLexeme ws) = false) :
    Becomes (Facing ops ws vs) (nameTerm mode (n + 1) name max) (pure (.atom name, 0))
      (Facing ops ws vs) := by
  rw [nameTerm]
  refine .peek apart.sign fun _ kind => ?_
  rw [kind, if_neg apart.1]
  cases found : mode.operators.prefixOp? name with
  | none => exact .looked .refl
  | some op =>
    simp only [stands (by rw [found]; rfl), Bool.false_eq_true, if_false]
    exact .looked .refl

lemma nameTerm_call (name : String) :
    Becomes (Facing ops (plain .openCall :: ws) vs) (nameTerm mode (n + 1) name max) (do
        let args ← arguments mode n []
        return (← applied mode n (.build name args), 0)) (Facing ops ws vs) := by
  rw [nameTerm]
  refine .peek (fun e => absurd e Bool.false_ne_true) fun _ kind => ?_
  rw [kind]
  exact .advance fun _ _ => .refl

lemma nameTerm_prefixed {op : Operator} (found : mode.operators.prefixOp? name = some op)
    (starts : startsOperand mode.operators (nextLexeme ws) = true)
    (opening : nextLexeme ws ≠ .openCall) (priority : op.priority ≤ max) :
    Becomes (Facing ops ws vs) (nameTerm mode (n + 1) name max) (do
        let (operand, _) ← expr mode n op.rightMax
        return (Term.build name [operand], op.priority)) (Facing ops ws vs) := by
  rw [nameTerm, found]
  refine .peek (fun _ => rfl) fun _ kind => ?_
  rw [kind, if_neg opening]
  simp only [starts, if_true, prefixPriorities, if_neg (Nat.not_lt.2 priority)]
  exact .looked .refl

end Reader

end Horn
