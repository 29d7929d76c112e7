import Horn.Proofs.ClauseTexts
import Horn.Proofs.ReaderPairs

/-!
# Reading a clause in its place and on its own

One reader has come to a clause in the middle of a text, the other has a text that is this clause
only.
-/

namespace Horn

open Text Reader

variable {r r' : Reader}

def Text.Position.offset (o p : Position) : Position :=
  if p.line = 1 then ⟨o.line, o.column + (p.column - 1)⟩ else ⟨o.line + (p.line - 1), p.column⟩

namespace Text.Position

lemma offset_after (o : Position) {p : Position} (line : 1 ≤ p.line) (column : 1 ≤ p.column)
    (c : Char) : o.offset (p.after c) = (o.offset p).after c := by
  by_cases feed : c = '\n' <;> by_cases first : p.line = 1
  · simp [offset, after, feed, first]
  · have : p.line ≠ 0 := by omega
    simp [offset, after, feed, first, this]
    omega
  · simp [offset, after, feed, first]
    omega
  · simp [offset, after, feed, first]

lemma offset_past (o : Position) (w : List Char) : o.offset (start.past w) = o.past w := by
  have general (p : Position) (line : 1 ≤ p.line) (column : 1 ≤ p.column) :
      o.offset (p.past w) = (o.offset p).past w := by
    induction w generalizing p with
    | nil => rfl
    | cons c w ih =>
      have proper : 1 ≤ (p.after c).line ∧ 1 ≤ (p.after c).column := by
        unfold after
        split
        · exact ⟨Nat.succ_pos _, Nat.le_refl 1⟩
        · exact ⟨line, Nat.succ_pos _⟩
      calc o.offset ((p.after c).past w) = (o.offset (p.after c)).past w := ih _ proper.1 proper.2
        _ = ((o.offset p).after c).past w := by rw [offset_after o line column]
  exact general start (Nat.le_refl 1) (Nat.le_refl 1)

end Text.Position

def Token.offset (o : Position) (t : Token) : Token := { t with position := o.offset t.position }

@[simp] lemma Token.offset_lexeme (o : Position) (t : Token) : (t.offset o).lexeme = t.lexeme := rfl

def ReadTerm.offset (o : Position) (t : ReadTerm) : ReadTerm :=
  { t with position := o.offset t.position }

def SyntaxError.offset (o : Position) (e : SyntaxError) : SyntaxError :=
  { e with position := o.offset e.position }

/-- A part of a text: where it begins, what follows it, and the token that ends it. -/
structure Portion where
  start : Position
  chars : List Char
  rest : List Char
  ending : Lexeme

namespace Portion

variable (π : Portion)

structure Done (l : Lexer) : Prop where
  on : l.stream.On π.rest (π.start.past π.chars)
  later : l.last.isNone = false

def Abreast (n : Nat) (l l' : Lexer) : Prop :=
  ∃ u a, π.chars = u ++ a ∧ a.length < n ∧ l.stream.On (a ++ π.rest) (π.start.past u) ∧
    l'.stream.On a (.past .start u) ∧
    Alike π.ending π.rest l.last.isNone l'.last.isNone a (π.start.past u) (.past .start u)

def After (n : Nat) (t : Token) (l l' : Lexer) : Prop :=
  t.lexeme.isEnd ∧ t.lexeme = π.ending ∧ π.Done l ∨
    t.lexeme.isEnd = false ∧ l.last.isNone = false ∧ ∃ k, n = k + 1 ∧ π.Abreast k l l'

variable {π} {n : Nat} {l l' : Lexer}

lemma Abreast.next (h : π.Abreast n l l') (valued : Bool) :
    ∃ t m m', l.next valued = .ok (t.offset π.start) m ∧ l'.next valued = .ok t m' ∧
      π.After n t m m' := by
  obtain ⟨u, a, chars, short, on, on', alike⟩ := h
  generalize hp : π.start.past u = p at alike on
  generalize hq : Position.past .start u = q at alike on'
  cases alike with
  | intro l layout v w a' split here alone stop go =>
    have place : π.start.offset (q.past (v valued)) = p.past (v valued) := by
      rw [← hp, ← hq, ← Position.past_append, Position.offset_past, Position.past_append]
    have moved : (⟨l valued, q.past (v valued), layout valued⟩ : Token).offset π.start =
        ⟨l valued, p.past (v valued), layout valued⟩ := by
      simp only [Token.offset, place]
    obtain ⟨s, run, ons⟩ := Lexer.next_of_gives on (here valued)
    obtain ⟨s', run', ons'⟩ := Lexer.next_of_gives on' (alone valued)
    refine ⟨_, _, _, by rw [moved]; exact run, run', ?_⟩
    cases done : (l valued).isEnd with
    | true =>
      obtain ⟨same, nothing⟩ := stop valued done
      have split := split valued
      rw [nothing, List.append_nil] at split
      rw [nothing, ← split, ← hp, ← Position.past_append, ← chars] at ons
      exact .inl ⟨done, same, ons, rfl⟩
    | false =>
      have more : l valued ≠ .inputEnd := ne_of_not_isEnd done rfl
      have shorter := ((alone valued).ends.resolve_left fun h => more h.1).2.1
      refine .inr ⟨done, rfl, n - 1, by omega, u ++ (v valued ++ w valued), a' valued, ?_, by omega, ?_⟩
      · rw [chars, split valued]
        simp
      · rw [Position.past_append π.start, Position.past_append .start, hp, hq]
        exact ⟨ons, ons', go valued done⟩

variable (π)

structure Fresh (n : Nat) (r r' : Reader) : Prop where
  ids : r.varIds = r'.varIds
  next : r.nextVar = r'.nextVar
  here : r.lookahead = none
  alone : r'.lookahead = none
  lexers : π.Abreast n r.lexer r'.lexer

structure Looking (n : Nat) (t : Token) (r r' : Reader) : Prop where
  ids : r.varIds = r'.varIds
  next : r.nextVar = r'.nextVar
  here : r.lookahead = some (t.offset π.start)
  alone : r'.lookahead = some t
  lexers : π.After n t r.lexer r'.lexer

def Beside (n : Nat) (r r' : Reader) : Prop := π.Fresh n r r' ∨ ∃ t, π.Looking n t r r'

lemma Beside.ids {π : Portion} (h : π.Beside n r r') : r.varIds = r'.varIds := by
  rcases h with fresh | ⟨t, looking⟩
  · exact fresh.ids
  · exact looking.ids

lemma Beside.next {π : Portion} (h : π.Beside n r r') : r.nextVar = r'.nextVar := by
  rcases h with fresh | ⟨t, looking⟩
  · exact fresh.next
  · exact looking.next

lemma Beside.renumber {π : Portion} (h : π.Beside n r r') (ids : List (String × Nat))
    (next : Nat) :
    π.Beside n { r with varIds := ids, nextVar := next }
      { r' with varIds := ids, nextVar := next } := by
  rcases h with fresh | ⟨t, looking⟩
  · exact .inl ⟨rfl, rfl, fresh.here, fresh.alone, fresh.lexers⟩
  · exact .inr ⟨t, rfl, rfl, looking.here, looking.alone, looking.lexers⟩

lemma varNamed_run (name : String) (ids : List (String × Nat)) (next : Nat) :
    ∃ v ids' next', ∀ r : Reader, r.varIds = ids → r.nextVar = next →
      varNamed name r = .ok v { r with varIds := ids', nextVar := next' } := by
  by_cases anonymous : name = "_"
  · refine ⟨.var name next, ids, next + 1, ?_⟩
    rintro r rfl rfl
    rw [varNamed, if_pos anonymous]
    rfl
  · cases found : ids.find? (·.1 = name) with
    | some entry =>
      refine ⟨.var name entry.2, ids, next, ?_⟩
      rintro r rfl rfl
      rw [varNamed, if_neg anonymous, get_bind, found]
      rfl
    | none =>
      refine ⟨.var name next, ids ++ [(name, next)], next + 1, ?_⟩
      rintro r rfl rfl
      rw [varNamed, if_neg anonymous, get_bind, found]
      rfl

def Stopped (r : Reader) : Prop := ∃ n t r', π.Looking n t r r'

variable {π}

lemma Beside.peek (h : π.Beside n r r') (valued : Bool) :
    ∃ t s s', peek valued r = .ok (t.offset π.start) s ∧ peek valued r' = .ok t s' ∧
      π.Looking n t s s' := by
  rcases h with fresh | ⟨t, looking⟩
  · obtain ⟨t, m, m', run, run', after⟩ := fresh.lexers.next valued
    exact ⟨t, _, _, peek_of_next fresh.here run, peek_of_next fresh.alone run',
      fresh.ids, fresh.next, rfl, rfl, after⟩
  · exact ⟨t, r, r', peek_of_looked looking.here, peek_of_looked looking.alone, looking⟩

lemma Looking.advance {t : Token} (h : π.Looking n t r r') (more : t.lexeme.isEnd = false) :
    ∃ k s, n = k + 1 ∧ advance r = .ok (t.offset π.start) s ∧ r'.lookahead = some t ∧
      π.Beside k s { r' with lookahead := none } := by
  rcases h.lexers with ⟨done, -⟩ | ⟨-, -, k, hk, abreast⟩
  · rw [more] at done
    cases done
  · exact ⟨k, _, hk, advance_of_looked h.here, h.alone,
      .inl ⟨h.ids, h.next, rfl, rfl, abreast⟩⟩

lemma Beside.varNamed (h : π.Beside n r r') (name : String) :
    ∃ v s s', varNamed name r = .ok v s ∧ varNamed name r' = .ok v s' ∧
      π.Beside n s s' := by
  obtain ⟨v, ids, next, run⟩ := varNamed_run name r.varIds r.nextVar
  exact ⟨v, _, _, run r rfl rfl, run r' h.ids.symm h.next.symm, h.renumber ids next⟩

variable (π)

@[reducible] def pairing : Reader.Pairing where
  token := Token.offset π.start
  error := SyntaxError.offset π.start
  Beside n _ := π.Beside n
  Looking n t _ := π.Looking n t
  Failed _ r _ := π.Stopped r
  lexeme_token _ := rfl
  error_atToken _ _ := rfl
  beside looking := .inr ⟨_, looking⟩
  peek valued beside := .inl (beside.peek valued)
  advance looking more := looking.advance more
  varNamed name beside := beside.varNamed name
  failed _ looking _ := ⟨_, _, _, looking⟩

end Portion

end Horn
