import Horn.Proofs.ByteSources
import Horn.Proofs.ScanDisciplines
import Horn.Proofs.TextLocality

/-! # The stream as a cursor -/

namespace Horn

open Text List Scan Option CharStream

variable {found seen : Bool} {rest : List Char} {c : Char}

namespace Text

def positionAt (text : List Char) (k : Nat) : Position :=
  ⟨1 + (text.take k).count '\n', 1 + ((text.take k).reverse.takeWhile (· ≠ '\n')).length⟩

variable {text : List Char} {k : Nat}

lemma positionAt_succ (h : text[k]? = some c) :
    positionAt text (k + 1) = (positionAt text k).after c := by
  have taken : text.take (k + 1) = text.take k ++ [c] := by
    rw [take_add_one, h]
    rfl
  unfold positionAt Position.after
  rw [taken]
  by_cases newline : c = '\n' <;> simp [newline, Nat.add_comm]

lemma drop_eq_cons (h : text[k]? = some c) : text.drop k = c :: text.drop (k + 1) := by
  obtain ⟨bound, rfl⟩ := List.getElem?_eq_some_iff.1 h
  exact drop_eq_getElem_cons bound

end Text

namespace CharStream

structure Cursor (s : CharStream) (text : List Char) (k : Nat) : Prop where
  within : k ≤ text.length
  chars : s.pushed.map (·.1) ++ s.line ++ s.source.lines.flatMap Line.chars = text.drop k
  places : ∀ i x, s.pushed[i]? = some x → x.2 = positionAt text (k + i)
  position : s.position = positionAt text k
  pushed : s.pushed.length ≤ maxPushed
  fits : s.overflowed = false

structure Stands (text : List Char) (k room : Nat) (s : CharStream) : Prop where
  within : k ≤ text.length
  on : s.On (text.drop k) (positionAt text k)
  room : s.pushed.length + room ≤ maxPushed
  fits : s.overflowed = false

lemma Chained.places {text : List Char} {k : Nat} {pushed : List (Char × Position)}
    (chained : Chained (positionAt text k) pushed) (chars : pushed.map (·.1) ++ rest = text.drop k)
    (i : Nat) (x : Char × Position) (at' : pushed[i]? = some x) :
    x.2 = positionAt text (k + i) := by
  induction pushed generalizing k i with
  | nil => cases at'
  | cons y pushed ih =>
    obtain ⟨own, chained⟩ := chained
    cases i with
    | zero =>
      cases at'
      exact own
    | succ i =>
      have here : text[k]? = some y.1 := by
        rw [← head?_drop, ← chars]
        rfl
      rw [drop_eq_cons here] at chars
      rw [← positionAt_succ here] at chained
      rw [← Nat.succ_add_eq_add_succ]
      exact ih chained (cons.inj chars).2 i at'

namespace Stands

variable {text : List Char} {k room : Nat} {s t : CharStream}

lemma cursor (h : s.Stands text k room) : s.Cursor text k where
  within := h.within
  chars := by
    rw [append_assoc]
    exact h.on.chars.chars
  places := h.on.chained.places h.on.chars.chars
  position := h.on.position
  pushed := Nat.le_of_add_right_le h.room
  fits := h.fits

lemma lessRoom (h : s.Stands text k room) : s.Stands text k 0 :=
  ⟨h.within, h.on, Nat.le_of_add_right_le h.room, h.fits⟩

lemma read (h : s.Stands text k room) :
    ∃ t, s.read = .ok (text[k]?.map (·, positionAt text k)) t ∧
      (∀ c, text[k]? = some c → room < maxPushed → t.Stands text (k + 1) (room + 1)) ∧
      (text[k]? = none → k = text.length ∧ t.Stands text k room) := by
  obtain ⟨within, on, bound, fits⟩ := h
  obtain ⟨pushed, kept, -⟩ := s.read_left
  have length := congrArg length pushed
  rw [length_tail] at length
  cases here : text[k]? with
  | none =>
    have past := getElem?_eq_none_iff.1 here
    rw [drop_eq_nil_of_le past] at on
    obtain ⟨t, read, next⟩ := on.read_nil
    rw [read] at length kept
    change t.pushed.length = _ at length
    refine ⟨t, read, nofun, fun _ => ⟨Nat.le_antisymm within past, within, ?_, by omega,
      kept.trans fits⟩⟩
    rwa [drop_eq_nil_of_le past]
  | some c =>
    rw [drop_eq_cons here] at on
    obtain ⟨t, read, next⟩ := on.read_cons
    rw [read] at length kept
    change t.pushed.length = _ at length
    rw [← positionAt_succ here] at next
    exact ⟨t, read, fun _ _ more => ⟨(List.getElem?_eq_some_iff.1 here).1, next, by omega,
      kept.trans fits⟩, nofun⟩

lemma unread (here : text[k]? = some c) (h : s.Stands text (k + 1) (room + 1)) :
    (s.unread c (positionAt text k)).Stands text k room := by
  have on := h.on
  rw [positionAt_succ here] at on
  have bound := h.room
  refine ⟨Nat.le_of_succ_le h.within, ?_, ?_, ?_⟩
  · rw [drop_eq_cons here]
    exact on.unread
  · rw [CharStream.unread, List.length_cons]
    omega
  · have full : ¬maxPushed ≤ s.pushed.length := by omega
    simp [CharStream.unread, h.fits, full]

end Stands

def Held (text : List Char) : List (Char × Position) → Nat → Prop
  | [], _ => True
  | (c, p) :: held, k =>
    ∃ j, k = j + 1 ∧ text[j]? = some c ∧ p = positionAt text j ∧ Held text held j

def standing (text : List Char) (base : Nat) : Discipline where
  holds held s := ∃ k, base + held.length ≤ k ∧ Held text held k ∧ s.Stands text k held.length
  readSome := by
    rintro held s t x more ⟨k, le, isHeld, stands⟩ read
    obtain ⟨u, ran, next, -⟩ := stands.read
    obtain ⟨same, rfl⟩ := EStateM.Result.ok.inj (ran.symm.trans read)
    obtain ⟨c, here, rfl⟩ := Option.map_eq_some_iff.1 same
    exact ⟨k + 1, by rw [List.length_cons]; omega, ⟨k, rfl, here, rfl, isHeld⟩, next c here more⟩
  readNone := by
    rintro held s t ⟨k, le, isHeld, stands⟩ read
    obtain ⟨u, ran, -, next⟩ := stands.read
    obtain ⟨same, rfl⟩ := EStateM.Result.ok.inj (ran.symm.trans read)
    exact ⟨k, le, isHeld, (next (Option.map_eq_none_iff.1 same)).2⟩
  readError := by
    rintro held s e t ⟨k, -, -, stands⟩ read
    obtain ⟨u, ran, -⟩ := stands.read
    cases ran.symm.trans read
  unread := by
    rintro held s c p ⟨_, le, ⟨k, rfl, here, rfl, isHeld⟩, stands⟩
    rw [List.length_cons] at le
    exact ⟨k, by omega, isHeld, stands.unread here⟩
  forget := by
    rintro held s ⟨k, le, -, stands⟩
    exact ⟨k, by simp; omega, trivial, stands.lessRoom⟩

namespace At

variable {s t : CharStream} {cs : List Char}

lemma of_read_some {p : Position} (h : s.At cs) (read : s.read = .ok (some (c, p)) t) :
    ∃ rest, cs = c :: rest ∧ t.At rest := by
  cases cs with
  | nil =>
    obtain ⟨u, ran, -⟩ := h.read_nil
    cases ran.symm.trans read
  | cons d rest =>
    obtain ⟨q, u, ran, next⟩ := h.read_cons
    cases ran.symm.trans read
    exact ⟨rest, rfl, next⟩

lemma of_read_none (h : s.At cs) (read : s.read = .ok none t) : cs = [] ∧ t.At [] := by
  cases cs with
  | nil =>
    obtain ⟨u, ran, next⟩ := h.read_nil
    cases ran.symm.trans read
    exact ⟨rfl, next⟩
  | cons d rest =>
    obtain ⟨q, u, ran, -⟩ := h.read_cons
    cases ran.symm.trans read

lemma unique {ds : List Char} (h : s.At cs) (h' : s.At ds) : cs = ds :=
  h.chars.symm.trans h'.chars

end At

end CharStream

namespace Text

/-- The first text begins with blanks and comments and goes on with the second, which does not. -/
inductive Layout : List Char → List Char → Prop where
  | none {cs : List Char} (free : Scan.LayoutFree cs) : Layout cs cs
  | blank {c : Char} {cs rest : List Char} (isBlank : isBlank c = true) (more : Layout cs rest) :
      Layout (c :: cs) rest
  | line {comment cs rest : List Char} (one : '\n' ∉ comment) (more : Layout cs rest) :
      Layout ('%' :: (comment ++ '\n' :: cs)) rest
  | lastLine {comment : List Char} (one : '\n' ∉ comment) : Layout ('%' :: comment) []
  | block {comment cs rest : List Char} (one : ¬['*', '/'] <:+: comment ++ ['*'])
      (more : Layout cs rest) : Layout ('/' :: '*' :: (comment ++ '*' :: '/' :: cs)) rest

lemma Layout.length_le {cs : List Char} (h : Layout cs rest) : rest.length ≤ cs.length := by
  induction h with
  | none => exact Nat.le_refl _
  | blank | line => simp; omega
  | lastLine => simp
  | block _ _ ih => simp; omega

end Text

namespace CharStream

variable {s t : CharStream} {cs : List Char}

lemma skipLine_at (h : s.At cs) (ran : s.skipLine = .ok () t) :
    (∃ comment rest, cs = comment ++ '\n' :: rest ∧ '\n' ∉ comment ∧ t.At rest) ∨
      '\n' ∉ cs ∧ t.At [] := by
  fun_induction skipLine s generalizing cs with
  | case1 => cases ran
  | case2 s u read =>
    cases ran
    obtain ⟨rfl, rest⟩ := h.of_read_none read
    exact .inr ⟨not_mem_nil, rest⟩
  | case3 s p u read =>
    cases ran
    obtain ⟨rest, rfl, next⟩ := h.of_read_some read
    exact .inl ⟨[], rest, rfl, not_mem_nil, next⟩
  | case4 s c p u read other ih =>
    obtain ⟨rest, rfl, next⟩ := h.of_read_some read
    rcases ih next ran with ⟨comment, rest, rfl, one, last⟩ | ⟨one, last⟩
    · exact .inl ⟨c :: comment, rest, rfl, by simp [one, Ne.symm other], last⟩
    · exact .inr ⟨by simp [one, Ne.symm other], last⟩

lemma not_infix_cons {x : Char} {l : List Char} (later : ¬['*', '/'] <:+: l)
    (here : x = '*' → l.head? ≠ some '/') : ¬['*', '/'] <:+: x :: l := by
  rw [infix_cons_iff]
  rintro (⟨rest, split⟩ | inside)
  · obtain ⟨rfl, rfl⟩ := cons.inj split
    exact here rfl rfl
  · exact later inside

lemma skipBlock_at {opened : Position} {star : Bool} (h : s.At cs)
    (ran : s.skipBlock opened star = .ok () t) :
    ∃ comment rest, (if star then '*' :: cs else cs) = comment ++ '*' :: '/' :: rest ∧
      ¬['*', '/'] <:+: comment ++ ['*'] ∧ t.At rest := by
  fun_induction skipBlock opened star s generalizing cs with
  | case1 | case2 => cases ran
  | case3 star s c p u read ends =>
    cases ran
    obtain ⟨rest, rfl, next⟩ := h.of_read_some read
    simp only [Bool.and_eq_true, decide_eq_true_eq] at ends
    obtain ⟨rfl, rfl⟩ := ends
    refine ⟨[], rest, rfl, ?_, next⟩
    intro inside
    have := inside.length_le
    simp at this
  | case4 star s c p u read goesOn ih =>
    obtain ⟨rest, rfl, next⟩ := h.of_read_some read
    obtain ⟨comment, rest', split, one, last⟩ := ih next ran
    by_cases isStar : c = '*'
    · subst isStar
      rw [decide_eq_true rfl, if_pos rfl] at split
      have starts : (comment ++ ['*']).head? = some '*' := by
        cases comment with
        | nil => rfl
        | cons d comment => exact congrArg some (cons.inj split).1.symm
      cases star with
      | false => exact ⟨comment, rest', split, one, last⟩
      | true =>
        refine ⟨'*' :: comment, rest', congrArg ('*' :: ·) split, ?_, last⟩
        exact not_infix_cons one fun _ closes => by cases starts.symm.trans closes
    · rw [decide_eq_false isStar] at split
      have later : ¬['*', '/'] <:+: c :: (comment ++ ['*']) :=
        not_infix_cons one fun star => absurd star isStar
      subst split
      cases star with
      | false => exact ⟨c :: comment, rest', rfl, later, last⟩
      | true =>
        refine ⟨'*' :: c :: comment, rest', rfl, not_infix_cons later fun _ closes => ?_, last⟩
        cases closes
        exact goesOn rfl

lemma noticed_before {cs' : List Char}
    (before : ∀ {rest}, Text.Layout cs' rest → Text.Layout cs rest) (lt : cs'.length < cs.length)
    (h : ∃ rest, Text.Layout cs' rest ∧ t.At rest ∧
      (found = true ↔ true = true ∨ rest.length < cs'.length)) :
    ∃ rest, Text.Layout cs rest ∧ t.At rest ∧
      (found = true ↔ seen = true ∨ rest.length < cs.length) := by
  obtain ⟨rest, layout, last, noticed⟩ := h
  have shorter := Nat.lt_of_le_of_lt layout.length_le lt
  exact ⟨rest, before layout, last, fun _ => .inr shorter, fun _ => noticed.2 (.inl rfl)⟩

lemma skipLayout_at (h : s.At cs) (ran : s.skipLayout seen = .ok found t) :
    ∃ rest, Text.Layout cs rest ∧ t.At rest ∧
      (found = true ↔ seen = true ∨ rest.length < cs.length) := by
  fun_induction skipLayout seen s generalizing cs with
  | case1 => cases ran
  | case2 seen s u read =>
    cases ran
    obtain ⟨rfl, next⟩ := h.of_read_none read
    exact ⟨[], .none trivial, next, by simp⟩
  | case3 seen s c p u read blank ih =>
    obtain ⟨cs, rfl, next⟩ := h.of_read_some read
    exact noticed_before (.blank blank) (Nat.lt_succ_self _) (ih next ran)
  | case4 => cases ran
  | case5 seen s p u v line read _ ih =>
    obtain ⟨cs, rfl, next⟩ := h.of_read_some read
    rcases skipLine_at next line with ⟨comment, cs, rfl, one, next⟩ | ⟨one, next⟩
    · exact noticed_before (.line one) (by simp; omega) (ih next ran)
    · obtain ⟨rest, layout, last, noticed⟩ := ih next ran
      have le := layout.length_le
      cases eq_nil_of_length_eq_zero (Nat.le_zero.1 le)
      exact ⟨[], .lastLine one, last, fun _ => .inr (Nat.succ_pos _), fun _ => noticed.2 (.inl rfl)⟩
  | case6 => cases ran
  | case7 seen s p u v read' read _ _ =>
    cases ran
    obtain ⟨cs, rfl, next⟩ := h.of_read_some read
    obtain ⟨rfl, last⟩ := next.of_read_none read'
    exact ⟨['/'], .none ⟨by decide, by decide, fun _ => nofun⟩, last.unread '/' p, by simp⟩
  | case8 => cases ran
  | case9 seen s p u q v w block read _ _ read' ih =>
    obtain ⟨cs, rfl, slash⟩ := h.of_read_some read
    obtain ⟨cs, rfl, opened⟩ := slash.of_read_some read'
    obtain ⟨comment, cs, rfl, one, closed⟩ := skipBlock_at opened block
    exact noticed_before (.block one) (by simp; omega) (ih closed ran)
  | case10 seen s p u d q v read' other read _ _ =>
    cases ran
    obtain ⟨cs, rfl, slash⟩ := h.of_read_some read
    obtain ⟨cs, rfl, next⟩ := slash.of_read_some read'
    refine ⟨'/' :: d :: cs, .none ⟨by decide, by decide, fun _ star => ?_⟩, ?_, by simp⟩
    · exact other (some.inj star)
    · exact (next.unread d q).unread '/' p
  | case11 seen s c p u read blank percent slash =>
    cases ran
    obtain ⟨cs, rfl, next⟩ := h.of_read_some read
    have free : LayoutFree (c :: cs) := .of_ne (Bool.eq_false_iff.2 blank) percent slash
    exact ⟨c :: cs, .none free, next.unread c p, by simp⟩

end CharStream

/-- A token that is looked for from one offset on and found at another. -/
structure Token.Begins (t : Token) (text : List Char) (k i : Nat) : Prop where
  onward : k ≤ i
  layout : Text.Layout (text.drop k) (text.drop i)
  noticed : t.layoutBefore = decide (k < i)
  position : t.position = positionAt text i
  first : t.lexeme = .inputEnd ∧ i = text.length ∨ ∃ c, text[i]? = some c ∧ t.lexeme.BeginsWith c

namespace CharStream

variable {text : List Char} {k : Nat} {s t : CharStream}

lemma stands_skipLayout (h : s.Stands text k 0) (ran : s.skipLayout false = .ok found t) :
    ∃ i, k ≤ i ∧ t.Stands text i 0 ∧ Text.Layout (text.drop k) (text.drop i) ∧
      found = decide (k < i) := by
  have start : (standing text k).holds [] s := ⟨k, Nat.le_refl k, trivial, h⟩
  have kept := Discipline.holds_left (x := Scan.skipLayout false) (fun _ => ScanRules.skipLayout _)
    start
  rw [Scan.skipLayout, ran] at kept
  obtain ⟨i, onward, -, stands⟩ := kept
  obtain ⟨rest, layout, at', noticed⟩ := skipLayout_at h.on.chars ran
  cases at'.unique stands.on.chars
  refine ⟨i, onward, stands, layout, ?_⟩
  have within := stands.within
  rw [Bool.eq_iff_iff, noticed, decide_eq_true_iff, List.length_drop, List.length_drop]
  simp only [Bool.false_eq_true, false_or]
  omega

lemma stands_token {first valued : Bool} {tok : Token} (h : s.Stands text k 0)
    (ran : token first valued s = .ok tok t) :
    ∃ i k', tok.Begins text k i ∧ t.Stands text k' 0 ∧
      (tok.lexeme = .inputEnd ∧ k' = i ∨ tok.lexeme ≠ .inputEnd ∧ i < k') := by
  rw [token_eq] at ran
  obtain ⟨found, s₁, skipped, ran⟩ := ok_of_bind ran
  obtain ⟨i, onward, stands, layout, noticed⟩ := stands_skipLayout h skipped
  obtain ⟨x, s₂, read, ran⟩ := ok_of_bind ran
  obtain ⟨_, own, more, past⟩ := stands.read
  obtain ⟨same, rfl⟩ := EStateM.Result.ok.inj (own.symm.trans read)
  cases x with
  | none =>
    obtain ⟨last, stands⟩ := past (map_eq_none_iff.1 same)
    cases ran
    exact ⟨i, i, ⟨onward, layout, noticed, stands.on.position, .inl ⟨rfl, last⟩⟩, stands,
      .inl ⟨rfl, rfl⟩⟩
  | some x =>
    obtain ⟨c, here, rfl⟩ := map_eq_some_iff.1 same
    have stands := more c here Nat.zero_lt_two
    obtain ⟨l, s₃, scanned, ran⟩ := ok_of_bind ran
    cases ran
    have begins := (lexeme_begun scanned).begins
    have start : (standing text (i + 1)).holds [] _ :=
      ⟨i + 1, Nat.le_refl _, trivial, stands.lessRoom⟩
    have kept := Discipline.holds_left
      (x := lexeme (!found && !first) valued c (positionAt text i)) (fun _ => ScanRules.lexeme _) start
    rw [scanned] at kept
    obtain ⟨k', further, -, stands⟩ := kept
    have other : l ≠ .inputEnd := by
      rintro rfl
      exact begins
    exact ⟨i, k', ⟨onward, layout, noticed, rfl, .inr ⟨c, here, begins⟩⟩, stands,
      .inr ⟨other, further⟩⟩

lemma Cursor.le_of_stands {k' room : Nat} (h : s.Cursor text k') (h' : s.Stands text k room) :
    k' = k := by
  have same : text.drop k' = text.drop k := by
    rw [← h.chars, ← h'.on.chars.chars, append_assoc]
  have length := congrArg length same
  rw [length_drop, length_drop] at length
  have := h.within
  have := h'.within
  omega

end CharStream

namespace Lexer

inductive Reaches (l : Lexer) : Lexer → Prop where
  | refl : Reaches l l
  | next {m : Lexer} (valued : Bool) (h : Reaches l m) : Reaches l (left (m.next valued))
  | skipToEnd {m : Lexer} (h : Reaches l m) : Reaches l (left m.skipToEnd)

lemma Reaches.holds {D : Discipline} {l m : Lexer} (h : l.Reaches m) (start : D.holds [] l.stream) :
    D.holds [] m.stream := by
  induction h with
  | refl => exact start
  | next valued _ ih => exact holds_next valued ih
  | skipToEnd _ ih => exact holds_skipTokens _ ih

/-- Between any calls of a lexer its stream is a cursor that stands at an offset of the text and
never goes back, and the position of a token is that of its first character. -/
theorem stream_is_cursor {text : String} {l : Lexer}
    (reached : (ofSource (.ofBytes text.toUTF8.data.toList)).Reaches l) :
    ∃ k, l.stream.Cursor text.toList k ∧
      (∀ m k', l.Reaches m → m.stream.Cursor text.toList k' → k ≤ k') ∧
      ∀ valued t m, l.next valued = .ok t m →
        ∃ i k', t.Begins text.toList k i ∧ m.stream.Cursor text.toList k' ∧
          (t.lexeme = .inputEnd ∧ k' = i ∨ t.lexeme ≠ .inputEnd ∧ i < k') := by
  rw [Source.ofBytes_toUTF8] at reached
  have start : (CharStream.ofSource (.ofText text)).Stands text.toList 0 0 :=
    ⟨Nat.zero_le _, ⟨at_ofText text, rfl, trivial⟩, Nat.zero_le _, rfl⟩
  obtain ⟨k, -, -, stands⟩ := reached.holds (D := standing text.toList 0)
    ⟨0, Nat.le_refl 0, trivial, start⟩
  refine ⟨k, stands.cursor, fun m k' later cursor => ?_, fun valued t m ran => ?_⟩
  · obtain ⟨j, onward, -, stands'⟩ := later.holds (D := standing text.toList k)
      ⟨k, Nat.le_refl k, trivial, stands⟩
    rw [cursor.le_of_stands stands']
    exact onward
  · unfold next at ran
    split at ran
    · next scanned =>
      cases ran
      obtain ⟨i, k', begins, stands', further⟩ := stands_token stands scanned
      exact ⟨i, k', begins, stands'.cursor, further⟩
    · cases ran

/-- After a bad escape and a jump to the end of its clause, the next token of this text is found
behind a comment. -/
theorem stream_is_cursor_comment :
    let text := "a(0'\\q).\n/* é */ -0x1g."
    let start := ofSource (.ofBytes text.toUTF8.data.toList)
    let l := left (left (start.next true)).skipToEnd
    start.Reaches l ∧ ∃ k t m i k', l.stream.Cursor text.toList k ∧ l.next true = .ok t m ∧
      t.Begins text.toList k i ∧ m.stream.Cursor text.toList k' ∧
      t.position = ⟨2, 9⟩ ∧ t.lexeme = .integer (-1) := by
  intro text start l
  have reached : start.Reaches l := .skipToEnd (.next true .refl)
  have found : (match l.next true with
      | .ok t _ => some (t.position, t.lexeme)
      | .error _ _ => none) = some (⟨2, 9⟩, .integer (-1)) := by
    have bytes : start = ofSource (.ofText text) := by rw [← Source.ofBytes_toUTF8]
    simp only [l, bytes]
    decide +kernel
  obtain ⟨k, cursor, -, tokens⟩ := stream_is_cursor reached
  cases ran : l.next true with
  | error e m =>
    rw [ran] at found
    cases found
  | ok t m =>
    rw [ran] at found
    obtain ⟨position, lexeme⟩ := Prod.mk.inj (some.inj found)
    obtain ⟨i, k', begins, cursor', -⟩ := tokens true t m ran
    exact ⟨reached, k, t, m, i, k', cursor, rfl, begins, cursor', position, lexeme⟩

end Lexer

end Horn
