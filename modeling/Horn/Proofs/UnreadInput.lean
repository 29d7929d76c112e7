import Horn.Proofs.ByteSources
import Horn.Proofs.ScanDisciplines
import Mathlib.Algebra.GroupWithZero.Nat

/-!
# What is left to read

What a source still has is given a weight, in characters or in bytes. Every error takes from it or
ends the reading, unless the reader reports malformed data again and again.
-/

namespace Horn

open Text List Scan CharStream String

variable {t s : CharStream} {e : LexError}

namespace Text

def Line.bytes : Line → Nat
  | .text c rest => ((c :: rest).map Char.utf8Size).sum
  | .undecodable _ rest => rest.length + 1
  | .refused => 1

lemma length_le_utf8Size (cs : List Char) : cs.length ≤ (cs.map Char.utf8Size).sum := by
  induction cs with
  | nil => exact Nat.le_refl 0
  | cons c cs ih =>
    have := c.utf8Size_pos
    simp only [map_cons, sum_cons, length_cons]
    omega

lemma Line.size_le_bytes (line : Line) : line.size ≤ line.bytes := by
  cases line with
  | text c rest => exact length_le_utf8Size (c :: rest)
  | undecodable | refused => exact Nat.le_refl _

namespace Source

def bytes (s : Source) : Nat := (s.lines.map Line.bytes).sum

lemma length_flatMap_encode (cs : List Char) :
    (cs.flatMap utf8EncodeChar).length = (cs.map Char.utf8Size).sum := by
  simp [length_flatMap]

lemma bytes_textLine (cs : List Char) :
    ((textLine? cs).map Line.bytes).getD 0 = (cs.map Char.utf8Size).sum := by
  cases cs <;> rfl

lemma bytes_byteLine (bs : List UInt8) : ((byteLine? bs).map Line.bytes).getD 0 = bs.length := by
  cases bs with
  | nil => rfl
  | cons b rest =>
    rw [byteLine?]
    split
    · next s decoded =>
      rw [fromUTF8?] at decoded
      split at decoded
      · next valid =>
        cases decoded
        obtain ⟨cs, encoded⟩ := valid
        have text : fromUTF8 ⟨(b :: rest).toArray⟩ ⟨cs, encoded⟩ = ofList cs :=
          toByteArray_inj.1 encoded
        rw [text, toList_ofList, bytes_textLine, ← length_flatMap_encode]
        have sizes := congrArg (·.data.toList.length) encoded
        simpa [utf8Encode] using sizes.symm
      · cases decoded
    · rfl

lemma sum_cutAfter {α : Type} (p : α → Bool) (items : List α) :
    ((cutAfter p items).map List.length).sum = items.length := by
  induction items with
  | nil => rfl
  | cons a items ih =>
    rw [cutAfter_cons]
    cases p a with
    | true => simp [ih]; omega
    | false =>
      cases h : cutAfter p items with
      | nil => simp_all
      | cons line rest => simp_all; omega

lemma bytes_ofBytes (bs : List UInt8) : (ofBytes bs).bytes = bs.length := by
  rw [← sum_cutAfter (· = lineFeed) bs, bytes, ofBytes]
  dsimp only
  induction cutAfter (fun x => decide (x = lineFeed)) bs with
  | nil => rfl
  | cons line rest ih =>
    have one := bytes_byteLine line
    rw [filterMap_cons]
    cases h : byteLine? line <;> rw [h] at one <;> simp_all

end Source

end Text

def CharStream.Stalls (s : CharStream) : Prop := s.source.failure = some .refusing

def Token.worth (t : Token) : Nat := if t.lexeme = .inputEnd then 0 else 1

lemma Token.worth_le_one (t : Token) : t.worth ≤ 1 := by
  unfold worth
  split <;> omega

lemma Token.worth_of_ne {t : Token} (h : t.lexeme ≠ .inputEnd) : t.worth = 1 := if_neg h

structure Weighing where
  line : Line → Nat
  size_le : ∀ l, l.size ≤ line l

namespace Weighing

def chars : Weighing := ⟨Line.size, fun _ => Nat.le_refl _⟩

def bytes : Weighing := ⟨Line.bytes, Line.size_le_bytes⟩

def of (W : Weighing) (s : CharStream) : Nat :=
  s.pushed.length + s.line.length + (s.source.lines.map W.line).sum

lemma chars_of (s : CharStream) : chars.of s = s.size := by
  have lines (ls : List Line) : (ls.map Line.size).sum = Source.linesSize ls := by
    induction ls with
    | nil => rfl
    | cons l ls ih => rw [map_cons, sum_cons, Source.linesSize, ih]
  rw [of, size, Source.size, ← lines]
  rfl

variable (W : Weighing)

lemma of_unread (s : CharStream) (c : Char) (p : Position) : W.of (s.unread c p) = W.of s + 1 := by
  simp only [of, unread, length_cons]
  omega

lemma of_read (s : CharStream) :
    match s.read with
    | .ok (some _) t => W.of t < W.of s ∧ t.exhausted = s.exhausted
    | .ok none t => W.of t = W.of s ∧ t.exhausted = true
    | .error e t => W.of t < W.of s ∧ t.exhausted = s.exhausted ∨
        e.isReadFailure ∧ W.of t = W.of s ∧ s.exhausted = false ∧ t.exhausted = true ∨
        t = s ∧ s.Stalls := by
  obtain ⟨⟨lines, failure⟩, line, pushed, position, exhausted, overflowed⟩ := s
  unfold CharStream.read
  cases pushed with
  | cons x pushed => simp [of]
  | nil =>
    cases line with
    | cons c line => simp [of]
    | nil =>
      cases exhausted with
      | true => simp
      | false =>
        cases lines with
        | nil => rcases failure with _ | _ | _ <;> simp [of, LexError.isReadFailure, Stalls]
        | cons l lines =>
          have heavy := W.size_le l
          cases l <;> simp [of, Line.size] at heavy ⊢ <;> omega

variable {W}

lemma of_readSome {x : Char × Position} (h : s.read = .ok (some x) t) : W.of t < W.of s := by
  have one := W.of_read s
  rw [h] at one
  exact one.1

def under (W : Weighing) (bound : Nat) : Discipline where
  holds held s := W.of s + held.length ≤ bound
  readSome _ start read := by
    have := W.of_readSome read
    rw [List.length_cons]
    omega
  readNone {_ s _} start read := by
    have one := W.of_read s
    rw [read] at one
    rw [one.1]
    exact start
  readError {_ s _ _} start read := by
    have one := W.of_read s
    rw [read] at one
    rw [List.length_nil]
    rcases one with less | same | ⟨rfl, -⟩ <;> omega
  unread start := by
    rw [of_unread]
    rw [List.length_cons] at start
    omega
  forget start := by
    rw [List.length_nil]
    omega

end Weighing

def Discipline.exhausted : Discipline where
  holds _ s := s.exhausted = true
  readSome {_ s _ _} _ start read := by
    have one := Weighing.chars.of_read s
    rw [read] at one
    rw [one.2, start]
  readNone {_ s _} _ read := by
    have one := Weighing.chars.of_read s
    rw [read] at one
    exact one.2
  readError {_ s _ _} start read := by
    have one := Weighing.chars.of_read s
    rw [read] at one
    rcases one with ⟨-, same⟩ | ⟨-, -, -, done⟩ | ⟨rfl, -⟩
    · rw [same, start]
    · exact done
    · exact start
  unread start := start
  forget start := start

/-- A stream is read from one reader. -/
def Discipline.reader (failure : Option Failure) : Discipline where
  holds _ s := s.source.failure = failure
  readSome {_ s _ _} _ start read := by rw [← start, ← s.read_left.2.2, read]; rfl
  readNone {_ s _} start read := by rw [← start, ← s.read_left.2.2, read]; rfl
  readError {_ s _ _} start read := by rw [← start, ← s.read_left.2.2, read]; rfl
  unread start := start
  forget start := start

namespace Weighing

variable {W : Weighing} {α : Type} {R : α → α → Prop}

lemma of_left_le {x : Scan α} (keeps : ∀ bound n, (W.under bound).rules.Holds n [] x x R)
    (s : CharStream) : W.of (left (x s)) ≤ W.of s :=
  (W.under (W.of s)).holds_left (keeps (W.of s)) (Nat.le_refl _)

lemma of_error_le {x : Scan α} (h : x s = .error e t)
    (keeps : ∀ bound n, (W.under bound).rules.Holds n [] x x R) : W.of t ≤ W.of s := by
  have le := of_left_le keeps s
  rwa [h] at le

lemma skipLayout_error {seen : Bool} (h : Scan.skipLayout seen s = .error e t) :
    s.read = .error e t ∨ W.of t < W.of s := by
  rw [skipLayout_eq, bind_apply, char?] at h
  cases read : s.read with
  | error e' u =>
    rw [read] at h
    cases h
    exact .inl rfl
  | ok o u =>
    rw [read] at h
    cases o with
    | none => cases h
    | some x =>
      refine .inr (Nat.lt_of_le_of_lt ?_ (of_readSome read))
      have layout (bound n : Nat) : (W.under bound).rules.Holds n [] (Scan.skipLayout true) _ _ :=
        ScanRules.skipLayout _
      dsimp only at h
      split at h
      · exact of_error_le h layout
      · split at h
        · exact of_error_le h fun bound n =>
            (W.under bound).rules.bind (ScanRules.skipLine _) fun _ _ _ => layout bound n
        · split at h
          · rw [bind_apply, char?] at h
            cases read' : u.read with
            | error e' v =>
              have one := W.of_read u
              rw [read'] at h one
              cases h
              rcases one with less | same | ⟨rfl, -⟩ <;> omega
            | ok o v =>
              rw [read'] at h
              cases o with
              | none => cases h
              | some y =>
                dsimp only at h
                split at h
                · have kept := of_error_le h fun bound n => (W.under bound).rules.bind
                    (ScanRules.skipBlock _) fun _ _ _ => layout bound n
                  exact Nat.le_trans kept (Nat.le_of_lt (of_readSome read'))
                · cases h
          · cases h

/-- The error took something from the stream, or the source itself failed and has no more, or the
reader stalls. -/
def Spent (W : Weighing) (s : CharStream) (e : LexError) (t : CharStream) : Prop :=
  W.of t < W.of s ∨
    e.isReadFailure ∧ W.of t ≤ W.of s ∧ s.exhausted = false ∧ t.exhausted = true ∨
    W.of t ≤ W.of s ∧ s.Stalls

lemma spent_read (h : s.read = .error e t) : W.Spent s e t := by
  have one := W.of_read s
  rw [h] at one
  rcases one with less | ⟨failed, same, before, after⟩ | ⟨rfl, stalls⟩
  · exact .inl less.1
  · exact .inr (.inl ⟨failed, Nat.le_of_eq same, before, after⟩)
  · exact .inr (.inr ⟨Nat.le_refl _, stalls⟩)

lemma of_token (W : Weighing) (first valued : Bool) (s : CharStream) :
    match token first valued s with
    | .ok t u => W.of u + t.worth ≤ W.of s
    | .error e u => W.Spent s e u := by
  rw [token_eq, bind_apply]
  cases skipped : Scan.skipLayout false s with
  | error e s₁ =>
    rcases skipLayout_error (W := W) skipped with read | less
    · exact spent_read read
    · exact .inl less
  | ok layout s₁ =>
    have before := W.of_left_le (x := Scan.skipLayout false) (fun _ _ => ScanRules.skipLayout _) s
    have kept := Discipline.exhausted.holds_left (x := Scan.skipLayout false) (s := s)
      fun _ => ScanRules.skipLayout _
    have reader := (Discipline.reader _).holds_left (x := Scan.skipLayout false) (s := s)
      (fun _ => ScanRules.skipLayout _) rfl
    rw [skipped] at before kept reader
    dsimp only [left] at before kept reader ⊢
    rw [bind_apply, char?]
    cases read : s₁.read with
    | error e u =>
      rcases spent_read (W := W) read with less | ⟨failed, same, more, none⟩ | ⟨le, stalls⟩
      · exact .inl (Nat.lt_of_lt_of_le less before)
      · refine .inr (.inl ⟨failed, Nat.le_trans same before, ?_, none⟩)
        exact Bool.eq_false_iff.2 fun done => by rw [kept done] at more; cases more
      · exact .inr (.inr ⟨Nat.le_trans le before, Eq.trans reader.symm stalls⟩)
    | ok o u =>
      cases o with
      | none =>
        have same := (read ▸ W.of_read s₁ :)
        exact Nat.le_trans (Nat.le_of_eq same.1) before
      | some x =>
        have less := Nat.lt_of_lt_of_le (W.of_readSome read) before
        have rest := W.of_left_le (x := lexeme (!layout && !first) valued x.1 x.2 >>= fun l =>
            pure (⟨l, x.2, layout⟩ : Token)) (R := fun _ _ => True) (fun bound _ =>
          (W.under bound).rules.bind (ScanRules.lexeme _) fun _ _ _ => ScanRules.pure _ trivial) u
        dsimp only
        split
        · next ran =>
          rw [ran] at rest
          exact Nat.le_trans (Nat.add_le_add rest (Token.worth_le_one _)) less
        · next ran =>
          rw [ran] at rest
          exact .inl (Nat.lt_of_le_of_lt rest less)

end Weighing

namespace Lexer

lemma weigh_next (W : Weighing) (valued : Bool) (l : Lexer) :
    match l.next valued with
    | .ok t l' => W.of l'.stream + t.worth ≤ W.of l.stream
    | .error e l' => W.Spent l.stream e l'.stream := by
  have one := W.of_token l.last.isNone valued l.stream
  rw [next]
  cases ran : token l.last.isNone valued l.stream <;> rw [ran] at one <;> exact one

/-- Skipping to the end of a clause, with no bound on the number of tokens: up to an end, past other
tokens and past errors, but not past those that leave the place of the next clause unknown. -/
inductive Skips : Lexer → Result Unit → Prop where
  | ended {l : Lexer} {t : Token} {s : CharStream}
      (here : Scan.token l.last.isNone false l.stream = .ok t s) (isEnd : t.lexeme.isEnd) :
      Skips l (.ok () ⟨s, some t⟩)
  | passed {l : Lexer} {t : Token} {s : CharStream} {result : Result Unit}
      (here : Scan.token l.last.isNone false l.stream = .ok t s) (more : ¬t.lexeme.isEnd)
      (rest : Skips { l with stream := s } result) : Skips l result
  | stopped {l : Lexer} {e : LexError} {s : CharStream}
      (here : Scan.token l.last.isNone false l.stream = .error e s)
      (final : e.isReadFailure || e.isUnterminated) : Skips l (.error e { l with stream := s })
  | swallowed {l : Lexer} {e : LexError} {s : CharStream} {result : Result Unit}
      (here : Scan.token l.last.isNone false l.stream = .error e s)
      (passing : ¬(e.isReadFailure || e.isUnterminated))
      (rest : Skips { l with stream := s } result) : Skips l result

lemma skips_skipTokens {n : Nat} {l : Lexer} (lasts : ¬l.stream.Stalls)
    (enough : l.stream.size < n) : l.Skips (skipTokens n l) := by
  induction n generalizing l with
  | zero => omega
  | succ n ih =>
    have one := Weighing.chars.of_token l.last.isNone false l.stream
    have reader := holds_token (D := .reader _) l.last.isNone false (s := l.stream) rfl
    rw [skipTokens]
    split
    · next t s here =>
      rw [here] at one reader
      split
      · next isEnd => exact .ended here isEnd
      · next more =>
        dsimp only at one
        rw [Weighing.chars_of, Weighing.chars_of,
          Token.worth_of_ne fun last => more (by rw [last]; rfl)] at one
        exact .passed here more (ih (fun stalls => lasts (reader.symm.trans stalls))
          (by dsimp only; omega))
    · next e s here =>
      rw [here] at one reader
      split
      · next final => exact .stopped here final
      · next passing =>
        have less : s.size < l.stream.size := by
          rw [← Weighing.chars_of, ← Weighing.chars_of]
          rcases one with less | ⟨failed, -⟩ | ⟨-, stalls⟩
          · exact less
          · exact absurd (by rw [failed]; rfl) passing
          · exact absurd stalls lasts
        exact .swallowed here passing (ih (fun stalls => lasts (reader.symm.trans stalls))
          (by dsimp only; omega))

lemma skips_skipToEnd {l : Lexer} (lasts : ¬l.stream.Stalls) : l.Skips l.skipToEnd :=
  skips_skipTokens lasts (Nat.lt_succ_self _)

lemma token_of_read_error (first valued : Bool) (read : s.read = .error e t) :
    Scan.token first valued s = .error e t := by
  refine bind_error ?_
  change s.skipLayout false = _
  rw [CharStream.skipLayout, read]

lemma not_skips {l : Lexer} (read : l.stream.read = .error e l.stream)
    (passing : ¬(e.isReadFailure || e.isUnterminated)) (result : Result Unit) :
    ¬l.Skips result := by
  intro skips
  have here := token_of_read_error l.last.isNone false read
  induction skips with
  | ended now | passed now =>
    rw [here] at now
    cases now
  | stopped now final =>
    rw [here] at now
    cases now
    exact passing final
  | swallowed now _ _ again =>
    rw [here] at now
    cases now
    exact again read here

end Lexer

end Horn
