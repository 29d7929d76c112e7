import Horn.Proofs.ScanRules

/-!
# What scanners keep

Whatever is kept by each read and by each such return is kept by all scanners, whether they succeed
or fail.
-/

namespace Horn

open Text Scan

namespace CharStream

def left {α : Type} : Result α → CharStream
  | .ok _ s => s
  | .error _ s => s

lemma read_left (s : CharStream) :
    (left s.read).pushed = s.pushed.tail ∧ (left s.read).overflowed = s.overflowed ∧
      (left s.read).source.failure = s.source.failure := by
  obtain ⟨⟨lines, failure⟩, line, pushed, position, exhausted, overflowed⟩ := s
  cases pushed with
  | cons x pushed => exact ⟨rfl, rfl, rfl⟩
  | nil =>
    cases line with
    | cons c line => exact ⟨rfl, rfl, rfl⟩
    | nil =>
      cases exhausted with
      | true => exact ⟨rfl, rfl, rfl⟩
      | false =>
        rcases lines with _ | ⟨_ | _ | _, lines⟩
        · rcases failure with _ | _ | _ <;> exact ⟨rfl, rfl, rfl⟩
        all_goals exact ⟨rfl, rfl, rfl⟩

end CharStream

open CharStream (left)

/-- What is kept while a stream is read. `holds held s` says it of a stream from which the characters
`held`, the last one first, have just been read and may be put back. -/
structure Discipline where
  holds : List (Char × Position) → CharStream → Prop
  readSome : ∀ {held s t x}, held.length < CharStream.maxPushed → holds held s →
    s.read = .ok (some x) t → holds (x :: held) t
  readNone : ∀ {held s t}, holds held s → s.read = .ok none t → holds held t
  readError : ∀ {held s e t}, holds held s → s.read = .error e t → holds [] t
  unread : ∀ {held s c p}, holds ((c, p) :: held) s → holds held (s.unread c p)
  forget : ∀ {held s}, holds held s → holds [] s

namespace Discipline

variable {α : Type} {D : Discipline} {s t : CharStream}

lemma taken {x : Char × Position} (start : D.holds [] s) (read : s.read = .ok (some x) t) :
    D.holds [] t := by
  have kept : D.holds [x] t := D.readSome Nat.zero_lt_two start read
  exact D.forget kept

def rules (D : Discipline) : ScanRules where
  Holds n held x _ R := ∀ s, D.holds (held.map fun (c, p, _) => (c, p)) s →
    s.size + held.length ≤ n →
      D.holds [] (left (x s)) ∧ ∀ v t, x s = .ok v t → t.size ≤ n ∧ ∃ w, R v w
  Signs := Eq
  sameSigns _ := rfl
  pure h s start le := by
    refine ⟨D.forget start, ?_⟩
    rintro _ _ ⟨⟩
    exact ⟨by omega, _, h⟩
  fail _ _ _ _ s start _ := ⟨D.forget start, nofun⟩
  integer m cause cause' p q signs s start le := by
    unfold Scan.integer
    cases Number.int64? (Scan.signed _ m) with
    | some i =>
      refine ⟨D.forget start, ?_⟩
      rintro _ _ ⟨⟩
      exact ⟨by omega, .integer i, rfl, rfl, fun _ => rfl⟩
    | none => exact ⟨D.forget start, nofun⟩
  bind {_ _ _ _ x _ f g _ _} hx hf s start le := by
    obtain ⟨kept, value⟩ := hx s start le
    rw [bind_apply]
    cases ran : x s with
    | ok v t =>
      rw [ran] at kept
      obtain ⟨le, w, related⟩ := value v t ran
      exact hf v w related t kept le
    | error e t =>
      rw [ran] at kept
      exact ⟨kept, nofun⟩
  forget {_ n k held _ _ _} le h s start bound := by
    obtain ⟨kept, value⟩ := h s (D.forget start) (by rw [List.length_nil]; omega)
    exact ⟨kept, fun v t ran => ⟨Nat.le_add_right_of_le (value v t ran).1, (value v t ran).2⟩⟩
  putBack {_ _ held c p _ _ _ _} h s start le := by
    refine h (s.unread c p) (D.unread start) ?_
    simp only [CharStream.size, CharStream.unread, List.length_cons] at le ⊢
    omega
  read {_ n held k _ _} room char nothing _ s start le := by
    rw [bind_apply, Scan.char?]
    cases read : s.read with
    | error e t => exact ⟨D.readError start read, nofun⟩
    | ok o t =>
      cases o with
      | none =>
        have := CharStream.read_size_le read
        exact nothing t (D.readNone start read) (by omega)
      | some x =>
        have := CharStream.read_some_size read
        obtain ⟨m, rfl⟩ : ∃ m, n = m + 1 := Nat.exists_eq_add_one.2 (by omega)
        have kept := D.readSome (by rwa [List.length_map]) start read
        exact char m rfl x.1 x.2 x.2 t kept (by rw [List.length_cons]; omega)

lemma holds_left {x : Scan α} {R : α → α → Prop} (h : ∀ n, D.rules.Holds n [] x x R)
    (start : D.holds [] s) : D.holds [] (left (x s)) :=
  (h s.size s start (Nat.le_refl _)).1

def none : Discipline where
  holds _ _ := True
  readSome _ _ _ := trivial
  readNone _ _ := trivial
  readError _ _ := trivial
  unread _ := trivial
  forget _ := trivial

end Discipline

namespace Scan

variable {D : Discipline} {s t : CharStream}

lemma exists_related {α : Type} {x : Scan α} {R : α → α → Prop} {v : α}
    (h : ∀ n, Discipline.none.rules.Holds n [] x x R) (run : x s = .ok v t) : ∃ w, R v w :=
  ((h s.size s trivial (Nat.le_refl _)).2 v t run).2

lemma lexeme_begun {glued valued : Bool} {c : Char} {p : Position} {l : Lexeme}
    (run : lexeme glued valued c p s = .ok l t) : l.Begun c l := by
  obtain ⟨_, begun⟩ := exists_related (fun _ => ScanRules.lexeme _) run
  exact ⟨rfl, begun.begins, begun.genuine⟩

lemma isNumber_numeral {first : Char} {negative : Bool} {p : Position} {l : Lexeme}
    (run : numeral first negative p s = .ok l t) : l.isNumber := by
  obtain ⟨_, number, -⟩ := exists_related (fun _ => ScanRules.numeral _ rfl) run
  exact number

lemma holds_token (first valued : Bool) (start : D.holds [] s) :
    D.holds [] (left (token first valued s)) := by
  have skipped := D.holds_left (x := skipLayout false) (fun _ => D.rules.skipLayout) start
  rw [token_eq, bind_apply]
  cases ran : skipLayout false s with
  | error e t => rwa [ran] at skipped
  | ok layout t =>
    rw [ran] at skipped
    change D.holds [] (left ((char? >>= _) t))
    rw [bind_apply, char?]
    cases read : t.read with
    | error e u => exact D.readError skipped read
    | ok o u =>
      cases o with
      | none => exact D.readNone skipped read
      | some x =>
        exact D.holds_left (fun _ => D.rules.bind D.rules.lexeme fun _ _ _ =>
          D.rules.pure (R := fun _ _ => True) trivial) (D.taken skipped read)

end Scan

namespace Lexer

variable {D : Discipline}

def left {α : Type} : Result α → Lexer
  | .ok _ l => l
  | .error _ l => l

lemma stream_left_next (valued : Bool) (l : Lexer) :
    (left (l.next valued)).stream = CharStream.left (token l.last.isNone valued l.stream) := by
  unfold next
  cases token l.last.isNone valued l.stream <;> rfl

lemma holds_next (valued : Bool) {l : Lexer} (start : D.holds [] l.stream) :
    D.holds [] (left (l.next valued)).stream := by
  rw [stream_left_next]
  exact holds_token _ valued start

lemma holds_skipTokens (n : Nat) {l : Lexer} (start : D.holds [] l.stream) :
    D.holds [] (left (skipTokens n l)).stream := by
  induction n generalizing l with
  | zero => exact start
  | succ n ih =>
    have one := holds_token l.last.isNone false start
    rw [skipTokens]
    split
    · next t s ran =>
      rw [ran] at one
      split
      · exact one
      · exact ih one
    · next e s ran =>
      rw [ran] at one
      split
      · exact one
      · exact ih one

lemma next_genuine {valued : Bool} {l l' : Lexer} {t : Token} (h : l.next valued = .ok t l') :
    t.lexeme.Genuine := by
  unfold next at h
  split at h
  · next run =>
    cases h
    rw [token_eq] at run
    obtain ⟨layout, s, -, run⟩ := ok_of_bind run
    obtain ⟨o, u, -, run⟩ := ok_of_bind run
    cases o with
    | none =>
      cases run
      exact nofun
    | some x =>
      obtain ⟨k, v, run, last⟩ := ok_of_bind run
      cases last
      exact (lexeme_begun run).genuine
  · cases h

end Lexer

end Horn
