import Horn.Proofs.ParallelReading

/-! # Reading a text clause by clause -/

namespace Horn

open Text List Reader Option OperatorTable Lexer

variable {l l' : Lexer} {r : Reader} {p : Position} {n : Nat}

namespace Portion

variable {π : Portion}

lemma Abreast.relabel {l₁ : Lexer} (h : π.Abreast n l l') (stream : l₁.stream = l.stream)
    (last : l₁.last.isNone = l.last.isNone) : π.Abreast n l₁ l' := by
  obtain ⟨u, a, chars, short, on, on', alike⟩ := h
  exact ⟨u, a, chars, short, by rw [stream]; exact on, on', by rw [last]; exact alike⟩

lemma Abreast.tight (h : π.Abreast n l l') : π.Abreast (l.stream.size + 1) l l' := by
  obtain ⟨u, a, chars, -, on, rest⟩ := h
  refine ⟨u, a, chars, ?_, on, rest⟩
  rw [on.chars.size, length_append]
  omega

lemma Abreast.skipTokens {m : Nat} (h : π.Abreast n l l') (later : l.last.isNone = false)
    (enough : n ≤ m) : ∃ l₁, l.skipTokens m = .ok () l₁ ∧ π.Done l₁ := by
  induction m generalizing n l l' with
  | zero =>
    obtain ⟨u, a, -, short, -⟩ := h
    omega
  | succ m ih =>
    obtain ⟨t, m₁, m₁', run, -, after⟩ := h.next false
    unfold Lexer.next at run
    cases scan : Scan.token l.last.isNone false l.stream with
    | error e s =>
      rw [scan] at run
      cases run
    | ok u s =>
      rw [scan] at run
      cases run
      rw [skipTokens, scan]
      rcases after with ⟨done, -, finished⟩ | ⟨more, -, k, hk, abreast⟩
      · exact ⟨_, if_pos done, finished⟩
      · have abreast' : π.Abreast k { l with stream := s } m₁' := abreast.relabel rfl later
        obtain ⟨l₁, run, finished⟩ := ih abreast' later (by omega)
        exact ⟨l₁, (if_neg (by simp [more])).trans run, finished⟩

lemma Stopped.skipClause (h : π.Stopped r) :
    ∃ r', r.skipClause = .ok () r' ∧ r'.lookahead = none ∧ π.Done r'.lexer := by
  obtain ⟨n, t, r', looking⟩ := h
  unfold Reader.skipClause
  rw [looking.here]
  rcases looking.lexers with ⟨done, -, finished⟩ | ⟨more, later, k, -, abreast⟩
  · exact ⟨_, if_pos done, rfl, finished⟩
  · obtain ⟨l, run, finished⟩ := abreast.tight.skipTokens later (Nat.le_refl _)
    refine ⟨{ r with lexer := l, lookahead := none }, (if_neg (by simp [more])).trans ?_, rfl, finished⟩
    rw [skipToEnd, run]

def Read (π : Portion) (o o' : Option ReadTerm) (s _ : Reader) : Prop :=
  o = o'.map (·.offset π.start) ∧
    match o' with
    | none => π.ending = .inputEnd
    | some _ => π.ending = .clauseEnd ∧ s.lookahead = none ∧ π.Done s.lexer

structure AtStart (π : Portion) (r r' : Reader) : Prop where
  here : r.lookahead = none
  alone : r'.lookahead = none
  on : r.lexer.stream.On (π.chars ++ π.rest) π.start
  on' : r'.lexer.stream.On π.chars .start
  alike : Alike π.ending π.rest r.lexer.last.isNone r'.lexer.last.isNone π.chars π.start .start

lemma finish (term : Term) (p : Position) (vs : Tally) :
    π.pairing.Sim
      (At (fun _ s s' => ∃ t, π.Looking n t s s' ∧ Closing.clause.accepts t.lexeme) vs)
      (advance >>= fun _ => finish term (π.start.offset p) >>= fun t => pure (some t))
      (advance >>= fun _ => finish term p >>= fun t => pure (some t)) π.Read := by
  rintro s s' ⟨⟨t, looking, accepted⟩, -⟩
  rw [bind_ok (advance_of_looked looking.here),
    bind_ok (advance_of_looked looking.alone)]
  refine .inl ⟨_, _, _, _, rfl, rfl, ?_, ?_⟩
  · simp only [map_some, ReadTerm.offset, looking.ids]
  · have clause : t.lexeme = .clauseEnd := by
      revert accepted
      cases t.lexeme with
      | clauseEnd => exact fun _ => rfl
      | _ => exact fun accepted => nomatch accepted
    rcases looking.lexers with ⟨-, ending, finished⟩ | ⟨more, -⟩
    · exact ⟨ending.symm.trans clause, rfl, finished⟩
    · rw [clause] at more
      cases more

lemma readTerm (mode : ReadMode) :
    π.pairing.Sim π.AtStart (readTerm mode) (readTerm mode) π.Read := by
  intro r r' start
  have beside : π.Beside (π.chars.length + 1) { r with varIds := [], nextVar := 0 }
      { r' with varIds := [], nextVar := 0 } :=
    .inl ⟨rfl, rfl, start.here, start.alone, [], π.chars, rfl, Nat.lt_succ_self _, start.on,
      start.on', start.alike⟩
  have enough : 4 * (π.chars.length + 1) + 3 ≤ min r.depth r'.depth := by
    rw [depth, depth, start.on.chars.size, start.on'.chars.size, length_append]
    omega
  have body : π.pairing.Sim (At (fun _ => π.Beside (π.chars.length + 1)) (([], 0), []))
      (peek true >>= fun first => if first.lexeme = .inputEnd then pure none else
        closed mode r.depth .clause maxPriority >>= fun term =>
          Reader.advance >>= fun _ => Reader.finish term first.position >>= fun t => pure (some t))
      (peek true >>= fun first => if first.lexeme = .inputEnd then pure none else
        closed mode r'.depth .clause maxPriority >>= fun term =>
          Reader.advance >>= fun _ => Reader.finish term first.position >>= fun t => pure (some t))
      π.Read := by
    refine .peek fun t => .ite (fun nothing => ?_) fun _ => ?_
    · refine .pure fun s s' looking => ⟨rfl, ?_⟩
      rcases looking.1.lexers with ⟨-, ending, -⟩ | ⟨more, -⟩
      · exact ending.symm.trans nothing
      · rw [show t.lexeme = .inputEnd from nothing] at more
        cases more
    · refine (((π.pairing.matched mode r.depth r'.depth).closed _ _ .clause _ enough).pre
        fun _ _ looking => .inr ⟨t, looking⟩).andThen fun term k vs _ _ => finish term t.position vs
  exact body _ _ ⟨beside, rfl⟩

end Portion

namespace Reader

lemma readTerm_eq_none_iff {mode : ReadMode} {t : Token} (fresh : r.lookahead = none)
    (next : r.lexer.next true = .ok t l) :
    (∃ s, readTerm mode r = .ok none s) ↔ t.lexeme = .inputEnd := by
  have first : readTerm mode r = (if t.lexeme = .inputEnd then pure none else
      closed mode r.depth .clause maxPriority >>= fun term =>
        advance >>= fun _ => finish term t.position >>= fun read => pure (some read))
      { r with varIds := [], nextVar := 0, lexer := l, lookahead := some t } :=
    bind_ok (peek_of_next (r := { r with varIds := [], nextVar := 0 }) fresh next)
  rw [first]
  constructor
  · rintro ⟨s, run⟩
    by_cases nothing : t.lexeme = .inputEnd
    · exact nothing
    · rw [if_neg nothing] at run
      obtain ⟨term, r₁, -, run⟩ := ok_of_bind run
      obtain ⟨end', r₂, -, run⟩ := ok_of_bind run
      obtain ⟨read, r₃, -, run⟩ := ok_of_bind run
      cases run
  · intro nothing
    rw [if_pos nothing]
    exact ⟨_, rfl⟩

lemma readTerm_end (mode : ReadMode) (fresh : r.lookahead = none) (on : r.lexer.stream.On [] p) :
    ∃ s, readTerm mode r = .ok none s := by
  obtain ⟨s, next, -⟩ := next_of_gives on (Gives.empty r.lexer.last.isNone true p)
  exact (readTerm_eq_none_iff fresh next).2 rfl

/-- What reading the text `cs` on its own gives, at the place it has in a text where it begins at
`p`; `none` when it has no token. -/
def readAlone (mode : ReadMode) (p : Position) (cs : List Char) :
    Option (Except SyntaxError ReadTerm) :=
  match readTerm mode (.ofSource (.ofChars cs)) with
  | .ok none _ => none
  | .ok (some t) _ => some (.ok (t.offset p))
  | .error e _ => some (.error (e.offset p))

section

variable {m : Type → Type} [Monad m] {β : Type} (mode : m ReadMode)
  (handle : β → Except SyntaxError ReadTerm → m (ForInStep β))

def forTexts : Position → List (List Char) → β → m β
  | _, [], b => do
    let _ ← mode
    return b
  | p, c :: cs, b => do
    match readAlone (← mode) p c with
    | none => return b
    | some result =>
      match ← handle b result with
      | .done b => return b
      | .yield b => forTexts (p.past c) cs b

variable {mode handle}

lemma forEach_part {π : Portion} {b : β} {k : β → m β}
    (start : π.AtStart r (.ofSource (.ofChars π.chars)))
    (others : ∀ s b, s.lookahead = none → π.Done s.lexer → forEach mode handle n s b = k b) :
    forEach mode handle (n + 1) r b = (do
      match readAlone (← mode) π.start π.chars with
      | none => return b
      | some result =>
        match ← handle b result with
        | .done b => return b
        | .yield b => k b) := by
  rw [forEach]
  refine congrArg (mode >>= ·) (funext fun current => ?_)
  unfold readAlone
  rcases Portion.readTerm current r _ start with
    ⟨o, o', s, s', run, run', read⟩ | ⟨e, s, s', run, run', stopped⟩
  · rw [run, run']
    obtain ⟨rfl, outcome⟩ := read
    cases o' with
    | none => rfl
    | some t =>
      obtain ⟨-, looked, done⟩ := outcome
      refine congrArg (handle b _ >>= ·) (funext fun step => ?_)
      cases step with
      | done b => rfl
      | yield b => exact others s b looked done
  · rw [run, run']
    obtain ⟨s₁, skipped, looked, done⟩ := stopped.skipClause
    refine congrArg (handle b _ >>= ·) (funext fun step => ?_)
    cases step with
    | done b => rfl
    | yield b =>
      simp only [skipped]
      exact others s₁ b looked done

lemma forEach_parted {first : Bool} {cs rest : List Char} {clauses : List (List Char)}
    (h : Parted first cs p clauses rest) (start : first = true ∨ Quiet cs)
    (fresh : r.lookahead = none) (on : r.lexer.stream.On cs p) (last : r.lexer.last.isNone = first)
    (enough : clauses.length + 2 ≤ n) (b : β) :
    forEach mode handle n r b = forTexts mode handle p (clauses ++ [rest]) b := by
  induction h generalizing r n b with
  | @last first cs p cut =>
    obtain ⟨n, rfl⟩ : ∃ k, n = k + 2 := ⟨n - 2, by omega⟩
    have part : (⟨p, cs, [], .inputEnd⟩ : Portion).AtStart r (.ofSource (.ofChars cs)) :=
      ⟨fresh, rfl, by rw [append_nil]; exact on, .ofChars cs, last ▸ cut.alone start⟩
    refine (forEach_part part fun s b looked done => ?_).trans rfl
    rw [forEach, forTexts]
    refine congrArg (mode >>= ·) (funext fun current => ?_)
    obtain ⟨s', run⟩ := readTerm_end current looked done.on
    rw [run]
  | @clause first cs c cs' rest p clauses cut others ih =>
    obtain ⟨n, rfl⟩ : ∃ k, n = k + 1 := ⟨n - 1, by omega⟩
    have part : (⟨p, c, cs', .clauseEnd⟩ : Portion).AtStart r (.ofSource (.ofChars c)) :=
      ⟨fresh, rfl, cut.chars ▸ on, .ofChars c, last ▸ cut.alone start⟩
    refine (forEach_part part fun s b looked done => ?_).trans rfl
    exact ih (.inr cut.quiet) looked done.on done.later (Nat.le_of_succ_le_succ enough) b

end

variable {mode : ReadMode} {cs : List Char}

lemma readAlone_eq_none_iff (h : ∀ valued, (lexemes? valued cs).isSome) (valued : Bool) :
    readAlone mode p cs = none ↔ lexemes? valued cs = some [] := by
  have on : (ofSource (.ofChars cs)).lexer.stream.On cs .start := .ofChars cs
  obtain ⟨ls, lexes⟩ := isSome_iff_exists.1 (h true)
  have lexed := lexemes?_eq_some_iff.1 lexes
  obtain ⟨t, cs', p', gives⟩ := lexed.gives
  obtain ⟨s, next, -⟩ := next_of_gives on gives
  have read : readAlone mode p cs = none ↔
      ∃ s, readTerm mode (ofSource (.ofChars cs)) = .ok none s := by
    unfold readAlone
    cases readTerm mode (ofSource (.ofChars cs)) with
    | error e s => simp
    | ok o s => cases o <;> simp
  have empty : t.lexeme = .inputEnd ↔ lexemes? true cs = some [] := by
    constructor
    · exact fun done => lexemes?_eq_some_iff.2 (.nil gives done)
    · intro nothing
      cases lexemes?_eq_some_iff.1 nothing with
      | nil gives' done =>
        obtain ⟨rfl, -⟩ := gives.unique gives'
        exact done
  rw [read, readTerm_eq_none_iff rfl next, empty]
  exact ⟨fun h => lexemes?_eq_nil h valued, fun h => lexemes?_eq_nil h true⟩

lemma readAlone_endless (h : ∀ valued, ∃ ls, lexemes? valued cs = some ls ∧ .clauseEnd ∉ ls)
    (t : ReadTerm) : readAlone mode p cs ≠ some (.ok t) := by
  have lexed (valued : Bool) : ∃ ls, Lexed valued true cs .start ls := by
    obtain ⟨ls, lexes, -⟩ := h valued
    exact ⟨ls, lexemes?_eq_some_iff.1 lexes⟩
  obtain ⟨e, a, rest, cut⟩ := exists_cut lexed
  have alike := cut.alone (.inl rfl)
  rcases cut.kind with ⟨rfl, rfl⟩ | ⟨rfl, -, others⟩
  · have chars := cut.chars
    rw [append_nil] at chars
    subst chars
    have part : (⟨.start, cs, [], .inputEnd⟩ : Portion).AtStart (ofSource (.ofChars cs))
        (ofSource (.ofChars cs)) :=
      ⟨rfl, rfl, by rw [append_nil]; exact .ofChars cs, .ofChars cs, alike⟩
    unfold readAlone
    rcases Portion.readTerm mode _ _ part with
      ⟨o, o', s, s', -, run, read⟩ | ⟨e, s, s', -, run, -⟩
    · rw [run]
      cases o' with
      | none => nofun
      | some t => cases read.2.1
    · rw [run]
      nofun
  · obtain ⟨ls, lexes, absent⟩ := h true
    obtain ⟨ls', others⟩ := others true
    obtain ⟨ls₁, -, clause, -⟩ := alike.lexed true
    have lexes' := lexemes?_eq_some_iff.2 ((clause rfl).2 ls' others)
    rw [← cut.chars, lexes] at lexes'
    cases lexes'
    exact absurd (by simp) absent

/-- Reading a text term by term deals with its clauses one by one: each gives one term or error, the
one that its own text gives in the mode then in force. A rest without an end gives an error, unless
there is nothing in it. -/
theorem forEach_reads_clauses (source : Source) (text : List Char)
    (holds : (CharStream.ofSource source).At text)
    (lexes : ∀ valued, (lexemes? valued text).isSome) :
    ∃ clauses rest, FallsInto text clauses rest ∧
      (∀ mode p, ∀ c ∈ clauses, (readAlone mode p c).isSome) ∧
      (∀ mode p, (∀ valued, readAlone mode p rest = none ↔ lexemes? valued rest = some []) ∧
        ∀ t, readAlone mode p rest ≠ some (.ok t)) ∧
      ∀ (m : Type → Type) [Monad m] (β : Type) (mode : m ReadMode)
        (handle : β → Except SyntaxError ReadTerm → m (ForInStep β)) (b : β),
        forEach mode handle (ofSource source).rounds (ofSource source) b =
          forTexts mode handle .start (clauses ++ [rest]) b := by
  have lexed (valued : Bool) : ∃ ls, Lexed valued true text .start ls := by
    obtain ⟨ls, lexes⟩ := isSome_iff_exists.1 (lexes valued)
    exact ⟨ls, lexemes?_eq_some_iff.1 lexes⟩
  obtain ⟨clauses, rest, parted⟩ := exists_parted lexed
  have falls := parted.fallsInto
  refine ⟨clauses, rest, falls, fun mode p c hc => ?_, fun mode p => ⟨?_, ?_⟩, ?_⟩
  · have each (valued : Bool) : (lexemes? valued c).isSome := by
      obtain ⟨ls, lexes, -⟩ := falls.clause c hc valued
      rw [lexes]
      rfl
    rw [← ne_none_iff_isSome, Ne, readAlone_eq_none_iff each true]
    obtain ⟨ls, lexes, -⟩ := falls.clause c hc true
    simp [lexes]
  · refine readAlone_eq_none_iff fun valued => ?_
    obtain ⟨ls, lexes, -⟩ := falls.endless valued
    rw [lexes]
    rfl
  · exact readAlone_endless falls.endless
  · intro m _ β mode handle b
    have on : (ofSource source).lexer.stream.On text .start := ⟨holds, rfl, trivial⟩
    have enough : clauses.length + 2 ≤ (ofSource source).rounds := by
      have := parted.length_le
      rw [rounds, on.chars.size]
      omega
    exact forEach_parted parted (.inl rfl) rfl on rfl enough b

/-- The second of these clauses is not a term, and the last has no end. -/
theorem forEach_reads_clauses_example :
    (∀ valued, (lexemes? valued "p :- q-1.\nr s.\n(t).\nu(".toList).isSome) ∧
      ∃ clauses rest, FallsInto "p :- q-1.\nr s.\n(t).\nu(".toList clauses rest ∧
        forEach (m := Id) (pure ⟨.standard, .codes⟩)
            (fun results result => pure (.yield (results ++ [result])))
            (ofText "p :- q-1.\nr s.\n(t).\nu(").rounds (ofText "p :- q-1.\nr s.\n(t).\nu(") [] =
          forTexts (m := Id) (pure ⟨.standard, .codes⟩)
            (fun results result => pure (.yield (results ++ [result]))) .start
            (clauses ++ [rest]) [] := by
  have lexes : ∀ valued, (lexemes? valued "p :- q-1.\nr s.\n(t).\nu(".toList).isSome := by
    intro valued
    cases valued <;> decide +kernel
  obtain ⟨clauses, rest, falls, -, -, reads⟩ :=
    forEach_reads_clauses (.ofText _) _ (CharStream.at_ofText _) lexes
  exact ⟨lexes, clauses, rest, falls, reads Id _ _ _ _⟩

end Reader

end Horn
