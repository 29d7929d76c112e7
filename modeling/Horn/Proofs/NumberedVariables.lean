import Horn.Proofs.ReadingProgress

/-! # The variables of a term that is read -/

namespace Horn

open Text Term

namespace Reader

variable {mode : ReadMode} {r r₁ r₂ r₃ r' : Reader} {first : Token} {read : ReadTerm}
  {closing : Closing} {max : Nat} {t : Term}

lemma closed_read (peeked : peek true r = .ok first r₁)
    (run : closed mode r.depth closing max r₁ = .ok t r₂) :
    ∃ ts last, r.Takes ts r₂ ∧ r₂.lookahead = some last ∧ closing.accepts last.lexeme ∧
      TermRead (r.numbering, []) t (r₂.numbering, ts.flatMap (·.lexeme.named)) := by
  have looking := peek_sparing true r
    (⟨trivial, Nat.le_refl _⟩ : r.Within .none (r.lexer.stream.size + r.ahead))
  rw [peeked] at looking
  rcases ((pairing .none r).matched mode r.depth r.depth).closed _ (_, []) closing max
      (by rw [Nat.min_self]; exact r.depth_enough) r₁ r₁
      ⟨⟨rfl, looking.within, [], .peek (.refl r) peeked, rfl⟩, rfl⟩
    with ⟨a, a', s, s', ran, ran', -, k, vs, -, read, ⟨last, ⟨-, looking, ts, takes, names⟩, accepted⟩,
      numbers⟩ | ⟨e, s, s', failed, -⟩
  · cases run.symm.trans ran
    cases run.symm.trans ran'
    refine ⟨ts, last, takes, looking.looked, accepted, ?_⟩
    rw [← numbering_peek peeked, ← names, numbers]
    exact read
  · cases run.symm.trans failed

lemma finish_read {last : Token} {p : Position} (outer : closing = .clause ∨ closing = .single)
    (peeked : peek true { r with varIds := [], nextVar := 0 } = .ok first r₁)
    (run : closed mode r.depth closing max r₁ = .ok t r₂) (ended : advance r₂ = .ok last r₃)
    (finished : finish t p r₃ = .ok read r') :
    ∃ ts vs, r.Takes ts r' ∧ TermRead (([], 0), []) read.term (vs, ts.flatMap (·.lexeme.named)) ∧
      read.names = vs.1.map fun v => (v.1, .var v.1 v.2) := by
  obtain ⟨ts, next, takes, looked, accepted, counted⟩ := closed_read peeked run
  rw [advance_of_looked looked] at ended
  cases ended
  cases finished
  have unnamed : last.lexeme.named = [] := by
    revert accepted
    rcases outer with rfl | rfl <;> cases last.lexeme <;> simp [Closing.accepts, Lexeme.named]
  refine ⟨ts ++ [last], r₂.numbering, (takes.advance looked).quiet rfl rfl, ?_, rfl⟩
  simpa [unnamed, numbering] using counted

lemma read_of_run (h : readTerm mode r = .ok (some read) r' ∨ readSingle mode r = .ok read r') :
    ∃ ts vs, r.Takes ts r' ∧ TermRead (([], 0), []) read.term (vs, ts.flatMap (·.lexeme.named)) ∧
      read.names = vs.1.map fun v => (v.1, .var v.1 v.2) := by
  rcases h with run | run
  · rw [readTerm_eq] at run
    obtain ⟨first, r₁, peeked, run⟩ := ok_of_bind run
    split at run
    · cases run
    · obtain ⟨t, r₂, closed, run⟩ := ok_of_bind run
      obtain ⟨last, r₃, ended, run⟩ := ok_of_bind run
      obtain ⟨found, r₄, finished, run⟩ := ok_of_bind run
      cases run
      exact finish_read (.inl rfl) peeked closed ended finished
  · obtain ⟨first, r₁, peeked, run⟩ := ok_of_bind (s := { r with varIds := [], nextVar := 0 }) run
    obtain ⟨t, r₂, closed, run⟩ := ok_of_bind run
    obtain ⟨last, r₃, ended, finished⟩ := ok_of_bind run
    exact finish_read (.inr rfl) peeked closed ended finished

lemma readSingle_of_parse {text : String} (h : (parse mode text).toOption = some read) :
    ∃ r', readSingle mode (ofText text) = .ok read r' := by
  unfold parse at h
  split at h
  · next run =>
    cases h
    exact ⟨_, run⟩
  · cases h

/-- The variables of a term that is read come from the variables among the tokens that were taken,
in order. In order of first occurrence they have the numbers from zero on; two occurrences have the
same number exactly when they have the same name, other than `_`; and the names are listed with
their numbers, each once, in order of first occurrence. -/
theorem read_numbers_variables
    (h : readTerm mode r = .ok (some read) r' ∨ readSingle mode r = .ok read r') :
    (∃ ts, r.Takes ts r' ∧ read.term.namedVars.map Prod.fst = ts.flatMap (·.lexeme.named)) ∧
    (∀ i v, read.term.vars[i]? = some v → ∃ name, v = Term.var name i) ∧
    read.term.namedVars.Pairwise (fun v w => v.2 = w.2 ↔ v.1 = w.1 ∧ v.1 ≠ "_") ∧
    read.names = (read.term.namedVars.filter (·.1 ≠ "_")).eraseDups.map
      (fun v => (v.1, Term.var v.1 v.2)) := by
  obtain ⟨ts, vs, takes, counted, names⟩ := read_of_run h
  have numbered := counted.numbered
  refine ⟨⟨ts, takes, counted.2.2.symm⟩, ?_, numbered.apart, by rw [names, numbered.ids]⟩
  intro i v found
  rw [vars, gatherVars_eq_foldl] at found
  exact numbered.ordered i v found

/-- A variable as the functor of a term, anonymous ones, and names that begin with `_`. -/
theorem read_numbers_variables_example :
    ∃ read r', readSingle ⟨.standard, .codes⟩ (ofText "_B - X(_, [X, Y|_]) = f(Y, _B, _)") =
        .ok read r' ∧
      read.term.vars = [.var "_B" 0, .var "X" 1, .var "_" 2, .var "Y" 3, .var "_" 4, .var "_" 5] ∧
      read.names = [("_B", .var "_B" 0), ("X", .var "X" 1), ("Y", .var "Y" 3)] ∧
      ∃ ts, (ofText "_B - X(_, [X, Y|_]) = f(Y, _B, _)").Takes ts r' ∧
        ["_B", "X", "_", "X", "Y", "_", "Y", "_B", "_"] = ts.flatMap (·.lexeme.named) := by
  have parsed : ∃ read, (parse ⟨.standard, .codes⟩
      "_B - X(_, [X, Y|_]) = f(Y, _B, _)").toOption = some read ∧
      read.term.vars = [.var "_B" 0, .var "X" 1, .var "_" 2, .var "Y" 3, .var "_" 4, .var "_" 5] ∧
      read.term.namedVars = [("_B", 0), ("X", 1), ("_", 2), ("X", 1), ("Y", 3), ("_", 4), ("Y", 3),
        ("_B", 0), ("_", 5)] :=
    ⟨⟨.compound "=" [.compound "-" [.var "_B" 0, .compound "apply" [.var "X" 1, .var "_" 2,
        .cell (.var "X" 1) (.cell (.var "Y" 3) (.var "_" 4))]],
      .compound "f" [.var "Y" 3, .var "_B" 0, .var "_" 5]], ⟨1, 1⟩,
      [("_B", .var "_B" 0), ("X", .var "X" 1), ("Y", .var "Y" 3)]⟩, by decide +kernel⟩
  obtain ⟨read, parsed, vars, occurrences⟩ := parsed
  obtain ⟨r', run⟩ := readSingle_of_parse parsed
  obtain ⟨taken, -, -, names⟩ := read_numbers_variables (.inr run)
  rw [occurrences] at taken names
  exact ⟨read, r', run, vars, by rw [names]; decide, taken⟩

end Reader

end Horn
