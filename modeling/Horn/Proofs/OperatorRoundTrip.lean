import Horn.Proofs.CanonicalRoundTrip
import Horn.Proofs.NumberedVariables
import Horn.Proofs.TermEquality

/-!
# Reading text with operators back

A term that was read with the standard operators is written and read back, unless one of its names
opens a comment or the role of a word does not show, as that of the first word in `(-) - a` and in
`- ('='(a))`.
-/

namespace Horn

open Text List Term Reader WriteStyle OperatorTable

namespace OperatorTable

lemma mem_of_has {ops : OperatorTable} {op : Operator} (h : ops.Has op) :
    op ∈ ops.prefixOps ++ ops.infixOps := by
  obtain ⟨name, found | found⟩ := h
  · exact mem_append_left _ (mem_of_find?_eq_some found)
  · exact mem_append_right _ (mem_of_find?_eq_some found)

lemma standard_regular : standard.Regular where
  prefixes name op found := by
    have each : ∀ op ∈ standard.prefixOps, op.fixity = .prefixOp := by decide
    exact each op (mem_of_find?_eq_some found)
  bounded op has := by
    have each : ∀ op ∈ standard.prefixOps ++ standard.infixOps,
        0 < op.priority ∧ op.priority ≤ maxPriority := by decide
    exact each op (mem_of_has has)
  comma op found := by
    have comma : standard.infixOp? "," = some ⟨",", 1000, .xfy⟩ := by decide
    exact Option.some.inj (found.symm.trans comma)
  brackets := by decide
  nested op has name outer found := by
    have each : ∀ op ∈ standard.prefixOps ++ standard.infixOps, ∀ outer ∈ standard.infixOps,
        op.priority ≤ outer.leftMax → op.rightMax < outer.priority := by decide +kernel
    exact each op (mem_of_has has) outer (mem_of_find?_eq_some found)

end OperatorTable

lemma WriteStyle.standard_suits (quotes : DoubleQuotes) :
    standard.Suits ⟨.standard, quotes⟩ where
  operators := rfl
  bar _ found := Reachable.standard.barAbove.infixOp found
  regular _ := standard_regular

namespace Reader

/-- The reader is before a term: it has looked at nothing but an end. -/
def AtTerm (r : Reader) : Prop := ∀ t, r.lookahead = some t → t.lexeme.isEnd

def Returns (mode : ReadMode) (r : Reader) (read : ReadTerm) : Prop :=
  ∃ r', readTerm mode r = .ok (some read) r' ∨ readSingle mode r = .ok read r'

lemma Returns.read {mode : ReadMode} {r : Reader} {read : ReadTerm} (start : r.AtTerm)
    (h : r.Returns mode read) : ∃ vs, TermRead (([], 0), []) read.term vs ∧
      ∀ v ∈ read.term.namedVars, isVariableName v.1 := by
  obtain ⟨r', run⟩ := h
  obtain ⟨ts, vs, ⟨given, gave, same⟩, counted, -⟩ := read_of_run run
  refine ⟨_, counted, fun v hv => ?_⟩
  have taken : v.1 ∈ ts.flatMap (·.lexeme.named) := by
    have names : ts.flatMap (·.lexeme.named) = read.term.namedVars.map Prod.fst := counted.2.2
    rw [names]
    exact mem_map_of_mem hv
  obtain ⟨t, ht, named⟩ := mem_flatMap.1 taken
  have kind : t.lexeme = .variable v.1 := Lexeme.mem_named.1 named
  rcases mem_append.1 (same ▸ mem_append_left _ ht) with looked | later
  · have isEnd := start t (by simpa using looked)
    rw [kind] at isEnd
    cases isEnd
  · exact gave.genuine t later v.1 kind

end Reader

lemma Reader.TermRead.renumbered_same {t : Term} {vs : Tally}
    (h : TermRead (([], 0), []) t vs)
    (floatFree : ∀ x, .number (.float x) ∉ t.subterms) : t.renumbered.same t := by
  refine same_mapVars floatFree fun name id hv => ⟨varText name id, ?_⟩
  rw [Term.numbered, h.place (Term.mem_namedVars.2 hv)]

/-- A term without floats that was read with the standard operators, whose variables are written
under distinct names, is read back from its text, unless one of its names opens a comment or the
role of a word does not show. -/
theorem standard_text_reads_back {quotes quotes' : DoubleQuotes} {r : Reader} {read : ReadTerm}
    (start : r.AtTerm) (returned : r.Returns ⟨.standard, quotes⟩ read)
    (floatFree : ∀ x, .number (.float x) ∉ read.term.subterms)
    (apart : ∀ v ∈ read.term.namedVars, ∀ w ∈ read.term.namedVars,
      WriteStyle.varText v.1 v.2 = WriteStyle.varText w.1 w.2 → v.2 = w.2)
    (uncommented : ∀ s ∈ read.term.subterms, ∀ name, s.name? = some name →
      Term.opensComment name = false)
    (roles : rolesShow .standard
      (WriteStyle.standard.termWords false OperatorTable.maxPriority read.term)) :
    ∃ back, Term.parse ⟨.standard, quotes'⟩ (WriteStyle.standard.write read.term) = .ok back ∧
      back.term.same read.term := by
  obtain ⟨vs, was_read, proper⟩ := returned.read start
  have legible : read.term.Legible :=
    ⟨floatFree, fun name id hv => proper _ (mem_namedVars.2 hv), uncommented⟩
  have names : read.term.NamesApart := fun v hv w hw =>
    ⟨apart v hv w hw, fun same => by rw [was_read.numbered.eq_of_number hv hw same]⟩
  obtain ⟨back, parsed, eq⟩ := parse_write (standard_suits quotes') rfl legible
    was_read.1 roles
  refine ⟨back, parsed, ?_⟩
  rw [eq, recalled_eq_renumbered names]
  exact was_read.renumbered_same floatFree

lemma Reader.returns_of_parse {mode : ReadMode} {text : String} {read : ReadTerm}
    (h : (parse mode text).toOption = some read) :
    (ofText text).AtTerm ∧ (ofText text).Returns mode read := by
  obtain ⟨r', run⟩ := readSingle_of_parse h
  exact ⟨nofun, r', .inr run⟩

/-- A clause with a prefix minus, a negative number, a list and an anonymous variable. -/
theorem standard_text_reads_back_example :
    ∃ read, (Term.parse ⟨.standard, .codes⟩
        "p(X, _) :- \\+ X = - 1, [a|Y] = f(Y) ; (- (2)) - (-2) < X").toOption = some read ∧
      WriteStyle.standard.write read.term =
        "p(X,_G1) :- \\+ X = - 1,[a|Y] = f(Y) ; - 2 - -2 < X" ∧
      ∃ back, Term.parse ⟨.standard, .codes⟩ (WriteStyle.standard.write read.term) = .ok back ∧
        back.term.same read.term := by
  have parsed : ∃ read, (parse ⟨.standard, .codes⟩
      "p(X, _) :- \\+ X = - 1, [a|Y] = f(Y) ; (- (2)) - (-2) < X").toOption = some read ∧
      standard.write read.term =
        "p(X,_G1) :- \\+ X = - 1,[a|Y] = f(Y) ; - 2 - -2 < X" ∧
      read.term.Legible ∧ read.term.NamesApart ∧ rolesShow .standard
        (standard.termWords false maxPriority read.term) :=
    ⟨⟨.compound ":-" [.compound "p" [.var "X" 0, .var "_" 1], .compound ";"
        [.compound "," [.compound "\\+" [.compound "=" [.var "X" 0, .compound "-" [.int 1]]],
          .compound "=" [.cell (.atom "a") (.var "Y" 2), .compound "f" [.var "Y" 2]]],
        .compound "<" [.compound "-" [.compound "-" [.int 2], .int (-2)], .var "X" 0]]],
      ⟨1, 1⟩, [("X", .var "X" 0), ("Y", .var "Y" 2)]⟩, by decide +kernel⟩
  obtain ⟨read, returned, text, legible, names, roles⟩ := parsed
  obtain ⟨start, returned'⟩ := returns_of_parse returned
  exact ⟨read, returned, text, standard_text_reads_back start returned' legible.floatFree
    (fun v hv w hw => (names v hv w hw).1) legible.uncommented roles⟩

/-- Terms without variables and floats that are not read back: a minus before the name of an infix
operator is read as its left operand, an atom before an infix operator that is also a prefix
operator as a prefix operator, and a name may open a comment. -/
theorem standard_text_misread :
    (Term.parse ⟨.standard, .codes⟩ "- ('='(a))").toOption.map (·.term) =
        some (.compound "-" [.compound "=" [.atom "a"]]) ∧
      WriteStyle.standard.write (.compound "-" [.compound "=" [.atom "a"]]) = "- =(a)" ∧
      (Term.parse ⟨.standard, .codes⟩ "- =(a)").toOption.map (·.term) =
        some (.compound "=" [.atom "-", .atom "a"]) ∧
    (Term.parse ⟨.standard, .codes⟩ "(-) :- a").toOption.map (·.term) =
        some (.compound ":-" [.atom "-", .atom "a"]) ∧
      WriteStyle.standard.write (.compound ":-" [.atom "-", .atom "a"]) = "- :- a" ∧
      (Term.parse ⟨.standard, .codes⟩ "- :- a").toOption.map (·.term) =
        some (.compound "-" [.compound ":-" [.atom "a"]]) ∧
    (Term.parse ⟨.standard, .codes⟩ "'/*'").toOption.map (·.term) = some (.atom "/*") ∧
      WriteStyle.standard.write (.atom "/*") = "/*" ∧
      (Term.parse ⟨.standard, .codes⟩ "/*").toOption = none := by
  decide +kernel

end Horn
