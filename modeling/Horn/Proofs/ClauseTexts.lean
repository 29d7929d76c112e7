import Horn.Proofs.SignedNumerals
import Mathlib.Tactic.Choose

/-!
# The clauses of a text

Whether values are expected where a token begins or not, the lexer comes to the end of a clause at
the same place.
-/

namespace Horn

open Text List CharStream

variable {valued : Bool} {e l : Lexeme} {cs' a : List Char} {p' : Position} {t : Token} {n : Nat}

lemma isEnd_of_isNumber (h : l.isNumber) : l.isEnd = false := by
  cases l with
  | clauseEnd | inputEnd => cases h
  | _ => rfl

lemma ne_of_not_isEnd (h : l.isEnd = false) (ending : e.isEnd) : l ≠ e := by
  rintro rfl
  rw [h] at ending
  cases ending

namespace Scan

variable {p : Position} {cs : List Char}

lemma lexeme_not_end {glued : Bool} {c : Char} {s t : CharStream} (h : c ≠ '.')
    (run : lexeme glued valued c p s = .ok l t) : l.isEnd = false := by
  have begins := (lexeme_begun run).begins
  cases l with
  | clauseEnd => exact absurd begins h
  | inputEnd => cases begins
  | _ => rfl

lemma peek?_takes : Takes peek? cs p cs.head? cs p := by
  cases cs with
  | nil => exact Takes.char?_nil.bind (.pure none)
  | cons c cs => exact Takes.char?_cons.bind (Takes.putBack.bind (.pure (some c)))

lemma pointOrAtom_end (h : Takes pointOrAtom cs p l cs' p') :
    l = .clauseEnd ∧ Quiet cs' ∨ l.isEnd = false := by
  obtain ⟨s, on⟩ := On.exists_on cs p
  obtain ⟨s', run, on'⟩ := h s on
  obtain ⟨s₁, peeked, on₁⟩ := peek?_takes s on
  unfold pointOrAtom at run
  rw [bind_ok peeked] at run
  cases cs with
  | nil =>
    cases run
    obtain ⟨rfl, rfl⟩ := on'.unique on₁
    exact .inl ⟨rfl, .nil⟩
  | cons c cs =>
    by_cases quiet : isQuiet c
    · simp only [head?_cons, if_pos (show (isBlank c || c = '%') = true from quiet)] at run
      cases run
      obtain ⟨rfl, rfl⟩ := on'.unique on₁
      exact .inl ⟨rfl, fun d first => Option.some.inj first ▸ quiet⟩
    · simp only [head?_cons, if_neg (show ¬(isBlank c || c = '%') = true from quiet)] at run
      obtain ⟨_, -, name, rfl, -⟩ := exists_related (fun _ => ScanRules.symbolAtom _) run
      exact .inr rfl

end Scan

namespace Gives

open Scan

variable {first : Bool} {cs : List Char} {p : Position}

lemma ends (h : Gives first valued cs p t cs' p') :
    t.lexeme = .inputEnd ∧ cs' = [] ∧ (∀ m, Gives first m cs p t cs' p') ∨
      t.lexeme ≠ .inputEnd ∧ cs'.length < cs.length ∧ (t.lexeme = .clauseEnd → Quiet cs') := by
  cases h with
  | nothing skips => exact .inl ⟨rfl, rfl, fun _ => .nothing skips⟩
  | @lexeme layout c cs₁ _ p₁ _ l skips takes =>
    obtain ⟨v, chars, -⟩ := skips.suffix fun _ => skipLayout_local
    obtain ⟨w, chars', -⟩ := takes.suffix fun _ => lexeme_local
    have shorter : cs'.length < cs.length := by
      rw [chars, chars', length_append, length_cons, length_append]
      omega
    have ending : l = .clauseEnd ∧ Quiet cs' ∨ l.isEnd = false := by
      by_cases point : c = '.'
      · subst point
        exact pointOrAtom_end takes
      · obtain ⟨s, on⟩ := On.exists_on cs₁ (p₁.after c)
        obtain ⟨s', run, -⟩ := takes s on
        exact .inr (lexeme_not_end point run)
    rcases ending with ⟨rfl, quiet⟩ | other
    · exact .inr ⟨nofun, shorter, fun _ => quiet⟩
    · exact .inr ⟨ne_of_not_isEnd other rfl, shorter,
        fun clause => absurd clause (ne_of_not_isEnd other rfl)⟩

end Gives

inductive Lexed (valued : Bool) : Bool → List Char → Position → List Lexeme → Prop where
  | nil {first : Bool} {cs cs' : List Char} {p p' : Position} {t : Token}
      (gives : Gives first valued cs p t cs' p') (done : t.lexeme = .inputEnd) :
      Lexed valued first cs p []
  | cons {first : Bool} {cs cs' : List Char} {p p' : Position} {t : Token} {ls : List Lexeme}
      (gives : Gives first valued cs p t cs' p') (more : t.lexeme ≠ .inputEnd)
      (others : Lexed valued false cs' p' ls) : Lexed valued first cs p (t.lexeme :: ls)

namespace Lexed

variable {first : Bool} {cs : List Char} {p : Position} {ls : List Lexeme}

lemma gives (h : Lexed valued first cs p ls) : ∃ t cs' p', Gives first valued cs p t cs' p' := by
  cases h with
  | nil gives _ | cons gives _ _ => exact ⟨_, _, _, gives⟩

lemma tail (h : Lexed valued first cs p ls) (gives : Gives first valued cs p t cs' p')
    (more : t.lexeme ≠ .inputEnd) : ∃ ls', Lexed valued false cs' p' ls' := by
  cases h with
  | nil gives' done =>
    obtain ⟨rfl, -⟩ := gives.unique gives'
    exact absurd done more
  | cons gives' _ others =>
    obtain ⟨rfl, rfl, rfl⟩ := gives.unique gives'
    exact ⟨_, others⟩

end Lexed

/-- In either mode, the lexer gives the same tokens for `a`, that `rest` follows, and for `a` on
its own, up to the end `e`. -/
inductive Alike (e : Lexeme) (rest : List Char) :
    Bool → Bool → List Char → Position → Position → Prop where
  | intro {first first' : Bool} {a : List Char} {p q : Position} (l : Bool → Lexeme)
      (layout : Bool → Bool) (v w a' : Bool → List Char) (split : ∀ m, a = v m ++ w m ++ a' m)
      (here : ∀ m, Gives first m (a ++ rest) p ⟨l m, p.past (v m), layout m⟩ (a' m ++ rest)
        (p.past (v m ++ w m)))
      (alone : ∀ m, Gives first' m a q ⟨l m, q.past (v m), layout m⟩ (a' m) (q.past (v m ++ w m)))
      (stop : ∀ m, (l m).isEnd → l m = e ∧ a' m = [])
      (go : ∀ m, (l m).isEnd = false →
        Alike e rest false false (a' m) (p.past (v m ++ w m)) (q.past (v m ++ w m))) :
      Alike e rest first first' a p q

namespace Alike

variable {rest : List Char} {first first' : Bool} {p q : Position}

lemma of_steps (quiet : Quiet rest) (start : first' = first ∨ Quiet a)
    (steps : ∀ m, ∃ t a' p', Gives first m (a ++ rest) p t (a' ++ rest) p' ∧
      (t.lexeme.isEnd → t.lexeme = e ∧ a' = []) ∧
      (t.lexeme.isEnd = false → ∀ q, Alike e rest false false a' p' q)) :
    Alike e rest first first' a p q := by
  have each (m : Bool) : ∃ l layout v w a', a = v ++ w ++ a' ∧
      Gives first m (a ++ rest) p ⟨l, p.past v, layout⟩ (a' ++ rest) (p.past (v ++ w)) ∧
      Gives first' m a q ⟨l, q.past v, layout⟩ a' (q.past (v ++ w)) ∧
      (l.isEnd → l = e ∧ a' = []) ∧
      (l.isEnd = false → Alike e rest false false a' (p.past (v ++ w)) (q.past (v ++ w))) := by
    obtain ⟨t, a', p', gives, stop, go⟩ := steps m
    rcases gives.within quiet start q with ⟨v, w, a₁, split, same, position, rfl, alone⟩ | short
    · cases append_cancel_right same
      refine ⟨t.lexeme, t.layoutBefore, v, w, a', split, ?_, alone, stop, fun more => go more _⟩
      rw [← position]
      exact gives
    · rw [length_append] at short
      omega
  choose l layout v w a' split here alone stop go using each
  exact .intro l layout v w a' split here alone stop go

end Alike

/-- The text `cs` begins with the clause `a`, or `a` is all of it and no clause ends. -/
structure Cut (first : Bool) (cs : List Char) (p : Position) (e : Lexeme) (a rest : List Char) :
    Prop where
  chars : cs = a ++ rest
  quiet : Quiet rest
  kind : e = .inputEnd ∧ rest = [] ∨
    e = .clauseEnd ∧ a ≠ [] ∧ ∀ valued, ∃ ls, Lexed valued false rest (p.past a) ls
  alike : ∀ first' q, first' = first ∨ Quiet a → Alike e rest first first' a p q

namespace Cut

variable {first : Bool} {cs cs₁ w rest : List Char} {p : Position}

lemma single (both : ∀ m, Gives first m cs p t cs₁ (p.past w)) (chars : cs = w ++ cs₁)
    (done : t.lexeme.isEnd)
    (others : t.lexeme ≠ .inputEnd → ∀ m, ∃ ls, Lexed m false cs₁ (p.past w) ls) :
    Cut first cs p t.lexeme w cs₁ := by
  have outcome : Quiet cs₁ ∧ (t.lexeme = .inputEnd ∧ cs₁ = [] ∨ t.lexeme = .clauseEnd ∧ w ≠ [] ∧
      ∀ m, ∃ ls, Lexed m false cs₁ (p.past w) ls) := by
    rcases (both true).ends with ⟨last, rfl, -⟩ | ⟨more, shorter, quiet⟩
    · exact ⟨.nil, .inl ⟨last, rfl⟩⟩
    · have clause : t.lexeme = .clauseEnd := by
        revert done more
        cases t.lexeme with
        | clauseEnd => exact fun _ _ => rfl
        | inputEnd => exact fun _ more => absurd rfl more
        | _ => exact fun done => nomatch done
      have some' : w ≠ [] := by
        rintro rfl
        rw [chars, nil_append] at shorter
        exact Nat.lt_irrefl _ shorter
      exact ⟨quiet clause, .inr ⟨clause, some', others more⟩⟩
  refine ⟨chars, outcome.1, outcome.2, fun first' q start => ?_⟩
  refine .of_steps outcome.1 start fun m =>
    ⟨t, [], p.past w, ?_, fun _ => ⟨rfl, rfl⟩, fun more => ?_⟩
  · rw [← chars]
    exact both m
  · rw [done] at more
    cases more

lemma extend (cut : Cut false cs₁ (p.past w) e a rest) (chars : cs = w ++ cs₁)
    (steps : ∀ m, ∃ t b p', Gives first m cs p t (b ++ rest) p' ∧ t.lexeme.isEnd = false ∧
      ∀ q, Alike e rest false false b p' q) : Cut first cs p e (w ++ a) rest := by
  obtain ⟨rfl, quiet, kind, -⟩ := cut
  rw [← append_assoc] at chars
  refine ⟨chars, quiet, ?_, fun first' q start => .of_steps quiet start fun m => ?_⟩
  · rcases kind with last | ⟨clause, some', others⟩
    · exact .inl last
    · rw [Position.past_append]
      exact .inr ⟨clause, by simp [some'], others⟩
  · obtain ⟨t, b, p', gives, more, alike⟩ := steps m
    rw [chars] at gives
    exact ⟨t, b, p', gives, fun done => absurd done (by simp [more]), fun _ => alike⟩

end Cut

variable {first : Bool} {p : Position} {cs rest : List Char} {clauses : List (List Char)}

lemma exists_cut (lexed : ∀ valued, ∃ ls, Lexed valued first cs p ls) :
    ∃ e a rest, Cut first cs p e a rest := by
  induction n : cs.length using Nat.strongRecOn generalizing first cs p with
  | _ n ih =>
    subst n
    obtain ⟨ls, valuedRun⟩ := lexed true
    obtain ⟨ls', plainRun⟩ := lexed false
    obtain ⟨t, cs₁, p₁, valued⟩ := valuedRun.gives
    obtain ⟨u, cs₂, p₂, plain⟩ := plainRun.gives
    obtain ⟨w, chars, rfl⟩ := valued.suffix
    rcases valued.modes plain with ⟨rfl, rfl, rfl⟩ | ⟨number, sign, next⟩
    · have both (m : Bool) : Gives first m cs p t cs₁ (p.past w) := by
        cases m with
        | true => exact valued
        | false => exact plain
      have others (more : t.lexeme ≠ .inputEnd) (m : Bool) :
          ∃ ls, Lexed m false cs₁ (p.past w) ls := by
        obtain ⟨ls, run⟩ := lexed m
        exact run.tail (both m) more
      by_cases done : t.lexeme.isEnd
      · exact ⟨_, _, _, .single both chars done others⟩
      · have more : t.lexeme ≠ .inputEnd := fun e => done (e ▸ rfl)
        have shorter : cs₁.length < cs.length := (valued.ends.resolve_left fun h => more h.1).2.1
        obtain ⟨e, a, rest, cut⟩ := ih _ shorter (others more) rfl
        refine ⟨e, w ++ a, rest, cut.extend chars fun m => ⟨t, a, p.past w, ?_, ?_, ?_⟩⟩
        · rw [← cut.chars]
          exact both m
        · exact Bool.eq_false_iff.2 done
        · exact fun q => cut.alike false q (.inl rfl)
    · -- The plain mode comes to the number by itself, after the sign.
      have more : t.lexeme ≠ .inputEnd := ne_of_not_isEnd (isEnd_of_isNumber number) rfl
      have shorter : cs₁.length < cs.length := (valued.ends.resolve_left fun h => more h.1).2.1
      obtain ⟨ls₂, plainRun'⟩ := plainRun.tail plain (ne_of_not_isEnd sign rfl)
      obtain ⟨k, cs₃, p₃, plain'⟩ := plainRun'.gives
      obtain ⟨number', rfl, rfl, both⟩ := next _ _ _ _ _ plain'
      have others (m : Bool) : ∃ ls, Lexed m false cs₃ (p.past w) ls := by
        cases m with
        | true => exact valuedRun.tail valued more
        | false => exact plainRun'.tail plain' (ne_of_not_isEnd (isEnd_of_isNumber number') rfl)
      obtain ⟨e, a, rest, cut⟩ := ih _ shorter others rfl
      obtain ⟨x, chars₂, rfl⟩ := plain.suffix
      obtain ⟨y, chars₃, position⟩ := plain'.suffix
      have middle : Cut false cs₂ (p.past x) e (y ++ a) rest := by
        rw [position] at cut
        refine cut.extend chars₃ fun m =>
          ⟨k, a, (p.past x).past y, ?_, isEnd_of_isNumber number', ?_⟩
        · rw [← cut.chars, ← position]
          exact both m
        · exact fun q => cut.alike false q (.inl rfl)
      refine ⟨e, w ++ a, rest, cut.extend chars fun m => ?_⟩
      cases m with
      | true =>
        refine ⟨t, a, _, ?_, isEnd_of_isNumber number, fun q => cut.alike false q (.inl rfl)⟩
        rw [← cut.chars]
        exact valued
      | false =>
        refine ⟨u, y ++ a, _, ?_, sign, fun q => middle.alike false q (.inl rfl)⟩
        rw [← middle.chars]
        exact plain

inductive Parted : Bool → List Char → Position → List (List Char) → List Char → Prop where
  | last {first : Bool} {cs : List Char} {p : Position} (cut : Cut first cs p .inputEnd cs []) :
      Parted first cs p [] cs
  | clause {first : Bool} {cs c cs' rest : List Char} {p : Position} {clauses : List (List Char)}
      (cut : Cut first cs p .clauseEnd c cs') (others : Parted false cs' (p.past c) clauses rest) :
      Parted first cs p (c :: clauses) rest

lemma exists_parted (lexed : ∀ valued, ∃ ls, Lexed valued first cs p ls) :
    ∃ clauses rest, Parted first cs p clauses rest := by
  induction n : cs.length using Nat.strongRecOn generalizing first cs p with
  | _ n ih =>
    subst n
    obtain ⟨e, a, rest, cut⟩ := exists_cut lexed
    rcases cut.kind with ⟨rfl, rfl⟩ | ⟨rfl, some', lexed'⟩
    · have chars := cut.chars
      rw [append_nil] at chars
      subst chars
      exact ⟨[], cs, .last cut⟩
    · have shorter : rest.length < cs.length := by
        rw [cut.chars, length_append]
        have := length_pos_iff.2 some'
        omega
      obtain ⟨clauses, rest', others⟩ := ih _ shorter lexed' rfl
      exact ⟨a :: clauses, rest', .clause cut others⟩

lemma Parted.chars (h : Parted first cs p clauses rest) : cs = clauses.flatten ++ rest := by
  induction h with
  | last cut => rfl
  | clause cut others ih => rw [cut.chars, ih, flatten_cons, append_assoc]

lemma Parted.length_le (h : Parted first cs p clauses rest) : clauses.length ≤ cs.length := by
  induction h with
  | last cut => exact Nat.zero_le _
  | clause cut others ih =>
    obtain ⟨end', -⟩ | ⟨-, some', -⟩ := cut.kind
    · cases end'
    · have := length_pos_iff.2 some'
      rw [cut.chars, length_append, length_cons]
      omega

lemma Gives.empty (first valued : Bool) (p : Position) :
    Gives first valued [] p ⟨.inputEnd, p, false⟩ [] p := by
  have skips : Takes (Scan.skipLayout false) [] p false [] p := by
    rw [Scan.skipLayout_eq]
    exact Takes.char?_nil.bind (.pure false)
  exact .nothing skips

lemma Alike.lexed {first' : Bool} {q : Position} (h : Alike e rest first first' a p q) (m : Bool) :
    ∃ ls, .clauseEnd ∉ ls ∧
      (e = .clauseEnd → Lexed m first' a q (ls ++ [.clauseEnd]) ∧
        ∀ ls', Lexed m false rest (p.past a) ls' →
          Lexed m first (a ++ rest) p (ls ++ .clauseEnd :: ls')) ∧
      (e = .inputEnd → Lexed m first' a q ls ∧ Lexed m first (a ++ rest) p ls) := by
  induction h with
  | @intro first first' a p q l layout v w a' split here alone stop go ih =>
    have split := split m
    have here := here m
    have alone := alone m
    cases done : (l m).isEnd with
    | true =>
      obtain ⟨rfl, nothing⟩ := stop m done
      rw [nothing] at here alone split
      rw [append_nil] at split
      rw [← split] at here alone
      refine ⟨[], not_mem_nil, fun clause => ?_, fun last => ⟨.nil alone last, .nil here last⟩⟩
      have more : l m ≠ .inputEnd := by
        rw [clause]
        nofun
      rw [← clause]
      exact ⟨.cons alone more (.nil (.empty false m _) rfl),
        fun ls' others => .cons here more others⟩
    | false =>
      obtain ⟨ls, absent, clause, last⟩ := ih m done
      have more : l m ≠ .inputEnd := ne_of_not_isEnd done rfl
      have clauseEnd : l m ≠ .clauseEnd := ne_of_not_isEnd done rfl
      rw [← Position.past_append, ← split] at clause
      refine ⟨l m :: ls, by simp [absent, Ne.symm clauseEnd], fun e => ?_, fun e => ?_⟩
      · obtain ⟨alone', here'⟩ := clause e
        exact ⟨.cons alone more alone', fun ls' others => .cons here more (here' ls' others)⟩
      · obtain ⟨alone', here'⟩ := last e
        exact ⟨.cons alone more alone', .cons here more here'⟩

namespace Lexer

def lexemes? (valued : Bool) : Nat → Lexer → Option (List Lexeme)
  | 0, _ => none
  | n + 1, l =>
    match l.next valued with
    | .error _ _ => none
    | .ok t l => if t.lexeme = .inputEnd then some [] else (lexemes? valued n l).map (t.lexeme :: ·)

variable {l : Lexer} {ls : List Lexeme}

lemma next_of_gives (on : l.stream.On cs p) (h : Gives l.last.isNone valued cs p t cs' p') :
    ∃ s, l.next valued = .ok t ⟨s, some t⟩ ∧ s.On cs' p' := by
  obtain ⟨s, run, on'⟩ := h.takes _ on
  refine ⟨s, ?_, on'⟩
  rw [next, run]

lemma lexed_of_lexemes? (on : l.stream.On cs p) (h : lexemes? valued n l = some ls) :
    Lexed valued l.last.isNone cs p ls := by
  induction n generalizing l cs p ls with
  | zero => cases h
  | succ n ih =>
    rw [lexemes?, next] at h
    cases run : Scan.token l.last.isNone valued l.stream with
    | error e s =>
      rw [run] at h
      cases h
    | ok t s =>
      rw [run] at h
      obtain ⟨cs', p', on', gives⟩ := Gives.of_run on run
      by_cases done : t.lexeme = .inputEnd
      · simp only [if_pos done] at h
        cases h
        exact .nil gives done
      · simp only [if_neg done] at h
        obtain ⟨ls', others, rfl⟩ := Option.map_eq_some_iff.1 h
        exact .cons gives done (ih on' others)

lemma lexemes?_of_lexed (on : l.stream.On cs p) (h : Lexed valued l.last.isNone cs p ls)
    (enough : cs.length < n) : lexemes? valued n l = some ls := by
  induction n generalizing l cs p ls with
  | zero => omega
  | succ n ih =>
    cases h with
    | nil gives done =>
      obtain ⟨s, run, -⟩ := next_of_gives on gives
      rw [lexemes?, run]
      exact if_pos done
    | cons gives more others =>
      obtain ⟨s, run, on'⟩ := next_of_gives on gives
      have shorter := (gives.ends.resolve_left fun h => more h.1).2.1
      rw [lexemes?, run]
      simp only [if_neg more]
      rw [ih (l := ⟨s, some _⟩) on' others (by omega)]
      rfl

end Lexer

def lexemes? (valued : Bool) (cs : List Char) : Option (List Lexeme) :=
  Lexer.lexemes? valued (cs.length + 1) (.ofSource (.ofChars cs))

lemma lexemes?_eq_some_iff {ls : List Lexeme} :
    lexemes? valued cs = some ls ↔ Lexed valued true cs .start ls := by
  have on : (Lexer.ofSource (.ofChars cs)).stream.On cs .start := .ofChars cs
  exact ⟨Lexer.lexed_of_lexemes? on, fun h => Lexer.lexemes?_of_lexed on h (Nat.lt_succ_self _)⟩

lemma lexemes?_eq_nil (h : lexemes? valued cs = some []) (m : Bool) : lexemes? m cs = some [] := by
  cases lexemes?_eq_some_iff.1 h with
  | nil gives done =>
    rcases gives.ends with ⟨-, -, each⟩ | ⟨more, -⟩
    · exact lexemes?_eq_some_iff.2 (.nil (each m) done)
    · exact absurd done more

lemma Quiet.left (h : Quiet (cs ++ rest)) : Quiet cs := by
  intro c first
  cases cs with
  | nil => cases first
  | cons d cs => exact h c first

lemma Cut.alone (cut : Cut first cs p e a rest) (start : first = true ∨ Quiet cs) :
    Alike e rest first true a p .start := by
  refine cut.alike true .start ?_
  rcases start with rfl | quiet
  · exact .inl rfl
  · rw [cut.chars] at quiet
    exact .inr quiet.left

lemma Parted.lexed (h : Parted first cs p clauses rest) (start : first = true ∨ Quiet cs)
    (m : Bool) :
    ∃ lss ls, Lexed m first cs p (lss.flatten ++ ls) ∧
      clauses.mapM (lexemes? m) = some lss ∧ lexemes? m rest = some ls ∧ .clauseEnd ∉ ls ∧
      ∀ c ∈ clauses, ∃ ls, lexemes? m c = some (ls ++ [.clauseEnd]) ∧ .clauseEnd ∉ ls := by
  induction h with
  | last cut =>
    obtain ⟨ls, absent, -, last⟩ := (cut.alone start).lexed m
    obtain ⟨alone, here⟩ := last rfl
    rw [append_nil] at here
    exact ⟨[], ls, here, rfl, lexemes?_eq_some_iff.2 alone, absent, nofun⟩
  | @clause first cs c cs' rest p clauses cut others ih =>
    obtain ⟨lss, ls, there, parts, rest', absent, ends⟩ := ih (.inr cut.quiet)
    obtain ⟨ls₁, absent₁, clause, -⟩ := (cut.alone start).lexed m
    obtain ⟨alone, here⟩ := clause rfl
    have lexes := lexemes?_eq_some_iff.2 alone
    refine ⟨(ls₁ ++ [.clauseEnd]) :: lss, ls, ?_, ?_, rest', absent, ?_⟩
    · rw [cut.chars, flatten_cons, append_assoc, append_assoc]
      exact here _ there
    · simp [lexes, parts]
    · exact forall_mem_cons.2 ⟨⟨ls₁, lexes, absent₁⟩, ends⟩

/-- The text falls into clauses and a rest: it has the lexemes of these parts one after the other,
each clause ends in the only end it has, and the rest has none. -/
structure FallsInto (text : List Char) (clauses : List (List Char)) (rest : List Char) : Prop where
  chars : text = clauses.flatten ++ rest
  lexemes : ∀ valued, lexemes? valued text =
    ((clauses ++ [rest]).mapM (lexemes? valued)).map List.flatten
  clause : ∀ c ∈ clauses, ∀ valued,
    ∃ ls, lexemes? valued c = some (ls ++ [.clauseEnd]) ∧ .clauseEnd ∉ ls
  endless : ∀ valued, ∃ ls, lexemes? valued rest = some ls ∧ .clauseEnd ∉ ls

lemma Parted.fallsInto {text : List Char} (h : Parted true text .start clauses rest) :
    FallsInto text clauses rest where
  chars := h.chars
  lexemes valued := by
    obtain ⟨lss, ls, lexed, parts, last, -⟩ := h.lexed (.inl rfl) valued
    rw [lexemes?_eq_some_iff.2 lexed, mapM_append, parts]
    simp [last]
  clause c hc valued := by
    obtain ⟨-, -, -, -, -, -, ends⟩ := h.lexed (.inl rfl) valued
    exact ends c hc
  endless valued := by
    obtain ⟨-, ls, -, -, last, absent, -⟩ := h.lexed (.inl rfl) valued
    exact ⟨ls, last, absent⟩

end Horn
