import Horn.Proofs.Spelling
import Horn.Proofs.TokenLocality

/-!
# Numerals with and without a sign

Where a minus sign stands directly before a digit, it is a part of the number if a value is
expected, and else a token of its own before the number.
-/

namespace Horn

open Text Bool

namespace Scan

variable {cs : List Char} {p : Position}

lemma numeral_meets {first : Char} {negative negative' : Bool} {start start' : Position}
    {s t t' : CharStream} {k l : Lexeme} (on : s.On cs p)
    (run : numeral first negative start s = .ok k t)
    (run' : numeral first negative' start' s = .ok l t') : ∃ cs' p', t.On cs' p' ∧ t'.On cs' p' := by
  obtain ⟨_, -, past | ⟨⟨cs', _, _⟩, ⟨w, -, rfl, rfl⟩, here, other⟩⟩ :=
    (Local.rules True).numeral (p := start) (q := start') (.inr trivial) [] .nil ⟨cs, p, p⟩ s s
      (Nat.le_refl _) trivial (by rwa [List.append_nil]) on k t run
  · obtain ⟨_, _, _, short⟩ := past
    cases short
  · rw [List.append_nil] at here
    rcases other with ⟨u, ran, alone⟩ | ⟨-, e, u, failed⟩
    · cases run'.symm.trans ran
      exact ⟨cs', _, here, alone⟩
    · cases run'.symm.trans failed

lemma lexeme_valued {glued : Bool} {c : Char} (h : c ≠ '-') (valued : Bool) :
    lexeme glued valued c p = lexeme glued false c p := by
  simp [lexeme, h]

lemma skipLayout_loud {c : Char} {seen : Bool} (loud : isQuiet c = false) (slash : c ≠ '/') :
    Takes (skipLayout seen) (c :: cs) p seen (c :: cs) p := by
  obtain ⟨blank, percent⟩ := or_eq_false_iff.1 loud
  rw [skipLayout_eq]
  refine Takes.char?_cons.bind ?_
  simp only [blank, of_decide_eq_false percent, slash, false_eq_true, if_false]
  exact Takes.putBack.bind (.pure seen)

lemma symbolAtom_sign {d : Char} (digit : isDecimalDigit d) :
    Takes (symbolAtom '-') (d :: cs) p (.atom "-" false) (d :: cs) p := by
  have other : isSymbol d = false := by
    rw [eq_false_iff]
    intro symbol
    rw [not_isDecimalDigit (.inr (.inr symbol))] at digit
    cases digit
  have nothing : Takes (takeWhile isSymbol) (d :: cs) p [] (d :: cs) p := by
    rw [takeWhile_eq]
    refine Takes.char?_cons.bind ?_
    simp only [other, false_eq_true, if_false]
    exact Takes.putBack.bind (.pure [])
  have named : Takes (name '-' isSymbol) (d :: cs) p "-" (d :: cs) p := nothing.bind (.pure _)
  exact named.bind (.pure _)

end Scan

namespace Gives

open Scan

variable {first valued : Bool} {cs cs' : List Char} {p p' : Position} {t : Token} {cs₁ : List Char}
  {p₁ q : Position} {l : Lexeme} {d : Char}

lemma unique {t' : Token} (h : Gives first valued cs p t cs' p')
    (h' : Gives first valued cs p t' cs₁ p₁) : t = t' ∧ cs' = cs₁ ∧ p' = p₁ :=
  h.takes.unique h'.takes

lemma digit (digit : isDecimalDigit d) (h : Gives first valued (d :: cs) p t cs' p') :
    Takes (numeral d false p) cs (p.after d) t.lexeme cs' p' ∧
      ∀ valued', Gives first valued' (d :: cs) p t cs' p' := by
  have loud : isQuiet d = false := by
    rw [eq_false_iff]
    intro quiet
    rw [not_isDecimalDigit_of_isQuiet quiet] at digit
    cases digit
  have slash : d ≠ '/' := by
    rintro rfl
    cases digit
  have stays : Takes (skipLayout false) (d :: cs) p false (d :: cs) p := skipLayout_loud loud slash
  cases h with
  | nothing skips => cases (skips.unique stays).2.1
  | lexeme skips takes =>
    obtain ⟨rfl, same, rfl⟩ := skips.unique stays
    cases same
    rw [lexeme_digit digit] at takes
    refine ⟨takes, fun valued' => .lexeme stays ?_⟩
    rw [lexeme_digit digit]
    exact takes

lemma minusOrNumeral_unsigned (h : Takes (symbolAtom '-') cs p l cs' p')
    (unsigned : ∀ d ds, cs = d :: ds → isDecimalDigit d = false) :
    Takes (minusOrNumeral q) cs p l cs' p' := by
  unfold minusOrNumeral
  cases cs with
  | nil => exact Takes.char?_nil.bind h
  | cons d cs =>
    refine Takes.char?_cons.bind ?_
    simp only [unsigned d cs rfl, false_eq_true, if_false]
    exact Takes.putBack.bind h

lemma numeral_signed {ds : List Char} (digit : isDecimalDigit d)
    (h : Takes (minusOrNumeral q) (d :: ds) p l cs' p') :
    ∃ s s', s.On ds (p.after d) ∧ numeral d true q s = .ok l s' ∧ s'.On cs' p' := by
  obtain ⟨s₀, on₀⟩ := CharStream.On.exists_on (d :: ds) p
  obtain ⟨s, read, on⟩ := on₀.read_cons
  obtain ⟨s', run, on'⟩ := h s₀ on₀
  unfold minusOrNumeral at run
  rw [char?_bind read] at run
  simp only [digit, if_true] at run
  exact ⟨s, s', on, run, on'⟩

lemma modes {u : Token} {cs₂ : List Char} {p₂ : Position} (h : Gives first true cs p t cs₁ p₁)
    (h' : Gives first false cs p u cs₂ p₂) :
    (t = u ∧ cs₁ = cs₂ ∧ p₁ = p₂) ∨
      t.lexeme.isNumber ∧ u.lexeme.isEnd = false ∧ ∀ first' valued k cs₃ p₃,
        Gives first' valued cs₂ p₂ k cs₃ p₃ → k.lexeme.isNumber ∧ cs₃ = cs₁ ∧ p₃ = p₁ ∧
          ∀ valued', Gives first' valued' cs₂ p₂ k cs₃ p₃ := by
  cases h with
  | nothing skips =>
    cases h' with
    | nothing skips' =>
      obtain ⟨rfl, -, rfl⟩ := skips.unique skips'
      exact .inl ⟨rfl, rfl, rfl⟩
    | lexeme skips' _ => cases (skips.unique skips').2.1
  | @lexeme _ c cs _ q _ _ skips takes =>
    cases h' with
    | nothing skips' => cases (skips.unique skips').2.1
    | lexeme skips' takes' =>
      obtain ⟨rfl, same, rfl⟩ := skips.unique skips'
      cases same
      by_cases minus : c = '-'
      · subst minus
        change Takes (minusOrNumeral q) _ _ _ _ _ at takes
        change Takes (symbolAtom '-') _ _ _ _ _ at takes'
        by_cases signed : ∃ d ds, cs = d :: ds ∧ isDecimalDigit d
        · obtain ⟨d, ds, rfl, digit⟩ := signed
          obtain ⟨s, s', on, run, on'⟩ := numeral_signed digit takes
          obtain ⟨rfl, rfl, rfl⟩ := takes'.unique (symbolAtom_sign digit)
          refine .inr ⟨isNumber_numeral run, rfl, fun first' valued k cs₃ p₃ next => ?_⟩
          obtain ⟨number, both⟩ := next.digit digit
          obtain ⟨s'', run', on''⟩ := number s on
          obtain ⟨cs₄, p₄, on₁, on₂⟩ := numeral_meets on run run'
          obtain ⟨rfl, rfl⟩ := on'.unique on₁
          obtain ⟨rfl, rfl⟩ := on''.unique on₂
          exact ⟨isNumber_numeral run', rfl, rfl, both⟩
        · have unsigned : ∀ d ds, cs = d :: ds → isDecimalDigit d = false :=
            fun d ds same => eq_false_iff.2 fun digit => signed ⟨d, ds, same, digit⟩
          obtain ⟨rfl, rfl, rfl⟩ := takes.unique (minusOrNumeral_unsigned takes' unsigned)
          exact .inl ⟨rfl, rfl, rfl⟩
      · rw [lexeme_valued minus] at takes
        obtain ⟨rfl, rfl, rfl⟩ := takes.unique takes'
        exact .inl ⟨rfl, rfl, rfl⟩

end Gives

end Horn
