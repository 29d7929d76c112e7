import Horn.Text.CharClass
import Mathlib.Tactic.Lemma

/-!
# How the character classes meet

What a name begins with tells its kind only because the classes keep apart: a small letter is a
letter and no capital, a symbol character is no letter at all, and nothing of these is a blank.
-/

namespace Horn.Text

open List Bool

variable {r : CharRange} {a b : List CharRange}

lemma forall_mem_of_all {cs : List Char} {p : Char → Prop} [DecidablePred p]
    (h : cs.all fun c => decide (p c)) : ∀ c ∈ cs, p c := by
  simpa using h

/-- Whether all members of `r` lie in `s`, as far as the bounds and the strides tell. -/
def CharRange.inside (r s : CharRange) : Bool :=
  s.first ≤ r.first && r.last ≤ s.last &&
    (s.stride == 1 || (r.stride == s.stride && (r.first - s.first) % s.stride == 0))

/-- Whether each member of `r` lies in the table. A range that no single range of the table holds is
gone through member by member. -/
def CharRange.within (r : CharRange) (table : List CharRange) : Bool :=
  table.any r.inside ||
    (List.range (r.last + 1 - r.first)).all fun i =>
      i % r.stride != 0 || table.any fun s =>
        s.first ≤ r.first + i && r.first + i ≤ s.last && (r.first + i - s.first) % s.stride == 0

/-- Whether each range lies in the table, where both are in increasing order: what ends before a
range is of no use for the later ones. -/
def allWithin : List CharRange → List CharRange → Bool
  | [], _ => true
  | r :: rs, table =>
    let table := table.dropWhile (Nat.blt ·.last r.first)
    r.within (table.take 4) && allWithin rs table

def CharRange.apart (r s : CharRange) : Bool :=
  Nat.blt r.last s.first || Nat.blt s.last r.first ||
    (r.stride == 2 && (s.stride == 2 || s.first == s.last) && (r.first + s.first) % 2 == 1)

variable {c : Char} {s : CharRange}

lemma CharRange.covers_of_inside (h : r.inside s) (hc : r.covers c) : s.covers c := by
  simp only [inside, covers, and_eq_true, or_eq_true, decide_eq_true_eq,
    beq_iff_eq] at h hc ⊢
  obtain ⟨⟨first, last⟩, stride⟩ := h
  refine ⟨⟨by omega, by omega⟩, ?_⟩
  rcases stride with one | ⟨same, step⟩
  · rw [one, Nat.mod_one]
  · have split : c.toNat - s.first = (c.toNat - r.first) + (r.first - s.first) := by omega
    rw [split, Nat.add_mod, step, ← same, hc.2, Nat.add_zero, Nat.zero_mod]

lemma CharRange.not_covers_of_apart (h : r.apart s) (hr : r.covers c) : s.covers c = false := by
  rw [eq_false_iff]
  intro hs
  simp only [apart, covers, and_eq_true, or_eq_true, decide_eq_true_eq,
    beq_iff_eq, Nat.blt_eq] at h hr hs
  rcases h with (below | above) | ⟨⟨even, single⟩, odd⟩
  · omega
  · omega
  · rw [even] at hr
    rcases single with even' | single
    · rw [even'] at hs
      omega
    · omega

lemma CharRange.covered_of_within {table : List CharRange} (h : r.within table)
    (hc : r.covers c) : covered table c := by
  rcases or_eq_true_iff.1 h with inside | each
  · obtain ⟨s, hs, inside⟩ := any_eq_true.1 inside
    exact any_eq_true.2 ⟨s, hs, covers_of_inside inside hc⟩
  · simp only [covers, and_eq_true, decide_eq_true_eq, beq_iff_eq] at hc
    have member := all_eq_true.1 each (c.toNat - r.first) (mem_range.2 (by omega))
    rw [Nat.add_sub_cancel' hc.1.1] at member
    simpa [hc.2, covered, covers] using member

lemma covered_of_sublist (h : a.Sublist b) (hc : covered a c) :
    covered b c := by
  obtain ⟨r, hr, hrc⟩ := any_eq_true.1 hc
  exact any_eq_true.2 ⟨r, h.mem hr, hrc⟩

lemma covered_of_allWithin (h : allWithin a b) (hc : covered a c) :
    covered b c := by
  induction a generalizing b with
  | nil => exact absurd hc false_ne_true
  | cons r rs ih =>
    obtain ⟨first, others⟩ := and_eq_true_iff.1 h
    have dropped := dropWhile_sublist (Nat.blt ·.last r.first) (l := b)
    rcases or_eq_true_iff.1 hc with hr | hrs
    · have := CharRange.covered_of_within first hr
      exact covered_of_sublist ((take_sublist _ _).trans dropped) this
    · exact covered_of_sublist dropped (ih others hrs)

lemma not_covered_of_apart (h : a.all fun r => b.all r.apart)
    (hc : covered a c) : covered b c = false := by
  obtain ⟨r, hr, hrc⟩ := any_eq_true.1 hc
  refine any_eq_false.2 fun s hs => ?_
  have apart := all_eq_true.1 (all_eq_true.1 h r hr) s hs
  rw [CharRange.not_covers_of_apart apart hrc]
  exact false_ne_true

lemma forall_ascii {P : Char → Prop} (h : ∀ n : Fin 128, P (Char.ofNat n)) (hc : isAscii c) :
    P c := by
  have bound : c.toNat < 128 := by simpa [isAscii] using hc
  have := h ⟨c.toNat, bound⟩
  rwa [Char.ofNat_toNat] at this

lemma isAlphabetic_of_isLowercase (h : isLowercase c) : isAlphabetic c := by
  by_cases ascii : isAscii c
  · exact forall_ascii (P := fun c => isLowercase c → isAlphabetic c) (by decide) ascii h
  · simp only [isLowercase, isAlphabetic, ascii, false_eq_true, if_false] at h ⊢
    exact covered_of_allWithin (by decide +kernel) h

lemma isAlphabetic_of_isUppercase (h : isUppercase c) : isAlphabetic c := by
  by_cases ascii : isAscii c
  · exact forall_ascii (P := fun c => isUppercase c → isAlphabetic c) (by decide) ascii h
  · simp only [isUppercase, isAlphabetic, ascii, false_eq_true, if_false] at h ⊢
    exact covered_of_allWithin (by decide +kernel) h

lemma not_isUppercase_of_isLowercase (h : isLowercase c) : isUppercase c = false := by
  by_cases ascii : isAscii c
  · exact forall_ascii (P := fun c => isLowercase c → isUppercase c = false) (by decide) ascii h
  · simp only [isLowercase, isUppercase, ascii, false_eq_true, if_false] at h ⊢
    exact not_covered_of_apart (by decide +kernel) h

lemma not_isBlank_of_isAlphabetic (h : isAlphabetic c) : isBlank c = false := by
  by_cases ascii : isAscii c
  · exact forall_ascii (P := fun c => isAlphabetic c → isBlank c = false) (by decide) ascii h
  · simp only [isAlphabetic, ascii, false_eq_true, if_false] at h
    exact not_covered_of_apart (by decide +kernel) h

lemma isSymbol_classes (h : isSymbol c) : isAlphabetic c = false ∧ isBlank c = false := by
  rcases or_eq_true_iff.1 h with member | other
  · have each : ∀ d ∈ asciiSymbols, isAlphabetic d = false ∧ isBlank d = false :=
      forall_mem_of_all (by decide)
    exact each c (by simpa using member)
  · simp only [isAlphanumeric, and_eq_true, not_eq_true',
      or_eq_false_iff] at other
    exact ⟨other.1.1.2.1, other.1.2⟩

lemma not_isUppercase_of_isSymbol (h : isSymbol c) : isUppercase c = false := by
  rw [eq_false_iff]
  intro upper
  have alphabetic := isAlphabetic_of_isUppercase upper
  rw [(isSymbol_classes h).1] at alphabetic
  exact false_ne_true alphabetic

lemma isAscii_of_isDecimalDigit (h : isDecimalDigit c) : isAscii c := by
  simp only [isDecimalDigit, Char.isDigit, and_eq_true, decide_eq_true_eq] at h
  have : c.toNat ≤ 57 := h.2
  simp only [isAscii, decide_eq_true_eq]
  omega

lemma not_isBlank_of_isDecimalDigit (h : isDecimalDigit c) : isBlank c = false :=
  forall_ascii (P := fun c => isDecimalDigit c → isBlank c = false) (by decide)
    (isAscii_of_isDecimalDigit h) h

lemma isWordChar_of_isDecimalDigit (h : isDecimalDigit c) : isWordChar c :=
  forall_ascii (P := fun c => isDecimalDigit c → isWordChar c) (by decide)
    (isAscii_of_isDecimalDigit h) h

lemma not_isDecimalDigit (h : isLowercase c ∨ isUppercase c ∨ isSymbol c) :
    isDecimalDigit c = false := by
  rw [eq_false_iff]
  intro digit
  exact forall_ascii (P := fun c => isDecimalDigit c → ¬(isLowercase c ∨ isUppercase c ∨
    isSymbol c)) (by decide) (isAscii_of_isDecimalDigit digit) digit h

def isQuiet (c : Char) : Bool := isBlank c || c = '%'

lemma not_isBlank_of_isNumeric (h : isNumeric c) : isBlank c = false := by
  by_cases ascii : isAscii c
  · exact forall_ascii (P := fun c => isNumeric c → isBlank c = false) (by decide) ascii h
  · simp only [isNumeric, ascii, false_eq_true, if_false] at h
    exact not_covered_of_apart (by decide +kernel) h

section

lemma not_isQuiet (blank : isBlank c = false) (percent : c ≠ '%') : isQuiet c = false := by
  simp [isQuiet, blank, percent]

lemma not_isSymbol_of_isQuiet (h : isQuiet c) : isSymbol c = false := by
  rw [eq_false_iff]
  intro symbol
  have other : c ≠ '%' := by
    rintro rfl
    exact absurd symbol (by decide)
  rw [not_isQuiet (isSymbol_classes symbol).2 other] at h
  cases h

lemma not_isWordChar_of_isQuiet (h : isQuiet c) : isWordChar c = false := by
  rw [eq_false_iff]
  intro word
  have other : c ≠ '%' := by
    rintro rfl
    exact absurd word (by decide)
  have blank : isBlank c = false := by
    rcases or_eq_true_iff.1 word with alphanumeric | underscore
    · rcases or_eq_true_iff.1 alphanumeric with alphabetic | numeric
      · exact not_isBlank_of_isAlphabetic alphabetic
      · exact not_isBlank_of_isNumeric numeric
    · rw [beq_iff_eq.1 underscore]
      decide
  rw [not_isQuiet blank other] at h
  cases h

lemma not_isDecimalDigit_of_isQuiet (h : isQuiet c) : isDecimalDigit c = false := by
  rw [eq_false_iff]
  intro digit
  have word := isWordChar_of_isDecimalDigit digit
  rw [not_isWordChar_of_isQuiet h] at word
  cases word

lemma isWordChar_of_isDigitIn {radix : Nat} (h : isDigitIn radix c) : isWordChar c := by
  have ascii : isAscii c := by
    simp only [isDigitIn, digitValue?] at h
    simp only [isAscii, decide_eq_true_eq]
    split at h
    · next found =>
      split at found
      · next digit =>
        have := isAscii_of_isDecimalDigit digit
        simpa [isAscii] using this
      · split at found
        · next lower =>
          have : c ≤ 'z' := by simpa using (and_eq_true_iff.1 lower).2
          have : c.toNat ≤ 122 := this
          omega
        · split at found
          · next upper =>
            have : c ≤ 'Z' := by simpa using (and_eq_true_iff.1 upper).2
            have : c.toNat ≤ 90 := this
            omega
          · cases found
    · cases h
  have digit : (digitValue? c).isSome := by
    unfold isDigitIn at h
    split at h
    · next found => rw [found]; rfl
    · cases h
  have := forall_ascii (P := fun c => (digitValue? c).isSome → isWordChar c) (by decide) ascii
  exact this digit

lemma not_isDigitIn_of_isQuiet {radix : Nat} (h : isQuiet c) : isDigitIn radix c = false := by
  rw [eq_false_iff]
  intro digit
  have word := isWordChar_of_isDigitIn digit
  rw [not_isWordChar_of_isQuiet h] at word
  cases word

lemma ne_of_isQuiet {d : Char} (h : isQuiet c) (loud : isQuiet d = false) : c ≠ d := by
  rintro rfl
  rw [loud] at h
  cases h

end

end Horn.Text
