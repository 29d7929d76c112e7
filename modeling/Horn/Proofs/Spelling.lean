import Horn.Proofs.Scanning
import Horn.Term.Writer

/-!
# How tokens are spelled

The text of a token is scanned as that token again, as long as what follows cannot continue it.
-/

namespace Horn

open Text List Term Bool Option CharStream String Int64 Number

variable {d : Char} {negative : Bool} {ds : List Char} {i : Int64} {c : Char}

namespace Scan

variable {cs rest : List Char} {start : Position}

lemma escape_scans (line : c ≠ '\n') (octal : isDigitIn 8 c = false) (hex : c ≠ 'x')
    (named : namedEscape? c = some d) :
    Scans (fun s => s.escape start) (c :: cs) (· = some d) cs := by
  intro s hs
  obtain ⟨p, t, read, ht⟩ := hs.read_cons
  refine ⟨some d, t, ?_, rfl, ht⟩
  change s.escape start = _
  rw [CharStream.escape, read]
  simp [line, octal, hex, named]

abbrev quotedName (start : Position) : Scan (List Char) := fun s => s.quotedText '\'' start

lemma quotedName_plain {name : List Char} (quote : c ≠ '\'') (slash : c ≠ '\\')
    (h : Scans (quotedName start) cs (· = name) rest) :
    Scans (quotedName start) (c :: cs) (· = c :: name) rest := by
  intro s hs
  obtain ⟨p, t, read, ht⟩ := hs.read_cons
  obtain ⟨_, u, run, rfl, hu⟩ := h t ht
  have run : t.quotedText '\'' start = .ok _ u := run
  refine ⟨_, u, ?_, rfl, hu⟩
  change s.quotedText '\'' start = _
  rw [CharStream.quotedText, read]
  simp only [quote, slash, if_false, run]
  rfl

lemma quotedName_escape {name : List Char} (line : c ≠ '\n') (octal : isDigitIn 8 c = false)
    (hex : c ≠ 'x') (named : namedEscape? c = some d)
    (h : Scans (quotedName start) cs (· = name) rest) :
    Scans (quotedName start) ('\\' :: c :: cs) (· = d :: name) rest := by
  intro s hs
  obtain ⟨p, t, read, ht⟩ := hs.read_cons
  obtain ⟨_, u, escape, rfl, hu⟩ := escape_scans line octal hex named t ht
  obtain ⟨_, v, run, rfl, hv⟩ := h u hu
  have run : u.quotedText '\'' start = .ok _ v := run
  have escape : t.escape start = .ok (some d) u := escape
  refine ⟨_, v, ?_, rfl, hv⟩
  change s.quotedText '\'' start = _
  rw [CharStream.quotedText, read]
  simp only [Char.reduceEq, if_false, if_true]
  rw [escape]
  simp only [run]
  rfl

lemma quotedName_nil (h : rest.head? ≠ some '\'') :
    Scans (quotedName start) ('\'' :: rest) (· = []) rest := by
  intro s hs
  obtain ⟨p, t, read, ht⟩ := hs.read_cons
  cases rest with
  | nil =>
    obtain ⟨u, read', hu⟩ := ht.read_nil
    refine ⟨[], u, ?_, rfl, hu⟩
    change s.quotedText '\'' start = _
    rw [CharStream.quotedText, read]
    simp only [if_true]
    rw [read']
  | cons d rest =>
    have closing : d ≠ '\'' := fun e => h (congrArg some e)
    obtain ⟨q, u, read', hu⟩ := ht.read_cons
    refine ⟨[], u.unread d q, ?_, rfl, hu.unread d q⟩
    change s.quotedText '\'' start = _
    rw [CharStream.quotedText, read]
    simp only [if_true]
    rw [read']
    exact if_neg closing

lemma quotedName_scans (name : List Char) (h : rest.head? ≠ some '\'') :
    Scans (quotedName start) (name.flatMap quotedChar ++ '\'' :: rest) (· = name) rest := by
  induction name with
  | nil => exact quotedName_nil h
  | cons c name ih =>
    rw [List.flatMap_cons, List.append_assoc]
    unfold quotedChar
    iterate 5
      split
      · next hc => subst hc; exact quotedName_escape (by decide) (by decide) (by decide) rfl ih
    next quote slash _ _ _ => exact quotedName_plain quote slash ih

lemma quoted_scans (name : List Char) (h : rest.head? ≠ some '\'') :
    Scans (quoted '\'' start) (name.flatMap quotedChar ++ '\'' :: rest)
      (· = ofList name) rest := by
  intro s hs
  obtain ⟨_, t, run, rfl, ht⟩ := quotedName_scans name h s hs
  have run : s.quotedText '\'' start = .ok _ t := run
  refine ⟨_, t, ?_, rfl, ht⟩
  rw [quoted, run]
  rfl

def stopChars : List Char := [' ', ',', '(', ')', ']', '\x7d', '|']

def Stops (cs : List Char) : Prop := ∀ c, cs.head? = some c → c ∈ stopChars

lemma Stops.head_not {keep : Char → Bool} (h : Stops rest)
    (each : ∀ c ∈ stopChars, keep c = false) : ∀ c, rest.head? = some c → keep c = false :=
  fun c hc => each c (h c hc)

lemma Stops.head_ne (h : Stops rest) (other : d ∉ stopChars) : rest.head? ≠ some d :=
  fun hd => other (h d hd)

lemma afterZero?_scans (quote : cs.head? ≠ some '\'')
    (letter : ∀ c, cs.head? = some c → radixOf? c = none) :
    Scans (afterZero? negative start) cs (· = none) cs := by
  cases cs with
  | nil =>
    refine char?_nil.bind_eq ?_
    exact .pure rfl
  | cons c cs =>
    refine char?_cons.bind ?_
    rintro _ ⟨p, rfl⟩
    have quote : c ≠ '\'' := fun e => quote (congrArg some e)
    simp only [quote, if_false, letter c rfl]
    exact (putBack_scans c p).bind fun _ _ => .pure rfl

lemma fraction?_scans (point : cs.head? ≠ some '.') : Scans fraction? cs (· = none) cs := by
  cases cs with
  | nil =>
    refine char?_nil.bind_eq ?_
    exact .pure rfl
  | cons c cs =>
    refine char?_cons.bind ?_
    rintro _ ⟨p, rfl⟩
    have point : c ≠ '.' := fun e => point (congrArg some e)
    simp only [point, if_false]
    exact (putBack_scans c p).bind fun _ _ => .pure rfl

lemma decimal_scans (digits : ∀ c ∈ ds, isDecimalDigit c) (stops : Stops rest)
    (value : int64? (signed negative (digitsValue 10 (d :: ds))) = some i) :
    Scans (decimal d negative start) (ds ++ rest) (· = .integer i) rest := by
  refine (takeWhile_scans digits (stops.head_not (forall_mem_of_all (by decide)))).bind_eq ?_
  refine (fraction?_scans (stops.head_ne (by decide))).bind_eq ?_
  simp only [integer, value]
  exact .pure rfl

lemma numeral_scans (digits : ∀ c ∈ ds, isDecimalDigit c) (stops : Stops rest)
    (value : int64? (signed negative (digitsValue 10 (d :: ds))) = some i) :
    Scans (numeral d negative start) (ds ++ rest) (· = .integer i) rest := by
  have whole : Scans (decimal d negative start) (ds ++ rest) (· = .integer i) rest :=
    decimal_scans digits stops value
  unfold numeral
  split
  · have head : ∀ c, (ds ++ rest).head? = some c → c ≠ '\'' ∧ radixOf? c = none := by
      intro c hc
      cases ds with
      | nil =>
        have each : ∀ c ∈ stopChars, c ≠ '\'' ∧ radixOf? c = none :=
          forall_mem_of_all (by decide)
        exact each c (stops c hc)
      | cons e ds =>
        obtain rfl : e = c := some.inj hc
        have digit := digits e mem_cons_self
        refine ⟨?_, ?_⟩
        · rintro rfl
          exact absurd digit (by decide)
        · unfold radixOf?
          split
          · exact absurd digit (by decide)
          · exact absurd digit (by decide)
          · exact absurd digit (by decide)
          · rfl
    refine (afterZero?_scans (fun h => (head _ h).1 rfl) fun c hc => (head c hc).2).bind_eq ?_
    exact whole
  · exact whole

section

variable (symbols : ∀ c ∈ cs, isSymbol c)

include symbols

lemma symbolAtom_scans {first : Char} (stops : Stops rest) :
    Scans (symbolAtom first) (cs ++ rest) (· = .atom (ofList (first :: cs)) false) rest :=
  (name_scans symbols (stops.head_not (forall_mem_of_all (by decide)))).map fun _ h => by rw [h]

lemma symbol_or_stop (stops : Stops rest) (h : (cs ++ rest).head? = some c) :
    isSymbol c ∨ c ∈ stopChars := by
  cases cs with
  | nil => exact .inr (stops c h)
  | cons d cs =>
    obtain rfl : d = c := some.inj h
    exact .inl (symbols d mem_cons_self)

lemma minusOrNumeral_scans (stops : Stops rest) :
    Scans (minusOrNumeral start) (cs ++ rest) (· = .atom (ofList ('-' :: cs)) false)
      rest := by
  have whole : Scans (symbolAtom '-') (cs ++ rest)
      (· = .atom (ofList ('-' :: cs)) false) rest := symbolAtom_scans symbols stops
  cases h : cs ++ rest with
  | nil =>
    refine char?_nil.bind_eq ?_
    rwa [h] at whole
  | cons c after =>
    have digit : isDecimalDigit c = false := by
      rcases symbol_or_stop symbols stops (c := c) (by rw [h]; rfl) with symbol | stop
      · exact not_isDecimalDigit (.inr (.inr symbol))
      · have each : ∀ c ∈ stopChars, isDecimalDigit c = false :=
          forall_mem_of_all (by decide)
        exact each c stop
    refine char?_cons.bind ?_
    rintro _ ⟨p, rfl⟩
    simp only [digit, false_eq_true, if_false]
    rw [h] at whole
    exact (putBack_scans c p).bind fun _ _ => whole

lemma pointOrAtom_scans (more : cs ≠ []) (stops : Stops rest) :
    Scans pointOrAtom (cs ++ rest) (· = .atom (ofList ('.' :: cs)) false) rest := by
  refine peek?_scans.bind_eq ?_
  obtain ⟨c, cs, rfl⟩ := exists_cons_of_ne_nil more
  have symbol := symbols c mem_cons_self
  have percent : c ≠ '%' := by
    rintro rfl
    exact absurd symbol (by decide)
  simp only [cons_append, head?_cons, (isSymbol_classes symbol).2, percent,
    decide_false, Bool.or_false, Bool.false_eq_true, if_false]
  exact symbolAtom_scans symbols stops

end

end Scan

/-- Whether the token begins with a sign, which belongs to it only where a value may stand. -/
def Lexeme.isSigned : Lexeme → Bool
  | .integer i => i.toInt < 0
  | _ => false

def Term.opensComment (name : String) : Bool :=
  isBareAtom name && ['/', '*'].isPrefixOf name.toList

/-- Before `rest`, the text `cs` is scanned as the lexeme `l`. -/
structure Lexes (glued : Bool) (cs : List Char) (l : Lexeme) (rest : List Char) : Prop where
  layoutFree : Scan.LayoutFree cs
  scans : ∃ c tail, cs = c :: tail ∧ rest.length ≤ tail.length ∧
    ∀ valued p, (l.isSigned → valued = true) →
      Scans (Scan.lexeme glued valued c p) tail (· = l) rest

namespace Lexes

open Scan

variable {glued : Bool} {cs rest : List Char}

lemma delimiter {l : Lexeme} (h : delimiter? glued c = some l) :
    Lexes glued (c :: rest) l rest := by
  constructor
  · unfold delimiter? at h
    split at h
    all_goals first
      | exact .of_ne (by decide) (by decide) (by decide)
      | cases h
  · refine ⟨c, rest, rfl, by simp, fun valued p _ => ?_⟩
    simp only [lexeme, h]
    exact .pure rfl

lemma bar (h : rest.head? ≠ some '|') : Lexes glued ('|' :: rest) .bar rest := by
  refine ⟨.of_ne (by decide) (by decide) (by decide), '|', rest, rfl, by simp, fun valued p _ => ?_⟩
  change Scans barOrAtom rest _ rest
  refine peek?_scans.bind_eq ?_
  simp only [h, if_false]
  exact .pure rfl

lemma solo (h : c ∈ ['!', ';']) : Lexes glued (c :: rest) (.atom (singleton c) false) rest := by
  have each : ∀ c ∈ ['!', ';'], isBlank c = false ∧ c ≠ '%' ∧ c ≠ '/' ∧ c ≠ '|' ∧
      (c = '!' || c = ';') ∧ delimiter? true c = none ∧ delimiter? false c = none :=
    forall_mem_of_all (by decide)
  obtain ⟨blank, percent, slash, bar, kind, glues, stands⟩ := each c h
  have delimiter : delimiter? glued c = none := by
    cases glued
    · exact stands
    · exact glues
  refine ⟨.of_ne blank percent slash, c, rest, rfl, by simp, fun valued p _ => ?_⟩
  simp only [lexeme, delimiter, bar, kind, if_false, if_true]
  exact .pure rfl

def delimiterChars : List Char := ['(', ')', '[', ']', '\x7b', '\x7d', ',']

lemma delimiter?_eq_none (h : c ∉ delimiterChars) : delimiter? glued c = none := by
  unfold delimiter?
  split
  all_goals first
    | exact absurd (by decide) h
    | rfl

section Kinds

variable {kind : Char → Bool} (h : kind c)

include h

lemma ne_of_kind (d : Char) (other : kind d = false) : c ≠ d := by
  rintro rfl
  rw [other] at h
  exact false_ne_true h

lemma delimiter?_of_kind (glued : Bool) (others : ∀ d ∈ delimiterChars, kind d = false) :
    delimiter? glued c = none :=
  delimiter?_eq_none fun member => ne_of_kind h c (others c member) rfl

end Kinds

lemma word (lower : isLowercase c) (word : ∀ d ∈ cs, isWordChar d) (stops : Stops rest) :
    Lexes glued (c :: cs ++ rest) (.atom (ofList (c :: cs)) false) rest := by
  have ne := ne_of_kind lower
  have letter := isAlphabetic_of_isLowercase lower
  have digit := not_isDecimalDigit (.inl lower)
  have delimiter := delimiter?_of_kind lower glued (forall_mem_of_all (by decide))
  refine ⟨.of_ne (not_isBlank_of_isAlphabetic letter) (ne _ (by decide)) (ne _ (by decide)),
    c, cs ++ rest, rfl, by simp, fun valued p _ => ?_⟩
  simp only [lexeme, delimiter, ne '|' (by decide), ne '!' (by decide), ne ';' (by decide), digit,
    ne '_' (by decide), not_isUppercase_of_isLowercase lower, letter, decide_false, Bool.or_false,
    false_eq_true, if_false, if_true]
  exact (name_scans word (stops.head_not (forall_mem_of_all (by decide)))).map fun _ h => by rw [h]

lemma var (first : c = '_' ∨ isUppercase c) (word : ∀ d ∈ cs, isWordChar d) (stops : Stops rest) :
    Lexes glued (c :: cs ++ rest) (.variable (ofList (c :: cs))) rest := by
  let kind (c : Char) : Bool := c = '_' || isUppercase c
  have begins : kind c := by simpa [kind] using first
  have ne := ne_of_kind begins
  have blank : isBlank c = false := by
    rcases first with rfl | first
    · decide
    · exact not_isBlank_of_isAlphabetic (isAlphabetic_of_isUppercase first)
  have digit : isDecimalDigit c = false := by
    rcases first with rfl | first
    · decide
    · exact not_isDecimalDigit (.inr (.inl first))
  have delimiter := delimiter?_of_kind begins glued (forall_mem_of_all (by decide))
  refine ⟨.of_ne blank (ne _ (by decide)) (ne _ (by decide)), c, cs ++ rest, rfl, by simp,
    fun valued p _ => ?_⟩
  simp only [lexeme, delimiter, ne '|' (by decide), ne '!' (by decide), ne ';' (by decide), digit,
    show (c = '_' || isUppercase c) = true from begins, decide_false, Bool.or_false,
    false_eq_true, if_false, if_true]
  exact (name_scans word (stops.head_not (forall_mem_of_all (by decide)))).map fun _ h => by rw [h]

lemma symbol (symbols : ∀ d ∈ c :: cs, isSymbol d) (point : c :: cs ≠ ['.'])
    (comment : ¬['/', '*'] <+: c :: cs) (stops : Stops rest) :
    Lexes glued (c :: cs ++ rest) (.atom (ofList (c :: cs)) false) rest := by
  obtain ⟨first, others⟩ := forall_mem_cons.1 symbols
  have ne := ne_of_kind first
  have delimiter := delimiter?_of_kind first glued (forall_mem_of_all (by decide))
  have slash : c = '/' → (cs ++ rest).head? ≠ some '*' := by
    rintro rfl star
    cases cs with
    | nil => exact stops.head_ne (by decide) star
    | cons d cs =>
      obtain rfl : d = '*' := some.inj star
      exact comment ⟨cs, rfl⟩
  refine ⟨⟨(isSymbol_classes first).2, ne _ (by decide), slash⟩, c, cs ++ rest, rfl, by simp,
    fun valued p _ => ?_⟩
  simp only [lexeme, delimiter, ne '|' (by decide), ne '!' (by decide), ne ';' (by decide),
    not_isDecimalDigit (.inr (.inr first)), ne '_' (by decide), not_isUppercase_of_isSymbol first,
    (isSymbol_classes first).1, ne '\'' (by decide), ne '"' (by decide), ne '`' (by decide), first,
    decide_false, Bool.or_false, Bool.false_eq_true, if_false, if_true]
  split
  · next hc =>
    subst hc
    exact pointOrAtom_scans others (fun e => point (congrArg _ e)) stops
  split
  · next hc =>
    simp only [Bool.and_eq_true, decide_eq_true_eq] at hc
    cases hc.1
    exact minusOrNumeral_scans others stops
  · exact symbolAtom_scans others stops

lemma quoted (name : String) (stops : Stops rest) :
    Lexes glued ('\'' :: (name.toList.flatMap quotedChar ++ '\'' :: rest)) (.atom name true)
      rest := by
  refine ⟨.of_ne (by decide) (by decide) (by decide), '\'', _, rfl, by simp; omega, fun valued p _ => ?_⟩
  change Scans (do return Lexeme.atom (← Scan.quoted '\'' p) true) _ _ _
  refine (quoted_scans name.toList (stops.head_ne (by decide))).map fun _ h => ?_
  rw [h, ofList_toList]

end Lexes

lemma digitsValue_toDigits (n : Nat) : digitsValue 10 (Nat.toDigits 10 n) = n := by
  have step (digits : List Char) (acc : Nat) (h : ∀ c ∈ digits, c.isDigit) :
      digits.foldl (fun acc c => acc * 10 + (digitValue? c).getD 0) acc =
        Nat.ofDigitChars 10 digits acc := by
    induction digits generalizing acc with
    | nil => rw [Nat.ofDigitChars_nil]; rfl
    | cons c digits ih =>
      obtain ⟨digit, others⟩ := forall_mem_cons.1 h
      rw [foldl_cons, Nat.ofDigitChars_cons, ih _ others, digitValue?, if_pos digit,
        Nat.mul_comm]
      rfl
  have digits : ∀ c ∈ Nat.toDigits 10 n, c.isDigit := fun c hc =>
    Nat.isDigit_of_mem_toDigits (by decide) (by decide) hc
  rw [digitsValue, step _ _ digits, Nat.ofDigitChars_ten_toDigits]

lemma Scan.lexeme_digit {glued valued : Bool} {p : Position} (digit : isDecimalDigit d) :
    lexeme glued valued d p = numeral d false p := by
  have ne := Lexes.ne_of_kind digit
  have delimiter := Lexes.delimiter?_of_kind digit glued (forall_mem_of_all (by decide))
  simp only [lexeme, delimiter, ne '|' (by decide), ne '!' (by decide), ne ';' (by decide), digit,
    decide_false, Bool.or_false, Bool.false_eq_true, if_false, if_true]

lemma Number.int64?_toInt (i : Int64) : int64? i.toInt = some i := by
  have bounds : minValue.toInt ≤ i.toInt ∧ i.toInt ≤ maxValue.toInt :=
    ⟨i.minValue_le_toInt, i.toInt_le⟩
  rw [int64?, if_pos bounds, ofInt_toInt]

namespace Lexes

open Scan

variable {glued : Bool} {rest : List Char}

lemma numeral (digits : ∀ c ∈ d :: ds, isDecimalDigit c) (stops : Stops rest)
    (value : int64? (signed false (digitsValue 10 (d :: ds))) = some i) :
    Lexes glued (d :: ds ++ rest) (.integer i) rest := by
  obtain ⟨first, others⟩ := forall_mem_cons.1 digits
  have blank := not_isBlank_of_isDecimalDigit first
  refine ⟨.of_ne blank (ne_of_kind first _ rfl) (ne_of_kind first _ rfl), d, ds ++ rest, rfl,
    by simp, fun valued p _ => ?_⟩
  rw [lexeme_digit first]
  exact numeral_scans others stops value

lemma signedNumeral (digits : ∀ c ∈ d :: ds, isDecimalDigit c) (stops : Stops rest)
    (value : int64? (signed true (digitsValue 10 (d :: ds))) = some i) (negative : i.toInt < 0) :
    Lexes glued ('-' :: d :: ds ++ rest) (.integer i) rest := by
  obtain ⟨first, others⟩ := forall_mem_cons.1 digits
  refine ⟨.of_ne (by decide) (by decide) (by decide), '-', d :: ds ++ rest, rfl, by simp; omega,
    fun valued p sign => ?_⟩
  cases sign (decide_eq_true negative)
  change Scans (minusOrNumeral p) _ _ _
  refine char?_cons.bind ?_
  rintro _ ⟨q, rfl⟩
  simp only [first, if_true]
  exact numeral_scans others stops value

lemma integer (i : Int64) (stops : Stops rest) :
    Lexes glued ((toString i.toInt).toList ++ rest) (.integer i) rest := by
  have digits (n : Nat) : ∀ c ∈ Nat.toDigits 10 n, isDecimalDigit c := fun c hc =>
    Nat.isDigit_of_mem_toDigits (by decide) (by decide) hc
  have value := int64?_toInt i
  cases h : i.toInt with
  | ofNat n =>
    obtain ⟨d, ds, spelled⟩ := exists_cons_of_ne_nil (Nat.toDigits_ne_nil (n := n) (b := 10))
    change Lexes glued ((Nat.repr n).toList ++ rest) _ rest
    rw [Nat.toList_repr, spelled]
    refine numeral (spelled ▸ digits n) stops ?_
    rw [← spelled, digitsValue_toDigits]
    rw [h] at value
    exact value
  | negSucc n =>
    obtain ⟨d, ds, spelled⟩ :=
      exists_cons_of_ne_nil (Nat.toDigits_ne_nil (n := n + 1) (b := 10))
    change Lexes glued (("-" ++ Nat.repr (n + 1)).toList ++ rest) _ rest
    rw [toList_append, Nat.toList_repr, spelled]
    refine signedNumeral (spelled ▸ digits (n + 1)) stops ?_ (by rw [h]; exact Int.negSucc_lt_zero n)
    rw [← spelled, digitsValue_toDigits]
    rw [h] at value
    exact value

/-- Every atom is scanned from its spelling, but for those that open a comment and for those of two
brackets, which are two tokens. -/
lemma atom {name : String} (comment : opensComment name = false)
    (brackets : name ≠ "[]" ∧ name ≠ "\x7b\x7d") (stops : Stops rest) :
    Lexes glued ((quoteAtom name).toList ++ rest) (.atom name (!isBareAtom name))
      rest := by
  unfold quoteAtom
  split
  · next bare =>
    have comment : ¬['/', '*'] <+: name.toList := by
      rw [Term.opensComment, bare, Bool.true_and] at comment
      rw [← isPrefixOf_iff_prefix, comment]
      exact false_ne_true
    rw [bare]
    unfold isBareAtom at bare
    rcases or_eq_true_iff.1 bare with member | spelled
    · simp only [Term.soloAtoms, List.contains_cons, List.contains_nil, Bool.or_false,
        or_eq_true, beq_iff_eq] at member
      rcases member with rfl | rfl | rfl | rfl
      · exact absurd rfl brackets.1
      · exact absurd rfl brackets.2
      · exact solo (by decide)
      · exact solo (by decide)
    · obtain ⟨cs, rfl⟩ : ∃ cs, name = ofList cs := ⟨_, (ofList_toList).symm⟩
      rw [toList_ofList] at spelled comment ⊢
      cases cs with
      | nil => exact absurd spelled false_ne_true
      | cons c cs =>
        by_cases lower : isLowercase c
        · simp only [lower, if_true] at spelled
          exact word lower (all_eq_true.1 spelled) stops
        · simp only [lower, false_eq_true, if_false, and_eq_true,
            decide_eq_true_eq] at spelled
          refine symbol (all_eq_true.1 spelled.2) ?_ comment stops
          intro point
          exact spelled.1 (congrArg ofList point)
  · next bare =>
    rw [not_eq_true] at bare
    rw [bare]
    simp only [String.toList_append, String.toList_ofList, List.append_assoc]
    exact quoted name stops

end Lexes

end Horn
