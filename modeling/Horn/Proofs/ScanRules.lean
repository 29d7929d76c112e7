import Horn.Proofs.ScanLoops
import Horn.Proofs.Scanning

/-!
# What all scanners have in common

What is said of two scanners side by side, and can be said of these steps, can be said of each
scanner of the lexer beside itself. The walk over the scanners is made once, for all that has the
rules.
-/

namespace Horn

open Text Scan CharStream Lexeme

variable {c : Char} {radix : Nat} {a b : Position} {keep : Char → Bool} {quote : Char}

namespace Lexeme

def Genuine (l : Lexeme) : Prop := ∀ name, l = .variable name → isVariableName name

def isNumber : Lexeme → Bool
  | .integer _ | .float _ => true
  | _ => false

def BeginsWith (c : Char) : Lexeme → Prop
  | .atom name false | .variable name => name.toList.head? = some c
  | .atom _ true => c = '\''
  | .integer _ | .float _ => isDecimalDigit c = true ∨ c = '-'
  | .doubleQuoted _ => c = '"'
  | .backQuoted _ => c = '`'
  | .openParen | .openCall => c = '('
  | .closeParen => c = ')'
  | .openBracket => c = '['
  | .closeBracket => c = ']'
  | .openCurly => c = '\x7b'
  | .closeCurly => c = '\x7d'
  | .comma => c = ','
  | .bar => c = '|'
  | .clauseEnd => c = '.'
  | .inputEnd => False

def Numbers (same : Prop) (k l : Lexeme) : Prop := k.isNumber ∧ l.isNumber ∧ (same → k = l)

structure Begun (c : Char) (k l : Lexeme) : Prop where
  same : k = l
  begins : k.BeginsWith c
  genuine : k.Genuine

lemma Numbers.begun {k l : Lexeme} (h : Numbers True k l)
    (first : isDecimalDigit c = true ∨ c = '-') : Begun c k l := by
  obtain ⟨number, -, same⟩ := h
  refine ⟨same trivial, ?_, ?_⟩
  · cases k with
    | integer | float => exact first
    | _ => cases number
  · rintro name rfl
    cases number

end Lexeme

abbrev Backlog := List (Char × Position × Position)

/-- What is said of two scanners side by side. `Holds n held x y R` is about places where at most `n`
characters are to come, also when the characters `held` are put back, which have just been read. The
values are related by `R`. -/
structure ScanRules where
  Holds : {α : Type} → Nat → Backlog → Scan α → Scan α → (α → α → Prop) → Prop
  Signs : Bool → Bool → Prop
  sameSigns (negative : Bool) : Signs negative negative
  pure {α : Type} {n : Nat} {held : Backlog} {R : α → α → Prop} {v w : α} (h : R v w) :
    Holds n held (pure v) (pure w) R
  fail {α : Type} {n : Nat} {held : Backlog} {R : α → α → Prop} (cause cause' : LexError.Cause)
    (p q : Position) : Holds n held (Scan.fail cause p) (Scan.fail cause' q) R
  integer {n : Nat} {held : Backlog} {negative negative' : Bool} (m : Nat)
    (cause cause' : LexError.Cause) (p q : Position) (signs : Signs negative negative') :
    Holds n held (Scan.integer negative m cause p) (Scan.integer negative' m cause' q)
      (Lexeme.Numbers (negative = negative'))
  bind {α β : Type} {n : Nat} {held : Backlog} {x y : Scan α} {f g : α → Scan β}
    {R : α → α → Prop} {Q : β → β → Prop} (hx : Holds n held x y R)
    (hf : ∀ v w, R v w → Holds n [] (f v) (g w) Q) : Holds n held (x >>= f) (y >>= g) Q
  forget {α : Type} {n k : Nat} {held : Backlog} {x y : Scan α} {R : α → α → Prop}
    (le : k ≤ held.length) (h : Holds n [] x y R) : Holds (n + k) held x y R
  putBack {α : Type} {n : Nat} {held : Backlog} {c : Char} {p q : Position} {x y : Scan α}
    {R : α → α → Prop} (h : Holds n held x y R) :
    Holds n ((c, p, q) :: held) (Scan.putBack c p >>= fun _ => x) (Scan.putBack c q >>= fun _ => y) R
  /-- Read a character. Where a quiet one is read on the first side there may be none on the second:
  then it is put back, or else the first side goes on alone. -/
  read {α : Type} {n : Nat} {held : Backlog} {k l : Option (Char × Position) → Scan α}
    {R : α → α → Prop} (room : held.length < CharStream.maxPushed)
    (char : ∀ m, n = m + 1 → ∀ c p q,
      Holds (m + 1) ((c, p, q) :: held) (k (some (c, p))) (l (some (c, q))) R)
    (nothing : Holds n held (k none) (l none) R)
    (quiet : ∀ m, n = m + 1 → ∀ d p, isQuiet d →
      (∃ x, k (some (d, p)) = (Scan.putBack d p >>= fun _ => x) ∧ Holds n held x (l none) R) ∨
        ∃ y, Holds m [] (k (some (d, p))) y R) :
    Holds n held (Scan.char? >>= k) (Scan.char? >>= l) R

namespace ScanRules

variable (C : ScanRules) {n : Nat} {held : Backlog} {p q : Position}

section Steps

variable {α : Type} {x x' y y' : Scan α} {R Q : α → α → Prop}
  {k l : Option (Char × Position) → Scan α}

lemma mono (h : C.Holds n held x y R) (imp : ∀ v w, R v w → Q v w) : C.Holds n held x y Q := by
  have after := C.bind h fun v w related => C.pure (imp v w related)
  rwa [bind_pure, bind_pure] at after

lemma ite {c : Prop} [Decidable c] (yes : c → C.Holds n held x y R)
    (no : ¬c → C.Holds n held x' y' R) :
    C.Holds n held (if c then x else x') (if c then y else y') R := by
  split
  · exact yes ‹c›
  · exact no ‹¬c›

lemma drop (h : C.Holds n [] x y R) : C.Holds n held x y R := C.forget (Nat.zero_le _) h

lemma less {entry : Char × Position × Position} (h : C.Holds n [] x y R) :
    C.Holds (n + 1) (entry :: held) x y R := C.forget (Nat.succ_le_succ (Nat.zero_le _)) h

lemma consume (room : held.length < maxPushed)
    (char : ∀ m, n = m + 1 → ∀ c p q, C.Holds m [] (k (some (c, p))) (l (some (c, q))) R)
    (nothing : C.Holds n held (k none) (l none) R) :
    C.Holds n held (char? >>= k) (char? >>= l) R := by
  refine C.read room ?_ nothing ?_
  · rintro m rfl c p q
    exact C.less (char m rfl c p q)
  · rintro m rfl d p -
    exact .inr ⟨_, char m rfl d p p⟩

lemma readUnlessQuiet (room : held.length < maxPushed)
    (char : ∀ m, n = m + 1 → ∀ c p q,
      C.Holds (m + 1) ((c, p, q) :: held) (k (some (c, p))) (l (some (c, q))) R)
    (nothing : C.Holds n held (k none) (l none) R)
    (quiet : ∀ d p, isQuiet d → k (some (d, p)) = Scan.putBack d p >>= fun _ => k none) :
    C.Holds n held (char? >>= k) (char? >>= l) R :=
  C.read room char nothing fun _ _ d p hd => .inl ⟨k none, quiet d p hd, nothing⟩

lemma bind_peek? (k : Option Char → Scan α) : (Scan.peek? >>= k) = Scan.char? >>= fun o =>
    match o with
    | some (c, p) => Scan.putBack c p >>= fun _ => k (some c)
    | none => k none := by
  simp only [Scan.peek?, bind_assoc]
  congr 1
  funext o
  cases o <;> simp

lemma peek {k l : Option Char → Scan α} (room : held.length < maxPushed)
    (char : ∀ c, C.Holds n held (k (some c)) (l (some c)) R)
    (nothing : C.Holds n held (k none) (l none) R)
    (quiet : ∀ d, isQuiet d → C.Holds n held (k (some d)) (l none) R) :
    C.Holds n held (peek? >>= k) (peek? >>= l) R := by
  rw [bind_peek?, bind_peek?]
  refine C.read room ?_ nothing ?_
  · rintro m rfl c p q
    exact C.putBack (char c)
  · rintro m rfl d p hd
    exact .inl ⟨_, rfl, quiet d hd⟩

end Steps

open Scan (takeWhile_eq skipLine_eq skipBlock_eq skipLayout_eq escapeDigits_eq numericEscape_eq
  escape_eq quotedText_eq quoted_eq exponent_eq)

lemma takeWhile (quiet : ∀ c, isQuiet c → keep c = false) :
    C.Holds n [] (Scan.takeWhile keep) (Scan.takeWhile keep)
      fun cs ds => cs = ds ∧ ∀ c ∈ cs, keep c := by
  induction n using Nat.strongRecOn with
  | _ n ih =>
    rw [takeWhile_eq]
    refine C.readUnlessQuiet Nat.zero_lt_two ?_ (C.pure ⟨rfl, by simp⟩)
      fun d p hd => if_neg (by simp [quiet d hd])
    rintro m rfl c p q
    refine C.ite (fun keeps => ?_) fun _ => C.putBack (C.pure ⟨rfl, by simp⟩)
    refine C.less (C.bind (ih m (Nat.lt_succ_self m)) ?_)
    rintro cs _ ⟨rfl, all⟩
    exact C.pure ⟨rfl, List.forall_mem_cons.2 ⟨keeps, all⟩⟩

lemma digits : C.Holds n [] (Scan.takeWhile (isDigitIn radix))
    (Scan.takeWhile (isDigitIn radix)) Eq :=
  C.mono (C.takeWhile fun _ => not_isDigitIn_of_isQuiet) fun _ _ => And.left

lemma decimalDigits : C.Holds n [] (Scan.takeWhile isDecimalDigit)
    (Scan.takeWhile isDecimalDigit) Eq :=
  C.mono (C.takeWhile fun _ => not_isDecimalDigit_of_isQuiet) fun _ _ => And.left

lemma skipLine : C.Holds n [] Scan.skipLine Scan.skipLine Eq := by
  induction n using Nat.strongRecOn with
  | _ n ih =>
    rw [skipLine_eq]
    refine C.consume Nat.zero_lt_two ?_ (C.pure rfl)
    rintro m rfl c p q
    exact C.ite (fun _ => C.pure rfl) fun _ => ih m (Nat.lt_succ_self m)

lemma skipBlock {star : Bool} :
    C.Holds n [] (Scan.skipBlock p star) (Scan.skipBlock q star) Eq := by
  induction n using Nat.strongRecOn generalizing star with
  | _ n ih =>
    rw [skipBlock_eq p, skipBlock_eq q]
    refine C.consume Nat.zero_lt_two ?_ (C.fail _ _ p q)
    rintro m rfl c - -
    exact C.ite (fun _ => C.pure rfl) fun _ => ih m (Nat.lt_succ_self m)

lemma skipLayout {seen : Bool} : C.Holds n [] (Scan.skipLayout seen) (Scan.skipLayout seen)
    fun a b => a = b ∧ (seen = true → a = true) := by
  induction n using Nat.strongRecOn generalizing seen with
  | _ n ih =>
    have again {m : Nat} (less : m < n) : C.Holds m [] (Scan.skipLayout true) (Scan.skipLayout true)
        fun a b => a = b ∧ (seen = true → a = true) :=
      C.mono (ih m less) fun _ _ h => ⟨h.1, fun _ => h.2 rfl⟩
    have stop {held : Backlog} : C.Holds n held (Pure.pure seen) (Pure.pure seen)
        fun a b => a = b ∧ (seen = true → a = true) := C.pure ⟨rfl, id⟩
    rw [skipLayout_eq]
    refine C.read Nat.zero_lt_two ?_ stop ?_
    · rintro m rfl c p q
      have next := again (Nat.lt_succ_self m)
      refine C.ite (fun _ => C.less next) fun _ => ?_
      refine C.ite (fun _ => C.less (C.bind C.skipLine fun _ _ _ => next)) fun _ => ?_
      refine C.ite (fun _ => ?_) fun _ => C.putBack stop
      refine C.readUnlessQuiet Nat.one_lt_two ?_ (C.putBack stop)
        fun d _ hd => if_neg (ne_of_isQuiet hd (by decide))
      rintro _ ⟨⟩ d p' q'
      refine C.ite (fun _ => ?_) fun _ => C.putBack (C.putBack stop)
      exact C.less (C.bind C.skipBlock fun _ _ _ => next)
    · rintro m rfl d p hd
      have next := again (Nat.lt_succ_self m)
      rcases Bool.or_eq_true_iff.1 hd with blank | percent
      · simp only [blank, if_true]
        exact .inr ⟨_, next⟩
      · cases of_decide_eq_true percent
        exact .inr ⟨_, C.bind C.skipLine fun _ _ _ => next⟩

section Quoted

lemma escapeDigits : C.Holds n [] (Scan.escapeDigits radix p) (Scan.escapeDigits radix q) Eq := by
  induction n using Nat.strongRecOn with
  | _ n ih =>
    rw [escapeDigits_eq radix p, escapeDigits_eq radix q]
    refine C.consume Nat.zero_lt_two ?_ (C.fail _ _ p q)
    rintro m rfl c - -
    refine C.ite (fun _ => C.pure rfl) fun _ => C.ite (fun _ => ?_) fun _ => C.fail _ _ p q
    refine C.bind (ih m (Nat.lt_succ_self m)) ?_
    rintro _ _ rfl
    exact C.pure rfl

lemma numericEscape {first : Char} :
    C.Holds n [] (Scan.numericEscape first radix p) (Scan.numericEscape first radix q) Eq := by
  rw [numericEscape_eq, numericEscape_eq]
  refine C.bind C.escapeDigits ?_
  rintro digits _ rfl
  split
  · exact C.pure rfl
  · exact C.fail _ _ p q

lemma escape : C.Holds n [] (Scan.escape p) (Scan.escape q) Eq := by
  have some_char {α : Type} {x y : Scan α} {m : Nat} (h : C.Holds m [] x y Eq) :
      C.Holds m [] (x >>= fun d => Pure.pure (some d)) (y >>= fun d => Pure.pure (some d)) Eq :=
    C.bind h fun _ _ same => C.pure (congrArg some same)
  rw [escape_eq, escape_eq]
  refine C.consume Nat.zero_lt_two ?_ (C.fail _ _ p q)
  rintro m rfl c - -
  refine C.ite (fun _ => C.pure rfl) fun _ => C.ite (fun _ => some_char C.numericEscape) fun _ => ?_
  refine C.ite (fun _ => some_char C.numericEscape) fun _ => ?_
  split
  · exact C.pure rfl
  · exact C.fail _ _ p q

lemma quotedText (loud : isQuiet quote = false) :
    C.Holds n [] (Scan.quotedText quote p) (Scan.quotedText quote q) Eq := by
  induction n using Nat.strongRecOn with
  | _ n ih =>
    rw [quotedText_eq quote p, quotedText_eq quote q]
    refine C.consume Nat.zero_lt_two ?_ (C.fail _ _ p q)
    rintro m rfl c - -
    have next := ih m (Nat.lt_succ_self m)
    have more (c : Char) : C.Holds m [] (Scan.quotedText quote p >>= fun cs => Pure.pure (c :: cs))
        (Scan.quotedText quote q >>= fun cs => Pure.pure (c :: cs)) Eq :=
      C.bind next fun _ _ same => C.pure (congrArg (c :: ·) same)
    refine C.ite (fun _ => ?_) fun _ => C.ite (fun _ => C.bind C.escape ?_) fun _ => more c
    · refine C.readUnlessQuiet Nat.zero_lt_two ?_ (C.pure rfl)
        fun d _ hd => if_neg (ne_of_isQuiet hd loud)
      rintro m rfl d p' q'
      exact C.ite (fun _ => C.drop (more quote)) fun _ => C.putBack (C.pure rfl)
    · rintro c _ rfl
      split
      · exact next
      · exact more _

lemma quoted (loud : isQuiet quote = false) :
    C.Holds n [] (quoted quote p) (quoted quote q) Eq := by
  rw [quoted_eq, quoted_eq]
  exact C.bind (C.quotedText loud) fun _ _ same => C.pure (congrArg String.ofList same)

end Quoted

section Numeral

variable {negative negative' : Bool} {first : Char}

lemma some_integer (m : Nat) (signs : C.Signs negative negative') :
    C.Holds n held (Scan.integer negative m .radixOutOfRange p >>= fun l => Pure.pure (some l))
      (Scan.integer negative' m .radixOutOfRange q >>= fun l => Pure.pure (some l))
      (Option.Rel (Numbers (negative = negative'))) :=
  C.bind (C.integer m _ _ p q signs) fun _ _ h => C.pure (.some h)

lemma no_integer {same : Prop} :
    C.Holds n held (Pure.pure none) (Pure.pure none) (Option.Rel (Numbers same)) :=
  C.pure .none

lemma charCode? (signs : C.Signs negative negative') :
    C.Holds n [('\'', a, b)] (charCode? negative p a) (charCode? negative' q b)
      (Option.Rel (Numbers (negative = negative'))) := by
  unfold Scan.charCode?
  refine C.consume Nat.one_lt_two ?_ (C.putBack C.no_integer)
  rintro m rfl c - -
  refine C.ite (fun _ => C.bind C.escape ?_) fun _ => ?_
  · rintro code _ rfl
    exact C.some_integer _ signs
  refine C.ite (fun _ => ?_) fun _ => C.some_integer _ signs
  refine C.readUnlessQuiet Nat.zero_lt_two ?_ (C.some_integer _ signs)
    fun d _ hd => if_neg (ne_of_isQuiet hd (by decide))
  rintro m rfl d p' q'
  exact C.ite (fun _ => C.some_integer _ signs) fun _ => C.putBack (C.some_integer _ signs)

lemma radixInteger? {r : Char} (signs : C.Signs negative negative') :
    C.Holds n [(r, a, b)] (radixInteger? negative p radix r a)
      (radixInteger? negative' q radix r b)
      (Option.Rel (Numbers (negative = negative'))) := by
  unfold Scan.radixInteger?
  refine C.readUnlessQuiet Nat.one_lt_two ?_ (C.putBack C.no_integer)
    fun d _ hd => if_neg (by simp [not_isDigitIn_of_isQuiet hd])
  rintro m rfl d p' q'
  refine C.ite (fun _ => C.drop (C.bind C.digits ?_)) fun _ => C.putBack (C.putBack C.no_integer)
  rintro digits _ rfl
  exact C.ite (fun _ => C.some_integer _ signs) fun _ => C.fail _ _ p q

lemma radixOf?_of_isQuiet (h : isQuiet c) : radixOf? c = none := by
  unfold radixOf?
  split
  · cases h
  · cases h
  · cases h
  · rfl

lemma afterZero? (signs : C.Signs negative negative') :
    C.Holds n [] (afterZero? negative p) (afterZero? negative' q)
      (Option.Rel (Numbers (negative = negative'))) := by
  unfold Scan.afterZero?
  refine C.readUnlessQuiet Nat.zero_lt_two ?_ C.no_integer fun d _ hd => ?_
  · rintro m rfl c a b
    refine C.ite (fun quote => ?_) fun _ => ?_
    · subst quote
      exact C.charCode? signs
    · split
      · exact C.radixInteger? signs
      · exact C.putBack C.no_integer
  · simp only [if_neg (ne_of_isQuiet hd (d := '\'') (by decide)), radixOf?_of_isQuiet hd]

lemma exponentDigits {d : Char} :
    C.Holds n [] (exponentDigits negative p (some (d, a)))
      (exponentDigits negative q (some (d, b))) Eq := by
  refine C.ite (fun _ => C.bind C.decimalDigits ?_) fun _ => C.fail _ _ p q
  rintro digits _ rfl
  exact C.pure rfl

lemma exponent : C.Holds n [] (exponent p) (exponent q) Eq := by
  rw [exponent_eq, exponent_eq]
  refine C.readUnlessQuiet Nat.zero_lt_two ?_ (C.pure rfl) fun d _ hd => if_neg ?_
  · rintro m rfl c a b
    refine C.ite (fun _ => C.less (C.consume Nat.zero_lt_two ?_ (C.fail _ _ p q)))
      fun _ => C.putBack (C.pure rfl)
    rintro m rfl sign a b
    have after (negative : Bool) : C.Holds m [] (Scan.char? >>= Scan.exponentDigits negative p)
        (Scan.char? >>= Scan.exponentDigits negative q) Eq := by
      refine C.consume Nat.zero_lt_two ?_ (C.fail _ _ p q)
      rintro _ rfl d _ _
      exact C.exponentDigits
    refine C.ite (fun _ => after true) fun _ => C.ite (fun _ => after false) fun _ => ?_
    exact C.exponentDigits
  · simp [ne_of_isQuiet hd (d := 'e') (by decide), ne_of_isQuiet hd (d := 'E') (by decide)]

lemma fraction? : C.Holds n [] fraction? fraction? Eq := by
  unfold Scan.fraction?
  refine C.readUnlessQuiet Nat.zero_lt_two ?_ (C.pure rfl)
    fun d _ hd => if_neg (ne_of_isQuiet hd (by decide))
  rintro m rfl c a b
  refine C.ite (fun _ => ?_) fun _ => C.putBack (C.pure rfl)
  refine C.readUnlessQuiet Nat.one_lt_two ?_ (C.putBack (C.pure rfl))
    fun d _ hd => if_neg (by simp [not_isDecimalDigit_of_isQuiet hd])
  rintro - - d p' q'
  refine C.ite (fun _ => C.drop (C.bind C.decimalDigits ?_)) fun _ => C.putBack (C.putBack (C.pure rfl))
  rintro digits _ rfl
  exact C.pure rfl

lemma decimal (signs : C.Signs negative negative') :
    C.Holds n [] (decimal first negative p) (decimal first negative' q)
      (Numbers (negative = negative')) := by
  unfold Scan.decimal
  refine C.bind C.decimalDigits ?_
  rintro digits _ rfl
  refine C.bind C.fraction? ?_
  rintro fraction _ rfl
  split
  · refine C.bind C.exponent ?_
    rintro e _ rfl
    exact C.pure ⟨rfl, rfl, fun same => by rw [same]⟩
  · exact C.integer _ _ _ p q signs

lemma numeral (signs : C.Signs negative negative') :
    C.Holds n [] (numeral first negative p) (numeral first negative' q)
      (Numbers (negative = negative')) := by
  unfold Scan.numeral
  refine C.ite (fun _ => C.bind (C.afterZero? signs) ?_) fun _ => C.decimal signs
  rintro _ _ (h | _)
  · exact C.pure h
  · exact C.decimal signs

lemma number (begins : isDecimalDigit c = true ∨ c = '-') :
    C.Holds n [] (Scan.numeral first negative p) (Scan.numeral first negative q)
      (Begun c) :=
  C.mono (C.numeral (C.sameSigns negative)) fun _ _ h =>
    Lexeme.Numbers.begun ⟨h.1, h.2.1, fun _ => h.2.2 rfl⟩ begins

end Numeral

variable {first : Char} {glued : Bool}

lemma name (quiet : ∀ c, isQuiet c → keep c = false) :
    C.Holds n [] (name first keep) (name first keep)
      fun s t => s = t ∧ ∃ cs, s = String.ofList (first :: cs) ∧ ∀ c ∈ cs, keep c := by
  refine C.bind (C.takeWhile quiet) ?_
  rintro cs _ ⟨rfl, all⟩
  exact C.pure ⟨rfl, cs, rfl, all⟩

lemma symbolAtom : C.Holds n [] (symbolAtom first) (symbolAtom first)
    fun k l => k = l ∧ ∃ name, k = .atom name false ∧ name.toList.head? = some first := by
  refine C.bind (C.name fun _ => not_isSymbol_of_isQuiet) ?_
  rintro _ _ ⟨rfl, cs, rfl, -⟩
  exact C.pure ⟨rfl, _, rfl, by simp⟩

lemma symbol : C.Holds n [] (Scan.symbolAtom first) (Scan.symbolAtom first)
    (Begun first) := by
  refine C.mono C.symbolAtom ?_
  rintro _ _ ⟨rfl, name, rfl, head⟩
  exact ⟨rfl, head, nofun⟩

lemma barOrAtom : C.Holds n [] barOrAtom barOrAtom (Begun '|') := by
  have bar {m : Nat} : C.Holds m [] (Pure.pure .bar) (Pure.pure .bar) (Begun '|') :=
    C.pure ⟨rfl, rfl, nofun⟩
  have atom {m : Nat} : C.Holds m [] (Pure.pure (.atom "||" false)) (Pure.pure (.atom "||" false))
      (Begun '|') := C.pure ⟨rfl, rfl, nofun⟩
  unfold Scan.barOrAtom
  refine C.peek Nat.zero_lt_two (fun c => C.ite (fun _ => ?_) fun _ => bar) bar fun d hd => ?_
  · refine C.consume Nat.zero_lt_two ?_ atom
    rintro m rfl - - -
    exact atom
  · rw [if_neg fun h => ne_of_isQuiet hd (by decide) (Option.some.inj h)]
    exact bar

lemma pointOrAtom : C.Holds n [] pointOrAtom pointOrAtom (Begun '.') := by
  have point : C.Holds n [] (Pure.pure .clauseEnd) (Pure.pure .clauseEnd) (Begun '.') :=
    C.pure ⟨rfl, rfl, nofun⟩
  unfold Scan.pointOrAtom
  refine C.peek Nat.zero_lt_two (fun c => C.ite (fun _ => point) fun _ => C.symbol) point
    fun d hd => ?_
  simp only [if_pos (show (isBlank d || decide (d = '%')) = true from hd)]
  exact point

lemma minusOrNumeral :
    C.Holds n [] (minusOrNumeral p) (minusOrNumeral q) (Begun '-') := by
  unfold Scan.minusOrNumeral
  refine C.readUnlessQuiet Nat.zero_lt_two ?_ C.symbol
    fun d _ hd => if_neg (by simp [not_isDecimalDigit_of_isQuiet hd])
  rintro m rfl d a b
  exact C.ite (fun _ => C.drop (C.number (.inr rfl))) fun _ => C.putBack C.symbol

lemma delimiter_begun {l : Lexeme} (h : delimiter? glued c = some l) : Begun c l l := by
  unfold delimiter? at h
  split at h
  · cases glued <;> cases h <;> exact ⟨rfl, rfl, nofun⟩
  all_goals cases h
  all_goals exact ⟨rfl, rfl, nofun⟩

lemma lexeme {valued : Bool} :
    C.Holds n [] (lexeme glued valued c p) (lexeme glued valued c q)
      (Begun c) := by
  have word : C.Holds n [] (Scan.name c isWordChar) (Scan.name c isWordChar) _ :=
    C.name fun _ => not_isWordChar_of_isQuiet
  have text {d : Char} (h : c = d) (loud : isQuiet d = false) :=
    C.quoted (n := n) (p := p) (q := q) (h ▸ loud)
  unfold Scan.lexeme
  split
  · next delimiter => exact C.pure (delimiter_begun delimiter)
  refine C.ite (fun bar => bar ▸ C.barOrAtom) fun _ => C.ite (fun _ => ?_) fun _ =>
    C.ite (fun digit => C.number (.inl digit)) fun _ => C.ite (fun first => C.bind word ?_) fun _ =>
    C.ite (fun _ => C.bind word ?_) fun _ => C.ite (fun h => C.bind (text h (by decide)) ?_) fun _ =>
    C.ite (fun h => C.bind (text h (by decide)) ?_) fun _ =>
    C.ite (fun h => C.bind (text h (by decide)) ?_) fun _ =>
    C.ite (fun point => point ▸ C.pointOrAtom) fun _ => C.ite (fun minus => ?_) fun _ =>
    C.ite (fun _ => C.symbol) fun _ => C.fail _ _ p q
  · exact C.pure ⟨rfl, by simp [BeginsWith], nofun⟩
  · rintro _ _ ⟨rfl, cs, rfl, all⟩
    refine C.pure ⟨rfl, by simp [BeginsWith], ?_⟩
    rintro _ ⟨⟩
    simp only [isVariableName, String.toList_ofList, first, Bool.true_and]
    exact List.all_eq_true.2 all
  · rintro _ _ ⟨rfl, cs, rfl, -⟩
    exact C.pure ⟨rfl, by simp [BeginsWith], nofun⟩
  · rintro _ _ rfl
    exact C.pure ⟨rfl, h, nofun⟩
  · rintro _ _ rfl
    exact C.pure ⟨rfl, h, nofun⟩
  · rintro _ _ rfl
    exact C.pure ⟨rfl, h, nofun⟩
  · cases of_decide_eq_true (Bool.and_eq_true_iff.1 minus).1
    exact C.minusOrNumeral

end ScanRules

end Horn
