import Horn.Proofs.Spelling
import Horn.Proofs.TermInduction

/-!
# The tokens of a written term

A written term is a sequence of words: tokens, of which some are prefix operators before their
operand and some are atoms that stand for themselves.
-/

namespace Horn

open Text List Term Bool String

inductive Role where
  | prefixOp
  | operand (name : String)
  | plain
  deriving DecidableEq, Repr

structure Word where
  lexeme : Lexeme
  role : Role
  deriving DecidableEq, Repr

namespace Word

def plain (l : Lexeme) : Word := ⟨l, .plain⟩

def ofName (role : Role) (name : String) : List Word :=
  if name = "[]" then [plain .openBracket, ⟨.closeBracket, role⟩]
  else if name = "\x7b\x7d" then [plain .openCurly, ⟨.closeCurly, role⟩]
  else [⟨.atom name (!Term.isBareAtom name), role⟩]

/-- Parentheses around what is written, if they are needed. The flag `glued` tells whether a token
stands directly before. -/
def grouped (wrap glued : Bool) (ws : Bool → List Word) : List Word :=
  if wrap then plain (if glued then .openCall else .openParen) :: (ws true ++ [plain .closeParen])
  else ws glued

end Word

namespace WriteStyle

open Word

def operandWords (style : WriteStyle) (glued : Bool) (max : Nat) (a : String) : List Word :=
  grouped (max < argPriority && style.operators.isOperator a) glued fun _ => ofName (.operand a) a

def infixWords (functor : String) : List Word :=
  if functor = "," then [plain .comma] else ofName .plain functor

def numberWord : Number → Word
  | .int i => plain (.integer i)
  | .float x => plain (.float x)

mutual

def termWords (style : WriteStyle) (glued : Bool) (max : Nat) : Term → List Word
  | .var name id => [plain (.variable (varText name id))]
  | .number n => [numberWord n]
  | .atom a => operandWords style glued max a
  | .cell h t =>
    plain .openBracket ::
      (termWords style true argPriority h ++ (tailWords style t ++ [plain .closeBracket]))
  | .compound functor args => compoundWords style glued max functor args

def tailWords (style : WriteStyle) : Term → List Word
  | .cell h t => plain .comma :: (termWords style true argPriority h ++ tailWords style t)
  | .atom a => if a = "[]" then [] else plain .bar :: operandWords style true argPriority a
  | .var name id => [plain .bar, plain (.variable (varText name id))]
  | .number n => [plain .bar, numberWord n]
  | .compound functor args => plain .bar :: compoundWords style true argPriority functor args

def compoundWords (style : WriteStyle) (glued : Bool) (max : Nat) (functor : String) :
    List Term → List Word
  | [] => ofName .plain functor ++ [plain .openCall, plain .closeParen]
  | [a] =>
    if functor = "\x7b\x7d" && !style.ignoreOps then
      plain .openCurly ::
        (termWords style true OperatorTable.maxPriority a ++ [plain .closeCurly])
    else match style.operatorFor? functor 1 with
      | some op =>
        grouped (max < op.priority) glued fun glued =>
          if op.fixity = .prefixOp then
            ofName .prefixOp functor ++ termWords style false op.rightMax a
          else termWords style glued op.leftMax a ++ ofName .plain functor
      | none =>
        ofName .plain functor ++
          plain .openCall :: (termWords style true argPriority a ++ [plain .closeParen])
  | [a, b] =>
    match style.operatorFor? functor 2 with
    | some op =>
      grouped (max < op.priority) glued fun glued =>
        termWords style glued op.leftMax a ++
          (infixWords functor ++ termWords style (functor = ",") op.rightMax b)
    | none =>
      ofName .plain functor ++
        plain .openCall :: (termWords style true argPriority a ++
          plain .comma :: (termWords style true argPriority b ++ [plain .closeParen]))
  | a :: rest =>
    ofName .plain functor ++
      plain .openCall :: (termWords style true argPriority a ++
        (furtherWords style rest ++ [plain .closeParen]))

def furtherWords (style : WriteStyle) : List Term → List Word
  | [] => []
  | a :: rest => plain .comma :: (termWords style true argPriority a ++ furtherWords style rest)

end

end WriteStyle

/-- The text `cs` is scanned as the words `ws`; `glued` tells whether a token stands directly
before it. -/
inductive Spells : Bool → List Char → List Word → Prop where
  | done {glued : Bool} : Spells glued [] []
  | word {glued : Bool} {cs rest : List Char} {w : Word} {ws : List Word}
      (first : Lexes glued cs w.lexeme rest) (others : Spells true rest ws) :
      Spells glued cs (w :: ws)
  | blank {c : Char} {cs : List Char} {ws : List Word} (layout : isBlank c)
      (apart : Spells false cs ws) : Spells true (c :: cs) ws

namespace Spells

open Scan

variable {first valued : Bool} {cs : List Char} {glued : Bool} {ws : List Word}

lemma token_scans {w : Word} (h : Spells glued cs (w :: ws)) (start : glued = !first)
    (sign : w.lexeme.isSigned → valued = true) :
    ∃ rest, Scans (token first valued) cs (·.lexeme = w.lexeme) rest ∧ Spells true rest ws := by
  cases h with
  | @word _ _ rest _ _ lexes others =>
    obtain ⟨c, tail, rfl, _, scans⟩ := lexes.scans
    refine ⟨rest, ?_, others⟩
    refine (skipLayout_scans lexes.layoutFree).bind_eq ?_
    refine char?_cons.bind ?_
    rintro _ ⟨p, rfl⟩
    rw [start] at scans
    exact (scans valued p sign).map fun _ h => h
  | blank layout apart =>
    cases apart with
    | @word _ _ rest _ _ lexes others =>
      obtain ⟨c, tail, rfl, _, scans⟩ := lexes.scans
      refine ⟨rest, ?_, others⟩
      refine (skipLayout_cons layout (skipLayout_scans lexes.layoutFree)).bind_eq ?_
      refine char?_cons.bind ?_
      rintro _ ⟨p, rfl⟩
      exact (scans valued p sign).map fun _ h => h

lemma token_end (h : Spells glued cs []) :
    Scans (token first valued) cs (·.lexeme = .inputEnd) [] := by
  cases h with
  | done =>
    refine (skipLayout_scans (show LayoutFree [] from trivial)).bind_eq ?_
    refine char?_nil.bind_eq ?_
    exact fun s hs => ⟨_, s, rfl, rfl, hs⟩
  | blank layout apart =>
    cases apart
    refine (skipLayout_cons layout (skipLayout_scans (show LayoutFree [] from trivial))).bind_eq ?_
    refine char?_nil.bind_eq ?_
    exact fun s hs => ⟨_, s, rfl, rfl, hs⟩

lemma length_le (h : Spells glued cs ws) : ws.length ≤ cs.length := by
  induction h with
  | done => exact Nat.le_refl 0
  | word first others ih =>
    obtain ⟨c, tail, rfl, shorter, _⟩ := first.scans
    exact Nat.succ_le_succ (Nat.le_trans ih shorter)
  | blank layout apart ih => exact Nat.le_succ_of_le ih

end Spells

/-- A term whose text can be scanned: it has no floats, its variables have the names of variables,
and none of its names opens a comment. -/
structure Term.Legible (t : Term) : Prop where
  floatFree : ∀ x, .number (.float x) ∉ t.subterms
  named : ∀ name id, .var name id ∈ t.subterms → isVariableName name
  uncommented : ∀ s ∈ t.subterms, ∀ name, s.name? = some name → opensComment name = false

instance (t : Term) : Decidable t.Legible :=
  decidable_of_iff (∀ s ∈ t.subterms, (match s with
      | .number (.float _) => false
      | .var name _ => isVariableName name
      | _ => true) = true ∧ Term.opensComment (s.name?.getD "") = false) <| by
    constructor
    · intro h
      refine ⟨fun x hx => absurd (h _ hx).1 Bool.false_ne_true, fun name id hv => (h _ hv).1, ?_⟩
      intro s hs name hn
      simpa [hn] using (h s hs).2
    · intro h s hs
      refine ⟨?_, ?_⟩
      · split
        · next x => exact absurd hs (h.floatFree x)
        · next name id => exact h.named name id hs
        · rfl
      · cases hn : s.name? with
        | none => decide
        | some name => exact h.uncommented s hs name hn

namespace Term.Legible

variable {h t : Term} {f : String} {args : List Term}

lemma sub {s : Term} (ht : t.Legible) (sub : s.subterms ⊆ t.subterms) : s.Legible where
  floatFree x hx := ht.floatFree x (sub hx)
  named name id hv := ht.named name id (sub hv)
  uncommented u hu := ht.uncommented u (sub hu)

lemma arg {a : Term} (ht : (compound f args).Legible) (ha : a ∈ args) : a.Legible :=
  ht.sub (subterms_arg ha)

lemma name {name : String} (ht : t.Legible) (hn : t.name? = some name) :
    opensComment name = false :=
  ht.uncommented t t.self_mem_subterms name hn

end Term.Legible

namespace WriteStyle

open Word Scan

lemma isVariableName_varText {name : String} (id : Nat) (h : isVariableName name) :
    isVariableName (varText name id) := by
  unfold varText
  split
  · have spelled : ("_G" ++ toString id).toList = '_' :: 'G' :: Nat.toDigits 10 id := by
      rw [toList_append]
      exact congrArg ('_' :: 'G' :: ·) Nat.toList_repr
    have digits : ∀ c ∈ Nat.toDigits 10 id, isWordChar c := fun c hc =>
      isWordChar_of_isDecimalDigit (Nat.isDigit_of_mem_toDigits (by decide) (by decide) hc)
    simp only [isVariableName, spelled, all_cons, all_eq_true.2 digits]
    decide
  · exact h

variable {style : WriteStyle} {glued : Bool} {cs : List Char} {ws : List Word}

lemma variable_spells {name : String} (h : isVariableName name) (next : Spells true cs ws)
    (stops : Stops cs) : Spells glued (name.toList ++ cs) (plain (.variable name) :: ws) := by
  refine .word ?_ next
  unfold isVariableName at h
  split at h
  · exact absurd h false_ne_true
  · next c rest spelled =>
    simp only [and_eq_true, or_eq_true, decide_eq_true_eq, all_eq_true] at h
    have : name = ofList (c :: rest) := by rw [← spelled, ofList_toList]
    rw [spelled, this]
    exact Lexes.var h.1 h.2 stops

lemma delimiter_spells {c : Char} {l : Lexeme} (h : delimiter? glued c = some l)
    (next : Spells true cs ws) : Spells glued (c :: cs) (plain l :: ws) :=
  .word (.delimiter h) next

lemma name_spells (quoted : style.quoted) {name : String} (role : Role)
    (comment : opensComment name = false) (next : Spells true cs ws) (stops : Stops cs) :
    Spells glued ((style.atomText name).toList ++ cs) (ofName role name ++ ws) := by
  rw [atomText, if_pos quoted, ofName]
  split
  · next h =>
    subst h
    have close : Spells true (']' :: cs) (⟨.closeBracket, role⟩ :: ws) := .word (.delimiter rfl) next
    exact .word (.delimiter rfl) close
  split
  · next h =>
    subst h
    have close : Spells true ('\x7d' :: cs) (⟨.closeCurly, role⟩ :: ws) := .word (.delimiter rfl) next
    exact .word (.delimiter rfl) close
  · next bracket curly => exact .word (.atom comment ⟨bracket, curly⟩ stops) next

def IsCall (style : WriteStyle) (functor : String) (args : List Term) : Prop :=
  style.operatorFor? functor args.length = none ∧
    ¬(args.length = 1 ∧ functor = "\x7b\x7d" ∧ style.ignoreOps = false)

inductive Form (style : WriteStyle) (functor : String) (args : List Term) : Prop where
  | curly (a : Term) (one : args = [a]) (name : functor = "\x7b\x7d")
      (ops : style.ignoreOps = false)
  | unary (a : Term) (op : Operator) (one : args = [a]) (name : functor ≠ "\x7b\x7d")
      (operator : style.operatorFor? functor 1 = some op)
  | binary (a b : Term) (op : Operator) (two : args = [a, b])
      (operator : style.operatorFor? functor 2 = some op)
  | call (a : Term) (rest : List Term) (some : args = a :: rest)
      (call : style.IsCall functor args)

lemma operatorFor?_ignoreOps (h : style.ignoreOps = true) (functor : String) (n : Nat) :
    style.operatorFor? functor n = none := by
  unfold operatorFor?
  rw [if_pos h]

lemma form (functor : String) {args : List Term} (some : args ≠ []) :
    style.Form functor args := by
  match args, some with
  | [a], _ =>
    by_cases curly : functor = "\x7b\x7d" ∧ style.ignoreOps = false
    · exact .curly a rfl curly.1 curly.2
    · cases operator : style.operatorFor? functor 1 with
      | none => exact .call a [] rfl ⟨operator, fun h => curly h.2⟩
      | some op =>
        refine .unary a op rfl (fun name => curly ⟨name, ?_⟩) operator
        rw [eq_false_iff]
        intro ignore
        rw [operatorFor?_ignoreOps ignore] at operator
        cases operator
  | [a, b], _ =>
    cases operator : style.operatorFor? functor 2 with
    | none => exact .call a [b] rfl ⟨operator, fun h => absurd h.1 (by simp)⟩
    | some op => exact .binary a b op rfl operator
  | a :: b :: c :: rest, _ =>
    refine .call a (b :: c :: rest) rfl ⟨?_, fun h => absurd h.1 (by simp)⟩
    simp [operatorFor?]

variable {max : Nat} {functor : String} {a b : Term} {rest : List Term} {op : Operator}

lemma compound_call (h : style.IsCall functor (a :: rest)) :
    compoundText style max functor (a :: rest) =
      style.atomText functor ++ "(" ++
        (termText style argPriority a ++ furtherText style rest) ++ ")" ∧
    ∀ glued, compoundWords style glued max functor (a :: rest) =
      ofName .plain functor ++ plain .openCall :: (termWords style true argPriority a ++
        (furtherWords style rest ++ [plain .closeParen])) := by
  match rest with
  | [] =>
    have curly : ¬(functor = "\x7b\x7d" && !style.ignoreOps) := by
      simpa using fun name => fun ops => h.2 ⟨rfl, name, ops⟩
    have operator : style.operatorFor? functor 1 = none := h.1
    simp [compoundText, compoundWords, curly, operator, furtherText, furtherWords]
  | [b] =>
    have operator : style.operatorFor? functor 2 = none := h.1
    simp [compoundText, compoundWords, operator, furtherText, furtherWords, String.append_assoc]
  | b :: c :: rest => simp [compoundText, compoundWords, String.append_assoc]

/-- Before whatever cannot continue it, the text is scanned as these words, and it does not begin
with a bar. -/
structure Written (text : String) (words : Bool → List Word) : Prop where
  spells : ∀ glued cs ws, Spells true cs ws → Stops cs →
    Spells glued (text.toList ++ cs) (words glued ++ ws)
  first : ∃ c cs, text.toList = c :: cs ∧ c ≠ '|'

lemma stops_cons {c : Char} (h : c ∈ stopChars) (cs : List Char) : Stops (c :: cs) := by
  intro d hd
  obtain rfl : c = d := Option.some.inj hd
  exact h

lemma first_append {text : String} (h : ∃ c cs, text.toList = c :: cs ∧ c ≠ '|') (more : String) :
    ∃ c cs, (text ++ more).toList = c :: cs ∧ c ≠ '|' := by
  obtain ⟨c, cs, spelled, bar⟩ := h
  exact ⟨c, cs ++ more.toList, by rw [toList_append, spelled]; rfl, bar⟩

lemma quoteAtom_first (name : String) : ∃ c cs, (quoteAtom name).toList = c :: cs ∧ c ≠ '|' := by
  unfold quoteAtom
  split
  · next bare =>
    unfold isBareAtom at bare
    cases h : name.toList with
    | nil =>
      have : name = "" := toList_eq_nil_iff.1 h
      subst this
      exact absurd bare (by decide)
    | cons c cs =>
      refine ⟨c, cs, rfl, ?_⟩
      rintro rfl
      have lower : isLowercase '|' = false := by decide
      have symbol : isSymbol '|' = false := by decide
      simp only [h, lower, symbol, List.all_cons, Bool.false_and, Bool.and_false,
        Bool.false_eq_true, if_false, Bool.or_false, Term.soloAtoms, List.contains_cons,
        contains_nil, or_eq_true, beq_iff_eq] at bare
      rcases bare with rfl | rfl | rfl | rfl <;> cases h
  · exact first_append (first_append ⟨'\'', [], rfl, by decide⟩ _) _

namespace Written

variable {text : String} {words : Bool → List Word}

lemma name (quoted : style.quoted) (role : Role) (comment : opensComment functor = false) :
    Written (style.atomText functor) fun _ => ofName role functor where
  spells _ _ _ next stops := name_spells quoted role comment next stops
  first := by
    rw [atomText, if_pos quoted]
    exact quoteAtom_first functor

lemma between {c d : Char} {l : Bool → Lexeme} {m : Lexeme}
    (opening : ∀ glued, delimiter? glued c = some (l glued)) (closing : delimiter? true d = some m)
    (stop : d ∈ stopChars) (bar : c ≠ '|') (h : Written text words) :
    Written (singleton c ++ text ++ singleton d) fun glued =>
      plain (l glued) :: (words true ++ [plain m]) := by
  refine ⟨fun glued cs ws next stops => ?_, ⟨c, text.toList ++ [d], by simp, bar⟩⟩
  have close : Spells true (d :: cs) (plain m :: ws) := delimiter_spells closing next
  have inner := h.spells true _ _ close (stops_cons stop cs)
  have whole := delimiter_spells (opening glued) inner
  simpa using whole

lemma group (h : Written text words) (wrap : Bool) :
    Written (parenthesized wrap text) fun glued => grouped wrap glued words := by
  cases wrap with
  | false => exact h
  | true => exact h.between (c := '(') (d := ')') (fun _ => rfl) rfl (by decide) (by decide)

structure Follows (text : String) (words : List Word) : Prop where
  spells : ∀ cs ws, Spells true cs ws → Stops cs → Spells true (text.toList ++ cs) (words ++ ws)
  stops : ∀ cs, Stops cs → Stops (text.toList ++ cs)

variable {moreWords : List Word} {more : String}

lemma followed (h : Written text words) (hm : Follows more moreWords) :
    Written (text ++ more) fun glued => words glued ++ moreWords := by
  refine ⟨fun glued cs ws next stops => ?_, first_append h.first _⟩
  have whole := h.spells glued _ _ (hm.spells cs ws next stops) (hm.stops cs stops)
  simpa using whole

lemma Follows.nil : Follows "" [] := ⟨fun _ _ next _ => next, fun _ stops => stops⟩

lemma Follows.comma (h : Written text words) (hm : Follows more moreWords) :
    Follows ("," ++ text ++ more) (plain .comma :: (words true ++ moreWords)) where
  spells cs ws next stops := by
    have others := (h.followed hm).spells true cs ws next stops
    have whole : Spells true (',' :: ((text ++ more).toList ++ cs)) _ :=
      delimiter_spells rfl others
    simpa using whole
  stops cs _ := by
    simpa using stops_cons (c := ',') (by decide) (text.toList ++ (more.toList ++ cs))

lemma Follows.space (h : Written text words) : Follows (" " ++ text) (words false) where
  spells cs ws next stops := by
    simpa using Spells.blank (c := ' ') rfl (h.spells false cs ws next stops)
  stops cs _ := by
    simpa using stops_cons (c := ' ') (by decide) (text.toList ++ cs)

lemma Follows.enclosed (h : Written text words) :
    Follows ("(" ++ text ++ ")") (plain .openCall :: (words true ++ [plain .closeParen])) where
  spells := (h.group true).spells true
  stops cs _ := by
    simpa using stops_cons (c := '(') (by decide) (text.toList ++ ')' :: cs)

lemma Follows.bar (h : Written text words) :
    Follows ("|" ++ text) (plain .bar :: words true) where
  spells cs ws next stops := by
    obtain ⟨c, tail, spelled, bar⟩ := h.first
    have head : (text.toList ++ cs).head? ≠ some '|' := by
      rw [spelled]
      exact fun e => bar (Option.some.inj e)
    have whole : Spells true ('|' :: (text.toList ++ cs)) (plain .bar :: (words true ++ ws)) :=
      .word (.bar head) (h.spells true cs ws next stops)
    simpa using whole
  stops cs _ := by
    simpa using stops_cons (c := '|') (by decide) (text.toList ++ cs)

lemma infixed (quoted : style.quoted) (comment : opensComment functor = false)
    {rightWords : Bool → List Word} (hl : Written text words) (hr : Written more rightWords) :
    Written (text ++ style.infixText functor ++ more) fun glued =>
      words glued ++ (infixWords functor ++ rightWords (functor = ",")) := by
  by_cases comma : functor = ","
  · simpa [infixText, infixWords, comma, String.append_assoc] using hl.followed (.comma hr .nil)
  · have operator := hl.followed (.space (name quoted .plain comment))
    simpa [infixText, infixWords, comma, String.append_assoc] using operator.followed (.space hr)

end Written

variable (style) in
/-- The text of a term, and its text as the rest of a list, are scanned as its words. -/
structure Spelled (t : Term) : Prop where
  whole : ∀ max, Written (termText style max t) fun glued => termWords style glued max t
  tail : Written.Follows (tailText style t) (tailWords style t)

lemma variable_written {name : String} (h : isVariableName name) :
    Written name fun _ => [plain (.variable name)] where
  spells _ _ _ next stops := variable_spells h next stops
  first := by
    unfold isVariableName at h
    split at h
    · exact absurd h false_ne_true
    · next c cs spelled =>
      refine ⟨c, cs, spelled, ?_⟩
      rintro rfl
      exact absurd (and_eq_true_iff.1 h).1 (by decide)

lemma integer_written (i : Int64) : Written (Number.int i).text fun _ => [numberWord (.int i)] where
  spells _ _ _ next stops := .word (.integer i stops) next
  first := by
    have digits (n : Nat) : ∃ c cs, Nat.toDigits 10 n = c :: cs ∧ c ≠ '|' := by
      obtain ⟨c, cs, h⟩ := exists_cons_of_ne_nil (Nat.toDigits_ne_nil (n := n) (b := 10))
      have digit : c.isDigit := Nat.isDigit_of_mem_toDigits (by decide) (by decide)
        (h ▸ mem_cons_self : c ∈ Nat.toDigits 10 n)
      refine ⟨c, cs, h, ?_⟩
      rintro rfl
      exact absurd digit (by decide)
    cases h : i.toInt with
    | ofNat n =>
      have : (Number.int i).text = Nat.repr n := by rw [Number.text, h]; rfl
      rw [this, Nat.toList_repr]
      exact digits n
    | negSucc n =>
      have : (Number.int i).text = "-" ++ Nat.repr (n + 1) := by rw [Number.text, h]; rfl
      rw [this]
      exact first_append ⟨'-', [], rfl, by decide⟩ _

lemma operand_written (quoted : style.quoted) {a : String} (comment : opensComment a = false)
    (max : Nat) : Written (style.operandAtom max a) fun glued => style.operandWords glued max a :=
  (Written.name quoted (.operand a) comment).group _

lemma further_follows (h : ∀ a ∈ rest, style.Spelled a) :
    Written.Follows (furtherText style rest) (furtherWords style rest) := by
  induction rest with
  | nil => exact .nil
  | cons a rest ih =>
    obtain ⟨first, others⟩ := forall_mem_cons.1 h
    exact .comma (first.whole argPriority) (ih others)

lemma compound_written (quoted : style.quoted) {args : List Term}
    (comment : opensComment functor = false) (h : ∀ a ∈ args, style.Spelled a) (max : Nat) :
    Written (compoundText style max functor args) fun glued =>
      compoundWords style glued max functor args := by
  by_cases none : args = []
  · subst none
    have parens : Written.Follows "()" [plain .openCall, plain .closeParen] := by
      refine ⟨fun cs ws next _ => ?_, fun cs _ => stops_cons (c := '(') (by decide) (')' :: cs)⟩
      have close : Spells true (')' :: cs) (plain .closeParen :: ws) := delimiter_spells rfl next
      exact delimiter_spells (c := '(') rfl close
    exact (Written.name quoted .plain comment).followed parens
  cases style.form functor none with
  | curly a one name ops =>
    subst one name
    obtain ⟨whole, -⟩ := h a mem_cons_self
    have written := Written.between (c := '\x7b') (d := '\x7d') (fun _ => rfl) rfl (by decide)
      (by decide) (whole OperatorTable.maxPriority)
    simpa [compoundText, compoundWords, ops] using written
  | unary a op one name operator =>
    subst one
    obtain ⟨whole, -⟩ := h a mem_cons_self
    by_cases fixity : op.fixity = .prefixOp
    · have written := ((Written.name quoted .prefixOp comment).followed
        (.space (whole op.rightMax))).group (max < op.priority)
      simpa [compoundText, compoundWords, name, operator, fixity, String.append_assoc] using written
    · have written := ((whole op.leftMax).followed (.space (.name quoted .plain comment))).group
        (max < op.priority)
      simpa [compoundText, compoundWords, name, operator, fixity, String.append_assoc] using written
  | binary a b op two operator =>
    subst two
    obtain ⟨left, -⟩ := h a mem_cons_self
    obtain ⟨right, -⟩ := h b (mem_cons_of_mem _ mem_cons_self)
    have written := (Written.infixed quoted comment (left op.leftMax) (right op.rightMax)).group
      (max < op.priority)
    simpa [compoundText, compoundWords, operator] using written
  | call a rest some call =>
    subst some
    obtain ⟨first, others⟩ := forall_mem_cons.1 h
    have written := (Written.name quoted .plain comment).followed
      (.enclosed ((first.whole argPriority).followed (further_follows others)))
    simpa only [compound_call call, String.append_assoc, List.append_assoc] using written

lemma spelled (quoted : style.quoted) {t : Term} (ht : t.Legible) : style.Spelled t := by
  induction t using induct with
  | atom a =>
    have written := operand_written quoted (ht.name (t := .atom a) rfl)
    refine ⟨written, ?_⟩
    rw [tailText, tailWords]
    split
    · exact .nil
    · exact .bar (written argPriority)
  | number n =>
    cases n with
    | float x => exact absurd mem_cons_self (ht.floatFree x)
    | int i => exact ⟨fun _ => integer_written i, .bar (integer_written i)⟩
  | var name id =>
    have named := isVariableName_varText id (ht.named name id mem_cons_self)
    exact ⟨fun _ => variable_written named, .bar (variable_written named)⟩
  | compound f args ih =>
    have written := compound_written quoted (ht.name (t := .compound f args) rfl)
      fun a ha => ih a ha (ht.arg ha)
    exact ⟨written, .bar (written argPriority)⟩
  | cell h t ihh iht =>
    have head := ihh (ht.sub subterms_head)
    have tail := iht (ht.sub subterms_tail)
    refine ⟨fun max => ?_, .comma (head.whole argPriority) tail.tail⟩
    have whole := Written.between (c := '[') (d := ']') (fun _ => rfl) rfl (by decide) (by decide)
      ((head.whole argPriority).followed tail.tail)
    simpa [termText, termWords, String.append_assoc] using whole

end WriteStyle

end Horn
