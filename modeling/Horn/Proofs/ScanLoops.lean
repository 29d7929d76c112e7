import Horn.Token.Lexer
import Mathlib.Tactic.Lemma

/-!
# Loops over a stream

The loops over a stream and the scanners around them, written as computations. Rules about the
steps of a scanner apply to them in this form.
-/

namespace Horn

open Text CharStream

namespace Scan

lemma takeWhile_eq (keep : Char → Bool) : takeWhile keep = char? >>= fun o =>
    match o with
    | none => pure []
    | some (c, p) =>
      if keep c then takeWhile keep >>= fun cs => pure (c :: cs)
      else putBack c p >>= fun _ => pure [] := by
  funext s
  rw [bind_apply, takeWhile, CharStream.takeWhile, char?]
  match s.read with
  | .error e t => rfl
  | .ok none t => rfl
  | .ok (some (c, p)) t =>
    simp only
    split
    · rw [bind_apply, takeWhile]
      cases t.takeWhile keep <;> rfl
    · rfl

def skipLine : Scan Unit := fun s => s.skipLine

lemma skipLine_eq : skipLine = char? >>= fun o =>
    match o with
    | none => pure ()
    | some (c, _) => if c = '\n' then pure () else skipLine := by
  funext s
  rw [bind_apply, skipLine, CharStream.skipLine, char?]
  match s.read with
  | .error e t => rfl
  | .ok none t => rfl
  | .ok (some (c, p)) t =>
    simp only
    split <;> rfl

def skipBlock (opened : Position) (star : Bool) : Scan Unit := fun s => s.skipBlock opened star

lemma skipBlock_eq (opened : Position) (star : Bool) : skipBlock opened star = char? >>= fun o =>
    match o with
    | none => fail .unterminatedComment opened
    | some (c, _) => if c = '/' && star then pure () else skipBlock opened (c = '*') := by
  funext s
  rw [bind_apply, skipBlock, CharStream.skipBlock, char?]
  match s.read with
  | .error e t => rfl
  | .ok none t => rfl
  | .ok (some (c, p)) t =>
    simp only
    split <;> rfl

def escapeDigits (radix : Nat) (start : Position) : Scan (List Char) := fun s =>
  s.escapeDigits radix start

lemma escapeDigits_eq (radix : Nat) (start : Position) :
    escapeDigits radix start = char? >>= fun o =>
      match o with
      | none => fail .malformedNumericEscape start
      | some (c, _) =>
        if c = '\\' then pure []
        else if isDigitIn radix c then escapeDigits radix start >>= fun ds => pure (c :: ds)
        else fail .malformedNumericEscape start := by
  funext s
  rw [bind_apply, escapeDigits, CharStream.escapeDigits, char?]
  match s.read with
  | .error e t => rfl
  | .ok none t => rfl
  | .ok (some (c, p)) t =>
    simp only
    split
    · rfl
    · split
      · rw [bind_apply, escapeDigits]
        cases t.escapeDigits radix start <;> rfl
      · rfl

def numericEscape (first : Char) (radix : Nat) (start : Position) : Scan Char := fun s =>
  s.numericEscape first radix start

lemma numericEscape_eq (first : Char) (radix : Nat) (start : Position) :
    numericEscape first radix start = escapeDigits radix start >>= fun digits =>
      match charOfCode? (digitsValue radix (first :: digits)) with
      | some c => pure c
      | none => fail .invalidCharCode start := by
  funext s
  rw [bind_apply, numericEscape, CharStream.numericEscape, escapeDigits]
  match s.escapeDigits radix start with
  | .error e t => rfl
  | .ok digits t =>
    simp only
    cases charOfCode? (digitsValue radix (first :: digits)) <;> rfl

def escape (start : Position) : Scan (Option Char) := fun s => s.escape start

lemma escape_eq (start : Position) : escape start = char? >>= fun o =>
    match o with
    | none => fail .unterminatedQuote start
    | some (c, _) =>
      if c = '\n' then pure none
      else if isDigitIn 8 c then numericEscape c 8 start >>= fun d => pure (some d)
      else if c = 'x' then numericEscape '0' 16 start >>= fun d => pure (some d)
      else match namedEscape? c with
        | some d => pure (some d)
        | none => fail (.undefinedEscape c) start := by
  have map (first : Char) (radix : Nat) (t : CharStream) :
      (t.numericEscape first radix start).map some =
        (numericEscape first radix start >>= fun d => pure (some d)) t := by
    rw [bind_apply, numericEscape]
    cases t.numericEscape first radix start <;> rfl
  funext s
  rw [bind_apply, escape, CharStream.escape, char?]
  match s.read with
  | .error e t => rfl
  | .ok none t => rfl
  | .ok (some (c, p)) t =>
    simp only [map]
    split
    · rfl
    · split
      · rfl
      · split
        · rfl
        · cases namedEscape? c <;> rfl

def quotedText (quote : Char) (start : Position) : Scan (List Char) := fun s =>
  s.quotedText quote start

lemma quotedText_eq (quote : Char) (start : Position) : quotedText quote start = char? >>= fun o =>
    match o with
    | none => fail .unterminatedQuote start
    | some (c, _) =>
      if c = quote then char? >>= fun o =>
        match o with
        | none => pure []
        | some (d, q) =>
          if d = quote then quotedText quote start >>= fun cs => pure (quote :: cs)
          else putBack d q >>= fun _ => pure []
      else if c = '\\' then escape start >>= fun o =>
        match o with
        | none => quotedText quote start
        | some d => quotedText quote start >>= fun cs => pure (d :: cs)
      else quotedText quote start >>= fun cs => pure (c :: cs) := by
  have map (c : Char) (t : CharStream) : (t.quotedText quote start).map (c :: ·) =
      (quotedText quote start >>= fun cs => pure (c :: cs)) t := by
    rw [bind_apply, quotedText]
    cases t.quotedText quote start <;> rfl
  funext s
  rw [bind_apply, quotedText, CharStream.quotedText, char?]
  rcases s.read with ⟨_ | ⟨c, p⟩, t⟩ | _
  · rfl
  · simp only [map]
    split
    · rw [bind_apply, char?]
      rcases t.read with ⟨_ | ⟨d, q⟩, u⟩ | _
      · rfl
      · simp only
        split <;> rfl
      · rfl
    · split
      · rw [bind_apply, escape]
        rcases t.escape start with ⟨_ | d, u⟩ | _ <;> rfl
      · rfl
  · rfl

def skipLayout (seen : Bool) : Scan Bool := fun s => s.skipLayout seen

lemma skipLayout_eq (seen : Bool) : skipLayout seen = char? >>= fun o =>
    match o with
    | none => pure seen
    | some (c, p) =>
      if isBlank c then skipLayout true
      else if c = '%' then skipLine >>= fun _ => skipLayout true
      else if c = '/' then char? >>= fun o =>
        match o with
        | none => putBack c p >>= fun _ => pure seen
        | some (d, q) =>
          if d = '*' then skipBlock p false >>= fun _ => skipLayout true
          else putBack d q >>= fun _ => putBack c p >>= fun _ => pure seen
      else putBack c p >>= fun _ => pure seen := by
  funext s
  rw [bind_apply, skipLayout, CharStream.skipLayout, char?]
  rcases s.read with ⟨_ | ⟨c, p⟩, t⟩ | _
  · rfl
  · simp only
    split
    · rfl
    · split
      · rw [bind_apply, skipLine]
        cases t.skipLine <;> rfl
      · split
        · rw [bind_apply, char?]
          rcases t.read with ⟨_ | ⟨d, q⟩, u⟩ | _
          · rfl
          · simp only
            split
            · rw [bind_apply, skipBlock]
              cases u.skipBlock p false <;> rfl
            · rfl
          · rfl
        · rfl
  · rfl

lemma quoted_eq (quote : Char) (start : Position) :
    quoted quote start = quotedText quote start >>= fun cs => pure (String.ofList cs) := by
  funext s
  rw [bind_apply, quoted, quotedText]
  cases s.quotedText quote start <;> rfl

def exponentDigits (negative : Bool) (start : Position) : Option (Char × Position) → Scan Int
  | none => fail .malformedExponent start
  | some (d, _) =>
    if isDecimalDigit d then takeWhile isDecimalDigit >>= fun digits =>
      pure (Decimal.exponentValue negative (d :: digits))
    else fail .malformedExponent start

lemma exponent_eq (start : Position) : exponent start = char? >>= fun o =>
    match o with
    | none => pure 0
    | some (c, p) =>
      if c = 'e' || c = 'E' then char? >>= fun o =>
        match o with
        | none => fail .malformedExponent start
        | some (sign, q) =>
          if sign = '-' then char? >>= exponentDigits true start
          else if sign = '+' then char? >>= exponentDigits false start
          else exponentDigits false start (some (sign, q))
      else putBack c p >>= fun _ => pure 0 := by
  unfold exponent
  refine bind_congr fun o => ?_
  rcases o with _ | ⟨c, p⟩
  · rfl
  · refine ite_congr rfl (fun _ => bind_congr fun o => ?_) fun _ => rfl
    rcases o with _ | ⟨sign, q⟩
    · rfl
    · by_cases minus : sign = '-'
      · subst minus
        exact bind_congr fun o => by cases o <;> rfl
      by_cases plus : sign = '+'
      · subst plus
        exact bind_congr fun o => by cases o <;> rfl
      · simp only [minus, plus, if_false]
        split
        · next same =>
          cases same
          exact absurd rfl minus
        · next same =>
          cases same
          exact absurd rfl plus
        · rfl

lemma token_eq (first valued : Bool) : token first valued = skipLayout false >>= fun layout =>
    char? >>= fun o =>
      match o with
      | none => get >>= fun s => pure ⟨.inputEnd, s.position, layout⟩
      | some (c, p) =>
        lexeme (!layout && !first) valued c p >>= fun lexeme => pure ⟨lexeme, p, layout⟩ :=
  rfl

end Scan

end Horn
