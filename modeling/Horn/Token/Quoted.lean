import Horn.Token.CharStream

/-!
# Quoted text

Text between quotes, up to a quote that is not doubled. All errors are reported where the literal
starts.
-/

namespace Horn

open Horn.Text

namespace CharStream

def Result.map {α β : Type} (f : α → β) : Result α → Result β
  | .ok a s => .ok (f a) s
  | .error e s => .error e s

theorem Result.map_eq_ok {α β : Type} {f : α → β} {r : Result α} {b : β} {t : CharStream}
    (h : r.map f = .ok b t) : ∃ a, r = .ok a t ∧ f a = b := by
  cases r with
  | ok a s => cases h; exact ⟨a, rfl, rfl⟩
  | error e s => cases h

def escapeDigits (radix : Nat) (start : Position) (s : CharStream) : Result (List Char) :=
  match _h : s.read with
  | .error e t => .error e t
  | .ok none t => .error ⟨.malformedNumericEscape, start⟩ t
  | .ok (some (c, _)) t =>
    if c = '\\' then .ok [] t
    else if isDigitIn radix c then (escapeDigits radix start t).map (c :: ·)
    else .error ⟨.malformedNumericEscape, start⟩ t
termination_by s.size
decreasing_by exact read_some_size _h

def charOfCode? (n : Nat) : Option Char :=
  if Nat.isValidChar n then some (Char.ofNat n) else none

def numericEscape (first : Char) (radix : Nat) (start : Position) (s : CharStream) :
    Result Char :=
  match escapeDigits radix start s with
  | .error e t => .error e t
  | .ok digits t =>
    match charOfCode? (digitsValue radix (first :: digits)) with
    | some c => .ok c t
    | none => .error ⟨.invalidCharCode, start⟩ t

/-- What a single character after a backslash stands for. -/
def namedEscape? : Char → Option Char
  | 'n' => some '\n'
  | 't' => some '\t'
  | 'r' => some '\r'
  | 'a' => some '\x07'
  | 'b' => some '\x08'
  | 'f' => some '\x0c'
  | 'v' => some '\x0b'
  | 'e' => some '\x1b'
  | 's' => some ' '
  | '\\' => some '\\'
  | '\'' => some '\''
  | '"' => some '"'
  | '`' => some '`'
  | _ => none

/-- The escape after a backslash; `none` for the end of a line. -/
def escape (start : Position) (s : CharStream) : Result (Option Char) :=
  match s.read with
  | .error e t => .error e t
  | .ok none t => .error ⟨.unterminatedQuote, start⟩ t
  | .ok (some (c, _)) t =>
    if c = '\n' then .ok none t
    else if isDigitIn 8 c then (numericEscape c 8 start t).map some
    else if c = 'x' then (numericEscape '0' 16 start t).map some
    else match namedEscape? c with
      | some d => .ok (some d) t
      | none => .error ⟨.undefinedEscape c, start⟩ t

theorem escapeDigits_size_le {radix : Nat} {start : Position} {s t : CharStream}
    {ds : List Char} (h : escapeDigits radix start s = .ok ds t) : t.size ≤ s.size := by
  fun_induction escapeDigits radix start s generalizing ds with
  | case1 => cases h
  | case2 => cases h
  | case3 s p u hu => cases h; exact read_size_le hu
  | case4 s c p u hu _ _ ih =>
    obtain ⟨ds', hd, _⟩ := Result.map_eq_ok h
    exact Nat.le_trans (ih hd) (read_size_le hu)
  | case5 => cases h

theorem numericEscape_size_le {first c : Char} {radix : Nat} {start : Position}
    {s t : CharStream} (h : numericEscape first radix start s = .ok c t) : t.size ≤ s.size := by
  unfold numericEscape at h
  split at h
  · cases h
  · next hd =>
    split at h
    · cases h; exact escapeDigits_size_le hd
    · cases h

theorem escape_size_le {start : Position} {s t : CharStream} {c : Option Char}
    (h : escape start s = .ok c t) : t.size ≤ s.size := by
  unfold escape at h
  split at h
  · cases h
  · cases h
  · next hr =>
    split at h
    · cases h; exact read_size_le hr
    split at h
    · obtain ⟨_, hn, _⟩ := Result.map_eq_ok h
      exact Nat.le_trans (numericEscape_size_le hn) (read_size_le hr)
    split at h
    · obtain ⟨_, hn, _⟩ := Result.map_eq_ok h
      exact Nat.le_trans (numericEscape_size_le hn) (read_size_le hr)
    split at h
    · cases h; exact read_size_le hr
    · cases h

/-- The text up to the closing `quote`. A doubled quote stands for itself. -/
def quotedText (quote : Char) (start : Position) (s : CharStream) : Result (List Char) :=
  match _h : s.read with
  | .error e t => .error e t
  | .ok none t => .error ⟨.unterminatedQuote, start⟩ t
  | .ok (some (c, _)) t =>
    if c = quote then
      match _h' : t.read with
      | .error e u => .error e u
      | .ok none u => .ok [] u
      | .ok (some (d, q)) u =>
        if d = quote then (quotedText quote start u).map (quote :: ·)
        else .ok [] (u.unread d q)
    else if c = '\\' then
      match _h' : escape start t with
      | .error e u => .error e u
      | .ok none u => quotedText quote start u
      | .ok (some d) u => (quotedText quote start u).map (d :: ·)
    else (quotedText quote start t).map (c :: ·)
termination_by s.size
decreasing_by
  · exact Nat.lt_of_le_of_lt (read_size_le _h') (read_some_size _h)
  · exact Nat.lt_of_le_of_lt (escape_size_le _h') (read_some_size _h)
  · exact Nat.lt_of_le_of_lt (escape_size_le _h') (read_some_size _h)
  · exact read_some_size _h

end CharStream

end Horn
