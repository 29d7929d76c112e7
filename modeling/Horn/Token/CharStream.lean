import Horn.Text.Source
import Horn.Text.CharClass
import Horn.Token.LexError

/-!
# Character streams

Characters are taken back at most two at a time. The measure `size` counts what is still to be
read; every character that is read lowers it, which is what ends the loops over a stream.
-/

namespace Horn

open Horn.Text

structure CharStream where
  source : Source
  line : List Char
  /-- Characters taken back, the last one first. -/
  pushed : List (Char × Position)
  position : Position
  exhausted : Bool
  /-- Whether a character was taken back where there was no room for it. -/
  overflowed : Bool
  deriving DecidableEq, Repr

/-- A computation on a stream. An error leaves the stream where it arose. -/
abbrev Scan (α : Type) := EStateM LexError CharStream α

section

variable {ε τ α β : Type} {x : EStateM ε τ α} {f : α → EStateM ε τ β} {s t : τ} {a : α} {b : β}
  {e : ε}

theorem bind_apply (x : EStateM ε τ α) (f : α → EStateM ε τ β) (s : τ) :
    (x >>= f) s = match x s with
      | .ok a t => f a t
      | .error e t => .error e t := by
  change EStateM.bind x f s = _
  unfold EStateM.bind
  cases x s <;> rfl

theorem bind_ok (h : x s = .ok a t) : (x >>= f) s = f a t := by
  rw [bind_apply, h]

theorem bind_error (h : x s = .error e t) : (x >>= f) s = .error e t := by
  rw [bind_apply, h]

theorem ok_of_bind (h : (x >>= f) s = .ok b t) : ∃ a u, x s = .ok a u ∧ f a u = .ok b t := by
  rw [bind_apply] at h
  split at h
  · next a u run => exact ⟨a, u, run, h⟩
  · cases h

theorem error_of_bind (h : (x >>= f) s = .error e t) :
    x s = .error e t ∨ ∃ a u, x s = .ok a u ∧ f a u = .error e t := by
  rw [bind_apply] at h
  split at h
  · next a u run => exact .inr ⟨a, u, run, h⟩
  · next failed =>
    cases h
    exact .inl failed

end

namespace CharStream

abbrev Result (α : Type) := EStateM.Result LexError CharStream α

def ofSource (source : Source) : CharStream := ⟨source, [], [], .start, false, false⟩

def maxPushed : Nat := 2

def size (s : CharStream) : Nat := s.pushed.length + s.line.length + s.source.size

def read (s : CharStream) : Result (Option (Char × Position)) :=
  match s.pushed with
  | (c, p) :: rest => .ok (some (c, p)) { s with pushed := rest, position := p.after c }
  | [] =>
    match s.line with
    | c :: rest =>
      .ok (some (c, s.position)) { s with line := rest, position := s.position.after c }
    | [] =>
      if s.exhausted then .ok none s
      else match s.source.lines with
        | .text c rest :: lines =>
          .ok (some (c, s.position))
            { s with line := rest, source.lines := lines, position := s.position.after c }
        | .undecodable _ _ :: lines | .refused :: lines =>
          .error ⟨.undecodable, s.position⟩ { s with source.lines := lines }
        | [] =>
          match s.source.failure with
          | none => .ok none { s with exhausted := true }
          | some .refusing => .error ⟨.undecodable, s.position⟩ s
          | some (.broken reason) =>
            .error ⟨.readFailed reason, s.position⟩ { s with exhausted := true }

def unread (s : CharStream) (c : Char) (p : Position) : CharStream :=
  { s with
    pushed := (c, p) :: s.pushed
    position := p
    overflowed := s.overflowed || maxPushed ≤ s.pushed.length }

theorem read_some_size {s t : CharStream} {x : Char × Position}
    (h : s.read = .ok (some x) t) : t.size < s.size := by
  unfold read at h
  split at h
  · next hp => cases h; simp [size, hp]
  · next hp =>
    split at h
    · next hl => cases h; simp [size, hp, hl]
    · next hl =>
      split at h
      · cases h
      · split at h
        · next hs => cases h; simp [size, hp, hl, Source.size, Source.linesSize, hs, Line.size]
        · cases h
        · cases h
        · split at h <;> cases h

theorem read_size_le {s t : CharStream} {x : Option (Char × Position)}
    (h : s.read = .ok x t) : t.size ≤ s.size := by
  cases x with
  | some x => exact Nat.le_of_lt (read_some_size h)
  | none =>
    unfold read at h
    split at h
    · cases h
    · split at h
      · cases h
      · split at h
        · cases h; exact Nat.le_refl _
        · split at h
          · cases h
          · cases h
          · cases h
          · split at h
            · cases h; exact Nat.le_refl _
            · cases h
            · cases h

def takeWhile (keep : Char → Bool) (s : CharStream) : Result (List Char) :=
  match _h : s.read with
  | .error e t => .error e t
  | .ok none t => .ok [] t
  | .ok (some (c, p)) t =>
    if keep c then
      match takeWhile keep t with
      | .ok cs u => .ok (c :: cs) u
      | .error e u => .error e u
    else .ok [] (t.unread c p)
termination_by s.size
decreasing_by exact read_some_size _h

def skipLine (s : CharStream) : Result Unit :=
  match _h : s.read with
  | .error e t => .error e t
  | .ok none t => .ok () t
  | .ok (some (c, _)) t => if c = '\n' then .ok () t else skipLine t
termination_by s.size
decreasing_by exact read_some_size _h

def skipBlock (opened : Position) (star : Bool) (s : CharStream) : Result Unit :=
  match _h : s.read with
  | .error e t => .error e t
  | .ok none t => .error ⟨.unterminatedComment, opened⟩ t
  | .ok (some (c, _)) t =>
    if c = '/' && star then .ok () t else skipBlock opened (c = '*') t
termination_by s.size
decreasing_by exact read_some_size _h

theorem skipLine_size_le {s t : CharStream} (h : skipLine s = .ok () t) : t.size ≤ s.size := by
  fun_induction skipLine s with
  | case1 => cases h
  | case2 s u hu => cases h; exact read_size_le hu
  | case3 s p u hu => cases h; exact read_size_le hu
  | case4 s c p u hu _ ih => exact Nat.le_trans (ih h) (read_size_le hu)

theorem skipBlock_size_le {opened : Position} {star : Bool} {s t : CharStream}
    (h : skipBlock opened star s = .ok () t) : t.size ≤ s.size := by
  fun_induction skipBlock opened star s with
  | case1 => cases h
  | case2 => cases h
  | case3 star s c p u hu => cases h; exact read_size_le hu
  | case4 star s c p u hu _ ih => exact Nat.le_trans (ih h) (read_size_le hu)

/-- Skip blanks and comments. The answer tells whether there were any. -/
def skipLayout (seen : Bool) (s : CharStream) : Result Bool :=
  match _h : s.read with
  | .error e t => .error e t
  | .ok none t => .ok seen t
  | .ok (some (c, p)) t =>
    if isBlank c then skipLayout true t
    else if c = '%' then
      match _h' : skipLine t with
      | .error e u => .error e u
      | .ok () u => skipLayout true u
    else if c = '/' then
      match _h' : t.read with
      | .error e u => .error e u
      | .ok none u => .ok seen (u.unread c p)
      | .ok (some (d, q)) u =>
        if d = '*' then
          match _h'' : skipBlock p false u with
          | .error e v => .error e v
          | .ok () v => skipLayout true v
        else .ok seen ((u.unread d q).unread c p)
    else .ok seen (t.unread c p)
termination_by s.size
decreasing_by
  · exact read_some_size _h
  · exact Nat.lt_of_le_of_lt (skipLine_size_le _h') (read_some_size _h)
  · exact Nat.lt_of_le_of_lt
      (Nat.le_trans (skipBlock_size_le _h'') (read_size_le _h')) (read_some_size _h)

end CharStream

end Horn
