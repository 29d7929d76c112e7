import Horn.Proofs.ScanRules

/-!
# Scanning a part of a text

A part of a text after which a blank, a comment or nothing follows is scanned on its own as it is
scanned in its place.
-/

namespace Horn

open Text List Scan CharStream

namespace Text

def Position.past (p : Position) (cs : List Char) : Position := cs.foldl Position.after p

lemma Position.past_append (p : Position) (cs ds : List Char) :
    p.past (cs ++ ds) = (p.past cs).past ds := foldl_append

end Text

def CharStream.Chained : Position → List (Char × Position) → Prop
  | _, [] => True
  | p, (c, q) :: rest => q = p ∧ Chained (p.after c) rest

structure CharStream.On (s : CharStream) (cs : List Char) (p : Position) : Prop where
  chars : s.At cs
  position : s.position = p
  chained : Chained p s.pushed

namespace CharStream.On

variable {s : CharStream} {c : Char} {cs : List Char} {p : Position}

lemma ofChars (cs : List Char) : (ofSource (.ofChars cs)).On cs .start := by
  have chars := at_ofText (String.ofList cs)
  rw [Source.ofText, String.toList_ofList] at chars
  exact ⟨chars, rfl, trivial⟩

lemma read_placed {t : CharStream} {x : Option (Char × Position)}
    (chained : Chained s.position s.pushed) (read : s.read = .ok x t) :
    let p := x.elim s.position (s.position.after ·.1)
    (∀ y ∈ x, y.2 = s.position) ∧ t.position = p ∧ Chained p t.pushed := by
  obtain ⟨source, line, pushed, position, exhausted⟩ := s
  cases pushed with
  | cons d pushed =>
    cases read
    obtain ⟨rfl, chained⟩ := chained
    exact ⟨by rintro _ ⟨⟩; rfl, rfl, chained⟩
  | nil =>
    unfold CharStream.read at read
    simp only at read
    repeat' split at read
    all_goals cases read
    all_goals exact ⟨by rintro _ ⟨⟩ <;> rfl, rfl, trivial⟩

lemma read_cons (h : s.On (c :: cs) p) :
    ∃ t, s.read = .ok (some (c, p)) t ∧ t.On cs (p.after c) := by
  obtain ⟨at', rfl, chained⟩ := h
  obtain ⟨q, t, read, at''⟩ := at'.read_cons
  obtain ⟨own, position, chained⟩ := read_placed chained read
  cases own _ rfl
  exact ⟨t, read, at'', position, chained⟩

lemma read_nil (h : s.On [] p) : ∃ t, s.read = .ok none t ∧ t.On [] p := by
  obtain ⟨at', rfl, chained⟩ := h
  obtain ⟨t, read, at''⟩ := at'.read_nil
  obtain ⟨-, position, chained⟩ := read_placed chained read
  exact ⟨t, read, at'', position, chained⟩

lemma unread (h : s.On cs (p.after c)) : (s.unread c p).On (c :: cs) p :=
  ⟨h.chars.unread c p, rfl, rfl, h.chained⟩

end CharStream.On

namespace Backlog

def Before : Backlog → Position → Position → Prop
  | [], _, _ => True
  | (c, a, b) :: held, p, q => a.after c = p ∧ b.after c = q ∧ Before held a b

end Backlog

structure Place where
  chars : List Char
  here : Position
  alone : Position

namespace Place

def rewind : Backlog → Place → Place
  | [], x => x
  | (c, a, b) :: held, x => rewind held ⟨c :: x.chars, a, b⟩

def Onward (x y : Place) : Prop :=
  ∃ w, x.chars = w ++ y.chars ∧ y.here = x.here.past w ∧ y.alone = x.alone.past w

lemma Onward.refl (x : Place) : x.Onward x := ⟨[], rfl, rfl, rfl⟩

variable {held : Backlog} {x y : Place}

lemma Onward.trans {z : Place} (h : x.Onward y) (h' : y.Onward z) : x.Onward z := by
  obtain ⟨w, chars, here, alone⟩ := h
  obtain ⟨w', chars', here', alone'⟩ := h'
  refine ⟨w ++ w', by rw [chars, chars', append_assoc], ?_, ?_⟩
  · rw [here', here, Position.past_append]
  · rw [alone', alone, Position.past_append]

lemma Onward.cons (c : Char) (ds : List Char) (p q : Position) :
    Onward ⟨c :: ds, p, q⟩ ⟨ds, p.after c, q.after c⟩ := ⟨[c], rfl, rfl, rfl⟩

lemma onward_rewind (h : held.Before x.here x.alone) : (rewind held x).Onward x := by
  induction held generalizing x with
  | nil => exact .refl x
  | cons entry held ih =>
    obtain ⟨c, a, b⟩ := entry
    obtain ⟨ds, p, q⟩ := x
    obtain ⟨rfl, rfl, before⟩ := h
    exact (ih before).trans (.cons c ds a b)

lemma length_rewind (held : Backlog) (x : Place) :
    (rewind held x).chars.length = x.chars.length + held.length := by
  induction held generalizing x with
  | nil => rfl
  | cons entry held ih =>
    rw [rewind, ih, length_cons, length_cons]
    omega

lemma Onward.length_le (h : (rewind held x).Onward y) :
    y.chars.length ≤ x.chars.length + held.length := by
  obtain ⟨w, chars, -⟩ := h
  rw [← length_rewind, chars, length_append]
  omega

end Place

def Past (rest : List Char) (s : CharStream) : Prop := ∃ cs p, s.On cs p ∧ cs.length < rest.length

def Quiet (rest : List Char) : Prop := ∀ c, rest.head? = some c → isQuiet c

lemma Quiet.nil : Quiet [] := nofun

/-- Where `x` succeeds in its place, in a text that goes on with `rest`, and does not go past the end
of the part, `y` gives a related value on the part alone and comes to the same place. If the
comparison is lenient, `y` may also fail. -/
def Local {α : Type} (lenient : Prop) (n : Nat) (held : Backlog) (x y : Scan α)
    (R : α → α → Prop) : Prop :=
  ∀ rest, Quiet rest → ∀ (a : Place) s t, a.chars.length + held.length + rest.length ≤ n →
    held.Before a.here a.alone → s.On (a.chars ++ rest) a.here → t.On a.chars a.alone →
      ∀ v s', x s = .ok v s' → ∃ w, R v w ∧ (Past rest s' ∨
        ∃ b, (a.rewind held).Onward b ∧ s'.On (b.chars ++ rest) b.here ∧
          ((∃ t', y t = .ok w t' ∧ t'.On b.chars b.alone) ∨ lenient ∧ ∃ e t', y t = .error e t'))

namespace CharStream.On

lemma exists_on (cs : List Char) (p : Position) : ∃ s : CharStream, s.On cs p :=
  ⟨⟨⟨[], none⟩, cs, [], p, true, false⟩, ⟨⟨by simp, nofun, rfl, fun _ => rfl⟩, rfl, trivial⟩⟩

lemma unique {s : CharStream} {cs cs' : List Char} {p p' : Position} (h : s.On cs p)
    (h' : s.On cs' p') : cs = cs' ∧ p = p' :=
  ⟨h.chars.chars.symm.trans h'.chars.chars, h.position.symm.trans h'.position⟩

end CharStream.On

lemma Scan.char?_bind {α : Type} {s s' : CharStream} {o : Option (Char × Position)}
    (read : s.read = .ok o s') (k : Option (Char × Position) → Scan α) : (char? >>= k) s = k o s' :=
  bind_ok read

namespace Local

variable {α : Type} {lenient : Prop} {n : Nat} {x y : Scan α} {R : α → α → Prop}

lemma past (h : Local lenient n [] x y R) {rest : List Char} {s s' : CharStream} {v : α}
    (past : Past rest s) (le : rest.length ≤ n + 1) (run : x s = .ok v s') :
    ∃ w, R v w ∧ Past rest s' := by
  obtain ⟨cs, p, on, short⟩ := past
  obtain ⟨w, related, past | ⟨b, onward, on', -⟩⟩ := h [] .nil ⟨cs, p, p⟩ s s
    (by simp only [length_nil]; omega) trivial (by rwa [append_nil]) on v s' run
  · obtain ⟨_, _, _, short⟩ := past
    cases short
  · rw [append_nil] at on'
    exact ⟨w, related, _, _, on', Nat.lt_of_le_of_lt onward.length_le short⟩

def rules (lenient : Prop) : ScanRules where
  Holds := Local lenient
  Signs negative negative' := negative = negative' ∨ lenient
  sameSigns _ := .inl rfl
  pure {_ _ held _ v w} h := by
    intro rest _ a s t _ before here alone v' s' run
    cases run
    exact ⟨w, h, .inr ⟨a, Place.onward_rewind before, here, .inl ⟨t, rfl, alone⟩⟩⟩
  fail _ _ _ _ := by
    intro rest _ a s t _ _ _ _ v s' run
    cases run
  integer {_ held negative negative'} m cause cause' p q signs := by
    intro rest _ a s t _ before here alone v s' run
    unfold Scan.integer at run ⊢
    cases value : Number.int64? (Scan.signed negative m) with
    | none =>
      rw [value] at run
      cases run
    | some i =>
      rw [value] at run
      cases run
      cases other : Number.int64? (Scan.signed negative' m) with
      | some j =>
        refine ⟨.integer j, ⟨rfl, rfl, ?_⟩,
          .inr ⟨a, Place.onward_rewind before, here, .inl ⟨t, rfl, alone⟩⟩⟩
        rintro rfl
        rw [Option.some.inj (value.symm.trans other)]
      | none =>
        rcases signs with rfl | allowed
        · cases value.symm.trans other
        · exact ⟨.integer i, ⟨rfl, rfl, fun _ => rfl⟩,
            .inr ⟨a, Place.onward_rewind before, here, .inr ⟨allowed, _, _, rfl⟩⟩⟩
  bind {_ _ n held x y f g _ _} hx hf := by
    intro rest quiet a s t le before here alone u s' run
    obtain ⟨v, s₁, run₁, run⟩ := ok_of_bind run
    obtain ⟨w, related, past | ⟨b, onward, here₁, other⟩⟩ :=
      hx rest quiet a s t le before here alone v s₁ run₁
    · obtain ⟨w', related', past'⟩ := (hf v w related).past past (by omega) run
      exact ⟨w', related', .inl past'⟩
    · -- If `y` has failed, some stream at the place tells where `f` leads.
      obtain ⟨t₁, alone₁, follows⟩ : ∃ t₁, t₁.On b.chars b.alone ∧
          ((y >>= g) t = g w t₁ ∨ lenient ∧ ∃ e t', (y >>= g) t = .error e t') := by
        rcases other with ⟨t₁, run₂, alone₁⟩ | ⟨allowed, e, t', failed⟩
        · exact ⟨t₁, alone₁, .inl (bind_ok run₂)⟩
        · obtain ⟨t₁, alone₁⟩ := CharStream.On.exists_on b.chars b.alone
          exact ⟨t₁, alone₁, .inr ⟨allowed, e, t', by rw [bind_apply, failed]⟩⟩
      have := onward.length_le
      obtain ⟨w', related', past | ⟨b', onward', here', other'⟩⟩ := hf v w related rest quiet b s₁ t₁
        (by simp only [List.length_nil]; omega) trivial here₁ alone₁ u s' run
      · exact ⟨w', related', .inl past⟩
      · refine ⟨w', related', .inr ⟨b', onward.trans onward', here', ?_⟩⟩
        rcases follows with same | failed
        · rwa [same]
        · exact .inr failed
  forget {_ n k held _ _ _} le h := by
    intro rest quiet a s t bound before here alone v s' run
    obtain ⟨w, related, past | ⟨b, onward, rest⟩⟩ := h rest quiet a s t
      (by simp only [List.length_nil]; omega) trivial here alone v s' run
    · exact ⟨w, related, .inl past⟩
    · exact ⟨w, related, .inr ⟨b, (Place.onward_rewind before).trans onward, rest⟩⟩
  putBack {_ _ held c p q _ _ _} h := by
    intro rest quiet a s t le before here alone w s' run
    obtain ⟨ds, p', q'⟩ := a
    obtain ⟨rfl, rfl, before⟩ : p.after c = p' ∧ q.after c = q' ∧ held.Before p q := before
    simp only [List.length_cons] at le
    exact h rest quiet ⟨c :: ds, p, q⟩ _ _ (by simp only [List.length_cons]; omega) before here.unread
      alone.unread w s' run
  read {_ n held k l _} _ char nothing quiet := by
    intro rest quietly a s t le before here alone w s' run
    obtain ⟨ds, p, q⟩ := a
    cases ds with
    | cons c ds =>
      simp only [List.length_cons] at le
      obtain ⟨m, rfl⟩ : ∃ m, n = m + 1 := Nat.exists_eq_add_one.2 (by omega)
      obtain ⟨s₁, read, here'⟩ := here.read_cons
      obtain ⟨t₁, read', alone'⟩ := alone.read_cons
      rw [Scan.char?_bind read] at run
      rw [Scan.char?_bind read']
      exact char m rfl c p q rest quietly ⟨ds, p.after c, q.after c⟩ s₁ t₁
        (by simp only [List.length_cons]; omega) ⟨rfl, rfl, before⟩ here' alone' w s' run
    | nil =>
      obtain ⟨t₁, read', alone'⟩ := alone.read_nil
      rw [Scan.char?_bind read']
      cases rest with
      | nil =>
        obtain ⟨s₁, read, here'⟩ := here.read_nil
        rw [Scan.char?_bind read] at run
        exact nothing [] quietly ⟨[], p, q⟩ s₁ t₁ le before here' alone' w s' run
      | cons d rest =>
        simp only [List.length_cons] at le
        obtain ⟨m, rfl⟩ : ∃ m, n = m + 1 := Nat.exists_eq_add_one.2 (by omega)
        obtain ⟨s₁, read, here'⟩ := here.read_cons
        rw [Scan.char?_bind read] at run
        rcases quiet m rfl d p (quietly d rfl) with ⟨x, eq, h⟩ | ⟨y, h⟩
        · rw [eq] at run
          exact h (d :: rest) quietly ⟨[], p, q⟩ (s₁.unread d p) t₁ le before here'.unread alone' w s'
            run
        · have gone : Past (d :: rest) s₁ := ⟨rest, _, here', Nat.lt_succ_self _⟩
          obtain ⟨w', related, past⟩ := h.past gone (by simp only [List.length_cons]; omega) run
          exact ⟨w', related, .inl past⟩

end Local

def Takes {α : Type} (x : Scan α) (cs : List Char) (p : Position) (v : α) (cs' : List Char)
    (p' : Position) : Prop :=
  ∀ s : CharStream, s.On cs p → ∃ s', x s = .ok v s' ∧ s'.On cs' p'

namespace Takes

variable {α β : Type} {x y : Scan α} {f : α → Scan β} {c : Char} {cs cs₁ cs' : List Char}
  {p p₁ p' : Position} {v : α} {u : β} {rest : List Char} {s' s : CharStream}

lemma unique {v' : α} (h : Takes x cs p v cs₁ p₁) (h' : Takes x cs p v' cs' p') :
    v = v' ∧ cs₁ = cs' ∧ p₁ = p' := by
  obtain ⟨s, on⟩ := On.exists_on cs p
  obtain ⟨t, run, on₁⟩ := h s on
  obtain ⟨t', run', on₂⟩ := h' s on
  cases run.symm.trans run'
  exact ⟨rfl, on₁.unique on₂⟩

lemma pure (v : α) : Takes (Pure.pure v) cs p v cs p := fun s on => ⟨s, rfl, on⟩

lemma bind (hx : Takes x cs p v cs₁ p₁) (hf : Takes (f v) cs₁ p₁ u cs' p') :
    Takes (x >>= f) cs p u cs' p' := by
  intro s on
  obtain ⟨t, run, on₁⟩ := hx s on
  obtain ⟨t', run', on'⟩ := hf t on₁
  exact ⟨t', (bind_ok run).trans run', on'⟩

lemma char?_cons : Takes char? (c :: cs) p (some (c, p)) cs (p.after c) :=
  fun _ on => on.read_cons

lemma char?_nil : Takes char? [] p none [] p := fun _ on => on.read_nil

lemma putBack : Takes (putBack c p) cs (p.after c) () (c :: cs) p :=
  fun s on => ⟨s.unread c p, rfl, on.unread⟩

lemma of_run_within (h : ∀ n, Local False n [] x y Eq) (quiet : Quiet rest)
    (on : s.On (cs ++ rest) p) (run : x s = .ok v s') (q : Position) :
    (∃ w cs', cs = w ++ cs' ∧ s'.On (cs' ++ rest) (p.past w) ∧ Takes y cs q v cs' (q.past w)) ∨
      Past rest s' := by
  -- The outcome on one stream tells what is taken, and it is the same on all others.
  have each (t : CharStream) (on' : t.On cs q) : (∃ w cs' t', y t = .ok v t' ∧ cs = w ++ cs' ∧
      s'.On (cs' ++ rest) (p.past w) ∧ t'.On cs' (q.past w)) ∨ Past rest s' := by
    obtain ⟨_, rfl, past | ⟨⟨cs', _, _⟩, ⟨w, chars, rfl, rfl⟩, here, ⟨t', run', alone⟩ | ⟨⟨⟩, _⟩⟩⟩ :=
      h _ rest quiet ⟨cs, p, q⟩ s t (Nat.le_refl _) trivial on on' v s' run
    · exact .inr past
    · exact .inl ⟨w, cs', t', run', chars, here, alone⟩
  by_cases past : Past rest s'
  · exact .inr past
  obtain ⟨t, ont⟩ := On.exists_on cs q
  obtain ⟨w, cs', -, -, chars, here, -⟩ := (each t ont).resolve_right past
  refine .inl ⟨w, cs', chars, here, fun u onu => ?_⟩
  obtain ⟨w', cs'', u', run', chars', here', alone⟩ := (each u onu).resolve_right past
  cases append_cancel_right (here.unique here').1
  cases append_cancel_right (chars.symm.trans chars')
  exact ⟨u', run', alone⟩

lemma within (h : ∀ n, Local False n [] x y Eq) (quiet : Quiet rest)
    (here : Takes x (cs ++ rest) p v cs₁ p₁) (q : Position) :
    (∃ w cs', cs = w ++ cs' ∧ cs₁ = cs' ++ rest ∧ p₁ = p.past w ∧ Takes y cs q v cs' (q.past w)) ∨
      cs₁.length < rest.length := by
  obtain ⟨s, on⟩ := On.exists_on (cs ++ rest) p
  obtain ⟨s', run, on₁⟩ := here s on
  rcases of_run_within h quiet on run q with ⟨w, cs', chars, on₂, takes⟩ | ⟨cs₂, p₂, on₂, short⟩
  · obtain ⟨rfl, rfl⟩ := on₁.unique on₂
    exact .inl ⟨w, cs', chars, rfl, rfl, takes⟩
  · obtain ⟨rfl, rfl⟩ := on₁.unique on₂
    exact .inr short

lemma of_run (h : ∀ n, Local False n [] x x Eq) (on : s.On cs p) (run : x s = .ok v s') :
    ∃ cs' p', s'.On cs' p' ∧ Takes x cs p v cs' p' := by
  rw [← append_nil cs] at on
  rcases of_run_within h .nil on run p with ⟨w, cs', -, on', takes⟩ | ⟨cs', p', -, short⟩
  · rw [append_nil] at on'
    exact ⟨cs', _, on', takes⟩
  · cases short

lemma suffix (h : ∀ n, Local False n [] x x Eq) (takes : Takes x cs p v cs' p') :
    ∃ w, cs = w ++ cs' ∧ p' = p.past w := by
  rw [← append_nil cs] at takes
  rcases takes.within h .nil p with ⟨w, cs'', chars, rfl, position, -⟩ | short
  · exact ⟨w, by rw [append_nil, chars], position⟩
  · cases short

end Takes

end Horn
