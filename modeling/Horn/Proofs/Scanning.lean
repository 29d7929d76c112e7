import Horn.Proofs.CharClasses
import Horn.Token.Lexer

/-!
# Scanning a text

What the scanners take from a stream, told by the characters that are still to come.
-/

namespace Horn

open Text List Bool CharStream

def Text.Line.chars : Line → List Char
  | .text c rest => c :: rest
  | .undecodable _ _ | .refused => []

/-- The characters `cs` are still to come, and then the end of the text. -/
structure CharStream.At (s : CharStream) (cs : List Char) : Prop where
  chars : s.pushed.map (·.1) ++ (s.line ++ s.source.lines.flatMap Line.chars) = cs
  decodable : ∀ l ∈ s.source.lines, ∃ c rest, l = .text c rest
  lasting : s.source.failure = none
  finished : s.exhausted = true → s.source.lines = []

namespace CharStream.At

variable {s : CharStream} {c : Char} {cs : List Char}

lemma read_cons (h : s.At (c :: cs)) :
    ∃ p t, s.read = .ok (some (c, p)) t ∧ t.At cs := by
  obtain ⟨source, line, pushed, position, exhausted⟩ := s
  obtain ⟨chars, decodable, lasting, finished⟩ := h
  cases pushed with
  | cons d pushed =>
    obtain ⟨rfl, rest⟩ := cons.inj chars
    exact ⟨d.2, _, rfl, rest, decodable, lasting, finished⟩
  | nil =>
    cases line with
    | cons d line =>
      obtain ⟨rfl, rest⟩ := cons.inj chars
      exact ⟨position, _, rfl, rest, decodable, lasting, finished⟩
    | nil =>
      obtain ⟨lines, failure⟩ := source
      cases lines with
      | nil => cases chars
      | cons l lines =>
        have running : exhausted = false := by
          rw [eq_false_iff]
          intro done
          cases finished done
        cases running
        obtain ⟨d, rest, rfl⟩ := decodable l mem_cons_self
        obtain ⟨rfl, tail⟩ := cons.inj chars
        exact ⟨position, _, rfl, tail, fun l hl => decodable l (mem_cons_of_mem _ hl),
          lasting, fun done => nomatch done⟩

lemma read_nil (h : s.At []) : ∃ t, s.read = .ok none t ∧ t.At [] := by
  obtain ⟨⟨lines, failure⟩, line, pushed, position, exhausted⟩ := s
  obtain ⟨chars, decodable, lasting, finished⟩ := h
  obtain ⟨pushed_nil, chars⟩ := append_eq_nil_iff.1 chars
  obtain ⟨line_nil, chars⟩ := append_eq_nil_iff.1 chars
  cases map_eq_nil_iff.1 pushed_nil
  cases line_nil
  have lines_nil : lines = [] := by
    cases lines with
    | nil => rfl
    | cons l lines =>
      obtain ⟨d, rest, rfl⟩ := decodable l mem_cons_self
      cases chars
  cases lines_nil
  cases lasting
  cases exhausted with
  | true => exact ⟨_, rfl, rfl, decodable, rfl, finished⟩
  | false => exact ⟨_, rfl, rfl, decodable, rfl, fun _ => rfl⟩

lemma unread (h : s.At cs) (c : Char) (p : Position) : (s.unread c p).At (c :: cs) :=
  ⟨congrArg (c :: ·) h.chars, h.decodable, h.lasting, h.finished⟩

end CharStream.At

lemma Text.Source.cutAfter_cons {α : Type} (p : α → Bool) (a : α) (items : List α) :
    cutAfter p (a :: items) = if p a then [a] :: cutAfter p items else
      match cutAfter p items with
      | [] => [[a]]
      | line :: rest => (a :: line) :: rest :=
  rfl

lemma Text.Source.flatten_cutAfter {α : Type} (p : α → Bool) (items : List α) :
    (cutAfter p items).flatten = items := by
  induction items with
  | nil => rfl
  | cons a items ih =>
    rw [cutAfter_cons]
    split
    · rw [flatten_cons, ih]
      rfl
    · cases h : cutAfter p items with
      | nil | cons => rw [← ih, h]; rfl

lemma CharStream.at_ofText (text : String) :
    (ofSource (.ofText text)).At text.toList := by
  refine ⟨?_, ?_, rfl, fun h => nomatch h⟩
  · have lines (ls : List (List Char)) :
        (ls.filterMap Source.textLine?).flatMap Line.chars = ls.flatten := by
      induction ls with
      | nil => rfl
      | cons l ls ih =>
        cases l with
        | nil => exact ih
        | cons c l => simpa [Source.textLine?, Line.chars] using ih
    exact (lines _).trans (Source.flatten_cutAfter _ _)
  · intro l hl
    obtain ⟨cs, -, hcs⟩ := mem_filterMap.1 hl
    cases cs with
    | nil => cases hcs
    | cons c cs => exact ⟨c, cs, (Option.some.inj hcs).symm⟩

lemma CharStream.At.size {s : CharStream} {cs : List Char} (h : s.At cs) :
    s.size = cs.length := by
  have lines (ls : List Line) (decodable : ∀ l ∈ ls, ∃ c rest, l = .text c rest) :
      (ls.flatMap Line.chars).length = Source.linesSize ls := by
    induction ls with
    | nil => rfl
    | cons l ls ih =>
      obtain ⟨c, rest, rfl⟩ := decodable l mem_cons_self
      rw [flatMap_cons, length_append,
        ih fun l hl => decodable l (mem_cons_of_mem _ hl)]
      rfl
  rw [← h.chars, length_append, length_append, length_map, lines _ h.decodable,
    ← Nat.add_assoc]
  rfl

def isVariableName (name : String) : Bool :=
  match name.toList with
  | [] => false
  | c :: cs => (c = '_' || isUppercase c) && cs.all isWordChar

/-- Where `cs` is to come, `x` yields a value that satisfies `P` and leaves `rest`. -/
def Scans {α : Type} (x : Scan α) (cs : List Char) (P : α → Prop) (rest : List Char) : Prop :=
  ∀ s : CharStream, s.At cs → ∃ v t, x s = .ok v t ∧ P v ∧ t.At rest

namespace Scans

variable {α β : Type} {x : Scan α} {f : α → Scan β} {cs mid rest : List Char} {P : α → Prop}
  {Q : β → Prop}

lemma pure {v : α} (h : P v) : Scans (Pure.pure v) cs P cs :=
  fun s hs => ⟨v, s, rfl, h, hs⟩

lemma bind (hx : Scans x cs P mid) (hf : ∀ a, P a → Scans (f a) mid Q rest) :
    Scans (x >>= f) cs Q rest := by
  intro s hs
  obtain ⟨a, t, run, ha, ht⟩ := hx s hs
  obtain ⟨b, u, run', hb, hu⟩ := hf a ha t ht
  exact ⟨b, u, (bind_ok run).trans run', hb, hu⟩

lemma bind_eq {a : α} (hx : Scans x cs (· = a) mid) (hf : Scans (f a) mid Q rest) :
    Scans (x >>= f) cs Q rest :=
  hx.bind fun _ h => h ▸ hf

lemma map {g : α → β} (hx : Scans x cs P rest) (h : ∀ a, P a → Q (g a)) :
    Scans (x >>= fun a => Pure.pure (g a)) cs Q rest :=
  hx.bind fun a ha => pure (h a ha)

end Scans

namespace Scan

variable {c : Char} {cs rest : List Char} {keep : Char → Bool} {seen : Bool}

lemma char?_cons : Scans char? (c :: cs) (fun o => ∃ p, o = some (c, p)) cs := by
  intro s hs
  obtain ⟨p, t, read, ht⟩ := hs.read_cons
  exact ⟨_, t, read, ⟨p, rfl⟩, ht⟩

lemma char?_nil : Scans char? [] (· = none) [] := by
  intro s hs
  obtain ⟨t, read, ht⟩ := hs.read_nil
  exact ⟨_, t, read, rfl, ht⟩

lemma putBack_scans (c : Char) (p : Position) :
    Scans (putBack c p) cs (fun _ => True) (c :: cs) :=
  fun s hs => ⟨(), s.unread c p, rfl, trivial, hs.unread c p⟩

lemma peek?_scans : Scans peek? cs (· = cs.head?) cs := by
  cases cs with
  | nil =>
    refine char?_nil.bind_eq ?_
    exact .pure rfl
  | cons c cs =>
    refine char?_cons.bind ?_
    rintro _ ⟨p, rfl⟩
    exact (putBack_scans c p).bind fun _ _ => .pure rfl

lemma takeWhile_scans (hcs : ∀ c ∈ cs, keep c) (hrest : ∀ c, rest.head? = some c → keep c = false) :
    Scans (takeWhile keep) (cs ++ rest) (· = cs) rest := by
  induction cs with
  | nil =>
    intro s hs
    cases rest with
    | nil =>
      obtain ⟨t, read, ht⟩ := hs.read_nil
      refine ⟨[], t, ?_, rfl, ht⟩
      rw [takeWhile, CharStream.takeWhile, read]
    | cons d rest =>
      obtain ⟨p, t, read, ht⟩ := hs.read_cons
      refine ⟨[], t.unread d p, ?_, rfl, ht.unread d p⟩
      rw [takeWhile, CharStream.takeWhile, read]
      simp [hrest d rfl]
  | cons c cs ih =>
    intro s hs
    obtain ⟨p, t, read, ht⟩ := hs.read_cons
    obtain ⟨ds, u, run, hds, hu⟩ := ih (fun d hd => hcs d (mem_cons_of_mem _ hd)) t ht
    refine ⟨c :: ds, u, ?_, congrArg (c :: ·) hds, hu⟩
    have run : t.takeWhile keep = .ok ds u := run
    rw [takeWhile, CharStream.takeWhile, read]
    simp [hcs c mem_cons_self, run]

lemma name_scans {first : Char} (hcs : ∀ c ∈ cs, keep c)
    (hrest : ∀ c, rest.head? = some c → keep c = false) :
    Scans (name first keep) (cs ++ rest) (· = String.ofList (first :: cs)) rest :=
  (takeWhile_scans hcs hrest).map fun _ h => by rw [h]

def LayoutFree : List Char → Prop
  | [] => True
  | c :: rest => isBlank c = false ∧ c ≠ '%' ∧ (c = '/' → rest.head? ≠ some '*')

lemma LayoutFree.of_ne (blank : isBlank c = false) (percent : c ≠ '%') (slash : c ≠ '/') :
    LayoutFree (c :: cs) :=
  ⟨blank, percent, fun e => absurd e slash⟩

lemma skipLayout_scans (h : LayoutFree cs) :
    Scans (fun s => s.skipLayout seen) cs (· = seen) cs := by
  intro s hs
  cases cs with
  | nil =>
    obtain ⟨t, read, ht⟩ := hs.read_nil
    refine ⟨seen, t, ?_, rfl, ht⟩
    change s.skipLayout seen = _
    rw [CharStream.skipLayout, read]
  | cons c cs =>
    obtain ⟨blank, percent, slash⟩ := h
    obtain ⟨p, t, read, ht⟩ := hs.read_cons
    by_cases hc : c = '/'
    · subst hc
      cases cs with
      | nil =>
        obtain ⟨u, read', hu⟩ := ht.read_nil
        refine ⟨seen, u.unread '/' p, ?_, rfl, hu.unread '/' p⟩
        change s.skipLayout seen = _
        rw [CharStream.skipLayout, read]
        simp only [blank, false_eq_true, if_false, percent, if_true]
        rw [read']
      | cons d cs =>
        have star : d ≠ '*' := fun h => slash rfl (congrArg some h)
        obtain ⟨q, u, read', hu⟩ := ht.read_cons
        refine ⟨seen, (u.unread d q).unread '/' p, ?_, rfl, (hu.unread d q).unread '/' p⟩
        change s.skipLayout seen = _
        rw [CharStream.skipLayout, read]
        simp only [blank, false_eq_true, if_false, percent, if_true]
        rw [read']
        exact if_neg star
    · refine ⟨seen, t.unread c p, ?_, rfl, ht.unread c p⟩
      change s.skipLayout seen = _
      rw [CharStream.skipLayout, read]
      simp [blank, percent, hc]

lemma skipLayout_cons {P : Bool → Prop} (blank : isBlank c)
    (h : Scans (fun s => s.skipLayout true) cs P rest) :
    Scans (fun s => s.skipLayout seen) (c :: cs) P rest := by
  intro s hs
  obtain ⟨p, t, read, ht⟩ := hs.read_cons
  obtain ⟨b, u, run, hb, hu⟩ := h t ht
  refine ⟨b, u, ?_, hb, hu⟩
  have run : t.skipLayout true = .ok b u := run
  change s.skipLayout seen = _
  rw [CharStream.skipLayout, read]
  simp [blank, run]

end Scan

end Horn
