import Horn.Preparation
import Mathlib.Tactic.Lemma

/-!
# Blocks of conditional directives

Of the branches of a block the first is read whose condition holds, or the one after `else` if there
is no such branch, and no other condition is asked for.
-/

namespace Horn

open Conditional Frames Word

namespace Conditional

/-- What happens while terms are passed by the frames. -/
inductive Act where
  | asked (condition : Term)
  | kept (r : ReadTerm)

variable {frames : Frames} {acts : List Act} {rs : List ReadTerm}

/-- An answer to every condition, which may depend on all that has happened before. -/
abbrev Oracle := List Act → Term → Bool

abbrev Recording (α : Type) := EStateM CompileError (List Act) α

def Oracle.answer (oracle : Oracle) (condition : Term) : Recording Bool := fun acts =>
  .ok (oracle acts condition) (acts ++ [.asked condition])

def Frames.pass (oracle : Oracle) (frames : Frames) (r : ReadTerm) : Recording Frames := do
  let (through, frames) ← frames.sift oracle.answer r.term r.position
  if through then modify (· ++ [.kept r])
  return frames

def Frames.passAll (oracle : Oracle) (frames : Frames) (rs : List ReadTerm) : Recording Frames :=
  rs.foldlM (Frames.pass oracle) frames

mutual

inductive Blocks where
  | nil
  | term (r : ReadTerm) (plain : Directive.ofTerm? r.term = none) (rest : Blocks)
  | block (r : ReadTerm) (condition : Term)
      (opens : Directive.ofTerm? r.term = some (.opening condition)) (body : Blocks)
      (others : Branches) (rest : Blocks)

inductive Branches where
  | endif (r : ReadTerm) (ends : Directive.ofTerm? r.term = some .endif)
  | otherwise (r : ReadTerm) (opens : Directive.ofTerm? r.term = some .otherwise) (body : Blocks)
      (last : ReadTerm) (ends : Directive.ofTerm? last.term = some .endif)
  | elif (r : ReadTerm) (condition : Term)
      (opens : Directive.ofTerm? r.term = some (.elif condition)) (body : Blocks)
      (others : Branches)

end

mutual

def Blocks.terms : Blocks → List ReadTerm
  | .nil => []
  | .term r _ rest => r :: rest.terms
  | .block r _ _ body others rest => r :: (body.terms ++ (others.terms ++ rest.terms))

def Branches.terms : Branches → List ReadTerm
  | .endif r _ => [r]
  | .otherwise r _ body last _ => r :: (body.terms ++ [last])
  | .elif r _ _ body others => r :: (body.terms ++ others.terms)

end

mutual

def Blocks.read (oracle : Oracle) : Blocks → List Act → List Act
  | .nil, acts => acts
  | .term r _ rest, acts => rest.read oracle (acts ++ [.kept r])
  | .block _ condition _ body others rest, acts =>
    let asked := acts ++ [.asked condition]
    rest.read oracle
      (if oracle acts condition then body.read oracle asked else others.read oracle asked)

def Branches.read (oracle : Oracle) : Branches → List Act → List Act
  | .endif _ _, acts => acts
  | .otherwise _ _ body _ _, acts => body.read oracle acts
  | .elif _ condition _ body others, acts =>
    let asked := acts ++ [.asked condition]
    if oracle acts condition then body.read oracle asked else others.read oracle asked

end

def WellNested (rs : List ReadTerm) : Prop := ∃ blocks : Blocks, blocks.terms = rs

def Begins (rs : List ReadTerm) : Prop := ∃ more, WellNested (rs ++ more)

namespace Frames

variable {oracle : Oracle} {frames' : Frames} {r : ReadTerm} {acts' : List Act}

def Move.result (oracle : Oracle) (position : Text.Position) (acts : List Act) :
    Move → EStateM.Result CompileError (List Act) Frames
  | .to frames => .ok frames acts
  | .ask condition next => .ok (next (oracle acts condition)) (acts ++ [.asked condition])
  | .refuse fault => .error (.conditional fault position) acts

lemma pass_directive {d : Directive} (h : Directive.ofTerm? r.term = some d) :
    frames.pass oracle r acts = (frames.move d r.position).result oracle r.position acts := by
  unfold pass sift apply
  simp only [h]
  cases frames.move d r.position <;> rfl

lemma pass_plain (h : Directive.ofTerm? r.term = none) :
    frames.pass oracle r acts =
      .ok frames (if frames.isSkipping then acts else acts ++ [.kept r]) := by
  unfold pass sift
  simp only [h]
  cases frames.isSkipping <;> rfl

lemma passAll_nil : frames.passAll oracle [] acts = .ok frames acts := rfl

lemma passAll_cons (step : frames.pass oracle r acts = .ok frames' acts') :
    frames.passAll oracle (r :: rs) acts = frames'.passAll oracle rs acts' := by
  change EStateM.bind (frames.pass oracle r) _ acts = _
  rw [EStateM.bind, step]
  rfl

lemma passAll_append {more : List ReadTerm}
    (run : frames.passAll oracle rs acts = .ok frames' acts') :
    frames.passAll oracle (rs ++ more) acts = frames'.passAll oracle more acts' := by
  have split : frames.passAll oracle (rs ++ more) =
      frames.passAll oracle rs >>= fun frames => frames.passAll oracle more :=
    List.foldlM_append
  rw [split]
  change EStateM.bind _ _ acts = _
  rw [EStateM.bind, run]

lemma isSkipping_cons (top : Frame) :
    isSkipping (top :: frames) = (decide (top.branch ≠ .taking) || frames.isSkipping) := rfl

end Frames

open Frames

lemma Word.mayFollow_of_elif {word : Word} (h : elif.mayFollow word = true) :
    otherwise.mayFollow word = true ∧ endif.mayFollow word = true := by
  cases word with
  | opening | elif => exact ⟨rfl, rfl⟩
  | otherwise | endif => cases h

section Reading

variable {oracle : Oracle} {top : Frame} {r : ReadTerm} {condition : Term}

lemma pass_endif (ends : Directive.ofTerm? r.term = some .endif)
    (word : Word.endif.mayFollow top.word = true) :
    pass oracle (top :: frames) r acts = .ok frames acts := by
  simp only [pass_directive ends, Frames.move, Directive.word, word]
  rfl

lemma pass_elif (opens : Directive.ofTerm? r.term = some (.elif condition))
    (word : Word.elif.mayFollow top.word = true) :
    pass oracle (top :: frames) r acts =
      if top.branch = .seeking then
        .ok (⟨.elif, chosen (oracle acts condition), top.position⟩ :: frames)
          (acts ++ [.asked condition])
      else .ok (⟨.elif, .done, top.position⟩ :: frames) acts := by
  simp only [pass_directive opens, Frames.move, Directive.word, word, Bool.not_true,
    Bool.false_eq_true, if_false]
  split <;> rfl

lemma pass_otherwise (opens : Directive.ofTerm? r.term = some .otherwise)
    (word : Word.otherwise.mayFollow top.word = true) :
    pass oracle (top :: frames) r acts =
      .ok (⟨.otherwise, if top.branch = .seeking then .taking else .done, top.position⟩ :: frames)
        acts := by
  simp only [pass_directive opens, Frames.move, Directive.word, word]
  rfl

lemma pass_opening (opens : Directive.ofTerm? r.term = some (.opening condition)) :
    frames.pass oracle r acts =
      if frames.isSkipping then .ok (⟨.opening, .done, r.position⟩ :: frames) acts
      else .ok (⟨.opening, chosen (oracle acts condition), r.position⟩ :: frames)
        (acts ++ [.asked condition]) := by
  rw [pass_directive opens, move]
  split <;> rfl

end Reading

variable (oracle : Oracle)

mutual

/-- Blocks are skipped in a branch that is not taken and read in all others. -/
lemma Blocks.passAll : ∀ (blocks : Blocks) (frames : Frames) (acts : List Act),
    frames.passAll oracle blocks.terms acts =
      .ok frames (if frames.isSkipping then acts else blocks.read oracle acts)
  | .nil, frames, acts => by
    rw [Blocks.read, ite_self]
    rfl
  | .term r plain rest, frames, acts => by
    rw [Blocks.terms, passAll_cons (pass_plain plain), rest.passAll]
    cases frames.isSkipping <;> rfl
  | .block r condition opens body others rest, frames, acts => by
    have step : frames.pass oracle r acts = _ := pass_opening opens
    cases skipping : frames.isSkipping with
    | true =>
      rw [if_pos skipping] at step
      rw [Blocks.terms, passAll_cons step, passAll_append (body.passAll _ _),
        passAll_append (others.passAll ⟨.opening, .done, r.position⟩ _ _ rfl nofun), rest.passAll,
        skipping]
      rfl
    | false =>
      rw [if_neg (Bool.eq_false_iff.1 skipping)] at step
      rw [Blocks.terms, passAll_cons step, passAll_append (body.passAll _ _),
        passAll_append (others.passAll _ _ _ rfl fun _ => skipping), rest.passAll, Blocks.read,
        isSkipping_cons, skipping]
      cases oracle acts condition <;> rfl

lemma Branches.passAll : ∀ (branches : Branches) (top : Frame) (frames : Frames) (acts : List Act),
    Word.elif.mayFollow top.word = true → (top.branch = .seeking → frames.isSkipping = false) →
      passAll oracle (top :: frames) branches.terms acts =
        .ok frames (if top.branch = .seeking then branches.read oracle acts else acts)
  | .endif r ends, top, frames, acts, word, _ => by
    rw [Branches.terms, passAll_cons (pass_endif ends (Word.mayFollow_of_elif word).2),
      Branches.read, ite_self]
    rfl
  | .otherwise r opens body last ends, top, frames, acts, word, running => by
    rw [Branches.terms, passAll_cons (pass_otherwise opens (Word.mayFollow_of_elif word).1),
      passAll_append (body.passAll _ _), passAll_cons (pass_endif ends rfl), Branches.read,
      isSkipping_cons]
    by_cases seeking : top.branch = .seeking
    · rw [if_pos seeking, if_pos seeking, running seeking]
      rfl
    · rw [if_neg seeking, if_neg seeking]
      rfl
  | .elif r condition opens body others, top, frames, acts, word, running => by
    have step : pass oracle (top :: frames) r acts = _ := pass_elif opens word
    by_cases seeking : top.branch = .seeking
    · rw [if_pos seeking] at step
      rw [Branches.terms, passAll_cons step, passAll_append (body.passAll _ _),
        others.passAll _ _ _ rfl fun _ => running seeking, if_pos seeking, Branches.read,
        isSkipping_cons, running seeking]
      cases oracle acts condition <;> rfl
    · rw [if_neg seeking] at step
      rw [Branches.terms, passAll_cons step, passAll_append (body.passAll _ _),
        others.passAll ⟨.elif, .done, top.position⟩ _ _ rfl nofun, if_neg seeking]
      rfl

end

/-- The words that open the current branches, innermost first, before and after a term. -/
inductive Follows : List Word → ReadTerm → List Word → Prop where
  | plain {words : List Word} {r : ReadTerm} (plain : Directive.ofTerm? r.term = none) :
      Follows words r words
  | opening {words : List Word} {r : ReadTerm} {condition : Term}
      (opens : Directive.ofTerm? r.term = some (.opening condition)) :
      Follows words r (.opening :: words)
  | elif {top : Word} {words : List Word} {r : ReadTerm} {condition : Term}
      (opens : Directive.ofTerm? r.term = some (.elif condition))
      (follows : Word.elif.mayFollow top = true) : Follows (top :: words) r (.elif :: words)
  | otherwise {top : Word} {words : List Word} {r : ReadTerm}
      (opens : Directive.ofTerm? r.term = some .otherwise)
      (follows : Word.otherwise.mayFollow top = true) :
      Follows (top :: words) r (.otherwise :: words)
  | endif {top : Word} {words : List Word} {r : ReadTerm}
      (ends : Directive.ofTerm? r.term = some .endif)
      (follows : Word.endif.mayFollow top = true) : Follows (top :: words) r words

inductive FollowsAll : List Word → List ReadTerm → List Word → Prop where
  | nil {words : List Word} : FollowsAll words [] words
  | cons {words words' words'' : List Word} {r : ReadTerm} {rs : List ReadTerm}
      (first : Follows words r words') (others : FollowsAll words' rs words'') :
      FollowsAll words (r :: rs) words''

lemma FollowsAll.append {words words' words'' : List Word} {rs' : List ReadTerm}
    (h : FollowsAll words rs words') (h' : FollowsAll words' rs' words'') :
    FollowsAll words (rs ++ rs') words'' := by
  induction h with
  | nil => exact h'
  | cons first _ ih => exact .cons first (ih h')

inductive Closing : List Word → List ReadTerm → Prop where
  | all (blocks : Blocks) : Closing [] blocks.terms
  | branches {word : Word} {words : List Word} {rs : List ReadTerm} (blocks : Blocks)
      (follows : Word.elif.mayFollow word = true) (others : Branches) (rest : Closing words rs) :
      Closing (word :: words) (blocks.terms ++ (others.terms ++ rs))
  | last {words : List Word} {rs : List ReadTerm} (blocks : Blocks) (r : ReadTerm)
      (ends : Directive.ofTerm? r.term = some .endif) (rest : Closing words rs) :
      Closing (.otherwise :: words) (blocks.terms ++ r :: rs)

namespace Closing

variable {top : Word} {words : List Word} {r : ReadTerm} {condition : Term}

lemma term (plain : Directive.ofTerm? r.term = none) (h : Closing words rs) :
    Closing words (r :: rs) := by
  cases h with
  | all blocks => exact .all (.term r plain blocks)
  | branches blocks follows others rest => exact .branches (.term r plain blocks) follows others rest
  | last blocks e ends rest => exact .last (.term r plain blocks) e ends rest

lemma block (opens : Directive.ofTerm? r.term = some (.opening condition))
    (h : Closing (.opening :: words) rs) : Closing words (r :: rs) := by
  cases h with
  | branches body _ others rest =>
    cases rest with
    | all blocks => exact .all (.block r condition opens body others blocks)
    | branches blocks follows more rest =>
      have := Closing.branches (.block r condition opens body others blocks) follows more rest
      simpa [Blocks.terms] using this
    | last blocks e ends rest =>
      have := Closing.last (.block r condition opens body others blocks) e ends rest
      simpa [Blocks.terms] using this

lemma elif (opens : Directive.ofTerm? r.term = some (.elif condition))
    (follows : Word.elif.mayFollow top = true) (h : Closing (.elif :: words) rs) :
    Closing (top :: words) (r :: rs) := by
  cases h with
  | branches body _ others rest =>
    have := Closing.branches .nil follows (.elif r condition opens body others) rest
    simpa [Blocks.terms, Branches.terms] using this

lemma otherwise (opens : Directive.ofTerm? r.term = some .otherwise)
    (follows : Word.otherwise.mayFollow top = true) (h : Closing (.otherwise :: words) rs) :
    Closing (top :: words) (r :: rs) := by
  have follows : Word.elif.mayFollow top = true := by
    cases top with
    | opening | elif => rfl
    | otherwise | endif => cases follows
  cases h with
  | branches _ impossible => cases impossible
  | last body e ends rest =>
    have := Closing.branches .nil follows (.otherwise r opens body e ends) rest
    simpa [Blocks.terms, Branches.terms] using this

lemma endif (ends : Directive.ofTerm? r.term = some .endif)
    (follows : Word.endif.mayFollow top = true) (h : Closing words rs) :
    Closing (top :: words) (r :: rs) := by
  cases top with
  | opening | elif => exact .branches .nil rfl (.endif r ends) h
  | otherwise => exact .last .nil r ends h
  | endif => cases follows

end Closing

lemma FollowsAll.closing {words words' : List Word}
    (h : FollowsAll words rs words') (closed : words' = []) : Closing words rs := by
  induction h with
  | nil =>
    subst closed
    exact .all .nil
  | cons first _ ih =>
    have rest := ih closed
    cases first with
    | plain plain => exact rest.term plain
    | opening opens => exact rest.block opens
    | elif opens follows => exact rest.elif opens follows
    | otherwise opens follows => exact rest.otherwise opens follows
    | endif ends follows => exact rest.endif ends follows

lemma wellNested_of_followsAll (h : FollowsAll [] rs []) :
    WellNested rs := by
  cases h.closing rfl with
  | all blocks => exact ⟨blocks, rfl⟩

def directiveTerm (goal : Term) : ReadTerm := ⟨.compound ":-" [goal], .start, []⟩

def endifTerm : ReadTerm := directiveTerm (.atom "endif")

lemma followsAll_endifs {words : List Word} (h : ∀ word ∈ words, word ≠ .endif) :
    FollowsAll words (List.replicate words.length endifTerm) [] := by
  induction words with
  | nil => exact .nil
  | cons word words ih =>
    obtain ⟨first, others⟩ := List.forall_mem_cons.1 h
    refine .cons (.endif rfl ?_) (ih others)
    cases word with
    | endif => exact absurd rfl first
    | _ => rfl

lemma FollowsAll.ne_endif {words words' : List Word}
    (h : FollowsAll words rs words') (start : ∀ word ∈ words, word ≠ .endif) :
    ∀ word ∈ words', word ≠ .endif := by
  induction h with
  | nil => exact start
  | cons first _ ih =>
    refine ih ?_
    cases first with
    | plain => exact start
    | opening => exact List.forall_mem_cons.2 ⟨nofun, start⟩
    | elif | otherwise => exact List.forall_mem_cons.2 ⟨nofun, (List.forall_mem_cons.1 start).2⟩
    | endif => exact (List.forall_mem_cons.1 start).2

lemma begins_of_followsAll {words : List Word} (h : FollowsAll [] rs words) :
    Begins rs :=
  ⟨_, wellNested_of_followsAll (h.append (followsAll_endifs (h.ne_endif nofun)))⟩

def Frames.words (frames : Frames) : List Word := frames.map (·.word)

lemma pass_refused {r : ReadTerm} {d : Directive}
    (found : Directive.ofTerm? r.term = some d) (later : ∀ condition, d ≠ .opening condition)
    (refused : ∀ top ∈ frames.head?, d.word.mayFollow top.word = false) :
    ∃ d fault, Directive.ofTerm? r.term = some d ∧
      frames.pass oracle r acts = .error (.conditional fault r.position) acts := by
  have move : ∃ fault, frames.move d r.position = .refuse fault := by
    unfold move
    split
    · exact absurd rfl (later _)
    · split
      · exact ⟨_, rfl⟩
      · next top rest => rw [refused top rfl]; exact ⟨_, rfl⟩
  obtain ⟨fault, move⟩ := move
  exact ⟨d, fault, found, by rw [pass_directive found, move]; rfl⟩

lemma pass_cases (frames : Frames) (r : ReadTerm) (acts : List Act) :
    (∃ frames' acts', frames.pass oracle r acts = .ok frames' acts' ∧
      Follows frames.words r frames'.words) ∨
    ∃ d fault, Directive.ofTerm? r.term = some d ∧
      frames.pass oracle r acts = .error (.conditional fault r.position) acts := by
  cases found : Directive.ofTerm? r.term with
  | none => exact .inl ⟨frames, _, pass_plain found, .plain found⟩
  | some d =>
    rw [← found]
    by_cases opening : ∃ condition, d = .opening condition
    · obtain ⟨condition, rfl⟩ := opening
      left
      rw [pass_opening found]
      split
      · exact ⟨_, _, rfl, .opening found⟩
      · exact ⟨_, _, rfl, .opening found⟩
    by_cases refused : ∀ top ∈ frames.head?, d.word.mayFollow top.word = false
    · exact .inr (pass_refused oracle found (fun c eq => opening ⟨c, eq⟩) refused)
    left
    cases frames with
    | nil => exact absurd nofun refused
    | cons top frames =>
      have follows : d.word.mayFollow top.word = true := by simpa using refused
      cases d with
      | opening condition => exact absurd ⟨condition, rfl⟩ opening
      | elif condition =>
        rw [pass_elif found follows]
        split
        · exact ⟨_, _, rfl, .elif found follows⟩
        · exact ⟨_, _, rfl, .elif found follows⟩
      | otherwise => exact ⟨_, _, pass_otherwise found follows, .otherwise found follows⟩
      | endif => exact ⟨_, _, pass_endif found follows, .endif found follows⟩

lemma passAll_cases (rs : List ReadTerm) (frames : Frames) (acts : List Act) :
    (∃ frames' acts', frames.passAll oracle rs acts = .ok frames' acts' ∧
      FollowsAll frames.words rs frames'.words) ∨
    ∃ before r after d frames' acts' fault, rs = before ++ r :: after ∧
      frames.passAll oracle before acts = .ok frames' acts' ∧
      FollowsAll frames.words before frames'.words ∧ Directive.ofTerm? r.term = some d ∧
      frames'.pass oracle r acts' = .error (.conditional fault r.position) acts' := by
  induction rs generalizing frames acts with
  | nil => exact .inl ⟨frames, acts, passAll_nil, .nil⟩
  | cons r rs ih =>
    rcases pass_cases oracle frames r acts with ⟨frames', acts', step, follows⟩ | refused
    · rcases ih frames' acts' with ⟨last, acts'', run, all⟩ |
        ⟨before, r', after, d, last, acts'', fault, split, run, all, found, error⟩
      · exact .inl ⟨last, acts'', (passAll_cons step).trans run, .cons follows all⟩
      · exact .inr ⟨r :: before, r', after, d, last, acts'', fault, congrArg (r :: ·) split,
          (passAll_cons step).trans run, .cons follows all, found, error⟩
    · obtain ⟨d, fault, found, error⟩ := refused
      exact .inr ⟨[], r, rs, d, frames, acts, fault, rfl, passAll_nil, .nil, found, error⟩

lemma passAll_wellNested (h : WellNested rs) :
    ∃ acts, passAll oracle [] rs [] = .ok [] acts := by
  obtain ⟨blocks, rfl⟩ := h
  exact ⟨_, blocks.passAll oracle [] []⟩

lemma not_begins_of_refused {before : List ReadTerm} {r : ReadTerm}
    {e : CompileError}
    (run : Frames.passAll oracle [] before [] = .ok frames acts)
    (refused : frames.pass oracle r acts = .error e acts) : ¬Begins (before ++ [r]) := by
  rintro ⟨more, nested⟩
  obtain ⟨acts', whole⟩ := passAll_wellNested oracle nested
  rw [List.append_assoc, passAll_append run] at whole
  change EStateM.bind (frames.pass oracle r) _ acts = _ at whole
  rw [EStateM.bind, refused] at whole
  cases whole

/-- The frames read a well nested sequence as the recursion over its blocks says: the same terms are
let through and the same conditions are asked for, in the same order. If a sequence is not well
nested, the first directive that breaks the nesting is refused, or the end finds a block open. -/
theorem frames_read_blocks (oracle : Oracle) (rs : List ReadTerm) :
    (∀ blocks : Blocks, blocks.terms = rs →
      ∃ frames, Frames.passAll oracle [] rs [] = .ok frames (blocks.read oracle []) ∧
        frames.finish = .ok ()) ∧
    (¬WellNested rs →
      (∃ before r after d frames acts fault, rs = before ++ r :: after ∧
        Directive.ofTerm? r.term = some d ∧ Begins before ∧ ¬Begins (before ++ [r]) ∧
        Frames.passAll oracle [] before [] = .ok frames acts ∧
        frames.pass oracle r acts = .error (.conditional fault r.position) acts) ∨
      (Begins rs ∧ ∃ frames acts fault position,
        Frames.passAll oracle [] rs [] = .ok frames acts ∧
        frames.finish = .error (.conditional fault position))) := by
  constructor
  · rintro blocks rfl
    exact ⟨[], blocks.passAll oracle [] [], rfl⟩
  · intro broken
    rcases passAll_cases oracle rs [] [] with ⟨frames, acts, run, follows⟩ |
      ⟨before, r, after, d, frames, acts, fault, split, run, follows, found, refused⟩
    · refine .inr ⟨begins_of_followsAll follows, frames, acts, ?_⟩
      cases frames with
      | nil => exact absurd (wellNested_of_followsAll follows) broken
      | cons top frames => exact ⟨.unterminated top.word, top.position, run, rfl⟩
    · exact .inl ⟨before, r, after, d, frames, acts, fault, split, found,
        begins_of_followsAll follows, not_begins_of_refused oracle run refused, run, refused⟩

/-- `if(no)`, a block inside it, `elif(yes)`, a term, `elif(yes)`, a term, `endif`. -/
def skippedThenRead (t : ReadTerm) (plain : Directive.ofTerm? t.term = none) : Blocks :=
  .block (directiveTerm (.compound "if" [.atom "no"])) (.atom "no") rfl
    (.block (directiveTerm (.compound "if" [.atom "yes"])) (.atom "yes") rfl (.term t plain .nil)
      (.endif endifTerm rfl) .nil)
    (.elif (directiveTerm (.compound "elif" [.atom "yes"])) (.atom "yes") rfl (.term t plain .nil)
      (.elif (directiveTerm (.compound "elif" [.atom "yes"])) (.atom "yes") rfl
        (.term t plain .nil) (.endif endifTerm rfl)))
    .nil

theorem frames_read_blocks_example :
    (∃ frames, Frames.passAll (fun _ c => c.isAtom "yes") []
        (skippedThenRead ⟨.atom "t", .start, []⟩ rfl).terms [] =
          .ok frames [.asked (.atom "no"), .asked (.atom "yes"), .kept ⟨.atom "t", .start, []⟩] ∧
        frames.finish = .ok ()) ∧
      ¬WellNested [endifTerm] ∧
      ((∃ before r after d frames acts fault, [endifTerm] = before ++ r :: after ∧
        Directive.ofTerm? r.term = some d ∧ Begins before ∧ ¬Begins (before ++ [r]) ∧
        Frames.passAll (fun _ _ => true) [] before [] = .ok frames acts ∧
        frames.pass (fun _ _ => true) r acts = .error (.conditional fault r.position) acts) ∨
      (Begins [endifTerm] ∧ ∃ frames acts fault position,
        Frames.passAll (fun _ _ => true) [] [endifTerm] [] = .ok frames acts ∧
        frames.finish = .error (.conditional fault position))) := by
  have broken : ¬WellNested [endifTerm] := by
    rintro ⟨blocks, terms⟩
    cases blocks with
    | nil => cases terms
    | term r plain rest =>
      obtain ⟨rfl, -⟩ := List.cons.inj terms
      cases plain
    | block r condition opens body others rest =>
      obtain ⟨rfl, -⟩ := List.cons.inj terms
      cases opens
  exact ⟨(frames_read_blocks _ _).1 (skippedThenRead ⟨.atom "t", .start, []⟩ rfl) rfl, broken,
    (frames_read_blocks _ _).2 broken⟩

end Conditional

end Horn
