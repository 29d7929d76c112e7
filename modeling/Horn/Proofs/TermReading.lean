import Horn.Proofs.WordReading

/-!
# Reading a written term

The words of a written term are read as that term, whatever follows that does not continue it, as
long as the role of every word shows in the word after it: `Reader.reads_term`.
-/

namespace Horn

open Text List Term Bool Option OperatorTable Word WriteStyle

variable {ops : OperatorTable} {l : Lexeme} {inner : Bool → List Word} {rest : List Term} {b : Term}

def Lexeme.begins (glued : Bool) : Lexeme → Bool
  | .openCall => glued
  | .atom _ _ | .variable _ | .integer _ | .float _ | .openParen | .openBracket | .openCurly => true
  | _ => false

def Begins (glued : Bool) (words : List Word) : Prop :=
  ∃ w ws, words = w :: ws ∧ w.lexeme.begins glued = true

namespace Begins

open Word

variable {glued : Bool} {words : List Word}

lemma append (h : Begins glued words) (more : List Word) : Begins glued (words ++ more) := by
  obtain ⟨w, ws, rfl, begins⟩ := h
  exact ⟨w, ws ++ more, rfl, begins⟩

lemma length_pos (h : Begins glued words) : 0 < words.length := by
  obtain ⟨w, ws, rfl, _⟩ := h
  exact Nat.succ_pos _

lemma nextLexeme_ne (h : Begins glued words) (more : List Word) (other : l.begins glued = false) :
    nextLexeme (words ++ more) ≠ l := by
  obtain ⟨w, ws, rfl, begins⟩ := h
  rintro rfl
  exact false_ne_true (other.symm.trans begins)

lemma ofName (glued : Bool) (role : Role) (name : String) : Begins glued (ofName role name) := by
  unfold Word.ofName
  split
  · exact ⟨_, _, rfl, rfl⟩
  split
  · exact ⟨_, _, rfl, rfl⟩
  · exact ⟨_, _, rfl, rfl⟩

lemma grouped (h : ∀ glued, Begins glued (inner glued)) (wrap : Bool) :
    Begins glued (grouped wrap glued inner) := by
  cases wrap with
  | false => exact h glued
  | true => exact ⟨_, _, rfl, by cases glued <;> rfl⟩

lemma term (style : WriteStyle) (t : Term) :
    ∀ glued max, Begins glued (style.termWords glued max t) := by
  induction t using induct with
  | atom a => exact fun glued max => grouped (fun glued => ofName glued _ a) _
  | number n => exact fun glued max => by cases n <;> exact ⟨_, _, rfl, rfl⟩
  | var | cell => exact fun glued max => ⟨_, _, rfl, rfl⟩
  | compound f args ih =>
    intro glued max
    rw [termWords]
    by_cases none : args = []
    · subst none
      exact (ofName glued .plain f).append _
    cases style.form f none with
    | curly a one name ops =>
      subst one name
      have curly : ("\x7b\x7d" = "\x7b\x7d" && !style.ignoreOps) = true := by simp [ops]
      rw [compoundWords, if_pos curly]
      exact ⟨_, _, rfl, rfl⟩
    | unary a op one name operator =>
      subst one
      simp only [compoundWords, name, decide_false, Bool.false_and, Bool.false_eq_true,
        if_false, operator]
      refine grouped (fun glued => ?_) _
      split
      · exact (ofName glued .prefixOp f).append _
      · exact (ih a mem_cons_self glued op.leftMax).append _
    | binary a b op two operator =>
      subst two
      simp only [compoundWords, operator]
      exact grouped (fun glued => (ih a mem_cons_self glued op.leftMax).append _) _
    | call a rest some call =>
      subst some
      rw [(compound_call call).2]
      exact (ofName glued .plain f).append _

end Begins

namespace Reader

/-- An operand of at most priority `bound` goes no further than up to this token. -/
def Halts (ops : OperatorTable) (bound : Nat) (l : Lexeme) : Prop :=
  ∀ op f, infixToken? ops l = some (op, f) → bound < op.priority

lemma Halts.mono {a b : Nat} (h : Halts ops b l) (le : a ≤ b) : Halts ops a l :=
  fun op f found => Nat.lt_of_le_of_lt le (h op f found)

variable {bound p low : Nat} {t : Term}

lemma halts_of_none (h : infixToken? ops l = none) : Halts ops bound l := by
  intro op f found
  rw [h] at found
  cases found

variable {mode : ReadMode} {r : Reader} {ws words : List Word} {vs : Numbering} {n max : Nat}

lemma extend_stops (apart : Apart (nextLexeme ws))
    (halts : Halts mode.operators max (nextLexeme ws)) :
    Becomes (Facing ops ws vs) (extend mode (n + 1) t p max) (pure (t, p)) (Facing ops ws vs) := by
  rw [extend]
  refine .peek apart.sign fun _ kind => ?_
  rw [kind]
  cases found : infixToken? mode.operators (nextLexeme ws) with
  | none => exact .looked .refl
  | some entry =>
    obtain ⟨op, f⟩ := entry
    have lower : (decide (max < op.priority) || decide (op.leftMax < p)) = true := by
      simp [halts op f found]
    simp only [lower, if_true]
    exact .looked .refl

/-- The words are read as the term, of priority `p`, where at least priority `low` may stand and
nothing follows that continues an operand of priority `bound`. -/
def Reads (mode : ReadMode) (words : List Word) (t : Term) (low p bound : Nat) : Prop :=
  ∀ max n ws vs, low ≤ max → Apart (nextLexeme ws) → Halts mode.operators bound (nextLexeme ws) →
    5 * words.length ≤ n → ∃ n', n ≤ n' + words.length ∧
      Becomes (Facing mode.operators (words ++ ws) vs) (expr mode n max)
        (extend mode n' (t.mapVarsWith readBack vs).1 p max)
        (Facing mode.operators ws (t.mapVarsWith readBack vs).2)

section

variable (h : Reads mode words t low p bound) (some : 0 < words.length) (low_le : low ≤ max)
  (bound_le : bound ≤ max) (apart : Apart (nextLexeme ws))
  (halts : Halts mode.operators max (nextLexeme ws))

include h some low_le bound_le apart halts

lemma Reads.operand (fuel : 5 * words.length ≤ n) :
    Becomes (Facing mode.operators (words ++ ws) vs) (expr mode n max)
      (pure ((t.mapVarsWith readBack vs).1, p))
      (Facing mode.operators ws (t.mapVarsWith readBack vs).2) := by
  obtain ⟨n', left, run⟩ := h max n ws vs low_le apart (halts.mono bound_le) fuel
  obtain _ | k := n'
  · omega
  exact run.trans (extend_stops apart halts)

variable (closing : Closing) (accepts : closing.accepts (nextLexeme ws) = true)

include accepts

lemma Reads.closed (fuel : 5 * words.length + 1 ≤ n) :
    Becomes (Facing mode.operators (words ++ ws) vs) (closed mode n closing max)
      (pure (t.mapVarsWith readBack vs).1)
      (Viewing mode.operators ws (t.mapVarsWith readBack vs).2) := by
  obtain _ | k := n
  · omega
  rw [Reader.closed]
  refine (h.operand some low_le bound_le apart halts (by omega)).bind
    (.peek apart.sign fun _ kind => ?_)
  rw [kind, if_pos accepts]
  exact .refl

lemma Reads.whole (fresh : r.Fresh (words ++ ws) vs)
    (roles : rolesShow mode.operators (words ++ ws)) :
    ∃ first r₁ r₂ last r₃, peek true r = .ok first r₁ ∧ first.lexeme = nextLexeme (words ++ ws) ∧
      Reader.closed mode r.depth closing max r₁ = .ok (t.mapVarsWith readBack vs).1 r₂ ∧
      advance r₂ = .ok last r₃ ∧ r₃.Fresh ws.tail (t.mapVarsWith readBack vs).2 := by
  have fuel : 5 * words.length + 1 ≤ r.depth := by
    have := fresh.words.length_le
    rw [length_append] at this
    rw [depth]
    omega
  obtain ⟨first, r₁, peeked, kind, seen⟩ := Ahead.peek (.inl fresh) fun _ => rfl
  obtain ⟨r₂, run, seen, -⟩ := h.closed some low_le bound_le apart halts closing accepts fuel r₁
    ⟨.inr seen, roles⟩
  obtain ⟨last, r₃, advanced, -, fresh⟩ := seen.advance
  exact ⟨first, r₁, r₂, last, r₃, peeked, kind, run, advanced, fresh⟩

end

lemma Reads.of_primary (some : 0 < words.length)
    (h : ∀ max n ws vs, Apart (nextLexeme ws) → 5 * words.length ≤ n + 1 →
      Becomes (Facing mode.operators (words ++ ws) vs) (primary mode n max)
        (pure ((t.mapVarsWith readBack vs).1, p))
        (Facing mode.operators ws (t.mapVarsWith readBack vs).2)) :
    Reads mode words t 0 p 0 := by
  intro max n ws vs _ apart _ fuel
  obtain _ | k := n
  · omega
  refine ⟨k, by omega, ?_⟩
  rw [expr]
  exact (h max k ws vs apart fuel).bind .refl

lemma Reads.mono {low' bound' : Nat} (h : Reads mode words t low p bound) (hl : low ≤ low')
    (hb : bound ≤ bound') : Reads mode words t low' p bound' :=
  fun max n ws vs low_le apart halts fuel =>
    h max n ws vs (Nat.le_trans hl low_le) apart (halts.mono hb) fuel

open Word

lemma reads_variable (name : String) (id : Nat) :
    Reads mode [plain (.variable (varText name id))] (.var name id) 0 0 0 := by
  refine .of_primary Nat.one_pos fun max n ws vs apart fuel => ?_
  obtain ⟨k, rfl⟩ : ∃ k, n = k + 1 + 1 := ⟨n - 2, by simp at fuel; omega⟩
  rw [primary]
  refine .peek (fun _ => rfl) fun _ kind => ?_
  rw [kind]
  exact .advance fun _ _ => (varNamed_becomes name id).bind ((applied_alone apart _).bind .refl)

lemma reads_integer (i : Int64) : Reads mode [plain (.integer i)] (.number (.int i)) 0 0 0 := by
  refine .of_primary Nat.one_pos fun max n ws vs apart fuel => ?_
  obtain _ | k := n
  · simp at fuel
  rw [primary]
  refine .peek (fun _ => rfl) fun _ kind => ?_
  rw [kind]
  exact .advance fun _ _ => .refl

lemma reads_atom (name : String) :
    Reads mode (ofName (.operand name) name) (.atom name) 0 0 0 := by
  have pos := (Begins.ofName true (.operand name) name).length_pos
  refine .of_primary pos fun max n ws vs apart fuel => .given_roles fun roles => ?_
  obtain ⟨k, rfl⟩ : ∃ k, n = k + 1 + 1 := ⟨n - 2, by omega⟩
  refine primary_name.trans (nameTerm_atom name apart fun found => ?_)
  rw [rolesShow_ofName] at roles
  have shows : ((mode.operators.prefixOp? name).isNone ||
    !startsOperand mode.operators (nextLexeme ws)) = true := (and_eq_true_iff.1 roles).1
  rw [← not_isSome, found] at shows
  simpa using shows

lemma Reads.group {glued : Bool} (h : Reads mode (inner true) t low p bound)
    (some : 0 < (inner true).length) (low_le : low ≤ maxPriority) (bound_le : bound ≤ maxPriority) :
    Reads mode (grouped true glued inner) t 0 0 0 := by
  refine .of_primary (Nat.succ_pos _) fun max n ws vs apart fuel => ?_
  have length : (grouped true glued inner).length = (inner true).length + 2 := by simp [grouped]
  obtain _ | k := n
  · omega
  have words : grouped true glued inner ++ ws =
      plain (if glued then .openCall else .openParen) ::
        (inner true ++ plain .closeParen :: ws) := by
    simp [grouped]
  rw [words, primary]
  refine .peek (fun _ => rfl) fun _ kind => ?_
  rw [kind]
  have read : Becomes (Facing mode.operators (inner true ++ plain .closeParen :: ws) vs)
      (Reader.closed mode k .paren maxPriority) _ _ :=
    h.closed some low_le bound_le ⟨by rintro ⟨⟩, rfl⟩ (halts_of_none rfl) .paren rfl (by omega)
  cases glued <;> exact .advance fun _ _ => read.bind (.advance fun _ _ => .refl)

end Reader

def OperatorTable.Has (ops : OperatorTable) (op : Operator) : Prop :=
  ∃ name, ops.prefixOp? name = some op ∨ ops.infixOp? name = some op

/-- The written text is not ambiguous: prefix operators are only that, brackets are no operators,
the comma is what the reader takes it for, and an operator that may stand to the left of another one
does not reach beyond it. -/
structure OperatorTable.Regular (ops : OperatorTable) : Prop where
  prefixes : ∀ name op, ops.prefixOp? name = some op → op.fixity = .prefixOp
  bounded : ∀ op, ops.Has op → 0 < op.priority ∧ op.priority ≤ maxPriority
  comma : ∀ op, ops.infixOp? "," = some op → op = ⟨",", 1000, .xfy⟩
  brackets : ops.infixOp? "[]" = none ∧ ops.infixOp? "\x7b\x7d" = none
  nested : ∀ op, ops.Has op → ∀ name outer, ops.infixOp? name = some outer →
    op.priority ≤ outer.leftMax → op.rightMax < outer.priority

lemma Operator.rightMax_le (op : Operator) : op.rightMax ≤ op.priority := by
  unfold rightMax
  split <;> omega

lemma Operator.leftMax_le (op : Operator) : op.leftMax ≤ op.priority := by
  unfold leftMax
  split <;> omega

structure WriteStyle.Suits (style : WriteStyle) (mode : ReadMode) : Prop where
  operators : mode.operators = style.operators
  bar : ∀ op, style.operators.infixOp? "|" = some op → argPriority < op.priority
  regular : style.ignoreOps = false → style.operators.Regular

namespace Reader

open Word

def EndsBelow (ops : OperatorTable) (max bound : Nat) : Prop :=
  bound = 0 ∨ ∃ op, ops.Has op ∧ op.priority ≤ max ∧ bound = op.rightMax

lemma EndsBelow.le {max bound : Nat} (h : EndsBelow ops max bound) : bound ≤ max := by
  rcases h with rfl | ⟨op, _, le, rfl⟩
  · exact Nat.zero_le max
  · exact Nat.le_trans op.rightMax_le le

def ReadsBack (style : WriteStyle) (mode : ReadMode) (max : Nat) (t : Term) : Prop :=
  ∃ p bound, p ≤ max ∧ EndsBelow style.operators max bound ∧
    ∀ glued, Reads mode (style.termWords glued max t) t max p bound

variable {style : WriteStyle} {mode : ReadMode} {r : Reader} {ws : List Word} {vs : Numbering}
  {n max : Nat}

variable {t a : Term} {f : String} {op : Operator}

lemma ReadsBack.item {β : Type} {next : Lexeme} {g : Term → Token → Reading β} {y : Reading β}
    {Q : Reader → Prop} (h : ReadsBack style mode WriteStyle.argPriority t) (closing : Closing)
    (apart : Apart next) (halts : Halts mode.operators WriteStyle.argPriority next)
    (accepts : closing.accepts next = true)
    (fuel : 5 * (style.termWords true WriteStyle.argPriority t).length + 1 ≤ n)
    (andThen : ∀ u : Token, u.lexeme = next → Becomes
      (Facing mode.operators ws (t.mapVarsWith readBack vs).2)
      (g (t.mapVarsWith readBack vs).1 u) y Q) :
    Becomes (Facing mode.operators
        (style.termWords true WriteStyle.argPriority t ++ plain next :: ws) vs)
      (closed mode n closing argPriority >>= fun item => advance >>= g item) y Q := by
  obtain ⟨p, bound, _, ends, reads⟩ := h
  have apart : Apart (nextLexeme (plain next :: ws)) := apart
  exact ((reads true).closed (Begins.term style t true _).length_pos (Nat.le_refl _) ends.le apart
    halts closing accepts fuel).bind (.advance andThen)

lemma halts_comma (ops : OperatorTable) : Halts ops WriteStyle.argPriority .comma := by
  intro op f found
  cases found
  decide

lemma arguments_reads (before : List Term)
    (h : ∀ t ∈ a :: rest, ReadsBack style mode WriteStyle.argPriority t)
    (fuel : 5 * ((style.termWords true WriteStyle.argPriority a).length +
      (style.furtherWords rest).length) + 2 ≤ n) :
    Becomes (Facing mode.operators (style.termWords true WriteStyle.argPriority a ++
        (style.furtherWords rest ++ plain .closeParen :: ws)) vs) (arguments mode n before)
      (pure (before.reverse ++ (Term.mapAllVarsWith readBack (a :: rest) vs).1))
      (Facing mode.operators ws (Term.mapAllVarsWith readBack (a :: rest) vs).2) := by
  obtain _ | k := n
  · omega
  obtain ⟨first, others⟩ := List.forall_mem_cons.1 h
  rw [arguments]
  induction rest generalizing a before vs k with
  | nil =>
    refine first.item .argument ⟨by rintro ⟨⟩, rfl⟩ (halts_of_none rfl) rfl (by omega)
      fun _ kind => ?_
    rw [if_pos kind, List.reverse_cons]
    exact .refl
  | cons b rest ih =>
    rw [furtherWords, List.cons_append, List.append_assoc]
    rw [furtherWords, List.length_cons, List.length_append] at fuel
    obtain _ | j := k
    · omega
    obtain ⟨second, more⟩ := List.forall_mem_cons.1 others
    refine first.item .argument ⟨by rintro ⟨⟩, rfl⟩ (halts_comma _) rfl (by omega)
      fun t kind => ?_
    have separator : t.lexeme ≠ .closeParen := by rw [kind]; rintro ⟨⟩
    have read : before.reverse ++ (Term.mapAllVarsWith readBack (a :: b :: rest) vs).1 =
        ((a.mapVarsWith readBack vs).1 :: before).reverse ++
          (Term.mapAllVarsWith readBack (b :: rest) (a.mapVarsWith readBack vs).2).1 := by
      rw [List.reverse_cons, List.append_assoc]
      rfl
    rw [if_neg separator, arguments, read]
    exact ih _ others j (by omega) second more

lemma reads_call (h : ∀ t ∈ a :: rest, ReadsBack style mode WriteStyle.argPriority t)
    (normal : ¬(f = "." ∧ (a :: rest).length = 2)) :
    Reads mode (ofName .plain f ++ plain .openCall ::
      (style.termWords true WriteStyle.argPriority a ++
        (style.furtherWords rest ++ [plain .closeParen]))) (.compound f (a :: rest)) 0 0 0 := by
  have name_pos := (Begins.ofName true .plain f).length_pos
  refine .of_primary (by rw [List.length_append]; omega) fun max n ws vs apart fuel => ?_
  simp only [List.append_assoc, List.cons_append, List.nil_append]
  simp only [List.length_append, List.length_cons, List.length_nil] at fuel
  obtain ⟨k, rfl⟩ : ∃ k, n = k + 1 + 1 + 1 := ⟨n - 3, by omega⟩
  have built : Term.build f (Term.mapAllVarsWith readBack (a :: rest) vs).1 =
      .compound f (Term.mapAllVarsWith readBack (a :: rest) vs).1 := by
    refine Term.build_eq_compound (by rw [Term.mapAllVarsWith_cons]; nofun) ?_
    rwa [Term.length_mapAllVarsWith]
  refine (primary_name.trans (nameTerm_call f)).trans
    ((arguments_reads [] h (n := k + 1) (by omega)).bind ?_)
  rw [List.reverse_nil, List.nil_append, built]
  exact (applied_alone apart _).bind .refl

def TailReadsBack (style : WriteStyle) (mode : ReadMode) (t : Term) : Prop :=
  ∀ h : Term, ReadsBack style mode WriteStyle.argPriority h →
    ∀ (before : List Term) (n : Nat) (ws : List Word) (vs : Numbering),
    5 * ((style.termWords true WriteStyle.argPriority h).length +
      (style.tailWords t).length) + 2 ≤ n →
    Becomes (Facing mode.operators (style.termWords true WriteStyle.argPriority h ++
        (style.tailWords t ++ plain .closeBracket :: ws)) vs) (listFrom mode n before)
      (pure (.listTo before.reverse ((Term.cell h t).mapVarsWith readBack vs).1))
      (Facing mode.operators ws ((Term.cell h t).mapVarsWith readBack vs).2)

lemma listTo_reverse_cons (before : List Term) (item tail : Term) :
    listTo (item :: before).reverse tail = listTo before.reverse (.cell item tail) := by
  rw [reverse_cons, listTo, foldr_append]
  rfl

lemma tailReadsBack_nil : TailReadsBack style mode .nil := by
  intro h reads before n ws vs fuel
  obtain _ | k := n
  · omega
  rw [listFrom]
  refine reads.item .listItem ⟨by rintro ⟨⟩, rfl⟩ (halts_of_none rfl) rfl (by omega)
    fun _ kind => ?_
  rw [kind]
  exact listTo_reverse_cons before _ _ ▸ .refl

lemma tailReadsBack_cell {h' : Term} (first : ReadsBack style mode WriteStyle.argPriority h')
    (others : TailReadsBack style mode t) : TailReadsBack style mode (.cell h' t) := by
  intro h reads before n ws vs fuel
  obtain _ | k := n
  · omega
  rw [tailWords, List.cons_append, List.append_assoc, listFrom]
  rw [tailWords, List.length_cons, List.length_append] at fuel
  refine reads.item .listItem ⟨by rintro ⟨⟩, rfl⟩ (halts_comma _) rfl (by omega) fun _ kind => ?_
  have read := others h' first ((h.mapVarsWith readBack vs).1 :: before) k ws
    (h.mapVarsWith readBack vs).2 (by omega)
  rw [listTo_reverse_cons] at read
  rw [kind]
  exact read

lemma tailReadsBack_bar (suits : style.Suits mode)
    (written : style.tailWords t = plain .bar :: style.termWords true WriteStyle.argPriority t)
    (last : ReadsBack style mode WriteStyle.argPriority t) : TailReadsBack style mode t := by
  intro h reads before n ws vs fuel
  obtain _ | k := n
  · omega
  rw [written, List.cons_append, listFrom]
  rw [written, List.length_cons] at fuel
  have bar : Halts mode.operators WriteStyle.argPriority .bar := by
    intro op f found
    obtain ⟨op', found', same⟩ := Option.map_eq_some_iff.1 found
    cases same
    exact suits.bar op (suits.operators ▸ found')
  refine reads.item .listItem ⟨by rintro ⟨⟩, rfl⟩ bar rfl (by omega) fun _ kind => ?_
  rw [kind]
  refine last.item .listTail ⟨by rintro ⟨⟩, rfl⟩ (halts_of_none rfl) rfl (by omega) fun _ _ => ?_
  exact listTo_reverse_cons before _ _ ▸ .refl

lemma reads_list {h : Term} (first : ReadsBack style mode WriteStyle.argPriority h)
    (others : TailReadsBack style mode t) (glued : Bool) (max : Nat) :
    Reads mode (style.termWords glued max (.cell h t)) (.cell h t) 0 0 0 := by
  rw [termWords]
  refine .of_primary (Nat.succ_pos _) fun max n ws vs apart fuel => ?_
  simp only [append_assoc, cons_append, nil_append]
  simp only [length_append, length_cons, length_nil] at fuel
  obtain _ | k := n
  · omega
  rw [primary]
  refine .peek (fun _ => rfl) fun _ kind => ?_
  rw [kind]
  refine .advance fun _ _ => .peek (fun _ => rfl) fun next kind => .looked ?_
  have item : next.lexeme ≠ .closeBracket :=
    kind ▸ (Begins.term style h true WriteStyle.argPriority).nextLexeme_ne _ rfl
  rw [if_neg item]
  exact (others h first [] k ws vs (by omega)).bind .refl

lemma reads_curly (h : ReadsBack style mode maxPriority a) :
    Reads mode (plain .openCurly ::
      (style.termWords true maxPriority a ++ [plain .closeCurly]))
      (.compound "\x7b\x7d" [a]) 0 0 0 := by
  obtain ⟨p, bound, _, ends, reads⟩ := h
  have begins := Begins.term style a true maxPriority
  refine .of_primary (Nat.succ_pos _) fun max n ws vs apart fuel => ?_
  simp only [append_assoc, cons_append, nil_append]
  simp only [length_append, length_cons, length_nil] at fuel
  obtain _ | k := n
  · omega
  rw [primary]
  refine .peek (fun _ => rfl) fun _ kind => ?_
  rw [kind]
  refine .advance fun _ _ => .peek (fun _ => rfl) fun next kind => .looked ?_
  have item : next.lexeme ≠ .closeCurly := kind ▸ begins.nextLexeme_ne _ rfl
  rw [if_neg item]
  exact ((reads true).closed begins.length_pos (Nat.le_refl _) ends.le ⟨by rintro ⟨⟩, rfl⟩
    (halts_of_none rfl) .curly rfl (by omega)).bind (.advance fun _ _ => .refl)

lemma rightMax_endsBelow (has : ops.Has op) : EndsBelow ops op.priority op.rightMax :=
  .inr ⟨op, has, Nat.le_refl _, rfl⟩

lemma reads_prefixed (found : mode.operators.prefixOp? f = some op)
    (h : ReadsBack style mode op.rightMax a) :
    Reads mode (ofName .prefixOp f ++ style.termWords false op.rightMax a)
      (.compound f [a]) op.priority op.priority op.rightMax := by
  obtain ⟨p, bound, _, ends, reads⟩ := h
  have begins := Begins.term style a false op.rightMax
  have name_pos := (Begins.ofName true .prefixOp f).length_pos
  have operand_pos := begins.length_pos
  intro max n ws vs low_le apart halts fuel
  rw [append_assoc]
  rw [length_append] at fuel ⊢
  obtain ⟨k, rfl⟩ : ∃ k, n = k + 1 + 1 + 1 := ⟨n - 3, by omega⟩
  refine ⟨k + 1 + 1, by omega, .given_roles fun roles => ?_⟩
  have shows := (and_eq_true_iff.1 (rolesShow_ofName _ _ _ _ ▸ roles)).1
  rw [expr]
  exact ((primary_name.trans (nameTerm_prefixed found shows (begins.nextLexeme_ne ws rfl) low_le)).trans
    (((reads false).operand operand_pos (Nat.le_refl _) ends.le apart halts (by omega)).bind
      .refl)).bind .refl

lemma ReadsBack.left (glued : Bool) {w : Word} (regular : mode.operators.Regular)
    (same : mode.operators = style.operators) (h : ReadsBack style mode op.leftMax a)
    (found : mode.operators.infixOp? f = some op) (low_le : op.priority ≤ max)
    (apart : Apart w.lexeme) (token : infixToken? mode.operators w.lexeme = some (op, f))
    (fuel : 5 * (style.termWords glued op.leftMax a).length ≤ n) :
    ∃ n', n ≤ n' + (style.termWords glued op.leftMax a).length + 1 ∧
      Becomes (Facing mode.operators (style.termWords glued op.leftMax a ++ w :: ws) vs)
        (expr mode n max) (if op.fixity = .postfixOp then
            extend mode n' (.build f [(a.mapVarsWith readBack vs).1]) op.priority max
          else do
            let (right, _) ← expr mode n' op.rightMax
            extend mode n' (.build f [(a.mapVarsWith readBack vs).1, right]) op.priority max)
        (Facing mode.operators ws (a.mapVarsWith readBack vs).2) := by
  have pos := (Begins.term style a glued op.leftMax).length_pos
  obtain ⟨p, bound, low, ends, reads⟩ := h
  have halts : Halts mode.operators bound w.lexeme := by
    intro op' f' token'
    cases token.symm.trans token'
    rcases ends with rfl | ⟨inner, has, le, rfl⟩
    · exact (regular.bounded op ⟨f, .inr found⟩).1
    · exact regular.nested inner (same ▸ has) f op found le
  obtain ⟨n', left, run⟩ := reads glued max n (w :: ws) vs (Nat.le_trans op.leftMax_le low_le)
    apart halts fuel
  obtain _ | k := n'
  · omega
  refine ⟨k, by omega, run.trans ?_⟩
  have fits : (decide (max < op.priority) || decide (op.leftMax < p)) = false := by
    simp [Nat.not_lt.2 low_le, Nat.not_lt.2 low]
  rw [extend]
  refine .peek apart.sign fun _ kind => ?_
  rw [kind, nextLexeme, token]
  simp only [fits, false_eq_true, if_false]
  exact .advance fun _ _ => .refl

lemma ofName_operator {role : Role} (h : f ≠ "[]" ∧ f ≠ "\x7b\x7d") :
    ofName role f = [⟨.atom f (!isBareAtom f), role⟩] := by
  rw [ofName, if_neg h.1, if_neg h.2]

lemma not_bracket (regular : ops.Regular) (found : ops.infixOp? f = some op) :
    f ≠ "[]" ∧ f ≠ "\x7b\x7d" := by
  constructor
  · rintro rfl
    rw [regular.brackets.1] at found
    cases found
  · rintro rfl
    rw [regular.brackets.2] at found
    cases found

lemma reads_postfixed (regular : mode.operators.Regular) (same : mode.operators = style.operators)
    (found : mode.operators.infixOp? f = some op) (fixity : op.fixity = .postfixOp)
    (h : ReadsBack style mode op.leftMax a) (glued : Bool) :
    Reads mode (style.termWords glued op.leftMax a ++ ofName .plain f)
      (.compound f [a]) op.priority op.priority 0 := by
  have comma : f ≠ "," := by
    rintro rfl
    rw [regular.comma op found] at fixity
    cases fixity
  rw [ofName_operator (not_bracket regular found)]
  intro max n ws vs low_le apart _ fuel
  rw [append_assoc, singleton_append]
  rw [length_append, length_singleton] at fuel ⊢
  have token : infixToken? mode.operators (.atom f (!isBareAtom f)) = some (op, f) := by
    simp [infixToken?, comma, found]
  obtain ⟨k, left, run⟩ := h.left glued (w := ⟨_, .plain⟩) (n := n) regular same found low_le
    ⟨by rintro ⟨⟩, rfl⟩ token (by omega)
  rw [if_pos fixity] at run
  exact ⟨k, by omega, run⟩

lemma reads_infixed (regular : mode.operators.Regular) (same : mode.operators = style.operators)
    (found : mode.operators.infixOp? f = some op) (fixity : op.fixity ≠ .postfixOp) (dot : f ≠ ".")
    (ha : ReadsBack style mode op.leftMax a) (hb : ReadsBack style mode op.rightMax b)
    (glued : Bool) :
    Reads mode (style.termWords glued op.leftMax a ++
        (infixWords f ++ style.termWords (f = ",") op.rightMax b))
      (.compound f [a, b]) op.priority op.priority op.rightMax := by
  obtain ⟨pb, bound, _, ends, reads⟩ := hb
  have begins := Begins.term style b (f = ",") op.rightMax
  have right_pos := begins.length_pos
  obtain ⟨w, written, apart_w, token⟩ : ∃ w, infixWords f = [w] ∧ Apart w.lexeme ∧
      infixToken? mode.operators w.lexeme = some (op, f) := by
    unfold infixWords
    split
    · next comma =>
      subst comma
      refine ⟨_, rfl, ⟨by rintro ⟨⟩, rfl⟩, ?_⟩
      rw [regular.comma op found]
      rfl
    · next comma =>
      refine ⟨_, ofName_operator (not_bracket regular found), ⟨by rintro ⟨⟩, rfl⟩, ?_⟩
      simp [infixToken?, comma, found]
  rw [written]
  intro max n ws vs low_le apart halts fuel
  simp only [append_assoc, cons_append, nil_append]
  simp only [length_append, length_cons, length_nil] at fuel ⊢
  obtain ⟨k, left, run⟩ := ha.left glued (n := n) regular same found low_le apart_w token (by omega)
  refine ⟨k, by omega, run.trans ?_⟩
  rw [if_neg fixity]
  refine ((reads (f = ",")).operand right_pos (Nat.le_refl _) ends.le apart halts (by omega)).bind ?_
  change Becomes _ (extend mode k (.build f [_, _]) op.priority max) _ _
  rw [build_eq_compound (by simp) fun h => dot h.1]
  exact .refl

lemma readsBack_grouped (inner : Bool → List Word) {low bound : Nat}
    (written : ∀ glued, style.termWords glued max t = grouped (max < low) glued inner)
    (some : 0 < (inner true).length) (low_le : low ≤ maxPriority)
    (ends : EndsBelow style.operators low bound)
    (h : ∀ glued, Reads mode (inner glued) t low low bound) : ReadsBack style mode max t := by
  by_cases wrap : max < low
  · refine ⟨0, 0, Nat.zero_le _, .inl rfl, fun glued => ?_⟩
    rw [written, decide_eq_true wrap]
    exact ((h true).group some low_le (Nat.le_trans ends.le low_le)).mono (Nat.zero_le _)
      (Nat.le_refl _)
  · have le := Nat.not_lt.1 wrap
    refine ⟨low, bound, le, ?_, fun glued => ?_⟩
    · rcases ends with none | ⟨op, has, priority, rfl⟩
      · exact .inl none
      · exact .inr ⟨op, has, Nat.le_trans priority le, rfl⟩
    · rw [written, decide_eq_false wrap]
      exact (h glued).mono le (Nat.le_refl _)

lemma readsBack_primary (h : ∀ glued, Reads mode (style.termWords glued max t) t 0 0 0) :
    ReadsBack style mode max t :=
  ⟨0, 0, Nat.zero_le _, .inl rfl, fun glued => (h glued).mono (Nat.zero_le _) (Nat.le_refl _)⟩

lemma readsBack_atom (a : String) (max : Nat) : ReadsBack style mode max (.atom a) := by
  refine readsBack_primary fun glued => ?_
  rw [termWords, operandWords]
  cases (decide (max < WriteStyle.argPriority) && style.operators.isOperator a) with
  | false => exact reads_atom a
  | true =>
    exact (reads_atom a).group (Begins.ofName true _ a).length_pos (Nat.zero_le _) (Nat.zero_le _)

section

variable (suits : style.Suits mode)

include suits

lemma regular_of_operator {k : Nat} (operator : style.operatorFor? f k = some op) :
    style.ignoreOps = false ∧ mode.operators.Regular := by
  have shown : style.ignoreOps = false := by
    rw [eq_false_iff]
    intro ignore
    rw [operatorFor?_ignoreOps ignore] at operator
    cases operator
  exact ⟨shown, suits.operators ▸ suits.regular shown⟩

lemma readsBack_unary (curly : f ≠ "\x7b\x7d") (operator : style.operatorFor? f 1 = some op)
    (ha : ∀ max, ReadsBack style mode max a) (max : Nat) :
    ReadsBack style mode max (.compound f [a]) := by
  obtain ⟨shown, regular⟩ := regular_of_operator suits operator
  have lookup := operator
  simp only [operatorFor?, shown, false_eq_true, if_false, ← suits.operators]
    at lookup
  cases found : mode.operators.prefixOp? f with
  | some op' =>
    rw [found] at lookup
    cases lookup
    have has : mode.operators.Has op := ⟨f, .inl found⟩
    refine readsBack_grouped (fun _ => ofName .prefixOp f ++ style.termWords false op.rightMax a)
      (fun glued => ?_) ((Begins.ofName true .prefixOp f).append _).length_pos
      (regular.bounded op has).2 (suits.operators ▸ rightMax_endsBelow has)
      fun _ => reads_prefixed found (ha op.rightMax)
    simp [termWords, compoundWords, curly, operator,
      regular.prefixes f op found]
  | none =>
    rw [found] at lookup
    obtain ⟨found', fixity⟩ := filter_eq_some_iff.1 lookup
    have fixity : op.fixity = .postfixOp := by simpa using fixity
    have has : mode.operators.Has op := ⟨f, .inr found'⟩
    refine readsBack_grouped (fun glued => style.termWords glued op.leftMax a ++ ofName .plain f)
      (fun glued => ?_) ((Begins.term style a true _).append _).length_pos
      (regular.bounded op has).2 (.inl rfl)
      fun glued => reads_postfixed regular suits.operators found' fixity (ha op.leftMax) glued
    simp [termWords, compoundWords, curly, operator, fixity]

lemma readsBack_binary (dot : f ≠ ".") (operator : style.operatorFor? f 2 = some op)
    (ha : ∀ max, ReadsBack style mode max a) (hb : ∀ max, ReadsBack style mode max b) (max : Nat) :
    ReadsBack style mode max (.compound f [a, b]) := by
  obtain ⟨shown, regular⟩ := regular_of_operator suits operator
  have lookup := operator
  simp only [operatorFor?, shown, false_eq_true, if_false, ← suits.operators]
    at lookup
  obtain ⟨found, fixity⟩ := filter_eq_some_iff.1 lookup
  have fixity : op.fixity = .infixOp := by simpa using fixity
  have has : mode.operators.Has op := ⟨f, .inr found⟩
  refine readsBack_grouped (fun glued => style.termWords glued op.leftMax a ++
      (infixWords f ++ style.termWords (f = ",") op.rightMax b))
    (fun glued => ?_) ((Begins.term style a true _).append _).length_pos (regular.bounded op has).2
    (suits.operators ▸ rightMax_endsBelow has)
    fun glued => reads_infixed regular suits.operators found (by rw [fixity]; rintro ⟨⟩) dot
      (ha op.leftMax) (hb op.rightMax) glued
  simp [termWords, compoundWords, operator]

/-- The words of a normal term without floats are read as the term, its variables numbered by their
first occurrence. -/
lemma reads_term (normal : t.Normal) (floatFree : ∀ x, .number (.float x) ∉ t.subterms) :
    (∀ max, ReadsBack style mode max t) ∧ TailReadsBack style mode t := by
  induction t using Term.induct with
  | atom a =>
    refine ⟨readsBack_atom a, ?_⟩
    by_cases nil : a = "[]"
    · subst nil
      exact tailReadsBack_nil
    · refine tailReadsBack_bar suits ?_ (readsBack_atom a _)
      rw [tailWords, if_neg nil, termWords]
  | number n =>
    cases n with
    | float x => exact absurd List.mem_cons_self (floatFree x)
    | int i =>
      have reads (max : Nat) : ReadsBack style mode max (.number (.int i)) :=
        readsBack_primary fun _ => reads_integer i
      exact ⟨reads, tailReadsBack_bar suits rfl (reads _)⟩
  | var name id =>
    have reads (max : Nat) : ReadsBack style mode max (.var name id) :=
      readsBack_primary fun _ => reads_variable name id
    exact ⟨reads, tailReadsBack_bar suits rfl (reads _)⟩
  | cell h t ihh iht =>
    have head := ihh (normal.sub Term.subterms_head) fun x hx => floatFree x (Term.subterms_head hx)
    have tail := iht (normal.sub Term.subterms_tail) fun x hx => floatFree x (Term.subterms_tail hx)
    refine ⟨fun max => ?_, tailReadsBack_cell (head.1 _) tail.2⟩
    exact readsBack_primary fun glued => reads_list (head.1 _) tail.2 glued max
  | compound f args ih =>
    have args_read : ∀ a ∈ args, ∀ max, ReadsBack style mode max a := fun a ha =>
      (ih a ha (normal.sub (Term.subterms_arg ha)) fun x hx =>
        floatFree x (Term.subterms_arg ha hx)).1
    obtain ⟨some, list⟩ := normal f args (Term.self_mem_subterms _)
    have reads (max : Nat) : ReadsBack style mode max (.compound f args) := by
      cases style.form f some with
      | curly a one name ops =>
        subst one name
        refine readsBack_primary fun glued => ?_
        have curly : ("\x7b\x7d" = "\x7b\x7d" && !style.ignoreOps) = true := by simp [ops]
        rw [termWords, compoundWords, if_pos curly]
        exact reads_curly (args_read a List.mem_cons_self _)
      | unary a op one name operator =>
        subst one
        exact readsBack_unary suits name operator (args_read a List.mem_cons_self) max
      | binary a b op two operator =>
        subst two
        exact readsBack_binary suits (fun dot => list ⟨dot, rfl⟩) operator
          (args_read a List.mem_cons_self)
          (args_read b (List.mem_cons_of_mem _ List.mem_cons_self)) max
      | call a rest more call =>
        subst more
        refine readsBack_primary fun glued => ?_
        rw [termWords, (compound_call call).2]
        exact reads_call (fun t ht => args_read t ht _) list
    exact ⟨reads, tailReadsBack_bar suits (by rw [tailWords, termWords])
      (reads _)⟩

end

end Reader

end Horn
