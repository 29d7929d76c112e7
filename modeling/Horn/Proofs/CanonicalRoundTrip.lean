import Horn.Proofs.OperatorTables
import Horn.Proofs.TermReading
import Horn.Proofs.VariableNumbering

/-!
# Reading canonical text back

`parse_write` is about any style of writing: what is written is read back if the role of each of its
words shows.
-/

namespace Horn

open Text List Term Reader WriteStyle OperatorTable Word

namespace OperatorTable

def BarAbove (ops : OperatorTable) : Prop :=
  ∀ op ∈ ops.infixOps, op.name = "|" → minBarPriority ≤ op.priority

lemma Reachable.barAbove {ops : OperatorTable} (h : ops.Reachable) : ops.BarAbove :=
  fun op ho bar => ((h.wellKept.permitted op (mem_append_right _ ho)).bar bar).2

lemma BarAbove.infixOp {ops : OperatorTable} (h : ops.BarAbove) {op : Operator}
    (found : ops.infixOp? "|" = some op) : WriteStyle.argPriority < op.priority := by
  have bar : op.name = "|" := by simpa using find?_some found
  have above := h op (mem_of_find?_eq_some found) bar
  exact Nat.lt_of_lt_of_le (by decide) above

end OperatorTable

variable {mode : ReadMode} {t : Term}

lemma parse_of_reads {text : String} {words : List Word} {low p bound : Nat}
    (spells : Spells false text.toList words) (some : 0 < words.length)
    (reads : Reads mode words t low p bound) (low_le : low ≤ maxPriority)
    (bound_le : bound ≤ maxPriority) (roles : rolesShow mode.operators words) :
    ∃ read, parse mode text = .ok read ∧
      read.term = (t.mapVarsWith readBack ([], 0)).1 := by
  have fresh : (ofText text).Fresh (words ++ []) ([], 0) := by
    rw [append_nil]
    exact ⟨rfl, ⟨text.toList, CharStream.at_ofText text, spells⟩, rfl⟩
  rw [← append_nil words] at roles
  obtain ⟨first, r₁, r₂, _, r₃, peeked, -, run, advanced, -⟩ := reads.whole some low_le bound_le
    ⟨by rintro ⟨⟩, rfl⟩ (halts_of_none rfl) .single rfl fresh roles
  have whole : ∃ names r', readSingle mode (.ofText text) =
      .ok ⟨(t.mapVarsWith readBack ([], 0)).1, first.position, names⟩ r' := by
    have started : startTerm (.ofText text) = .ok () (.ofText text) := rfl
    rw [readSingle, bind_ok started,
      bind_ok (show (get : Reading Reader) (.ofText text) = .ok _ _ from rfl),
      bind_ok peeked, bind_ok run, bind_ok advanced]
    exact ⟨_, _, rfl⟩
  obtain ⟨names, r', whole⟩ := whole
  refine ⟨⟨(t.mapVarsWith readBack ([], 0)).1, first.position, names⟩, ?_, rfl⟩
  rw [parse, whole]

lemma parse_write {style : WriteStyle} (suits : style.Suits mode) (quoted : style.quoted)
    (legible : t.Legible) (normal : t.Normal)
    (roles : rolesShow mode.operators (style.termWords false maxPriority t)) :
    ∃ read, parse mode (style.write t) = .ok read ∧
      read.term = (t.mapVarsWith readBack ([], 0)).1 := by
  obtain ⟨reads, -⟩ := reads_term suits normal legible.floatFree
  obtain ⟨p, bound, _, ends, reads⟩ := reads maxPriority
  have spells := ((style.spelled quoted legible).whole maxPriority).spells false [] []
    .done fun _ h => nomatch h
  rw [append_nil, append_nil] at spells
  exact parse_of_reads spells (Begins.term style t false _).length_pos (reads false)
    (Nat.le_refl _) ends.le roles

section IgnoreOps

open Word

variable {style : WriteStyle} {ops : OperatorTable} {ws : List Word}

/-- Where operators are not used, no word of a term has to be told from an operator by an operand
that follows. -/
structure RolesPlain (style : WriteStyle) (ops : OperatorTable) (t : Term) : Prop where
  whole : ∀ glued max ws, rolesShow ops ws → Reader.startsOperand ops (nextLexeme ws) = false →
    rolesShow ops (style.termWords glued max t ++ ws)
  tail : ∀ ws, rolesShow ops ws → Reader.startsOperand ops (nextLexeme ws) = false →
    rolesShow ops (style.tailWords t ++ ws) ∧
      Reader.startsOperand ops (nextLexeme (style.tailWords t ++ ws)) = false

lemma rolesShow_operand (glued : Bool) (max : Nat) (a : String) (shows : rolesShow ops ws)
    (next : startsOperand ops (nextLexeme ws) = false) :
    rolesShow ops (style.operandWords glued max a ++ ws) := by
  unfold operandWords grouped
  split
  · have close : startsOperand ops (nextLexeme (plain .closeParen :: ws)) = false := rfl
    simp [rolesShow_ofName, roleShows, shows, close]
  · simp [rolesShow_ofName, roleShows, shows, next]

lemma rolesShow_further {rest : List Term} (h : ∀ a ∈ rest, RolesPlain style ops a)
    (shows : rolesShow ops ws) (next : startsOperand ops (nextLexeme ws) = false) :
    rolesShow ops (style.furtherWords rest ++ ws) ∧
      startsOperand ops (nextLexeme (style.furtherWords rest ++ ws)) = false := by
  induction rest with
  | nil => exact ⟨shows, next⟩
  | cons a rest ih =>
    obtain ⟨first, others⟩ := forall_mem_cons.1 h
    obtain ⟨shows', next'⟩ := ih others
    refine ⟨?_, rfl⟩
    rw [furtherWords, cons_append, append_assoc, rolesShow_plain]
    exact first.whole true _ _ shows' next'

lemma rolesPlain (ops : OperatorTable) (ignore : style.ignoreOps = true) (t : Term) :
    RolesPlain style ops t := by
  induction t using induct with
  | atom a =>
    refine ⟨fun glued max ws shows next => rolesShow_operand glued max a shows next,
      fun ws shows next => ?_⟩
    rw [tailWords]
    split
    · exact ⟨shows, next⟩
    · exact ⟨rolesShow_operand true _ a shows next, rfl⟩
  | number n =>
    cases n <;> exact ⟨fun _ _ _ shows _ => shows, fun _ shows _ => ⟨shows, rfl⟩⟩
  | var name id => exact ⟨fun _ _ _ shows _ => shows, fun _ shows _ => ⟨shows, rfl⟩⟩
  | cell h t ihh iht =>
    constructor
    · intro glued max ws shows next
      obtain ⟨tail, next'⟩ := iht.tail (plain .closeBracket :: ws) shows rfl
      simpa [WriteStyle.termWords] using ihh.whole true WriteStyle.argPriority _ tail next'
    · intro ws shows next
      obtain ⟨tail, next'⟩ := iht.tail ws shows next
      refine ⟨?_, rfl⟩
      simpa [WriteStyle.tailWords] using ihh.whole true WriteStyle.argPriority _ tail next'
  | compound f args ih =>
    have whole (glued : Bool) (max : Nat) (ws : List Word) (shows : rolesShow ops ws) :
        rolesShow ops (style.compoundWords glued max f args ++ ws) := by
      cases args with
      | nil => simp [compoundWords, rolesShow_ofName, roleShows, shows]
      | cons a rest =>
        have call : style.IsCall f (a :: rest) :=
          ⟨operatorFor?_ignoreOps ignore _ _, fun h => by simp [ignore] at h⟩
        obtain ⟨first, others⟩ := forall_mem_cons.1 ih
        have close : rolesShow ops (plain .closeParen :: ws) := shows
        obtain ⟨shows', next'⟩ := rolesShow_further others close rfl
        rw [(compound_call call).2]
        simpa [rolesShow_ofName, roleShows] using
          first.whole true WriteStyle.argPriority _ shows' next'
    refine ⟨fun glued max ws shows _ => whole glued max ws shows, fun ws shows _ => ⟨?_, rfl⟩⟩
    rw [tailWords, cons_append, rolesShow_plain]
    exact whole true WriteStyle.argPriority ws shows

end IgnoreOps

/-- Whatever operators were declared, a normal term is read back from its canonical text with its
variables numbered in order of first occurrence. -/
theorem canonical_text_reads_back {ops : OperatorTable} (reachable : ops.Reachable)
    (quotes : DoubleQuotes) {t : Term} (normal : t.Normal) (legible : t.Legible)
    (apart : t.NamesApart) :
    ∃ read, Term.parse ⟨ops, quotes⟩ (WriteStyle.write ⟨ops, true, true⟩ t) = .ok read ∧
      read.term = t.renumbered := by
  have suits : Suits ⟨ops, true, true⟩ ⟨ops, quotes⟩ :=
    ⟨rfl, fun _ found => reachable.barAbove.infixOp found, fun h => nomatch h⟩
  have ignore : ignoreOps ⟨ops, true, true⟩ = true := rfl
  have roles := (rolesPlain ops ignore t).whole false maxPriority [] rfl rfl
  rw [append_nil] at roles
  obtain ⟨read, parsed, eq⟩ := parse_write suits rfl legible normal roles
  exact ⟨read, parsed, eq.trans (recalled_eq_renumbered apart)⟩

/-- A term with an anonymous variable, a negative number under a minus and a name in need of
quotes. -/
theorem canonical_text_reads_back_example :
    let t : Term := .compound "f" [.var "X" 7, .cell (.var "_" 3) (.var "X" 7),
      .compound "-" [.int (-1)], .atom "it's"]
    t.Normal ∧ t.Legible ∧ t.NamesApart ∧
      WriteStyle.write ⟨.standard, true, true⟩ t = "f(X,[_G3|X],-(-1),'it\\'s')" ∧
      ∃ read, Term.parse ⟨.standard, .codes⟩ "f(X,[_G3|X],-(-1),'it\\'s')" = .ok read ∧
        read.term = .compound "f" [.var "X" 0, .cell (.var "_G3" 1) (.var "X" 0),
          .compound "-" [.int (-1)], .atom "it's"] := by
  intro t
  have normal : t.Normal := by decide +kernel
  have legible : t.Legible := by decide +kernel
  have apart : t.NamesApart := by decide +kernel
  have text : write ⟨.standard, true, true⟩ t = "f(X,[_G3|X],-(-1),'it\\'s')" := by
    decide +kernel
  refine ⟨normal, legible, apart, text, ?_⟩
  obtain ⟨read, parsed, eq⟩ := canonical_text_reads_back .standard .codes normal legible apart
  rw [text] at parsed
  exact ⟨read, parsed, eq.trans (by decide +kernel)⟩

end Horn
