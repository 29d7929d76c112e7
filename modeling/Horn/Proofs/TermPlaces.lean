import Horn.Proofs.ReadingProgress
import Horn.Proofs.StreamCursor

/-!
# The places of terms

The terms of a text are found one behind the other, and each has the position of its first token. So
no two terms of a text have the same position, however alike they are.
-/

namespace Horn

open Text CharStream

namespace Text

def Position.Before (p q : Position) : Prop :=
  p.line < q.line ∨ p.line = q.line ∧ p.column < q.column

namespace Position.Before

variable {p q r : Position}

lemma trans (h : p.Before q) (h' : q.Before r) : p.Before r := by
  unfold Before at *
  omega

lemma ne (h : p.Before q) : p ≠ q := by
  rintro rfl
  unfold Before at h
  omega

lemma after (p : Position) (c : Char) : p.Before (p.after c) := by
  unfold Position.after
  split
  · exact .inl (Nat.lt_succ_self _)
  · exact .inr ⟨rfl, Nat.lt_succ_self _⟩

end Position.Before

variable {text : List Char} {i j : Nat}

lemma positionAt_before (lt : i < j) (le : j ≤ text.length) :
    (positionAt text i).Before (positionAt text j) := by
  have step {k : Nat} (lt : k < text.length) :
      (positionAt text k).Before (positionAt text (k + 1)) := by
    rw [positionAt_succ (List.getElem?_eq_getElem lt)]
    exact .after _ _
  induction lt with
  | refl => exact step le
  | step _ ih => exact (ih (Nat.le_of_succ_le le)).trans (step le)

end Text

namespace Reader

variable {mode : ReadMode} {text : List Char} {k : Nat} {r r' : Reader}

structure Stands (r : Reader) (text : List Char) (k : Nat) : Prop where
  lookahead : r.lookahead = none
  stream : r.lexer.stream.Stands text k 0

lemma stands_ofText (text : String) : (ofText text).Stands text.toList 0 :=
  ⟨rfl, Nat.zero_le _, ⟨at_ofText text, rfl, trivial⟩, Nat.zero_le _, rfl⟩

lemma Stands.peek {t : Token} {valued : Bool} (h : r.Stands text k)
    (run : peek valued r = .ok t r') :
    ∃ i k', t.Begins text k i ∧ r'.lexer.stream.Stands text k' 0 ∧
      (t.lexeme ≠ .inputEnd → i < k') := by
  rcases peek_ok run with ⟨looked, -⟩ | ⟨-, l, next, rfl⟩
  · cases h.lookahead.symm.trans looked
  · unfold Lexer.next at next
    split at next
    · next scanned =>
      cases next
      obtain ⟨i, k', begins, stands, further⟩ := stands_token h.stream scanned
      refine ⟨i, k', begins, stands, fun more => ?_⟩
      rcases further with ⟨last, -⟩ | ⟨-, lt⟩
      · exact absurd last more
      · exact lt
    · cases next

lemma Stands.readTerm {t : ReadTerm} (h : r.Stands text k)
    (run : readTerm mode r = .ok (some t) r') :
    ∃ i k', k ≤ i ∧ i < k' ∧ k' ≤ text.length ∧ t.position = positionAt text i ∧
      r'.Stands text k' := by
  rw [readTerm_eq] at run
  obtain ⟨first, r₁, looked, run⟩ := ok_of_bind run
  have light := peek_uses .chars true { r with varIds := [], nextVar := 0 }
  rw [looked] at light
  have start : Stands { r with varIds := [], nextVar := 0 } text k := ⟨h.lookahead, h.stream⟩
  obtain ⟨i, k₁, begins, stands, further⟩ := start.peek looked
  split at run
  · cases run
  · next more =>
    -- What is read after the first token of a clause keeps the stream behind that token.
    have kept := clauseFrom_sparing (D := standing text (i + 1)) mode first r.depth_enough
      r₁ ⟨⟨k₁, further more, trivial, stands⟩, ?_⟩
    · rw [run] at kept
      obtain ⟨fresh, k', further, -, stands⟩ := kept
      obtain ⟨term, r₂, -, run⟩ := ok_of_bind run
      obtain ⟨_, r₃, -, run⟩ := ok_of_bind run
      cases run
      exact ⟨i, k', begins.onward, further, stands.within, begins.position, fresh, stands⟩
    · have := light.2
      rw [Weighing.chars_of, Weighing.chars_of] at this
      rwa [ahead, light.1]

end Reader

end Horn
