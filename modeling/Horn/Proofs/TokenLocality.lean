import Horn.Proofs.ScanDisciplines
import Horn.Proofs.TextLocality

/-! # Tokens of a part of a text -/

namespace Horn

open Text List

namespace Scan

variable {n : Nat} {p q : Position}

lemma skipLayout_local {seen : Bool} : Local False n [] (skipLayout seen) (skipLayout seen) Eq :=
  (Local.rules False).mono (ScanRules.skipLayout _) fun _ _ => And.left

lemma lexeme_local {glued valued : Bool} {c : Char} :
    Local False n [] (lexeme glued valued c p) (lexeme glued valued c q) Eq :=
  (Local.rules False).mono (ScanRules.lexeme _) fun _ _ => Lexeme.Begun.same

lemma skipLayout_quiet {cs cs' : List Char} {p' : Position} {seen b : Bool} (quiet : Quiet cs)
    (some' : cs ≠ []) (h : Takes (skipLayout seen) cs p b cs' p') : b = true := by
  have layout {s t : CharStream} (run : skipLayout true s = .ok b t) : b = true := by
    obtain ⟨_, -, seen⟩ := exists_related (fun _ => ScanRules.skipLayout _) run
    exact seen rfl
  obtain ⟨s, on⟩ := CharStream.On.exists_on cs p
  obtain ⟨s', run, -⟩ := h s on
  rw [skipLayout_eq] at run
  cases cs with
  | nil => exact absurd rfl some'
  | cons c cs =>
    obtain ⟨s₁, read, -⟩ := on.read_cons
    rw [char?_bind read] at run
    rcases Bool.or_eq_true_iff.1 (quiet c rfl) with blank | percent
    · simp only [blank, if_true] at run
      exact layout run
    · cases of_decide_eq_true percent
      obtain ⟨_, _, -, run⟩ := ok_of_bind run
      exact layout run

end Scan

inductive Gives (first valued : Bool) (cs : List Char) (p : Position) :
    Token → List Char → Position → Prop where
  | nothing {layout : Bool} {p' : Position}
      (skips : Takes (Scan.skipLayout false) cs p layout [] p') :
      Gives first valued cs p ⟨.inputEnd, p', layout⟩ [] p'
  | lexeme {layout : Bool} {c : Char} {cs₁ cs' : List Char} {p₁ p' : Position} {l : Lexeme}
      (skips : Takes (Scan.skipLayout false) cs p layout (c :: cs₁) p₁)
      (takes : Takes (Scan.lexeme (!layout && !first) valued c p₁) cs₁ (p₁.after c) l cs' p') :
      Gives first valued cs p ⟨l, p₁, layout⟩ cs' p'

namespace Gives

open Scan

variable {first valued : Bool} {cs cs' : List Char} {p p' : Position} {t : Token}

lemma takes (h : Gives first valued cs p t cs' p') :
    Takes (token first valued) cs p t cs' p' := by
  rw [token_eq]
  cases h with
  | nothing skips =>
    refine skips.bind (Takes.char?_nil.bind fun s on => ⟨s, ?_, on⟩)
    simp only [← on.position]
    rfl
  | lexeme skips takes => exact skips.bind (Takes.char?_cons.bind (takes.bind (.pure _)))

lemma of_run {s s' : CharStream} (on : s.On cs p) (run : token first valued s = .ok t s') :
    ∃ cs' p', s'.On cs' p' ∧ Gives first valued cs p t cs' p' := by
  rw [token_eq] at run
  obtain ⟨layout, s₁, run₁, run⟩ := ok_of_bind run
  obtain ⟨cs₁, p₁, on₁, skips⟩ := Takes.of_run (fun _ => skipLayout_local) on run₁
  cases cs₁ with
  | nil =>
    obtain ⟨s₂, read, on₂⟩ := on₁.read_nil
    rw [char?_bind read] at run
    cases run
    rw [on₂.position]
    exact ⟨_, _, on₂, .nothing skips⟩
  | cons c cs₁ =>
    obtain ⟨s₂, read, on₂⟩ := on₁.read_cons
    rw [char?_bind read] at run
    obtain ⟨l, s₃, run₃, run⟩ := ok_of_bind run
    cases run
    obtain ⟨cs', p', on', takes⟩ := Takes.of_run (fun _ => lexeme_local) on₂ run₃
    exact ⟨cs', p', on', .lexeme skips takes⟩

lemma suffix (h : Gives first valued cs p t cs' p') : ∃ w, cs = w ++ cs' ∧ p' = p.past w := by
  cases h with
  | nothing skips => exact skips.suffix fun _ => skipLayout_local
  | @lexeme _ c _ _ _ _ _ skips takes =>
    obtain ⟨v, rfl, rfl⟩ := skips.suffix fun _ => skipLayout_local
    obtain ⟨w, rfl, rfl⟩ := takes.suffix fun _ => lexeme_local
    refine ⟨v ++ c :: w, by simp, ?_⟩
    rw [Position.past_append]
    rfl

lemma within {rest : List Char} {first' : Bool} (quiet : Quiet rest)
    (start : first' = first ∨ Quiet cs) (h : Gives first valued (cs ++ rest) p t cs' p')
    (q : Position) :
    (∃ v w cs₁, cs = v ++ w ++ cs₁ ∧ cs' = cs₁ ++ rest ∧ t.position = p.past v ∧
      p' = p.past (v ++ w) ∧
      Gives first' valued cs q { t with position := q.past v } cs₁ (q.past (v ++ w))) ∨
      cs'.length < rest.length := by
  cases h with
  | nothing skips =>
    rcases skips.within (fun _ => skipLayout_local) quiet q with
      ⟨v, cs₁, rfl, left, rfl, skips'⟩ | short
    · obtain ⟨rfl, rfl⟩ := append_eq_nil_iff.1 left.symm
      rw [append_nil v] at skips' ⊢
      refine .inl ⟨v, [], [], by simp, rfl, rfl, by simp, ?_⟩
      rw [append_nil v]
      exact .nothing skips'
    · exact .inr short
  | @lexeme layout c cs₂ _ p₁ _ l skips takes =>
    obtain ⟨u, chars, -⟩ := takes.suffix fun _ => lexeme_local
    have shorter : cs'.length < (c :: cs₂).length := by
      rw [chars, length_cons, length_append]
      omega
    rcases skips.within (fun _ => skipLayout_local) quiet q with
      ⟨v, cs₁, rfl, left, rfl, skips'⟩ | short
    · cases cs₁ with
      | nil =>
        rw [left] at shorter
        exact .inr shorter
      | cons d cs₁ =>
        obtain ⟨rfl, rfl⟩ := cons.inj left
        have glued : (!layout && !first) = (!layout && !first') := by
          rcases start with rfl | leading
          · rfl
          · cases skipLayout_quiet leading (by simp) skips'
            rfl
        rw [glued] at takes
        rcases takes.within (fun _ => lexeme_local) quiet ((q.past v).after c) with
          ⟨w, cs₃, rfl, rfl, rfl, takes'⟩ | short
        · refine .inl ⟨v, c :: w, cs₃, by simp, rfl, rfl, ?_, ?_⟩
          · rw [Position.past_append]
            rfl
          · rw [Position.past_append]
            exact .lexeme skips' takes'
        · exact .inr short
    · exact .inr (Nat.lt_trans shorter short)

end Gives

end Horn
