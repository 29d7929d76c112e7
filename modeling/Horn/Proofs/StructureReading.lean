import Horn.Proofs.RegisterHomes

/-!
# The arguments of a structure

A structure is read argument by argument, in the head and in a goal alike.
-/

namespace Horn.CodeReading

open List Term
open Bindings (varOf)

namespace State

lemma run_nil (s : State) : run [] s = some s := rfl

lemma run_cons (i : Instruction) (code : List Instruction) (s : State) :
    run (i :: code) s = (step s i).bind (run code) := rfl

lemma run_one (i : Instruction) (s : State) : run [i] s = step s i := by
  rw [run_cons]
  cases step s i <;> rfl

lemma run_append (code code' : List Instruction) (s : State) :
    run (code ++ code') s = (run code s).bind (run code') :=
  foldlM_append

lemma run_concat {code : List Instruction} {s s' : State} (h : run code s = some s')
    (i : Instruction) : run (code ++ [i]) s = step s' i := by
  rw [run_append, h]
  exact run_one i s'

structure Awaits (s : State) (p : Pending) (k : Nat) : Prop where
  pending : s.pending = some p
  missing : p.missing = k
  unfinished : s.finished = false

variable {p : Pending} {k : Nat}

lemma Awaits.complete_eq {s : State} (h : Awaits s p (k + 1)) : complete s = s := by
  simp [complete, h.pending, h.missing]

lemma Awaits.addParts {s : State} {l : List Term} (h : Awaits s p (l.length + k)) :
    s.addParts p.target.inHead l =
      some (complete { s with pending := some { p with parts := p.parts ++ l, missing := k } }) := by
  simp [State.addParts, h.pending, h.missing]

end State

open State

lemma range_varOf (next n : Nat) :
    ((range (n + 1)).map fun i => varOf (next + i)) =
      varOf next :: (range n).map fun i => varOf (next + 1 + i) := by
  rw [range_succ_eq_map, map_cons, map_map]
  refine congrArg (varOf next :: ·) (map_congr_left ?_)
  intro i _
  simp only [Function.comp]
  rw [Nat.add_right_comm, Nat.add_assoc]

lemma isSingleton_iff {l : Layout} {t : Term} :
    l.isSingleton t = true ↔ ∃ name id, t = .var name id ∧ id ∈ l.singletons := by
  cases t <;> simp [Layout.isSingleton]

namespace Inv

variable {l : Layout} {base : Nat} {r r' : Registers} {N : Names} {Q : List Open} {todo : List Nat}
  {s : State} {p : Pending} {inHead : Bool} {k : Nat} {vs : List Term}

lemma withPending (h : Inv l base r N Q todo s) (q : Option Pending) :
    Inv l base r N Q todo { s with pending := q } :=
  { h with openHeld := h.openHeld, held := h.held }

lemma swap {ids ids' : List Nat} (h : Inv l base r N Q (ids ++ (ids' ++ todo)) s) :
    Inv l base r N Q (ids' ++ (ids ++ todo)) s := by
  refine h.weaken fun id => ?_
  simp only [count_append]
  omega

lemma nameVoids (h : Inv l base r N Q (occurrencesAll vs ++ todo) s)
    (voids : ∀ v ∈ vs, l.isSingleton v = true) :
    ∃ N', Forall₂ (Reads (Stands N' [])) vs
        ((range vs.length).map fun i => varOf (s.next + i)) ∧
      N.Sub N' ∧ Inv l base r N' Q todo { s with next := s.next + vs.length } := by
  induction vs generalizing N s with
  | nil => exact ⟨N, .nil, .refl N, h⟩
  | cons v vs ih =>
    obtain ⟨name, id, rfl, single⟩ := isSingleton_iff.1 (voids v mem_cons_self)
    obtain ⟨fresh, h'⟩ := (h.more 1).nameOnce h.proper.free_next single
    obtain ⟨N', reads, sub, inv⟩ := ih h' fun v hv => voids v (mem_cons_of_mem _ hv)
    have sub' := Names.sub_add (w := s.next) fresh
    refine ⟨N', ?_, sub'.trans sub, ?_⟩
    · rw [length_cons, range_varOf]
      refine .cons (.stands (.inr ⟨name, id, rfl, ?_⟩)) reads
      obtain ⟨known, var⟩ := sub id mem_cons_self
      exact ⟨known, by rw [var]; simp [Names.add]⟩
    · rw [length_cons, Nat.add_comm vs.length 1, ← Nat.add_assoc]
      exact inv

/-- The code adds terms that read `args` to the structure `p`, and `k` more are to come. Variables are
open now for the structures `nested` among them, in the registers `regs`. -/
def Adds (l : Layout) (base : Nat) (todo : List Nat) (p : Pending) (k : Nat)
    (args nested : List Term) (regs ids : List Nat) (r : Registers) (N : Names) (Q : List Open)
    (s : State) (code : List Instruction) (r' : Registers) : Prop :=
  ∃ N' s' xs new, run code (complete s) = some (complete s') ∧
    Awaits s' { p with parts := p.parts ++ xs, missing := k } k ∧
    Forall₂ (Reads (Stands N' new)) args xs ∧
    Inv l base r' N' (Q ++ new) (occurrencesAll (new.map Open.term) ++ todo) s' ∧
    new.map Open.term = nested ∧ new.map Open.reg = regs ∧ (∀ n < r.nextTemp, s'.x n = s.x n) ∧
    Passes l ids r N s r' N' s'

lemma Adds.trans {r'' : Registers} {ids ids' regs regs' : List Nat} {k' : Nat}
    {args args' nested nested' : List Term} {code code' : List Instruction}
    (h : Adds l base todo p k args nested regs ids r N Q s code r') (todo' : List Nat)
    (more : ∀ {N' s' xs new}, Awaits s' { p with parts := p.parts ++ xs, missing := k } k →
      Inv l base r' N' (Q ++ new) (occurrencesAll (new.map Open.term) ++ todo) s' →
      (∀ n < r.nextTemp, s'.x n = s.x n) → Passes l ids r N s r' N' s' →
      Adds l base (occurrencesAll (new.map Open.term) ++ todo')
        { p with parts := p.parts ++ xs, missing := k } k' args' nested' regs' ids' r' N' (Q ++ new)
        s' code' r'') :
    Adds l base todo' p k' (args ++ args') (nested ++ nested') (regs ++ regs') (ids ++ ids') r N Q s
      (code ++ code') r'' := by
  obtain ⟨N₁, s₁, xs₁, new₁, run₁, awaits₁, reads₁, inv₁, terms₁, regs₁, low₁, passes₁⟩ := h
  obtain ⟨N₂, s₂, xs₂, new₂, run₂, awaits₂, reads₂, inv₂, terms₂, regs₂, low₂, passes₂⟩ :=
    more awaits₁ inv₁ low₁ passes₁
  refine ⟨N₂, s₂, xs₁ ++ xs₂, new₁ ++ new₂, ?_, by simpa using awaits₂, ?_, ?_,
    by rw [map_append, terms₁, terms₂], by rw [map_append, regs₁, regs₂], fun n lt => ?_,
    passes₁.trans passes₂⟩
  · rw [run_append, run₁]
    exact run₂
  · exact rel_append (readsAll_widen reads₁ passes₂.names fun o ho => mem_append_left new₂ ho)
      (readsAll_widen reads₂ (.refl N₂) fun o ho => mem_append_right new₁ ho)
  · rw [← append_assoc]
    refine inv₂.weaken fun id => ?_
    simp only [map_append, occurrencesAll_append, count_append]
    omega
  · rw [low₂ n (Nat.lt_of_lt_of_le lt passes₁.next), low₁ n lt]

lemma adds_voids (void : Nat → Instruction) (h : Inv l base r N Q (occurrencesAll vs ++ todo) s)
    (voids : ∀ v ∈ vs, l.isSingleton v = true) (awaits : Awaits s p (vs.length + k))
    (add : step s (void vs.length) = s.addVoids p.target.inHead vs.length) :
    Adds l base todo p k vs [] [] (occurrencesAll vs) r N Q s
      (if vs.length = 0 then [] else [void vs.length]) r := by
  obtain ⟨N', reads, sub, inv⟩ := h.nameVoids voids
  have added : run (if vs.length = 0 then [] else [void vs.length]) (complete s) =
      s.addVoids p.target.inHead vs.length := by
    cases vs with
    | nil =>
      cases s
      cases awaits.pending
      simp [addVoids, State.addParts, run_nil]
    | cons v vs =>
      rw [length_cons, Nat.add_right_comm] at awaits
      rw [awaits.complete_eq, if_neg (by simp), run_one, add]
  have parts := Awaits.addParts (s := { s with next := s.next + vs.length })
    (l := (range vs.length).map fun i => varOf (s.next + i))
    ⟨awaits.pending, by simpa using awaits.missing, awaits.unfinished⟩
  refine ⟨N', _, _, [], added.trans parts, ⟨rfl, rfl, awaits.unfinished⟩, reads, ?_, rfl, rfl,
    fun _ _ => rfl, { Passes.idle r N s _ _ _ with names := sub }⟩
  rw [append_nil]
  exact inv.withPending _

section

variable (awaits : Awaits s p (k + 1)) {i : Instruction} {arg x : Term}

include awaits

lemma adds_one {ids : List Nat} {N' : Names} (s' : State) (new : List Open)
    (hstep : step s i = s'.addParts p.target.inHead [x]) (same : s'.pending = s.pending)
    (reads : Reads (Stands N' new) arg x)
    (inv : Inv l base r' N' (Q ++ new) (occurrencesAll (new.map Open.term) ++ todo) s')
    (low : ∀ n < r.nextTemp, s'.x n = s.x n) (passes : Passes l ids r N s r' N' s') :
    Adds l base todo p k [arg] (new.map Open.term) (new.map Open.reg) ids r N Q s [i] r' := by
  have unfinished := passes.finished.trans awaits.unfinished
  have awaits' : Awaits s' p ([x].length + k) :=
    ⟨same.trans awaits.pending, awaits.missing.trans (Nat.add_comm k 1), unfinished⟩
  refine ⟨N', { s' with pending := some { p with parts := p.parts ++ [x], missing := k } }, [x], new,
    ?_, ⟨rfl, rfl, unfinished⟩, .cons reads .nil, inv.withPending _, rfl, rfl, low,
    passes.reset s'.x _⟩
  rw [awaits.complete_eq, run_one, hstep]
  exact awaits'.addParts

lemma adds_known (ids : List Nat) (h : Inv l base r N Q todo s) (reads : Reads (Stands N []) arg x)
    (hstep : step s i = s.addParts p.target.inHead [x]) :
    Adds l base todo p k [arg] [] [] ids r N Q s [i] r :=
  adds_one awaits s [] hstep rfl reads (by rwa [append_nil]) (fun _ _ => rfl) (.idle r N s _ _ _)

lemma adds_var {id : Nat} (name : String) (h : Inv l base r N Q (id :: todo) s)
    (several : id ∉ l.singletons) :
    ∃ reg first r', Lowering.occurrence l id r = ((reg, first), r') ∧
      ∀ i, step s i = (if first then s.addVariable p.target.inHead reg
          else s.addValue p.target.inHead reg) →
        Adds l base todo p k [.var name id] [] [] [id] r N Q s [i] r' := by
  by_cases hs : id ∈ r.seen
  · obtain ⟨reg, eq, known, get, inv, passes⟩ := h.again hs
    refine ⟨reg, false, _, eq, fun i hstep => ?_⟩
    exact adds_one awaits _ [] (by simpa [addValue, get] using hstep) rfl
      (.stands (.inr ⟨name, id, rfl, known, rfl⟩)) (by rwa [append_nil]) (fun _ _ => rfl) passes
  · obtain ⟨reg, s', r', eq, set, fresh, inv, low, passes, same, _⟩ :=
      (h.more 1).first h.proper.free_next hs several
    refine ⟨reg, true, r', eq, fun i hstep => ?_⟩
    exact adds_one awaits _ [] (by simpa [addVariable, set] using hstep) same
      (.stands (.inr ⟨name, id, rfl, mem_cons_self, by simp [Names.add]⟩)) (by rwa [append_nil]) low
      (passes.reset _ _)

end

end Inv

end Horn.CodeReading
