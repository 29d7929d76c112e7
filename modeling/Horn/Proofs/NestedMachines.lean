import Horn.Proofs.TriedClauses

/-!
# Computations of nested machines

To collect the instances of a template, a machine is run inside another, which waits for it.
`Computation.Next` takes the steps of the innermost machine one by one, with no bound on their
number.
-/

namespace Horn

open List Machine

variable {n : Nat}

namespace Machine

structure Waiting where
  goals : List Goal
  choices : Array Choice
  mark : Nat
  template : Term
  result : Term
  found : List Term

inductive Phase where
  | running (failed : Bool)
  | answered
  | exhausted
  | halted

end Machine

open Machine (Waiting Phase Outcome)

structure Computation where
  phase : Phase
  machine : Machine
  waiting : List Waiting

namespace Machine

def Waiting.world (s : Waiting) (w : World) : World :=
  ⟨w.bindings.undo s.mark, w.operators, w.output⟩

def waitFor (m : Machine) (template result : Term) : Waiting :=
  ⟨m.goals, m.choices, m.world.bindings.mark, template, result, []⟩

lemma step_findall {p : Program} {w : World} {term template goal result : Term} {barrier : Nat}
    {rest : List Goal} {choices : Array Choice}
    (calls : (w.bindings.walk term).unmarked = .compound "findall" [template, goal, result]) :
    step p n false ⟨w, .call term barrier :: rest, choices⟩ =
      .collect template goal result ⟨w, rest, choices⟩ := by
  have found : Builtin.lookup? ⟨"findall", 3⟩ = some .findall := by decide
  have functor : (Term.compound "findall" [template, goal, result]).functor? =
      some ⟨"findall", 3⟩ := rfl
  change call p n ⟨w, rest, choices⟩ term barrier = _
  simp only [call, calls, Term.isAtom, Bool.false_eq_true, if_false, functor, found]
  rfl

end Machine

namespace Computation

/-- One step of the innermost machine, or one from machine to machine. Any fuel may be given to a
step, and a computation may be stopped for want of it. -/
inductive Next (p : Program) : Computation → Computation → Prop where
  | go {n : Nat} {failed : Bool} {m m' : Machine} {ws : List Waiting}
      (step : m.step p n failed = .go m') :
      Next p ⟨.running failed, m, ws⟩ ⟨.running false, m', ws⟩
  | fail {n : Nat} {failed : Bool} {m m' : Machine} {ws : List Waiting}
      (step : m.step p n failed = .fail m') :
      Next p ⟨.running failed, m, ws⟩ ⟨.running true, m', ws⟩
  | answer {n : Nat} {failed : Bool} {m m' : Machine} {ws : List Waiting}
      (step : m.step p n failed = .solution m') :
      Next p ⟨.running failed, m, ws⟩ ⟨.answered, m', ws⟩
  | exhaust {n : Nat} {failed : Bool} {m m' : Machine} {ws : List Waiting}
      (step : m.step p n failed = .exhausted m') :
      Next p ⟨.running failed, m, ws⟩ ⟨.exhausted, m', ws⟩
  | halt {n : Nat} {failed : Bool} {m m' : Machine} {ws : List Waiting} {h : Halt}
      (step : m.step p n failed = .halt h m') :
      Next p ⟨.running failed, m, ws⟩ ⟨.halted, m', ws⟩
  | collect {n : Nat} {failed : Bool} {m m' : Machine} {ws : List Waiting}
      {template goal result : Term} (step : m.step p n failed = .collect template goal result m') :
      Next p ⟨.running failed, m, ws⟩
        ⟨.running false, .start m'.world (.compound "call" [goal]),
          m'.waitFor template result :: ws⟩
  | more {m : Machine} : Next p ⟨.answered, m, []⟩ ⟨.running true, m, []⟩
  | found {n : Nat} {m : Machine} {s : Waiting} {ws : List Waiting} {t : Term}
      (resolved : m.world.bindings.resolve? n s.template = some t) :
      Next p ⟨.answered, m, s :: ws⟩ ⟨.running true, m, { s with found := t :: s.found } :: ws⟩
  | gathered {n : Nat} {m : Machine} {s : Waiting} {ws : List Waiting} {unified : Bool} {w : World}
      (unify : Machine.unifyFound n s.found.reverse s.result (s.world m.world) = .ok unified w) :
      Next p ⟨.exhausted, m, s :: ws⟩ ⟨.running (!unified), ⟨w, s.goals, s.choices⟩, ws⟩
  | ungathered {n : Nat} {m : Machine} {s : Waiting} {ws : List Waiting} {h : Halt} {w : World}
      (unify : Machine.unifyFound n s.found.reverse s.result (s.world m.world) = .error h w) :
      Next p ⟨.exhausted, m, s :: ws⟩ ⟨.halted, ⟨w, s.goals, s.choices⟩, ws⟩
  | unwind {m : Machine} {s : Waiting} {ws : List Waiting} :
      Next p ⟨.halted, m, s :: ws⟩ ⟨.halted, ⟨s.world m.world, s.goals, s.choices⟩, ws⟩
  | outOfFuel {c : Computation} : Next p c { c with phase := .halted }

def Reaches (p : Program) : Computation → Computation → Prop := Relation.ReflTransGen (Next p)

def after (ws : List Waiting) : Outcome → Computation
  | .solution m => ⟨.answered, m, ws⟩
  | .exhausted m => ⟨.exhausted, m, ws⟩
  | .halted _ m => ⟨.halted, m, ws⟩

def Collects (p : Program) (c : Computation) (s : Waiting) (ws : List Waiting) :
    Except Halt (List Term) × World → Prop
  | (.ok found, w) => ∃ m, m.world = w ∧
      Reaches p c ⟨.exhausted, m, { s with found := found.reverse } :: ws⟩
  | (.error _, w) => ∃ m found, m.world = w ∧
      Reaches p c ⟨.halted, m, { s with found := found } :: ws⟩

variable {p : Program} {c c' c'' : Computation} {r : Except Halt (List Term) × World}
  {ws : List Waiting} {s : Waiting}

lemma Reaches.head (first : Next p c c') (rest : Reaches p c' c'') : Reaches p c c'' :=
  Relation.ReflTransGen.head first rest

lemma Reaches.trans (h : Reaches p c c') (h' : Reaches p c' c'') : Reaches p c c'' :=
  Relation.ReflTransGen.trans h h'

lemma Collects.trans
    (h : Reaches p c c') (h' : Collects p c' s ws r) :
    Collects p c s ws r := by
  obtain ⟨_ | found, w⟩ := r
  · obtain ⟨m, found, world, rest⟩ := h'
    exact ⟨m, found, world, h.trans rest⟩
  · obtain ⟨m, world, rest⟩ := h'
    exact ⟨m, world, h.trans rest⟩

lemma Collects.again {found : List Term}
    (h : Collects p c { s with found := found } ws r) :
    Collects p c s ws r := by
  obtain ⟨_ | _, w⟩ := r <;> exact h

lemma Collects.goOn (h : Collects p c s ws r)
    (runs : ∀ failed m, Reaches p ⟨.running failed, m, ws⟩ (after ws (run p n failed m))) :
    Reaches p c (after ws (gathered p n s.mark s.result s.goals s.choices r)) := by
  obtain ⟨_ | found, w⟩ := r
  · obtain ⟨m, found, rfl, stopped⟩ := h
    exact stopped.tail .unwind
  · obtain ⟨m, rfl, done⟩ := h
    rw [gathered]
    split
    · next halt w unify =>
      refine done.tail (.ungathered (n := n) (h := halt) ?_)
      rw [reverse_reverse]
      exact unify
    · next unify =>
      refine done.trans (.head (.gathered (n := n) ?_) (runs _ _))
      rw [reverse_reverse]
      exact unify

lemma reaches_bounded (p : Program) (n : Nat) :
    (∀ failed m ws, Reaches p ⟨.running failed, m, ws⟩ (after ws (run p n failed m))) ∧
    ∀ failed m s ws, Collects p ⟨.running failed, m, s :: ws⟩ s ws
      (collect p n failed s.template m s.found) := by
  induction n with
  | zero =>
    refine ⟨fun failed m ws => ?_, fun failed m s ws => ?_⟩
    · rw [run]
      exact .single .outOfFuel
    · rw [collect]
      exact ⟨m, s.found, rfl, .single .outOfFuel⟩
  | succ n ih =>
    obtain ⟨runs, collects⟩ := ih
    refine ⟨fun failed m ws => ?_, fun failed m s ws => ?_⟩
    · rw [run_succ]
      cases step : m.step p n failed with
      | go m' => exact .head (.go step) (runs false m' ws)
      | fail m' => exact .head (.fail step) (runs true m' ws)
      | solution m' => exact .single (.answer step)
      | exhausted m' => exact .single (.exhaust step)
      | halt h m' => exact .single (.halt step)
      | collect template goal result m' =>
        have inner := collects false (.start m'.world (.compound "call" [goal]))
          (m'.waitFor template result) ws
        exact (Collects.trans (.single (.collect step)) inner).goOn fun failed m =>
          runs failed m ws
    · rw [collect]
      have first := runs failed m (s :: ws)
      cases run : run p n failed m with
      | exhausted m' =>
        rw [run] at first
        refine ⟨m', rfl, ?_⟩
        rw [reverse_reverse]
        exact first
      | halted h m' =>
        rw [run] at first
        exact ⟨m', s.found, rfl, first⟩
      | solution m' =>
        rw [run] at first
        dsimp only
        split
        · exact ⟨m', s.found, rfl, first.tail .outOfFuel⟩
        · next t resolved =>
          have rest := collects true m' { s with found := t :: s.found } ws
          exact (Collects.trans (first.tail (.found resolved)) rest).again

end Computation

end Horn
