import Horn.Preparation
import Mathlib.Tactic.Lemma

/-!
# The tasks of a preparation, one after the other

A list of tasks is done from its head, and what a task leads to is put before the rest.
-/

namespace Horn

open List

lemma Compiling.located_eq_ok {σ α : Type} {position : Text.Position} {x : Compiling σ α} {a : α}
    {s s' : Context × σ} : located position x s = .ok a s' ↔ x s = .ok a s' := by
  unfold located
  cases x s <;> simp

namespace Preparation

variable {σ : Type} (o : Observer σ) (fuel : Nat)

def complete (p : Pending) : Compiling σ PreparedClause := do
  let clause := (← Expansion.clause o fuel p.clause).mark
  let (key, marks, symbols) := (← Compiling.context).symbols.mark clause
  Compiling.changeContext ({ · with symbols })
  return ⟨clause, key, marks, p.names⟩

def expanded (r : ReadTerm) : Compiling σ (List Output) := do
  let r ← Compiling.ofExcept (withoutGrammar r)
  match ← classify o r with
  | none => return []
  | some pending => return [.clause (← complete o fuel pending)]

def allExpanded : List ReadTerm → Compiling σ (List Output)
  | [] => return []
  | r :: rest => do
    let outputs ← expanded o fuel r
    let more ← allExpanded rest
    return outputs ++ more

def completeAll : List Pending → Compiling σ (List Output)
  | [] => return []
  | p :: rest => do
    let output ← complete o fuel p
    let more ← completeAll rest
    return .clause output :: more

def termStages (r : ReadTerm) : Compiling σ (List Output) := do
  let c ← Compiling.context
  let condition (t : Term) : Compiling σ Bool := Compiling.ask (o.condition t)
  let (admitted, frames) ← c.conditionals.sift condition r.term r.position
  Compiling.changeContext ({ · with conditionals := frames })
  if admitted then
    let terms ← Compiling.located r.position (Expansion.terms o r.term)
    allExpanded o fuel (terms.map fun t => { r with term := t })
  else return []

def queryStages (r : ReadTerm) : Compiling σ PreparedClause := do
  match Clause.ofTerm (.compound "?-" [r.term]) r.position with
  | .error e => throw (.source (.clause e) "?-" r.position)
  | .ok clause => complete o fuel ⟨clause, r.names⟩

lemma run_nil : run o fuel [] = pure [] := by
  funext s
  rw [run]
  rfl

lemma run_cons (t : Task) (rest : List Task) :
    run o fuel (t :: rest) = t.perform o fuel >>= fun (new, outputs) =>
      (outputs ++ ·) <$> run o fuel (new ++ rest) := by
  funext s
  rw [run]
  cases done : t.perform o fuel s with
  | error e s' => rw [bind_error done]
  | ok new s' => simp only [bind_ok done, Task.pushAll_eq]

lemma run_append (ts us : List Task) :
    run o fuel (ts ++ us) = run o fuel ts >>= fun outputs =>
      (outputs ++ ·) <$> run o fuel us := by
  funext s
  -- Along the run of the first tasks.
  induction ts, s using run.induct o fuel with
  | case1 s => simp [run_nil]
  | case2 s t rest e s₁ failed =>
    rw [cons_append, run_cons, run_cons, bind_assoc, bind_error failed,
      bind_error failed]
  | case3 s t rest new outputs s₁ done ih =>
    simp only [Task.pushAll_eq] at ih
    have later := funext ih
    rw [cons_append, run_cons, run_cons, bind_assoc, bind_ok done, bind_ok done]
    simp only [← append_assoc, later, map_eq_pure_bind, bind_assoc, pure_bind]

lemma run_goalExpansion (p : Pending) :
    run o fuel [.goalExpansion p] = (fun done => [.clause done]) <$> complete o fuel p := by
  simp [run_cons, run_nil, Task.perform, complete]

lemma run_grammar (r : ReadTerm) : run o fuel [.grammar r] = expanded o fuel r := by
  simp only [run_cons, Task.perform, expanded, bind_assoc, pure_bind, append_nil,
    nil_append, id_map']
  congr 1
  funext r
  congr 1
  funext found
  cases found with
  | none => simp [run_nil]
  | some p => simp [run_goalExpansion]

lemma run_grammars (rs : List ReadTerm) :
    run o fuel (rs.map .grammar) = allExpanded o fuel rs := by
  induction rs with
  | nil => exact run_nil o fuel
  | cons r rs ih =>
    rw [map_cons, ← singleton_append, run_append, run_grammar, ih, allExpanded]
    simp only [map_eq_pure_bind]

lemma run_goalExpansions (ps : List Pending) :
    run o fuel (ps.map .goalExpansion) = completeAll o fuel ps := by
  induction ps with
  | nil => exact run_nil o fuel
  | cons p ps ih =>
    rw [map_cons, ← singleton_append, run_append, run_goalExpansion, ih, completeAll]
    simp

lemma term_eq (r : ReadTerm) : term o fuel r = termStages o fuel r := by
  rw [term, run_cons, termStages]
  simp only [Task.perform, bind_assoc]
  congr 1
  funext c
  congr 1
  funext ⟨admitted, frames⟩
  cases admitted with
  | false => simp [run_nil]
  | true =>
    simp [run_cons, Task.perform, ← run_grammars, Function.comp_def]

lemma query_eq (r : ReadTerm) : query o fuel r = queryStages o fuel r := by
  rw [query, queryStages]
  cases Clause.ofTerm (.compound "?-" [r.term]) r.position with
  | error e => rfl
  | ok clause => simp [run_goalExpansion, firstClause?]

end Preparation

end Horn
