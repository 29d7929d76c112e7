import Horn.Proofs.BoundedRuns

/-! # Instances that are collected -/

namespace Horn

open List Term Machine Bindings Horn.Action

namespace Bindings

variable {b b' : Bindings}
  {t : Term}

lemma walk_of_unbound (h : ∀ v ∈ t.ids, b.value? v = none) : b.walk t = t :=
  Search.Image.walk_stays fun _ v eq => h v (by simp [eq])

lemma Sound.resolved_unbound (h : b.Sound) {n : Nat} {r : Term} (run : b.resolve? n t = some r) :
    ∀ v ∈ r.ids, b.value? v = none := by
  refine (resolve?_induct (P := fun _ _ r => ∀ v ∈ r.ids, b.value? v = none)
    (Q := fun _ _ rs => ∀ r ∈ rs, ∀ v ∈ r.ids, b.value? v = none) ?_ ?_ ?_ nofun ?_ n).1 run
  · intro n t r walked leaf v hv
    cases r with
    | var name id =>
      rw [mem_ids_var.1 hv]
      exact h.walk_unbound walked
    | atom | number => cases hv
    | compound | cell => cases leaf
  · intro n t f args rs _ all v hv
    obtain ⟨r, hr, hv⟩ := mem_ids_compound.1 hv
    exact all r hr v hv
  · intro n t x y u w _ one two v hv
    exact (mem_ids_cell.1 hv).elim (one v) (two v)
  · intro n t r ts rs one all
    exact forall_mem_cons.2 ⟨one, all⟩

lemma resolved_again {k : Nat} {r : Term} (run : b.resolve? k t = some r) :
    ∀ n, k ≤ n → (∀ v ∈ r.ids, b'.value? v = none) → b'.resolve? n r = some r := by
  refine (resolve?_induct
    (P := fun k _ r => ∀ n, k ≤ n → (∀ v ∈ r.ids, b'.value? v = none) → b'.resolve? n r = some r)
    (Q := fun k _ rs => ∀ n, k ≤ n → (∀ r ∈ rs, ∀ v ∈ r.ids, b'.value? v = none) →
      b'.resolveAll? n rs = some rs) ?_ ?_ ?_ ?_ ?_ k).1 run
  · intro k t r _ leaf
    exact of_succ_le fun n _ unbound => resolve?_leaf (walk_of_unbound unbound) leaf n
  · intro k t f args rs _ all
    refine of_succ_le fun n le unbound => resolve?_compound (walk_of_unbound unbound) ?_
    exact all n le fun r hr v hv => unbound v (mem_ids_compound.2 ⟨r, hr, hv⟩)
  · intro k t x y u w _ one two
    refine of_succ_le fun n le unbound => resolve?_cell (walk_of_unbound unbound) ?_ ?_
    · exact one n le fun v hv => unbound v (mem_ids_cell.2 (.inl hv))
    · exact two n le fun v hv => unbound v (mem_ids_cell.2 (.inr hv))
  · exact of_succ_le fun _ _ _ => rfl
  · intro k t r ts rs one all
    refine of_succ_le fun n le unbound => ?_
    obtain ⟨first, others⟩ := forall_mem_cons.1 unbound
    exact resolveAll?_cons (one n le first) (all n le others)

lemma Later.unbound (h : b.Later b') (sound : b.Sound) {v : Nat} (unbound : b'.value? v = none) :
    b.value? v = none := by
  rw [← Option.not_isSome_iff_eq_none, ← sound.bound]
  intro mem
  have some := (sound.bound v).1 mem
  rw [← h.kept v mem, unbound] at some
  cases some

end Bindings

namespace Machine

variable {p : Program} {b : Bindings} {m : Machine} {failed : Bool} {template : Term}
  {n : Nat}

/-- A machine comes to some solutions one after the other, each time going on as if it had failed,
and then it is exhausted or an error is raised. With each solution comes the template as the
solution has it. -/
inductive Finds (p : Program) (template : Term) :
    Bool → Machine → List (Machine × Term) → Option ExecutionError → World → Prop where
  | exhausted {n : Nat} {failed : Bool} {m last : Machine}
      (run : run p n failed m = .exhausted last) : Finds p template failed m [] none last.world
  | raised {n : Nat} {failed : Bool} {m last : Machine} {e : ExecutionError}
      (run : run p n failed m = .halted (.raised e) last) :
      Finds p template failed m [] (some e) last.world
  | next {n k : Nat} {failed : Bool} {m answer : Machine} {t : Term}
      {answers : List (Machine × Term)} {e : Option ExecutionError} {w : World}
      (run : run p n failed m = .solution answer)
      (resolved : answer.world.bindings.resolve? k template = some t)
      (rest : Finds p template true answer answers e w) :
      Finds p template failed m ((answer, t) :: answers) e w

variable {answers : List (Machine × Term)} {e : Option ExecutionError} {w : World}
  {found ts : List Term} {w' : World}

def ending (found : List Term) : Option ExecutionError → Except Halt (List Term)
  | none => .ok found
  | some e => .error (.raised e)

lemma Finds.collect (h : Finds p template failed m answers e w) :
    ∃ N, ∀ n, N ≤ n → ∀ found, collect p n failed template m found =
      (ending (found.reverse ++ answers.map (·.2)) e, w) := by
  induction h with
  | @exhausted n _ _ _ run =>
    refine ⟨n + 1, fun k le found => ?_⟩
    obtain ⟨k, rfl⟩ := Nat.exists_eq_add_of_le' (Nat.le_of_add_left_le le)
    rw [Machine.collect, run_of_le run (by simp [Outcome.Spent]) (Nat.le_of_add_le_add_right le)]
    simp [ending]
  | @raised n _ _ _ _ run =>
    refine ⟨n + 1, fun k le found => ?_⟩
    obtain ⟨k, rfl⟩ := Nat.exists_eq_add_of_le' (Nat.le_of_add_left_le le)
    rw [Machine.collect, run_of_le run (by simp [Outcome.Spent]) (Nat.le_of_add_le_add_right le)]
    rfl
  | @next n j _ _ _ t _ _ _ run resolved _ ih =>
    obtain ⟨N, rest⟩ := ih
    refine ⟨max n (max j N) + 1, fun k le found => ?_⟩
    obtain ⟨k, rfl⟩ := Nat.exists_eq_add_of_le' (Nat.le_of_add_left_le le)
    have le := Nat.le_of_add_le_add_right le
    rw [Machine.collect, run_of_le run (by simp [Outcome.Spent]) (show n ≤ k by omega)]
    simp only [resolve?_of_le resolved (show j ≤ k by omega), rest k (by omega)]
    simp

lemma finds_of_collect {all : List Term}
    (collected : collect p n failed template m found = (.ok all, w)) :
    ∃ answers, Finds p template failed m answers none w ∧
      all = found.reverse ++ answers.map (·.2) := by
  induction n generalizing failed m found with
  | zero => cases collected
  | succ n ih =>
    rw [collect] at collected
    cases ran : run p n failed m with
    | halted h m' =>
      rw [ran] at collected
      cases collected
    | exhausted m' =>
      rw [ran] at collected
      cases collected
      exact ⟨[], .exhausted ran, (append_nil _).symm⟩
    | solution m' =>
      rw [ran] at collected
      dsimp only at collected
      split at collected
      · cases collected
      · next t resolved =>
        obtain ⟨answers, finds, eq⟩ := ih collected
        refine ⟨(m', t) :: answers, .next ran resolved finds, ?_⟩
        rw [eq, reverse_cons, append_assoc]
        rfl

lemma Finds.since (h : Finds p template failed m answers e w) (since : m.Since b) :
    b.Later w.bindings ∧ ∃ N, ∀ x ∈ answers, x.1.Since b ∧
      ∃ k, k ≤ N ∧ x.1.world.bindings.resolve? k template = some x.2 := by
  induction h with
  | @exhausted n failed m _ run =>
    have goesOn := since.run p n failed
    rw [run] at goesOn
    exact ⟨goesOn.later, 0, nofun⟩
  | @raised n failed m _ _ run =>
    have goesOn := since.run p n failed
    rw [run] at goesOn
    exact ⟨goesOn.later, 0, nofun⟩
  | @next n j failed m _ t _ _ _ run resolved _ ih =>
    have goesOn := since.run p n failed
    rw [run] at goesOn
    obtain ⟨later, N, each⟩ := ih goesOn
    refine ⟨later, max j N, forall_mem_cons.2 ⟨⟨goesOn, j, Nat.le_max_left _ _, resolved⟩, ?_⟩⟩
    intro x hx
    obtain ⟨since, k, le, resolved⟩ := each x hx
    exact ⟨since, k, Nat.le_trans le (Nat.le_max_right _ _), resolved⟩

lemma renamed_above {us : List Term} (h : List.Forall₂ (Term.Renamed n) ts us) :
    ∀ u ∈ us, ∀ v ∈ u.ids, n ≤ v := by
  induction h with
  | nil => exact nofun
  | cons first _ ih => exact forall_mem_cons.2 ⟨first.above, ih⟩

def Apart (ts : List Term) : Prop := ts.Pairwise fun t u => ∀ v ∈ t.ids, v ∉ u.ids

lemma copies_apart (resolved : ∀ t ∈ ts, ∀ b, w.bindings.Restored b → b.resolve? n t = some t) :
    ∃ us b, ts.mapM (copy n) w = .ok us ⟨b, w.operators, w.output⟩ ∧
      List.Forall₂ (Term.Renamed w.bindings.values.size) ts us ∧ Apart us ∧
      w.bindings.Restored b := by
  induction ts generalizing w with
  | nil => exact ⟨[], w.bindings, rfl, .nil, .nil, .refl _⟩
  | cons t ts ih =>
    obtain ⟨first, others⟩ := forall_mem_cons.1 resolved
    obtain ⟨u, b₁, copy, renamed, inside, back⟩ := copy_renamed (first _ (.refl _))
    have step : Action.copy n t w = .ok u ⟨b₁, w.operators, w.output⟩ := by
      rw [Action.copy, Action.fueled_onBindings, copy]
    obtain ⟨us, b₂, rest, renamed', apart, back'⟩ :=
      ih (w := ⟨b₁, w.operators, w.output⟩) fun t ht b h => others t ht b (back.trans h)
    refine ⟨u :: us, b₂, ?_, .cons renamed ?_, .cons ?_ apart, back.trans back'⟩
    · rw [mapM_cons, bind_apply, step]
      dsimp only
      rw [bind_apply, rest]
      rfl
    · refine renamed'.imp fun t u h => ?_
      obtain ⟨place, eq, le, inj⟩ := h
      exact ⟨place, eq, fun v hv => Nat.le_trans back.room (le v hv), inj⟩
    · -- The variables of later copies are those that there was no room for.
      intro u' hu' v hv hv'
      exact absurd (inside v hv) (Nat.not_lt_of_le (renamed_above renamed' u' hu' v hv'))

/-- The instances of a template for some solutions, with variables that the solutions leave unbound,
are copied in order. Each copy has variables of its own, from `n` on. -/
structure Instances (n : Nat) (answers : List (Machine × Term)) (copies : List Term) : Prop where
  unbound : ∀ x ∈ answers, ∀ v ∈ x.2.ids, x.1.world.bindings.value? v = none
  renamed : List.Forall₂ (Term.Renamed n) (answers.map (·.2)) copies
  apart : Apart copies

def unifying (p : Program) (n : Nat) (s t : Term) (m : Machine) : Outcome :=
  match Action.unify n s t m.world with
  | .ok unified w => run p n (!unified) ⟨w, m.goals, m.choices⟩
  | .error h w => .halted h ⟨w, m.goals, m.choices⟩

lemma gathered_eq {mark : Nat} {result : Term} {goals : List Goal} {choices : Array Choice}
    {copies : List Term}
    (copied : found.mapM (copy n) ⟨w.bindings.undo mark, w.operators, w.output⟩ = .ok copies w') :
    gathered p n mark result goals choices (.ok found, w) =
      unifying p n result (.list copies) ⟨w', goals, choices⟩ := by
  rw [gathered, unifyFound, bind_apply, copied, unifying]
  dsimp only
  cases unify n result (.list copies) w' <;> rfl

lemma Finds.instances {goal : Term} (sound : w.bindings.Sound)
    (h : Finds p template false (start w goal) answers none w') :
    ∃ copies b N, Instances (w'.bindings.undo w.bindings.mark).values.size answers copies ∧
      w.bindings.Restored b ∧ ∀ n, N ≤ n → (answers.map (·.2)).mapM (copy n)
        ⟨w'.bindings.undo w.bindings.mark, w'.operators, w'.output⟩ =
          .ok copies ⟨b, w'.operators, w'.output⟩ := by
  obtain ⟨later, N, each⟩ := h.since (since_start sound goal)
  have back := later.undo sound
  have unbound : ∀ x ∈ answers, ∀ v ∈ x.2.ids, x.1.world.bindings.value? v = none := by
    intro x hx
    obtain ⟨since, k, -, resolved⟩ := each x hx
    exact since.later.sound.resolved_unbound resolved
  -- What is unbound for a solution was unbound before, so an instance is resolved to itself.
  have resolved : ∀ t ∈ answers.map (·.2), ∀ b, (w'.bindings.undo w.bindings.mark).Restored b →
      b.resolve? N t = some t := by
    refine forall_mem_map.2 fun x hx b h => ?_
    obtain ⟨since, k, le, resolved⟩ := each x hx
    refine resolved_again resolved N le fun v hv => ?_
    rw [(back.trans h).value]
    exact since.later.unbound sound (unbound x hx v hv)
  obtain ⟨copies, b, copied, renamed, apart, back'⟩ :=
    copies_apart (w := ⟨w'.bindings.undo w.bindings.mark, w'.operators, w'.output⟩) resolved
  refine ⟨copies, b, N, ⟨unbound, renamed, apart⟩, back.trans back', fun n le => ?_⟩
  exact Upkeep.of_le (.mapM .copy (Upkeep.forall₂_fits fun _ _ => Upkeep.free_fits)) copied le

end Machine

open Machine (Finds Instances unifying)
open Horn.Computation (Reaches)

lemma Engine.since_machine (e : Engine) (ops : OperatorTable) (count : Nat) (goal : Term) :
    Computation.Since (empty.reserve count).2
      ⟨.running false, e.machine ops count goal, []⟩ :=
  ⟨(Search.Image.start.sound.reserve count).sound.later, nofun⟩

/-- Wherever a computation comes to a call of `findall/3`, its goal is solved in every way by a
machine of its own. If an error is raised there, the machine halts with it, and the variables are
bound as they were before. If the search is exhausted, the result is unified with the list of the
instances of the template for the solutions, and all variables are bound as they were before until
then. An instance has variables of its own that have occurred nowhere. -/
theorem Engine.findall_collects_instances {e : Engine} {ops : OperatorTable} {count : Nat}
    {start : Term} (fits : start.idBound ≤ count) {w : World} {term : Term} {barrier : Nat}
    {rest : List Goal} {choices : Array Choice} {ws : List Machine.Waiting}
    (reached : Reaches e.program ⟨.running false, e.machine ops count start, []⟩
      ⟨.running false, ⟨w, .call term barrier :: rest, choices⟩, ws⟩)
    {template goal result : Term}
    (calls : (w.bindings.walk term).unmarked = .compound "findall" [template, goal, result])
    {answers : List (Machine × Term)} {w' : World} :
    (∀ error, Finds e.program template false (.start w (.compound "call" [goal])) answers
        (some error) w' →
      ∃ b N, w.bindings.Restored b ∧ ∀ n, N ≤ n →
        Machine.run e.program n false ⟨w, .call term barrier :: rest, choices⟩ =
          .halted (.raised error) ⟨⟨b, w'.operators, w'.output⟩, rest, choices⟩) ∧
    (Finds e.program template false (.start w (.compound "call" [goal])) answers none w' →
      ∃ room copies b N, Instances room answers copies ∧
        (∀ id, Computation.Occurs ⟨.running false, ⟨w, .call term barrier :: rest, choices⟩, ws⟩ id →
          id < room) ∧
        w.bindings.Restored b ∧ ∀ n, N ≤ n →
          Machine.run e.program (n + 1) false ⟨w, .call term barrier :: rest, choices⟩ =
            unifying e.program n result (.list copies)
              ⟨⟨b, w'.operators, w'.output⟩, rest, choices⟩) := by
  have sound : w.bindings.Sound := (reached.since (e.since_machine ops count start)).sound
  have ⟨⟨placed, _⟩, _⟩ := reached.allotted (e.allotted_machine ops fits).1
  have runs (n : Nat) : run e.program (n + 1) false ⟨w, .call term barrier :: rest, choices⟩ =
      gathered e.program n w.bindings.mark result rest choices
        (collect e.program n false template (.start w (.compound "call" [goal])) []) := by
    rw [run_succ, step_findall calls, proceed]
  have back {x : Option ExecutionError}
      (h : Finds e.program template false (.start w (.compound "call" [goal])) answers x w') :
      w.bindings.Restored (w'.bindings.undo w.bindings.mark) :=
    (h.since (since_start sound _)).1.undo sound
  refine ⟨fun error h => ?_, fun h => ?_⟩
  · obtain ⟨N, collects⟩ := h.collect
    refine ⟨_, N + 1, back h, fun n le => ?_⟩
    obtain ⟨n, rfl⟩ := Nat.exists_eq_add_of_le' (Nat.le_of_add_left_le le)
    rw [runs, collects n (Nat.le_of_add_le_add_right le)]
    rfl
  · obtain ⟨N, collects⟩ := h.collect
    obtain ⟨copies, b, N', instances, restored, copied⟩ := h.instances sound
    refine ⟨_, copies, b, max N N', instances, fun id occurs => ?_, restored, fun n le => ?_⟩
    · exact Nat.lt_of_lt_of_le (placed id occurs).2 (back h).room
    · rw [runs, collects n (by omega)]
      exact gathered_eq (copied n (by omega))

/-- With `r(f(Y))` and `r(2)`, the goal `findall(p(X, Z), r(X), L)` has two instances to collect. In
both `Z` is unbound, and in the first so is a variable of the clause. -/
theorem Engine.findall_collects_instances_unbound :
    let x : Term := .var "X" 0
    let z : Term := .var "Z" 1
    let l : Term := .var "L" 2
    let fact (t : Term) (line : Nat) : CompiledClause :=
      ⟨⟨"r", 1⟩, ⟨0⟩, Clause.mark ⟨some (.compound "r" [t]), [], .fact, ⟨line, 1⟩⟩, [], 0, []⟩
    let r : Predicate := ⟨⟨"r", 1⟩, [fact (.compound "f" [.var "Y" 0]) 1, fact (.int 2) 2], false⟩
    let template : Term := .compound "p" [x, z]
    let goal : Term := .compound "findall" [template, .compound "r" [x], l]
    let e : Engine := ⟨.ofPredicates [r], .error, none, ""⟩
    let w : World := ⟨(empty.reserve 3).2, .standard, ""⟩
    ∃ answers w' room copies b N,
      Finds e.program template false (.start w (.compound "call" [.compound "r" [x]])) answers none
        w' ∧
      answers.map (·.2) =
        [.compound "p" [.compound "f" [.var "_G3" 3], z], .compound "p" [.int 2, z]] ∧
      Instances room answers copies ∧
      (∀ id, Computation.Occurs ⟨.running false, e.machine .standard 3 goal, []⟩ id → id < room) ∧
      w.bindings.Restored b ∧ ∀ n, N ≤ n →
        run e.program (n + 1) false (e.machine .standard 3 goal) =
          unifying e.program n l (.list copies) ⟨⟨b, w'.operators, w'.output⟩, [], #[]⟩ := by
  intro x z l fact r template goal e w
  have found : (collect e.program 9 false template
      (.start w (.compound "call" [.compound "r" [x]])) []).1.toOption =
        some [.compound "p" [.compound "f" [.var "_G3" 3], z], .compound "p" [.int 2, z]] := by
    decide +kernel
  rcases collected : collect e.program 9 false template
      (.start w (.compound "call" [.compound "r" [x]])) [] with ⟨_ | all, w'⟩
  · rw [collected] at found
    cases found
  · rw [collected] at found
    obtain ⟨answers, finds, eq⟩ := finds_of_collect collected
    have calls : (w.bindings.walk goal).unmarked =
        .compound "findall" [template, .compound "r" [x], l] := rfl
    obtain ⟨room, copies, b, N, instances, below, restored, runs⟩ :=
      (findall_collects_instances (e := e) (show goal.idBound ≤ 3 by decide) .refl calls).2 finds
    exact ⟨answers, w', room, copies, b, N, finds, eq.symm.trans (Option.some.inj found), instances,
      below, restored, runs⟩

end Horn
