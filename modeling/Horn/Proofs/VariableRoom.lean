import Horn.Proofs.AllottedVariables
import Horn.Proofs.EngineAnswers
import Horn.Proofs.NestedMachines

/-!
# Room for the variables of a computation

A computation is a machine with the machines around it, which share one store.
-/

namespace Horn

open List Term Machine Bindings Upkeep

namespace Machine

def room (m : Machine) : Nat := m.world.bindings.values.size

/-- A variable is held by the pending goals, by a choice or by the value of another variable. -/
inductive Holds (m : Machine) (id : Nat) : Prop where
  | goal {g : Goal} (mem : g ∈ m.goals) (var : id ∈ g.ids)
  | choice {c : Choice} (mem : c ∈ m.choices) (var : id ∈ c.ids)
  | value {i : Nat} {v : Term} (bound : m.world.bindings.value? i = some v) (var : id ∈ v.ids)

/-- A variable is held by the goals or a choice of a waiting machine, by its template, by the term
for its result or by an instance found. -/
inductive Waiting.Holds (s : Waiting) (id : Nat) : Prop where
  | goal {g : Goal} (mem : g ∈ s.goals) (var : id ∈ g.ids)
  | choice {c : Choice} (mem : c ∈ s.choices) (var : id ∈ c.ids)
  | template (var : id ∈ s.template.ids)
  | result (var : id ∈ s.result.ids)
  | found {t : Term} (mem : t ∈ s.found) (var : id ∈ t.ids)

end Machine

namespace Upkeep

variable {U : Upkeep} {p : Program} {c c' : Computation}

structure KeptWaiting (U : Upkeep) (w : World) (s : Waiting) : Prop where
  back : U.Back s.mark
  machine : U.Kept ⟨w, s.goals, s.choices⟩
  terms : ∀ t ∈ s.template :: s.result :: s.found, U.Fits w.bindings t

structure KeptAll (U : Upkeep) (c : Computation) : Prop where
  machine : U.Kept c.machine
  waiting : ∀ s ∈ c.waiting, U.KeptWaiting c.machine.world s

lemma KeptAll.next (h : U.KeptAll c) (hp : U.Programs p)
    (steady : ∀ {b id}, U.Good b → U.Var c.machine.world.bindings id → U.Var b id)
    (next : Computation.Next p c c') : U.KeptAll c' := by
  have steps {n : Nat} {failed : Bool} {s : Step} (step : c.machine.step p n failed = s) :
      U.KeptStep s := step ▸ (h.machine.step hp failed n).1
  have waits {w : World} (good : U.Good w.bindings) (s : Waiting) (hs : s ∈ c.waiting) :
      U.KeptWaiting w s := by
    obtain ⟨back, machine, terms⟩ := h.waiting s hs
    exact ⟨back, machine.later good fun _ => steady good,
      fun t ht => (terms t ht).later fun _ => steady good⟩
  have goOn {m : Machine} {phase : Phase} (kept : U.Kept m) : U.KeptAll ⟨phase, m, c.waiting⟩ :=
    ⟨kept, waits kept.store⟩
  have resume {w : World} {s : Waiting} {ws : List Waiting} {phase : Phase}
      (cons : c.waiting = s :: ws) (good : U.Good w.bindings) :
      U.KeptAll ⟨phase, ⟨w, s.goals, s.choices⟩, ws⟩ := by
    obtain ⟨nearest, others⟩ := forall_mem_cons.1 (cons ▸ waits good)
    exact ⟨nearest.machine, others⟩
  have undone {s : Waiting} (hs : s ∈ c.waiting) : U.Good (s.world c.machine.world).bindings :=
    (U.undo h.machine.store (h.waiting s hs).back).1
  have unified {s : Waiting} (hs : s ∈ c.waiting) (n : Nat) :
      U.Ran (s.world c.machine.world).bindings (fun _ => Eq)
        (unifyFound n s.found.reverse s.result (s.world c.machine.world)) := by
    have terms := (waits (undone hs) s hs).terms
    simp only [forall_mem_cons] at terms
    refine (ran (acts_unifyFound (forall₂_fits fun t ht => ?_) ⟨rfl, terms.2.1⟩) (undone hs) n).1
    exact terms.2.2 t (mem_reverse.1 ht)
  cases next with
  | go step | fail step | answer step | exhaust step | halt step => exact goOn (steps step)
  | collect step =>
    obtain ⟨kept, template, goal, result⟩ := steps step
    have call := ((U.coupling.like _).build "call" (.cons ⟨rfl, goal⟩ .nil)).2
    refine ⟨⟨kept.store, .cons call nofun, nofun⟩, forall_mem_cons.2 ⟨⟨U.mark kept.store, kept, ?_⟩,
      waits kept.store⟩⟩
    exact forall_mem_cons.2 ⟨template, forall_mem_singleton.2 result⟩
  | more | outOfFuel => exact ⟨h.machine, h.waiting⟩
  | found resolved =>
    obtain ⟨first, others⟩ := forall_mem_cons.1 h.waiting
    have terms := first.terms
    simp only [forall_mem_cons] at terms
    have new := fits_resolve h.machine.store terms.1 resolved
    refine ⟨h.machine, forall_mem_cons.2 ⟨⟨first.back, first.machine, ?_⟩, others⟩⟩
    simpa only [forall_mem_cons] using ⟨terms.1, terms.2.1, new, terms.2.2⟩
  | @gathered n _ s _ _ _ unify =>
    have ran := unified mem_cons_self n
    rw [unify] at ran
    cases ran with
    | ok good => exact resume rfl good
  | @ungathered n _ s _ _ _ unify =>
    have ran := unified mem_cons_self n
    rw [unify] at ran
    cases ran with
    | error good => exact resume rfl good
  | unwind => exact resume rfl (undone mem_cons_self)

variable {P : Nat → Prop} {n : Nat} {b : Bindings} {m : Machine}

lemma fitsAll_allotted {gs : List Goal} : (allotted P n).FitsAll b gs ↔
    ∀ g ∈ gs, ∀ id ∈ g.ids, P id ∧ id < b.values.size := by
  refine forall₂_congr fun g _ => ?_
  cases g <;> simp [Goal.terms, Goal.ids, Fits, allotted]

lemma fitsChoice_allotted {c : Choice} : (allotted P n).FitsChoice b c ↔
    ∀ id ∈ c.ids, P id ∧ id < b.values.size := by
  have other : (∀ t ∈ c.alternative.terms, (allotted P n).Fits b t) ↔
      ∀ id ∈ c.alternative.ids, P id ∧ id < b.values.size := by
    cases c.alternative <;> simp [Alternative.terms, Alternative.ids, Fits, allotted]
  simp only [Choice.ids, forall_mem_append, forall_mem_flatMap, ← other, ← fitsAll_allotted (n := n)]
  exact ⟨fun h => ⟨h.goals, h.other⟩, fun h => ⟨trivial, h.1, h.2, fun _ _ _ _ => trivial⟩⟩

lemma kept_allotted : (allotted P n).Kept m ↔
    (∀ id, m.Holds id → P id ∧ id < m.room) ∧ (∀ id, m.room ≤ id → P id) ∧ n ≤ m.room := by
  refine ⟨fun h => ⟨fun id held => ?_, h.store.1.above, h.store.2⟩, fun ⟨placed, above, le⟩ => ?_⟩
  · cases held with
    | goal mem var => exact fitsAll_allotted.1 h.goals _ mem id var
    | choice mem var => exact fitsChoice_allotted.1 (h.choices _ mem) id var
    | value bound var => exact h.store.1.value bound id var
  · exact ⟨⟨⟨fun bound id var => placed id (.value bound var), above⟩, le⟩,
      fitsAll_allotted.2 fun g mem id var => placed id (.goal mem var),
      fun c mem => fitsChoice_allotted.2 fun id var => placed id (.choice mem var)⟩

end Upkeep

namespace Computation

variable {P : Nat → Prop} {p : Program} {c c' : Computation}

def room (c : Computation) : Nat := c.machine.room

def Occurs (c : Computation) (id : Nat) : Prop :=
  c.machine.Holds id ∨ ∃ s ∈ c.waiting, s.Holds id

def Allotted (P : Nat → Prop) (c : Computation) : Prop :=
  (∀ id, c.Occurs id → P id ∧ id < c.room) ∧ ∀ id, c.room ≤ id → P id

lemma keptAll_allotted {n : Nat} : (allotted P n).KeptAll c ↔ c.Allotted P ∧ n ≤ c.room := by
  constructor
  · intro h
    obtain ⟨placed, above, le⟩ := kept_allotted.1 h.machine
    refine ⟨⟨fun id occurs => ?_, above⟩, le⟩
    rcases occurs with inner | ⟨s, hs, outer⟩
    · exact placed id inner
    · have waits := h.waiting s hs
      have placed := (kept_allotted.1 waits.machine).1
      cases outer with
      | goal mem var => exact placed id (.goal mem var)
      | choice mem var => exact placed id (.choice mem var)
      | template var => exact (waits.terms s.template (by simp)).1 id var
      | result var => exact (waits.terms s.result (by simp)).1 id var
      | found mem var => exact (waits.terms _ (by simp [mem])).1 id var
  · rintro ⟨⟨placed, above⟩, le⟩
    refine ⟨kept_allotted.2 ⟨fun id held => placed id (.inl held), above, le⟩,
      fun s hs => ⟨trivial, kept_allotted.2 ⟨fun id held => ?_, above, le⟩, fun t ht =>
        ⟨fun id hid => placed id (.inr ⟨s, hs, ?_⟩), trivial⟩⟩⟩
    · cases held with
      | goal mem var => exact placed id (.inr ⟨s, hs, .goal mem var⟩)
      | choice mem var => exact placed id (.inr ⟨s, hs, .choice mem var⟩)
      | value bound var => exact placed id (.inl (.value bound var))
    · rcases mem_cons.1 ht with rfl | ht
      · exact .template hid
      · rcases mem_cons.1 ht with rfl | ht
        · exact .result hid
        · exact .found ht hid

lemma Next.allotted (next : Next p c c') (h : c.Allotted P) :
    c'.Allotted P ∧ c.room ≤ c'.room := by
  have kept : (Upkeep.allotted P c.room).KeptAll c := keptAll_allotted.2 ⟨h, Nat.le_refl _⟩
  refine keptAll_allotted.1 (kept.next (fun _ _ _ _ _ _ _ => trivial) (fun good var => ?_) next)
  exact ⟨var.1, Nat.lt_of_lt_of_le var.2 good.2⟩

lemma Reaches.allotted (reaches : Reaches p c c') (h : c.Allotted P) :
    c'.Allotted P ∧ c.room ≤ c'.room := by
  induction reaches with
  | refl => exact ⟨h, Nat.le_refl _⟩
  | tail _ last ih =>
    have ⟨next, le⟩ := last.allotted ih.1
    exact ⟨next, Nat.le_trans ih.2 le⟩

/-- On the way from `start` to `c` the variable has not occurred, and the terms to be reported do
not have it. -/
def Unused (p : Program) (reported : List Term) (start c : Computation) (id : Nat) : Prop :=
  (∀ c₀, Reaches p start c₀ → Reaches p c₀ c → ¬ c₀.Occurs id) ∧ ∀ t ∈ reported, id ∉ t.ids

end Computation

namespace Bindings

/-- From one store to the next, these variables are given to a clause, to a new variable or to a
copy. -/
inductive Gives (b : Bindings) : List Nat → Bindings → Prop where
  | clause (c : Clause) :
      Gives b ((c.head.toList ++ c.body).flatMap fun t => (rename (b.reserve c.idBound).1 t).ids)
        (b.reserve c.idBound).2
  | fresh : Gives b b.fresh.1.ids b.fresh.2
  | copy {fuel : Nat} {t u : Term} (copied : (b.copy fuel t).1 = some u) :
      Gives b u.ids (b.copy fuel t).2

lemma Gives.new {b b' : Bindings} {ids : List Nat} (gives : b.Gives ids b') {id : Nat}
    (mem : id ∈ ids) : b.values.size ≤ id ∧ id < b'.values.size := by
  cases gives with
  | clause c =>
    obtain ⟨t, part, var⟩ := mem_flatMap.1 mem
    obtain ⟨v, hv, rfl⟩ := Search.mem_ids_rename var
    have inside : v < c.idBound := lt_idBoundAllFrom (.inr ⟨t, part, hv⟩)
    rw [size_reserve]
    exact ⟨Nat.le_add_right _ _, Nat.add_lt_add_left inside _⟩
  | fresh =>
    obtain rfl := mem_ids_var.1 mem
    have size : b.fresh.2.values.size = b.values.size + 1 := b.size_reserve 1
    exact ⟨Nat.le_refl _, size ▸ Nat.lt_succ_self _⟩
  | @copy fuel t u copied =>
    cases resolved : b.resolve? fuel t with
    | none =>
      rw [Bindings.copy, resolved] at copied
      cases copied
    | some r =>
      obtain ⟨u', b', eq, renamed, inside, -⟩ := copy_renamed resolved
      rw [eq] at copied ⊢
      cases copied
      exact ⟨renamed.above id mem, inside id mem⟩

end Bindings

namespace Engine

open Horn.Computation

/-- The computations that an engine begins: to answer its query, whose named variables are all in
the goal, and to solve a goal once. The terms are those whose values will be reported. -/
inductive Begins (e : Engine) (ops : OperatorTable) : List Term → Computation → Prop where
  | answers {q : CompiledQuery} (query : e.query = some q)
      (named : ∀ x ∈ q.names, ∀ id ∈ x.2.ids, id ∈ q.goal.ids) :
      Begins e ops ((shownNames q.names).map (·.2))
        ⟨.running false, e.machine ops (roomFor q) q.goal, []⟩
  | once (goal : Term) : Begins e ops [goal] ⟨.running false, e.machine ops goal.idBound goal, []⟩

variable {e : Engine} {ops : OperatorTable} {reported : List Term} {start c : Computation}

lemma allotted_machine (e : Engine) (ops : OperatorTable) {count : Nat} {goal : Term}
    (le : goal.idBound ≤ count) :
    Allotted (fun _ => True) ⟨.running false, e.machine ops count goal, []⟩ ∧
      ∀ id ∈ goal.ids, id < (e.machine ops count goal).room := by
  have size : (e.machine ops count goal).room = count :=
    (empty.size_reserve count).trans (Nat.zero_add count)
  have inside : ∀ id ∈ goal.ids, id < (e.machine ops count goal).room := fun id hid =>
    size.symm ▸ Nat.lt_of_lt_of_le (lt_idBound hid) le
  refine ⟨⟨fun id occurs => ⟨trivial, ?_⟩, fun _ _ => trivial⟩, inside⟩
  obtain held | ⟨_, ⟨⟩, _⟩ := occurs
  cases held with
  | goal mem var =>
    obtain rfl := mem_singleton.1 mem
    exact inside id var
  | choice mem var => exact absurd mem (Array.not_mem_empty _)
  | @value i v bound var =>
    have bound : (empty.reserve count).2.value? i = some v := bound
    rw [value?_reserve] at bound
    simp [empty, value?] at bound

lemma Begins.allotted (begun : e.Begins ops reported start) :
    start.Allotted (fun _ => True) ∧ ∀ t ∈ reported, ∀ id ∈ t.ids, id < start.room := by
  cases begun with
  | @answers q query named =>
    have ⟨machine, inside⟩ := allotted_machine e ops
      (Nat.le_max_left q.goal.idBound q.clause.idBound)
    refine ⟨machine, fun t ht id hid => ?_⟩
    obtain ⟨x, shown, rfl⟩ := mem_map.1 ht
    exact inside id (named x (mem_filter.1 shown).1 id hid)
  | once goal =>
    have ⟨machine, inside⟩ := allotted_machine e ops (Nat.le_refl goal.idBound)
    exact ⟨machine, forall_mem_singleton.2 inside⟩

/-- In every computation that an engine comes to, each variable that occurs has a place in the
store, and so has each that will be reported. A step takes no place away, and a variable that it
brings in has not been used before, whatever was undone since. What a store gives to a clause, a new
variable or a copy at this point or later is unused, and the next store has a place for it. The
computations are those that bounded runs go through. -/
theorem variables_have_room (begun : e.Begins ops reported start)
    (reached : Reaches e.program start c) :
    (∀ id, c.Occurs id → id < c.room) ∧
    (∀ t ∈ reported, ∀ id ∈ t.ids, id < c.room) ∧
    (∀ c', Next e.program c c' → c.room ≤ c'.room ∧
      ∀ id, c'.Occurs id → c.Occurs id ∨ Unused e.program reported start c id) ∧
    (∀ (b b' : Bindings) ids, b.Closed (fun _ => True) → c.room ≤ b.values.size → b.Gives ids b' →
      ∀ id ∈ ids, Unused e.program reported start c id ∧ id < b'.values.size) ∧
    ∀ fuel failed, c.phase = .running failed →
      Reaches e.program c (.after c.waiting (Machine.run e.program fuel failed c.machine)) := by
  obtain ⟨first, inside⟩ := begun.allotted
  obtain ⟨allotted, grown⟩ := reached.allotted first
  have reports (t : Term) (ht : t ∈ reported) (id : Nat) (hid : id ∈ t.ids) : id < c.room :=
    Nat.lt_of_lt_of_le (inside t ht id hid) grown
  have unused {id : Nat} (le : c.room ≤ id) : Unused e.program reported start c id := by
    refine ⟨fun c₀ before since occurs => ?_, fun t ht hid => ?_⟩
    · have ⟨there, _⟩ := before.allotted first
      have ⟨_, later⟩ := since.allotted there
      have early := (there.1 id occurs).2
      omega
    · have early := reports t ht id hid
      omega
  refine ⟨fun id occurs => (allotted.1 id occurs).2, reports, fun c' next => ?_,
    fun b b' ids _ le gives id mem => ?_, fun fuel failed phase => ?_⟩
  · -- the step keeps the property of being old or without room
    have old : c.Allotted fun id => c.Occurs id ∨ c.room ≤ id :=
      ⟨fun id occurs => ⟨.inl occurs, (allotted.1 id occurs).2⟩, fun id le => .inr le⟩
    have ⟨placed, le⟩ := next.allotted old
    exact ⟨le, fun id occurs => (placed.1 id occurs).1.imp_right unused⟩
  · have ⟨new, placed⟩ := gives.new mem
    exact ⟨unused (Nat.le_trans le new), placed⟩
  · obtain ⟨_, m, ws⟩ := c
    cases phase
    exact (reaches_bounded e.program fuel).1 failed m ws

/-- With `r(f(Y))`, the query `findall(X, r(X), L)` comes to an answer of the inner machine: `X` has
the value `f(Y)`, and `Y` is the third variable. -/
theorem variables_have_room_collecting :
    let x : Term := .var "X" 0
    let l : Term := .var "L" 1
    let r : Predicate := ⟨⟨"r", 1⟩, [⟨⟨"r", 1⟩, ⟨0⟩, Clause.mark
      ⟨some (.compound "r" [.compound "f" [.var "Y" 0]]), [], .fact, ⟨1, 1⟩⟩, [], 0, []⟩], false⟩
    let goal : Term := .compound "findall" [x, .compound "r" [x], l]
    let q : CompiledQuery :=
      ⟨Clause.mark ⟨none, [goal], .query, ⟨1, 1⟩⟩, [("X", x), ("L", l)], [], 0⟩
    let e : Engine := ⟨.ofPredicates [r], .error, some q, ""⟩
    let start : Computation := ⟨.running false, e.machine .standard (roomFor q) q.goal, []⟩
    let inner : Machine := .start start.machine.world (.compound "call" [.compound "r" [x]])
    let c := Computation.after [⟨[], #[], 0, x, l, []⟩] (run e.program 9 false inner)
    e.Begins .standard [x, l] start ∧ Reaches e.program start c ∧ c.room = 3 ∧
      c.machine.world.bindings.value? 0 = some (.compound "f" [.var "_G2" 2]) ∧
    (∀ id, c.Occurs id → id < c.room) ∧
    (∀ t ∈ [x, l], ∀ id ∈ t.ids, id < c.room) ∧
    (∀ c', Next e.program c c' → c.room ≤ c'.room ∧
      ∀ id, c'.Occurs id → c.Occurs id ∨ Unused e.program [x, l] start c id) ∧
    (∀ (b b' : Bindings) ids, b.Closed (fun _ => True) → c.room ≤ b.values.size → b.Gives ids b' →
      ∀ id ∈ ids, Unused e.program [x, l] start c id ∧ id < b'.values.size) ∧
    ∀ fuel failed, c.phase = .running failed →
      Reaches e.program c (.after c.waiting (run e.program fuel failed c.machine)) := by
  intro x l r goal q e start inner c
  have named : ∀ n ∈ q.names, ∀ id ∈ n.2.ids, id ∈ q.goal.ids := by decide +kernel
  have shown : (shownNames q.names).map (·.2) = [x, l] := by decide +kernel
  have begun : e.Begins .standard [x, l] start := by
    rw [← shown]
    exact .answers (q := q) rfl named
  have collecting : step e.program 9 false start.machine =
      .collect x (.compound "r" [x]) l ⟨start.machine.world, [], #[]⟩ :=
    step_findall (by decide +kernel)
  have reached : Reaches e.program start c :=
    .head (.collect collecting) ((reaches_bounded e.program 9).1 false inner _)
  exact ⟨begun, reached, by decide +kernel, by decide +kernel, variables_have_room begun reached⟩

end Engine

end Horn
