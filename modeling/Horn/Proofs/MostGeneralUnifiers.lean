import Horn.Proofs.StoreValues
import Horn.Proofs.TermEquality
import Mathlib.Order.WellFoundedSet

/-!
# Most general unifiers

A store stands for a set of equations. The store after a unification has the solutions of the old
one that unify the terms.
-/

namespace Horn

open List Term Subst

variable {more ps : List (Term × Term)} {r : Option Bool}

namespace Bindings

variable {b b' : Bindings} {σ : Subst} {n : Nat}

def Uses (b : Bindings) (id v : Nat) : Prop := ∃ u, b.value? id = some u ∧ v ∈ u.ids

/-- No variable occurs in its own value, however the values are applied. -/
def Acyclic (b : Bindings) : Prop := ∀ id, ¬Relation.TransGen b.Uses id id

variable {u t s : Term} {id : Nat}

lemma lt_size_of_value? (h : b.value? id = some u) : id < b.values.size := by
  apply Nat.lt_of_not_le
  intro out
  rw [value?, Array.getElem?_eq_none out] at h
  cases h

lemma Acyclic.wellFounded (h : b.Acyclic) : WellFounded fun v id => b.Uses id v := by
  let below (v id : Nat) : Prop := Relation.TransGen b.Uses id v
  have : IsTrans Nat below := ⟨fun _ _ _ first second => second.trans first⟩
  have : Std.Irrefl below := ⟨h⟩
  have : IsStrictOrder Nat below := {}
  have finite : {id | id < b.values.size}.Finite := Set.finite_lt_nat _
  have bound := Set.wellFoundedOn_iff.1 (finite.wellFoundedOn (r := below))
  refine ⟨fun id => bound.induction id fun id ih => ⟨id, fun v uses => ?_⟩⟩
  have uses' := uses
  obtain ⟨u, value, -⟩ := uses'
  by_cases inside : v < b.values.size
  · exact ih v ⟨.single uses, inside, lt_size_of_value? value⟩
  · refine ⟨v, fun w uses => ?_⟩
    obtain ⟨u, value, -⟩ := uses
    exact absurd (lt_size_of_value? value) inside

lemma exists_order {r : Nat → Nat → Prop} (wf : WellFounded fun y x => r x y) (s : Finset Nat) :
    ∃ order : List Nat, order.Nodup ∧ (∀ i, i ∈ order ↔ i ∈ s) ∧
      ∀ i ∈ s, ∀ j ∈ s, r i j → order.idxOf i < order.idxOf j := by
  induction s using Finset.strongInduction with
  | H s ih =>
    rcases s.eq_empty_or_nonempty with rfl | some
    · exact ⟨[], nodup_nil, by simp, by simp⟩
    -- One that is related to none of them comes last.
    obtain ⟨m, hm, last⟩ := wf.has_min (s : Set Nat) some
    obtain ⟨order, nodup, mem, sorted⟩ := ih (s.erase m) (Finset.erase_ssubset hm)
    have new : m ∉ order := fun h => by simpa using (mem m).1 h
    refine ⟨order ++ [m], ?_, fun i => ?_, fun i hi j hj rel => ?_⟩
    · rw [nodup_append]
      refine ⟨nodup, nodup_singleton m, fun i hi j hj eq => new ?_⟩
      rw [← mem_singleton.1 hj, ← eq]
      exact hi
    · rw [mem_append, mem, mem_singleton, Finset.mem_erase]
      by_cases eq : i = m
      · simp [eq, show m ∈ s from hm]
      · simp [eq]
    · have first : i ≠ m := fun eq => last j hj (eq ▸ rel)
      have hi' : i ∈ s.erase m := Finset.mem_erase.2 ⟨first, hi⟩
      rw [idxOf_append, if_pos ((mem i).2 hi'), idxOf_append]
      by_cases eq : j = m
      · rw [eq, if_neg new]
        have := idxOf_lt_length_of_mem ((mem i).2 hi')
        omega
      · have hj' : j ∈ s.erase m := Finset.mem_erase.2 ⟨eq, hj⟩
        rw [if_pos ((mem j).2 hj')]
        exact sorted i hi' j hj' rel

def Ordered (b : Bindings) : Prop := ∃ trail, Sound ⟨b.values, trail⟩

lemma Acyclic.ordered (h : b.Acyclic) : b.Ordered := by
  classical
  let bound := (Finset.range b.values.size).filter fun id => (b.value? id).isSome
  have mem_bound (id : Nat) : id ∈ bound ↔ (b.value? id).isSome := by
    rw [Finset.mem_filter, Finset.mem_range, and_iff_right_iff_imp]
    intro some
    obtain ⟨u, value⟩ := Option.isSome_iff_exists.1 some
    exact lt_size_of_value? value
  obtain ⟨order, nodup, mem, sorted⟩ := exists_order h.wellFounded bound
  refine ⟨order.toArray, ⟨fun id => (mem id).trans (mem_bound id), nodup, ?_⟩⟩
  intro id name v value some
  refine sorted id ((mem_bound id).2 ?_) v ((mem_bound v).2 some) ⟨_, value, by simp⟩
  exact Option.isSome_iff_exists.2 ⟨_, value⟩

lemma walkFor_trail (trail : Array Nat) (t : Term) :
    walkFor ⟨b.values, trail⟩ n t = b.walkFor n t := by
  induction n generalizing t with
  | zero => rfl
  | succ n ih =>
    cases t with
    | var name id =>
      simp only [walkFor, value?]
      split
      · exact ih _
      · rfl
    | _ => rfl

lemma Ordered.walk_unbound (h : b.Ordered) {name : String} {v : Nat}
    (ends : b.walk t = .var name v) : b.value? v = none := by
  obtain ⟨trail, sound⟩ := h
  exact sound.walk_unbound ((walkFor_trail trail t).trans ends)

lemma Ordered.bind (h : b.Ordered) (unbound : b.value? id = none)
    (ends : ∀ name v, u = .var name v → v ≠ id ∧ b.value? v = none) : (b.bind id u).Ordered := by
  obtain ⟨trail, sound⟩ := h
  exact ⟨_, (sound.bind unbound ends).sound⟩

/-- What two terms, followed as far as they go, come to. -/
inductive Meeting where
  | clash
  | reduce (more : List (Term × Term))
  | assign (id : Nat) (value : Term)

def meet : Term → Term → Meeting
  | .var _ i, .var y j => if i = j then .reduce [] else .assign i (.var y j)
  | .var _ i, t => .assign i t
  | s, .var _ j => .assign j s
  | .atom x, .atom y => if x = y then .reduce [] else .clash
  | .number x, .number y => if x.same y then .reduce [] else .clash
  | .compound f ss, .compound g ts =>
    if f = g && ss.length = ts.length then .reduce (ss.zip ts) else .clash
  | .cell h t, .cell h' t' => .reduce [(h, h'), (t, t')]
  | _, _ => .clash

lemma unifyPairs_cons (s t : Term) (rest : List (Term × Term)) :
    unifyPairs (n + 1) ((s, t) :: rest) b =
      match meet (b.walk s) (b.walk t) with
      | .clash => (some false, b)
      | .reduce more => unifyPairs n (more ++ rest) b
      | .assign id value => unifyPairs n rest (b.bind id value) := by
  rw [unifyPairs]
  cases b.walk s <;> cases b.walk t <;> grind [meet]

lemma meet_assign (h : meet s t = .assign id u) :
    (∃ name, s = .var name id ∧ u = t ∨ t = .var name id ∧ u = s) ∧
      ∀ name v, u = .var name v → v ≠ id := by
  cases s <;> cases t <;> grind [meet]

def Unites (σ : Subst) (p : Term × Term) : Prop := (σ.apply p.1).same (σ.apply p.2)

lemma unites_compound {f g : String} {ss ts : List Term} :
    Unites σ (.compound f ss, .compound g ts) ↔
      f = g ∧ ss.length = ts.length ∧ ∀ p ∈ ss.zip ts, Unites σ p := by
  rw [Unites, apply_compound, apply_compound, same_compound,
    forall₂_map_left_iff, forall₂_map_right_iff, forall₂_iff_zip]
  simp only [Prod.forall]
  rfl

lemma meet_clash (h : meet s t = .clash) : ¬Unites σ (s, t) := by
  cases s <;> cases t
  case compound.compound f ss g ts =>
    rw [unites_compound]
    rintro ⟨same, length, -⟩
    simp [meet, same, length] at h
  case cell.cell => cases h
  case var.var => grind [meet]
  all_goals simp_all [meet, Unites, same]

def Proper (σ : Subst) : Prop := ∀ v, (σ v).same (σ v)

lemma meet_reduce (h : meet s t = .reduce more) :
    (Unites σ (s, t) → ∀ p ∈ more, Unites σ p) ∧
      (Proper σ → (∀ p ∈ more, Unites σ p) → Unites σ (s, t)) := by
  cases s <;> cases t
  case compound.compound f ss g ts =>
    rw [unites_compound]
    simp only [meet, Bool.and_eq_true, decide_eq_true_eq] at h
    split at h
    · next same =>
      cases h
      exact ⟨fun all => all.2.2, fun _ all => ⟨same.1, same.2, all⟩⟩
    · cases h
  case cell.cell =>
    cases h
    simp [Unites]
  case var.var name i name' j =>
    simp only [meet] at h
    split at h
    · next same =>
      cases h
      exact ⟨fun _ _ hp => absurd hp not_mem_nil, fun proper _ => same ▸ proper i⟩
    · cases h
  case atom.atom | number.number =>
    simp only [meet] at h
    split at h <;> simp_all [Unites, same]
  all_goals cases h

/-- What a run of unification keeps from step to step holds where it ends: when nothing is left to
unify, when two terms clash or when the fuel is spent. -/
lemma unifyPairs_keeps {P : List (Term × Term) → Bindings → Prop}
    (reduce : ∀ {s t more rest b}, meet (b.walk s) (b.walk t) = .reduce more →
      P ((s, t) :: rest) b → P (more ++ rest) b)
    (assign : ∀ {s t id u rest b}, meet (b.walk s) (b.walk t) = .assign id u →
      P ((s, t) :: rest) b → P rest (b.bind id u)) (run : unifyPairs n ps b = (r, b'))
    (start : P ps b) :
    ∃ left, P left b' ∧ (r = some true → left = []) ∧
      (r = some false → ∃ s t rest, left = (s, t) :: rest ∧ meet (b'.walk s) (b'.walk t) = .clash) := by
  induction n generalizing ps b with
  | zero =>
    cases run
    exact ⟨ps, start, nofun, nofun⟩
  | succ n ih =>
    match ps with
    | [] =>
      cases run
      exact ⟨[], start, fun _ => rfl, nofun⟩
    | (s, t) :: rest =>
      rw [unifyPairs_cons] at run
      split at run
      · next clash =>
        cases run
        exact ⟨_, start, nofun, fun _ => ⟨s, t, rest, rfl, clash⟩⟩
      · next meets => exact ih run (reduce meets start)
      · next meets => exact ih run (assign meets start)

def Satisfies (σ : Subst) (b : Bindings) : Prop :=
  ∀ id u, b.value? id = some u → (σ id).same (σ.apply u)

lemma Satisfies.walkFor (h : Satisfies σ b) {x : Term} :
    (σ.apply (b.walkFor n t)).same x ↔ (σ.apply t).same x := by
  induction n generalizing t with
  | zero => rfl
  | succ n ih =>
    cases t with
    | var name id =>
      simp only [Bindings.walkFor]
      split
      · next u value =>
        have eq := h id u value
        rw [ih]
        exact ⟨same_trans eq, same_trans (same_symm eq)⟩
      · rfl
    | _ => rfl

lemma Satisfies.unites_walk (h : Satisfies σ b) :
    Unites σ (b.walk s, b.walk t) ↔ Unites σ (s, t) := by
  have turn {x y : Term} : x.same y ↔ y.same x := ⟨same_symm, same_symm⟩
  unfold Unites
  rw [walk, h.walkFor, turn, walk, h.walkFor, turn]

lemma unites_assign (h : meet s t = .assign id u) :
    Unites σ (s, t) ↔ (σ id).same (σ.apply u) := by
  obtain ⟨⟨name, ⟨rfl, rfl⟩ | ⟨rfl, rfl⟩⟩, -⟩ := meet_assign h
  · rfl
  · exact ⟨same_symm, same_symm⟩

structure Unifier (σ : Subst) (ps : List (Term × Term)) (b : Bindings) : Prop where
  satisfies : Satisfies σ b
  unites : ∀ p ∈ ps, Unites σ p

section Step

variable {rest : List (Term × Term)}

lemma unifier_cons :
    Unifier σ ((s, t) :: rest) b ↔ Unifier σ rest b ∧ Unites σ (b.walk s, b.walk t) := by
  constructor
  · rintro ⟨sat, unites⟩
    obtain ⟨first, others⟩ := forall_mem_cons.1 unites
    exact ⟨⟨sat, others⟩, sat.unites_walk.2 first⟩
  · rintro ⟨⟨sat, others⟩, first⟩
    exact ⟨sat, forall_mem_cons.2 ⟨sat.unites_walk.1 first, others⟩⟩

lemma unifier_append :
    Unifier σ (more ++ rest) b ↔ Unifier σ rest b ∧ ∀ p ∈ more, Unites σ p := by
  constructor
  · rintro ⟨sat, unites⟩
    obtain ⟨first, others⟩ := forall_mem_append.1 unites
    exact ⟨⟨sat, others⟩, first⟩
  · rintro ⟨⟨sat, others⟩, first⟩
    exact ⟨sat, forall_mem_append.2 ⟨first, others⟩⟩

lemma Unifier.reduce (meets : meet (b.walk s) (b.walk t) = .reduce more)
    (h : Unifier σ ((s, t) :: rest) b) : Unifier σ (more ++ rest) b := by
  obtain ⟨others, first⟩ := unifier_cons.1 h
  exact unifier_append.2 ⟨others, (meet_reduce meets).1 first⟩

lemma Unifier.of_reduce (proper : Proper σ) (meets : meet (b.walk s) (b.walk t) = .reduce more)
    (h : Unifier σ (more ++ rest) b) : Unifier σ ((s, t) :: rest) b := by
  obtain ⟨others, first⟩ := unifier_append.1 h
  exact unifier_cons.2 ⟨others, (meet_reduce meets).2 proper first⟩

lemma Unifier.assign (meets : meet (b.walk s) (b.walk t) = .assign id u)
    (h : Unifier σ ((s, t) :: rest) b) : Unifier σ rest (b.bind id u) := by
  obtain ⟨others, first⟩ := unifier_cons.1 h
  refine ⟨fun v w value => ?_, others.unites⟩
  rw [value?_bind] at value
  split at value
  · next eq =>
    cases value
    exact eq ▸ (unites_assign meets).1 first
  · exact others.satisfies v w value

lemma Unifier.of_assign (unbound : b.value? id = none)
    (meets : meet (b.walk s) (b.walk t) = .assign id u) (h : Unifier σ rest (b.bind id u)) :
    Unifier σ ((s, t) :: rest) b := by
  refine unifier_cons.2 ⟨⟨fun v w value => ?_, h.unites⟩, ?_⟩
  · have other : v ≠ id := by
      rintro rfl
      rw [unbound] at value
      cases value
    exact h.satisfies v w (by rw [value?_bind, if_neg other, value])
  · exact (unites_assign meets).2 (h.satisfies id u (by rw [value?_bind, if_pos rfl]))

lemma Ordered.assign (h : b.Ordered) (meets : meet (b.walk s) (b.walk t) = .assign id u) :
    b.value? id = none ∧ ∀ name v, u = .var name v → v ≠ id ∧ b.value? v = none := by
  obtain ⟨⟨name, ⟨var, eq⟩ | ⟨var, eq⟩⟩, other⟩ := meet_assign meets
  all_goals
    refine ⟨h.walk_unbound var, fun name v value => ⟨other name v value, ?_⟩⟩
    exact h.walk_unbound (eq.symm.trans value)

end Step

section Run

lemma Unifier.kept (h : Unifier σ ps b) (run : unifyPairs n ps b = (r, b')) :
    Satisfies σ b' ∧ r ≠ some false := by
  obtain ⟨left, unifier, -, clash⟩ := unifyPairs_keeps Unifier.reduce Unifier.assign run h
  refine ⟨unifier.satisfies, fun refuted => ?_⟩
  obtain ⟨s, t, rest, rfl, meets⟩ := clash refuted
  exact meet_clash meets (unifier_cons.1 unifier).2

lemma Ordered.unifier_of_satisfies (h : b.Ordered) (run : unifyPairs n ps b = (some true, b')) :
    b'.Ordered ∧ ∀ σ, Proper σ → Satisfies σ b' → Unifier σ ps b := by
  obtain ⟨left, ⟨ordered, back⟩, done, -⟩ := unifyPairs_keeps
    (P := fun left c => c.Ordered ∧ ∀ σ, Proper σ → Unifier σ left c → Unifier σ ps b)
    (fun meets ⟨ordered, back⟩ =>
      ⟨ordered, fun σ proper unifier => back σ proper (unifier.of_reduce proper meets)⟩)
    (fun meets ⟨ordered, back⟩ =>
      have ⟨unbound, ends⟩ := ordered.assign meets
      ⟨ordered.bind unbound ends,
        fun σ proper unifier => back σ proper (unifier.of_assign unbound meets)⟩)
    run ⟨h, fun _ _ unifier => unifier⟩
  refine ⟨ordered, fun σ proper sat => back σ proper ⟨sat, ?_⟩⟩
  rw [done rfl]
  exact fun p hp => absurd hp not_mem_nil

end Run

section Solution

open Subst (free)

noncomputable def solution (acyclic : b.Acyclic) : Subst :=
  open Classical in
  acyclic.wellFounded.fix fun id solved =>
    match b.value? id with
    | none => free id
    | some u => apply (fun v => if uses : b.Uses id v then solved v uses else free v) u

lemma solution_unbound (acyclic : b.Acyclic) (unbound : b.value? id = none) :
    solution acyclic id = free id := by
  rw [solution, WellFounded.fix_eq, unbound]

lemma solution_bound (acyclic : b.Acyclic) (value : b.value? id = some u) :
    solution acyclic id = (solution acyclic).apply u := by
  rw [solution, WellFounded.fix_eq, value]
  exact apply_eq_apply.2 fun v hv => dif_pos ⟨u, value, hv⟩

lemma Acyclic.solves (acyclic : b.Acyclic) : Solves (solution acyclic) b where
  unbound _ := solution_unbound acyclic
  bound _ _ := solution_bound acyclic
  settled id := by
    induction id using acyclic.wellFounded.induction with
    | h id ih =>
      intro w hw
      cases value : b.value? id with
      | none =>
        rw [solution_unbound acyclic value] at hw
        rw [mem_ids_var.1 hw, solution_unbound acyclic value]
      | some u =>
        rw [solution_bound acyclic value] at hw
        obtain ⟨v, hv, hw⟩ := mem_ids_apply.1 hw
        exact ih v ⟨u, value, hv⟩ w hw

/-- Every value in the store is equal to itself: none has a float in it that is no number. -/
def Comparable (b : Bindings) : Prop := ∀ id u, b.value? id = some u → u.same u

lemma same_apply_self (self : t.same t) (ids : ∀ v ∈ t.ids, (σ v).same (σ v)) :
    (σ.apply t).same (σ.apply t) := by
  induction t using induct with
  | atom | number => exact self
  | var name v => exact ids v (mem_ids_var.2 rfl)
  | compound f args ih =>
    rw [apply_compound, same_compound, forall₂_same]
    refine ⟨rfl, forall_mem_map.2 fun a ha => ih a ha ?_ ?_⟩
    · exact forall₂_same.1 (same_compound.1 self).2 a ha
    · exact fun v hv => ids v (mem_ids_compound.2 ⟨a, ha, hv⟩)
  | cell h t ihh iht =>
    obtain ⟨head, tail⟩ := same_cell.1 self
    refine same_cell.2 ⟨ihh head fun v hv => ?_, iht tail fun v hv => ?_⟩
    · exact ids v (mem_ids_cell.2 (.inl hv))
    · exact ids v (mem_ids_cell.2 (.inr hv))

lemma Comparable.proper_solution (h : b.Comparable) (acyclic : b.Acyclic) :
    Proper (solution acyclic) := by
  intro id
  induction id using acyclic.wellFounded.induction with
  | h id ih =>
    cases value : b.value? id with
    | none =>
      rw [solution_unbound acyclic value]
      exact decide_eq_true rfl
    | some u =>
      rw [solution_bound acyclic value]
      exact same_apply_self (h id u value) fun v hv => ih v ⟨u, value, hv⟩

lemma Comparable.walk (h : b.Comparable) (self : t.same t) :
    (b.walk t).same (b.walk t) := by
  have each (n : Nat) : (b.walkFor n t).same (b.walkFor n t) := by
    induction n generalizing t with
    | zero => exact self
    | succ n ih =>
      cases t with
      | var name id =>
        simp only [walkFor]
        split
        · next u value => exact ih (h id u value)
        · exact self
      | _ => exact self
  exact each _

lemma meet_reduce_self (h : meet s t = .reduce more) (left : s.same s) (right : t.same t) :
    ∀ p ∈ more, p.1.same p.1 ∧ p.2.same p.2 := by
  cases s <;> cases t
  case compound.compound f ss g ts =>
    simp only [meet] at h
    split at h
    · cases h
      rintro ⟨x, y⟩ hp
      obtain ⟨hx, hy⟩ := of_mem_zip hp
      exact ⟨forall₂_same.1 (same_compound.1 left).2 x hx,
        forall₂_same.1 (same_compound.1 right).2 y hy⟩
    · cases h
  case cell.cell =>
    cases h
    simp_all
  all_goals grind [meet]

lemma Comparable.kept (h : b.Comparable) (self : ∀ p ∈ ps, p.1.same p.1 ∧ p.2.same p.2)
    (run : unifyPairs n ps b = (r, b')) : b'.Comparable := by
  have reduce {s t more rest} {b : Bindings} (meets : meet (b.walk s) (b.walk t) = .reduce more)
      (h : b.Comparable ∧ ∀ p ∈ (s, t) :: rest, p.1.same p.1 ∧ p.2.same p.2) :
      b.Comparable ∧ ∀ p ∈ more ++ rest, p.1.same p.1 ∧ p.2.same p.2 := by
    obtain ⟨comparable, self⟩ := h
    obtain ⟨first, others⟩ := forall_mem_cons.1 self
    refine ⟨comparable, forall_mem_append.2 ⟨?_, others⟩⟩
    exact meet_reduce_self meets (comparable.walk first.1) (comparable.walk first.2)
  have assign {s t id u rest} {b : Bindings} (meets : meet (b.walk s) (b.walk t) = .assign id u)
      (h : b.Comparable ∧ ∀ p ∈ (s, t) :: rest, p.1.same p.1 ∧ p.2.same p.2) :
      (b.bind id u).Comparable ∧ ∀ p ∈ rest, p.1.same p.1 ∧ p.2.same p.2 := by
    obtain ⟨comparable, self⟩ := h
    obtain ⟨first, others⟩ := forall_mem_cons.1 self
    refine ⟨fun v w value => ?_, others⟩
    rw [value?_bind] at value
    split at value
    · cases value
      obtain ⟨⟨name, ⟨-, rfl⟩ | ⟨-, rfl⟩⟩, -⟩ := meet_assign meets
      · exact comparable.walk first.2
      · exact comparable.walk first.1
    · exact comparable v w value
  obtain ⟨left, ⟨comparable, -⟩, -⟩ := unifyPairs_keeps
    (P := fun ps b => b.Comparable ∧ ∀ p ∈ ps, p.1.same p.1 ∧ p.2.same p.2)
    reduce assign run ⟨h, self⟩
  exact comparable

end Solution

lemma Unites.resolve {sol : Subst} (h : Unites sol (s, t)) (solves : Solves sol b)
    (ordered : b.Ordered) :
    ∃ N, ∀ n, N ≤ n → ∃ x y, b.resolve? n s = some x ∧ b.resolve? n t = some y ∧ x.same y := by
  have ends (t : Term) (name : String) (v : Nat) (top : b.walk t = .var name v) :
      b.value? v = none := ordered.walk_unbound top
  obtain ⟨N, left⟩ := solves.resolvable ends s
  obtain ⟨M, right⟩ := solves.resolvable ends t
  refine ⟨max N M, fun n le => ?_⟩
  obtain ⟨x, resolved, value⟩ := left n (by omega)
  obtain ⟨y, resolved', value'⟩ := right n (by omega)
  refine ⟨x, y, resolved, resolved', ?_⟩
  rw [← same_free, value, value', same_free]
  exact h

/-- Unification finds a most general unifier of two terms without floats, and fails only if they
have none. All values in the store are to be equal to themselves for the terms to resolve to equal
ones; the rest holds of every store. -/
theorem unify_most_general {fuel : Nat} {s t : Term} {r : Bool} (acyclic : b.Acyclic)
    (floatFree : ∀ x, .number (.float x) ∉ s.subterms ∧ .number (.float x) ∉ t.subterms)
    (run : unify fuel s t b = (some r, b')) :
    (r = true → b'.Acyclic →
      (b.Comparable → ∃ N, ∀ n, N ≤ n →
        ∃ x y, b'.resolve? n s = some x ∧ b'.resolve? n t = some y ∧ x.same y) ∧
      ∀ σ, Satisfies σ b → (σ.apply s).same (σ.apply t) → Satisfies σ b') ∧
    (r = false → ∀ σ, Satisfies σ b → ¬(σ.apply s).same (σ.apply t)) := by
  have unifier {σ : Subst} (sat : Satisfies σ b) (same : (σ.apply s).same (σ.apply t)) :
      Unifier σ [(s, t)] b := ⟨sat, forall_mem_singleton.2 same⟩
  refine ⟨?_, ?_⟩
  · rintro rfl acyclic'
    refine ⟨fun comparable => ?_, fun σ sat same => ((unifier sat same).kept run).1⟩
    obtain ⟨ordered, back⟩ := acyclic.ordered.unifier_of_satisfies run
    have self : ∀ p ∈ [(s, t)], p.1.same p.1 ∧ p.2.same p.2 := forall_mem_singleton.2
      ⟨same_self fun x => (floatFree x).1, same_self fun x => (floatFree x).2⟩
    have proper := (comparable.kept self run).proper_solution acyclic'
    have sat : Satisfies (solution acyclic') b' := fun id u value => by
      rw [← solution_bound acyclic' value]
      exact proper id
    have unites := (back _ proper sat).unites (s, t) mem_cons_self
    exact unites.resolve acyclic'.solves ordered
  · rintro rfl σ sat same
    exact ((unifier sat same).kept run).2 rfl

lemma comparable_of_values (h : ∀ id < b.values.size, ∀ u ∈ b.value? id, u.same u) :
    b.Comparable :=
  fun id u value => h id (lt_size_of_value? value) u value

lemma acyclic_of_rank (rank : Nat → Nat)
    (h : ∀ id < b.values.size, ∀ u ∈ b.value? id, ∀ v ∈ u.ids, rank v < rank id) : b.Acyclic := by
  have down {id v : Nat} (uses : Relation.TransGen b.Uses id v) : rank v < rank id := by
    induction uses with
    | single uses =>
      obtain ⟨u, value, hv⟩ := uses
      exact h _ (lt_size_of_value? value) u value _ hv
    | tail _ uses ih =>
      obtain ⟨u, value, hv⟩ := uses
      exact Nat.lt_trans (h _ (lt_size_of_value? value) u value _ hv) ih
  exact fun id cycle => Nat.lt_irrefl _ (down cycle)

/-- `f(W, Z)` and `f(g(Y), X)`, where `W` has the value `X`. -/
theorem unify_most_general_example :
    let s := .compound "f" [.var "W" 3, .var "Z" 2]
    let t := .compound "f" [.compound "g" [.var "Y" 1], .var "X" 0]
    ∃ b b', b.Acyclic ∧ b.Comparable ∧ unify 5 s t b = (some true, b') ∧ b'.Acyclic ∧
      ∃ N, ∀ n, N ≤ n →
        ∃ x y, b'.resolve? n s = some x ∧ b'.resolve? n t = some y ∧ x.same y := by
  intro s t
  let b : Bindings := ⟨#[none, none, none, some (.var "X" 0)], #[3]⟩
  let g : Term := .compound "g" [.var "Y" 1]
  let b' : Bindings := ⟨#[some g, none, some g, some (.var "X" 0)], #[3, 0, 2]⟩
  have acyclic : b.Acyclic := acyclic_of_rank id (by decide)
  have acyclic' : b'.Acyclic :=
    acyclic_of_rank (fun id => if id = 1 then 0 else id + 1) (by decide)
  have comparable : b.Comparable := comparable_of_values (by decide)
  have run : unify 5 s t b = (some true, b') := by decide +kernel
  have floatFree (x : Binary64) :
      .number (.float x) ∉ s.subterms ∧ .number (.float x) ∉ t.subterms := by
    simp [s, t, subterms, subtermsAll]
  exact ⟨b, b', acyclic, comparable, run, acyclic',
    ((unify_most_general acyclic floatFree run).1 rfl acyclic').1 comparable⟩

/-- A variable that is given a value that is no number does not resolve to a term equal to it. -/
theorem unify_nan_unequal :
    let b : Bindings := ⟨#[some (.float .nan), none], #[0]⟩
    let b' : Bindings := ⟨#[some (.float .nan), some (.float .nan)], #[0, 1]⟩
    b.Acyclic ∧ unify 2 (.var "Y" 1) (.var "X" 0) b = (some true, b') ∧ b'.Acyclic ∧
      ∀ n x y, b'.resolve? n (.var "Y" 1) = some x → b'.resolve? n (.var "X" 0) = some y →
        x.same y = false := by
  intro b b'
  refine ⟨acyclic_of_rank id (by decide), rfl, acyclic_of_rank id (by decide), ?_⟩
  intro n x y left right
  cases n with
  | zero => cases left
  | succ n =>
    cases left
    cases right
    decide

end Bindings

end Horn
