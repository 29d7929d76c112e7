import Horn.Proofs.StoreImage

/-!
# Unification in the store and in the search

Both unify pairs of terms from left to right and look at the top of the two terms, in the store
after following bindings.
-/

namespace Horn

open List Term Subst

variable {ps' : List (Term × Term)} {b : Bindings} {r : Term} {x : Nat}

namespace Search

open Subst (free moved unify?)
open Bindings (unifyPairs)

namespace Image

variable {i j : Image} {u w s t : Term} {n : Nat}

inductive Top (i : Image) : Term → Term → Prop where
  | var {v : Nat} {name name' : String} (inside : v < i.state.next)
      (unbound : i.store.value? (i.place v) = none) (settled : i.state.subst v = free v) :
      Top i (.var name (i.place v)) (.var name' v)
  | atom (a : String) : Top i (.atom a) (.atom a)
  | number (x : Number) : Top i (.number x) (.number x)
  | compound (f : String) {us ts : List Term} (args : List.Forall₂ i.Shows us ts) :
      Top i (.compound f us) (.compound f ts)
  | cell {h x h' x' : Term} (head : i.Shows h h') (tail : i.Shows x x') :
      Top i (.cell h x) (.cell h' x')

lemma Shows.top (h : i.Shows u t) : i.Top (i.store.walk u) (i.state.subst.apply t) := by
  have below := apply_below h.below
  have settled : ∀ v ∈ (i.state.subst.apply t).ids, i.state.subst v = free v :=
    fun v hv => i.settled.apply hv
  have value := h.value
  rw [← i.solves.walk] at value
  have part {u t : Term} (below : ∀ v ∈ t.ids, v < i.state.next)
      (settled : ∀ v ∈ t.ids, i.state.subst v = free v)
      (value : free.apply (i.sol.apply u) = (moved i.place).apply t) : i.Shows u t := by
    refine ⟨below, ?_⟩
    rw [value, apply_eq_free.2 settled, apply_free]
  generalize top : i.store.walk u = u' at value
  generalize i.state.subst.apply t = t' at value below settled
  cases u' with
  | atom a =>
    cases t' with
    | atom b =>
      cases value
      exact .atom a
    | _ => cases value
  | number x =>
    cases t' with
    | number y =>
      cases value
      exact .number x
    | _ => cases value
  | var name k =>
    have unbound := i.sound.walk_unbound top
    rw [apply_var, i.solves.unbound k unbound] at value
    cases t' with
    | var name' v =>
      obtain rfl : k = i.place v := (var.inj value).2
      have mem : v ∈ (var name' v).ids := mem_ids_var.2 rfl
      exact .var (below v mem) unbound (settled v mem)
    | _ => cases value
  | compound f us =>
    cases t' with
    | compound g ts =>
      simp only [apply_compound, compound.injEq, map_map] at value
      obtain ⟨rfl, value⟩ := value
      rw [← forall₂_eq_eq_eq, forall₂_map_left_iff, forall₂_map_right_iff] at value
      refine .compound f (forall₂_iff_zip.2 ⟨value.length_eq, fun {x y} hxy => ?_⟩)
      have hy : ∀ v ∈ y.ids, v ∈ (compound f ts).ids := fun v hv =>
        mem_ids_compound.2 ⟨y, (of_mem_zip hxy).2, hv⟩
      exact part (fun v hv => below v (hy v hv)) (fun v hv => settled v (hy v hv))
        (forall₂_zip value hxy)
    | _ => cases value
  | cell h x =>
    cases t' with
    | cell h' x' =>
      obtain ⟨head, tail⟩ := cell.inj value
      refine .cell (part ?_ ?_ head) (part ?_ ?_ tail)
      · exact fun v hv => below v (mem_ids_cell.2 (.inl hv))
      · exact fun v hv => settled v (mem_ids_cell.2 (.inl hv))
      · exact fun v hv => below v (mem_ids_cell.2 (.inr hv))
      · exact fun v hv => settled v (mem_ids_cell.2 (.inr hv))
    | _ => cases value

lemma Shows.assigns (h : i.Shows w t) (inside : x < i.state.next)
    (unbound : i.store.value? (i.place x) = none) (settled : i.state.subst x = free x)
    (same : free.apply r = free.apply (i.state.subst.apply t)) (acyclic : x ∉ r.ids) :
    i.Assigns x (i.store.walk w) r := by
  have mem {v : Nat} (hv : v ∈ r.ids) : v ∈ (i.state.subst.apply t).ids := by
    rwa [← mem_ids_free, same, mem_ids_free] at hv
  refine ⟨inside, unbound, ⟨settled, fun v hv => i.settled.apply (mem hv), acyclic⟩,
    fun v hv => apply_below h.below v (mem hv), ?_, fun name v eq => i.sound.walk_unbound eq⟩
  rw [i.solves.walk, h.value, ← apply_free r, same, apply_free]

def Unifies (i : Image) (n : Nat) (ps : List (Term × Term)) : Option (Option Subst) → Prop
  | none => True
  | some none => ∃ b, i.store.Later b ∧ ∀ m, n ≤ m → unifyPairs m ps i.store = (some false, b)
  | some (some σ) => ∃ j : Image, i.Before j ∧ j.state = ⟨σ, i.state.next⟩ ∧
      ∀ m, n ≤ m → unifyPairs m ps i.store = (some true, j.store)

variable {ps qs : List (Term × Term)}

lemma Unifies.clash (h : ∀ m, unifyPairs (m + 1) ps i.store = (some false, i.store)) :
    i.Unifies (n + 1) ps (some none) := by
  refine ⟨i.store, i.sound.later, fun m le => ?_⟩
  obtain ⟨m, rfl⟩ := Nat.exists_eq_add_of_le' le
  exact h (m + n)

lemma Unifies.step {result : Option (Option Subst)} (before : i.Before j)
    (next : j.state.next = i.state.next)
    (h : ∀ m, unifyPairs (m + 1) ps i.store = unifyPairs m ps' j.store)
    (rest : j.Unifies n ps' result) : i.Unifies (n + 1) ps result := by
  have first {m : Nat} (le : n + 1 ≤ m) :
      ∃ m', n ≤ m' ∧ unifyPairs m ps i.store = unifyPairs m' ps' j.store := by
    obtain ⟨m, rfl⟩ := Nat.exists_eq_add_of_le' le
    exact ⟨m + n, by omega, h (m + n)⟩
  match result with
  | none => trivial
  | some none =>
    obtain ⟨b, later, run⟩ := rest
    refine ⟨b, before.store.trans later, fun m le => ?_⟩
    obtain ⟨m', le, eq⟩ := first le
    rw [eq, run m' le]
  | some (some σ) =>
    obtain ⟨k, later, state, run⟩ := rest
    refine ⟨k, before.trans later, by rw [state, next], fun m le => ?_⟩
    obtain ⟨m', le, eq⟩ := first le
    rw [eq, run m' le]

abbrev ShowsPairs (i : Image) : List (Term × Term) → List (Term × Term) → Prop :=
  List.Forall₂ fun p q => i.Shows p.1 q.1 ∧ i.Shows p.2 q.2

section Variables

variable {name : String} {σ : Subst}

lemma unify?_left (e : σ.apply s = .var name x) (other : (σ.apply t).isVar = false) :
    unify? (n + 1) ((s, t) :: qs) σ =
      if x ∈ (σ.apply t).ids then none else unify? n qs (σ.assign x (σ.apply t)) := by
  rw [unify?, e]
  cases eq : σ.apply t with
  | var name v => rw [eq] at other; cases other
  | _ => rfl

lemma unify?_right (e : σ.apply t = .var name x) (other : (σ.apply s).isVar = false) :
    unify? (n + 1) ((s, t) :: qs) σ =
      if x ∈ (σ.apply s).ids then none else unify? n qs (σ.assign x (σ.apply s)) := by
  rw [unify?, e]
  cases eq : σ.apply s with
  | var name v => rw [eq] at other; cases other
  | _ => rfl

lemma unifyPairs_left (e : b.walk u = .var name x) (other : (b.walk w).isVar = false) :
    unifyPairs (n + 1) ((u, w) :: ps) b = unifyPairs n ps (b.bind x (b.walk w)) := by
  rw [unifyPairs, e]
  cases eq : b.walk w with
  | var name v => rw [eq] at other; cases other
  | _ => rfl

lemma unifyPairs_right (e : b.walk w = .var name x) (other : (b.walk u).isVar = false) :
    unifyPairs (n + 1) ((u, w) :: ps) b = unifyPairs n ps (b.bind x (b.walk u)) := by
  rw [unifyPairs, e]
  cases eq : b.walk u with
  | var name v => rw [eq] at other; cases other
  | _ => rfl

end Variables

lemma Top.isVar (h : i.Top u t) : u.isVar = t.isVar := by
  cases h <;> rfl

lemma Unifies.bind (h : i.Assigns x w r)
    (run : ∀ m, unifyPairs (m + 1) ps' i.store = unifyPairs m ps (i.store.bind (i.place x) w))
    (more : ∀ j : Image, i.Before j → j.Unifies n ps (unify? n qs j.state.subst)) :
    i.Unifies (n + 1) ps' (unify? n qs (i.state.subst.assign x r)) :=
  .step (before_bind h) rfl run (more _ (before_bind h))

section Pair

variable (more : ∀ j : Image, i.Before j → j.Unifies n ps (unify? n qs j.state.subst))
  (left : i.Shows u s) (right : i.Shows w t)

include more left right

lemma unifies_bound {qs' : List (Term × Term)} (var : (i.state.subst.apply s).isVar = true)
    (find : ∀ {name x}, i.state.subst.apply s = .var name x → unify? (n + 1) qs' i.state.subst =
      if x ∈ (i.state.subst.apply t).ids then none
      else unify? n qs (i.state.subst.assign x (i.state.subst.apply t)))
    (run : ∀ {m name x}, i.store.walk u = .var name x →
      unifyPairs (m + 1) ps' i.store = unifyPairs m ps (i.store.bind x (i.store.walk w))) :
    i.Unifies (n + 1) ps' (unify? (n + 1) qs' i.state.subst) := by
  have top := left.top
  generalize e₁ : i.store.walk u = u' at top
  generalize e₂ : i.state.subst.apply s = s' at top var
  cases top with
  | var inside unbound settled =>
    rw [find e₂]
    split
    · trivial
    · next acyclic =>
      exact .bind (right.assigns inside unbound settled rfl acyclic) (fun _ => run e₁) more
  | _ => cases var

lemma unifies_vars (var : (i.state.subst.apply s).isVar = true)
    (var' : (i.state.subst.apply t).isVar = true) :
    i.Unifies (n + 1) ((u, w) :: ps) (unify? (n + 1) ((s, t) :: qs) i.state.subst) := by
  have top := left.top
  have top' := right.top
  generalize e₁ : i.store.walk u = u' at top
  generalize e₂ : i.state.subst.apply s = s' at top var
  generalize e₃ : i.store.walk w = w' at top'
  generalize e₄ : i.state.subst.apply t = t' at top' var'
  cases top with
  | @var x _ _ inside unbound settled =>
    cases top' with
    | @var y _ _ _ _ _ =>
      rw [unify?, e₂, e₄]
      change i.Unifies (n + 1) _ (unify? n qs (if x = y then _ else _))
      by_cases same : x = y
      · subst same
        rw [if_pos rfl]
        refine .step (.refl i) rfl (fun m => ?_) (more i (.refl i))
        rw [unifyPairs, e₁, e₃]
        exact if_pos rfl
      · rw [if_neg same]
        have assigns := right.assigns inside unbound settled (r := free y) (by rw [e₄]; rfl)
          fun mem => same (mem_ids_var.1 mem)
        refine .bind assigns (fun m => ?_) more
        rw [unifyPairs, e₁, e₃]
        exact if_neg fun eq => same (i.injective eq)
    | _ => cases var'
  | _ => cases var

end Pair

lemma ShowsPairs.zip {us us' ts ts' : List Term} (h : Forall₂ i.Shows us ts)
    (h' : Forall₂ i.Shows us' ts') : i.ShowsPairs (us.zip us') (ts.zip ts') := by
  induction h generalizing us' ts' with
  | nil => exact .nil
  | cons first _ ih =>
    cases h' with
    | nil => exact .nil
    | cons first' others' => exact .cons ⟨first, first'⟩ (ih others')

lemma unifies_structures
    (ih : ∀ {ps qs}, i.ShowsPairs ps qs → i.Unifies n ps (unify? n qs i.state.subst))
    (left : i.Shows u s) (right : i.Shows w t) (rest : i.ShowsPairs ps qs)
    (other : (i.state.subst.apply s).isVar = false)
    (other' : (i.state.subst.apply t).isVar = false) :
    i.Unifies (n + 1) ((u, w) :: ps) (unify? (n + 1) ((s, t) :: qs) i.state.subst) := by
  have top := left.top
  have top' := right.top
  generalize e₁ : i.store.walk u = u' at top
  generalize e₂ : i.state.subst.apply s = s' at top other
  generalize e₃ : i.store.walk w = w' at top'
  generalize e₄ : i.state.subst.apply t = t' at top' other'
  have go {ps' qs' : List (Term × Term)} (pairs : i.ShowsPairs ps' qs')
      (run : ∀ m, unifyPairs (m + 1) ((u, w) :: ps) i.store = unifyPairs m ps' i.store) :
      i.Unifies (n + 1) ((u, w) :: ps) (unify? n qs' i.state.subst) :=
    .step (.refl i) rfl run (ih pairs)
  cases top with
  | var => cases other
  | atom a =>
    cases top' with
    | var => cases other'
    | atom b =>
      rw [unify?, e₂, e₄]
      change i.Unifies _ _ (if a = b then _ else _)
      split
      · next same => exact go rest fun m => by rw [unifyPairs, e₁, e₃]; exact if_pos same
      · next same => exact .clash fun m => by rw [unifyPairs, e₁, e₃]; exact if_neg same
    | _ => rw [unify?, e₂, e₄]; exact .clash fun m => by rw [unifyPairs, e₁, e₃]
  | number a =>
    cases top' with
    | var => cases other'
    | number b =>
      rw [unify?, e₂, e₄]
      change i.Unifies _ _ (if a.same b then _ else _)
      split
      · next same => exact go rest fun m => by rw [unifyPairs, e₁, e₃]; exact if_pos same
      · next same => exact .clash fun m => by rw [unifyPairs, e₁, e₃]; exact if_neg same
    | _ => rw [unify?, e₂, e₄]; exact .clash fun m => by rw [unifyPairs, e₁, e₃]
  | @compound f us ss args =>
    cases top' with
    | var => cases other'
    | @compound g ws ts args' =>
      rw [unify?, e₂, e₄]
      change i.Unifies _ _ (if f = g ∧ ss.length = ts.length then _ else _)
      have same_test : (decide (f = g) && decide (us.length = ws.length)) = true ↔
          f = g ∧ ss.length = ts.length := by
        rw [args.length_eq, args'.length_eq, Bool.and_eq_true, decide_eq_true_iff,
          decide_eq_true_iff]
      split
      · next same =>
        refine go (rel_append (ShowsPairs.zip args args') rest) fun m => ?_
        rw [unifyPairs, e₁, e₃]
        exact if_pos (same_test.2 same)
      · next same =>
        refine .clash fun m => ?_
        rw [unifyPairs, e₁, e₃]
        exact if_neg (mt same_test.1 same)
    | _ => rw [unify?, e₂, e₄]; exact .clash fun m => by rw [unifyPairs, e₁, e₃]
  | cell head tail =>
    cases top' with
    | var => cases other'
    | cell head' tail' =>
      rw [unify?, e₂, e₄]
      exact go (.cons ⟨head, head'⟩ (.cons ⟨tail, tail'⟩ rest)) fun m => by rw [unifyPairs, e₁, e₃]
    | _ => rw [unify?, e₂, e₄]; exact .clash fun m => by rw [unifyPairs, e₁, e₃]

lemma unifies (pairs : i.ShowsPairs ps qs) : i.Unifies n ps (unify? n qs i.state.subst) := by
  induction n generalizing i ps qs with
  | zero => trivial
  | succ n ih =>
    cases pairs with
    | nil =>
      refine ⟨i, .refl i, rfl, fun m le => ?_⟩
      obtain ⟨m, rfl⟩ := Nat.exists_eq_add_of_le' le
      rfl
    | @cons p q ps qs both rest =>
      obtain ⟨u, w⟩ := p
      obtain ⟨s, t⟩ := q
      obtain ⟨left, right⟩ := both
      have more (j : Image) (before : i.Before j) : j.Unifies n ps (unify? n qs j.state.subst) :=
        ih (rest.imp fun _ _ h => ⟨h.1.mono before, h.2.mono before⟩)
      cases var : (i.state.subst.apply s).isVar with
      | true =>
        cases var' : (i.state.subst.apply t).isVar with
        | true => exact unifies_vars more left right var var'
        | false =>
          exact unifies_bound more left right var (unify?_left · var')
            (unifyPairs_left · (right.top.isVar.trans var'))
      | false =>
        cases var' : (i.state.subst.apply t).isVar with
        | true =>
          exact unifies_bound more right left var' (unify?_right · var)
            (unifyPairs_right · (left.top.isVar.trans var))
        | false => exact unifies_structures ih left right rest var var'

end Image

end Search

end Horn
