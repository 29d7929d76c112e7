import Horn.Proofs.TermEquality

/-!
# The standard order is linear

Orientation and transitivity follow from `Ordering.Composes`, which says how two comparisons combine
to a third.
-/

namespace Horn

open List Term

/-- `z` is an ordering of `a` and `c` that agrees with `x` of `a` and `b` and `y` of `b` and `c`. -/
structure Ordering.Composes (x y z : Ordering) : Prop where
  left : x = .eq → z = y
  right : y = .eq → z = x
  alike : x = y → z = x

lemma Ordering.Composes.then {x y z x' y' z' : Ordering} (h : Composes x y z)
    (h' : x = .eq → y = .eq → Composes x' y' z') :
    Composes (x.then x') (y.then y') (z.then z') := by
  obtain ⟨left, right, alike⟩ := h
  cases x with
  | eq =>
    rw [left rfl]
    cases y with
    | eq => exact h' rfl rfl
    | lt | gt => exact ⟨fun _ => rfl, nofun, Eq.symm⟩
  | lt =>
    cases y with
    | eq => rw [right rfl]; exact ⟨nofun, fun _ => rfl, fun _ => rfl⟩
    | lt => rw [alike rfl]; exact ⟨nofun, nofun, fun _ => rfl⟩
    | gt => exact ⟨nofun, nofun, nofun⟩
  | gt =>
    cases y with
    | eq => rw [right rfl]; exact ⟨nofun, fun _ => rfl, fun _ => rfl⟩
    | lt => exact ⟨nofun, nofun, nofun⟩
    | gt => rw [alike rfl]; exact ⟨nofun, nofun, fun _ => rfl⟩

lemma Ordering.Composes.swap {x y : Ordering} (h : Composes x y .eq) : y = x.swap := by
  obtain ⟨left, right, alike⟩ := h
  cases x <;> cases y <;> simp at left right alike <;> rfl

lemma Ordering.Composes.not_gt {x y z : Ordering} (h : Composes x y z) (hx : x ≠ .gt)
    (hy : y ≠ .gt) : z ≠ .gt := by
  obtain ⟨left, right, alike⟩ := h
  cases x <;> cases y <;> simp_all

lemma Ordering.composes_compare {α : Type} [Ord α] [Std.TransOrd α] [Std.LawfulEqOrd α]
    (a b c : α) : Composes (compare a b) (compare b c) (compare a c) where
  left eq := by rw [Std.LawfulEqOrd.eq_of_compare eq]
  right eq := by rw [Std.LawfulEqOrd.eq_of_compare eq]
  alike same := by
    cases first : compare a b with
    | eq => rw [Std.LawfulEqOrd.eq_of_compare first, ← same, first]
    | lt => exact Std.TransCmp.lt_trans first (same ▸ first)
    | gt => exact Std.TransCmp.gt_trans first (same ▸ first)

namespace Term

structure Comparable (t : Term) : Prop where
  normal : t.Normal
  floatFree : ∀ x, .number (.float x) ∉ t.subterms

variable {a b c : Term}

lemma Comparable.arg (h : a.Comparable) (hb : b ∈ a.args) : b.Comparable := by
  have sub : b.subterms ⊆ a.subterms := by
    cases a with
    | compound f args => exact subterms_arg hb
    | cell x y =>
      rcases mem_cons.1 hb with rfl | hb
      · exact subterms_head
      · rw [mem_singleton.1 hb]
        exact subterms_tail
    | _ => cases hb
  exact ⟨h.normal.sub sub, fun x hx => h.floatFree x (sub hx)⟩

def orderStructures (a b : Term) : Ordering :=
  (compare a.arity b.arity).then
    ((compare (a.name?.getD "") (b.name?.getD "")).then (orderAll a.args b.args))

def orderAlike : Term → Term → Ordering
  | .var _ i, .var _ j => compare i j
  | .number x, .number y => x.order y
  | .atom a, .atom b => compare a b
  | a, b => orderStructures a b

lemma order_eq_then (a b : Term) : order a b = (compare a.rank b.rank).then (orderAlike a b) := by
  cases a <;> cases b
  case compound.compound f as g bs =>
    simp [order, orderAlike, orderStructures, rank, orderFunctors, arity, args, name?,
      Ordering.then_assoc]
  case compound.cell f as x y =>
    rcases as with _ | ⟨a, _ | ⟨b, _ | ⟨c, rest⟩⟩⟩
    · rfl
    · rfl
    · simp [order, orderAlike, orderStructures, rank, orderFunctors, arity, args, name?, orderAll]
    · have longer : compare (rest.length + 1 + 1 + 1) 2 = .gt := Nat.compare_eq_gt.2 (by omega)
      simp [order, orderAlike, orderStructures, rank, orderFunctors, arity, args, longer]
  case cell.compound x y f as =>
    rcases as with _ | ⟨a, _ | ⟨b, _ | ⟨c, rest⟩⟩⟩
    · rfl
    · rfl
    · simp [order, orderAlike, orderStructures, rank, orderFunctors, arity, args, name?, orderAll]
    · have shorter : compare 2 (rest.length + 1 + 1 + 1) = .lt := Nat.compare_eq_lt.2 (by omega)
      simp [order, orderAlike, orderStructures, rank, orderFunctors, arity, args, shorter]
  case cell.cell x y x' y' =>
    simp [order, orderAlike, orderStructures, rank, arity, args, name?, orderAll]
  all_goals rfl

lemma orderAll_composes {as bs cs : List Term} (short : as.length = bs.length)
    (short' : bs.length = cs.length)
    (each : ∀ a ∈ as, ∀ b ∈ bs, ∀ c ∈ cs, Ordering.Composes (order a b) (order b c) (order a c)) :
    Ordering.Composes (orderAll as bs) (orderAll bs cs) (orderAll as cs) := by
  induction as generalizing bs cs with
  | nil =>
    cases bs with
    | nil => exact ⟨fun _ => rfl, fun _ => rfl, fun _ => rfl⟩
    | cons => cases short
  | cons a as ih =>
    cases bs with
    | nil => cases short
    | cons b bs =>
      cases cs with
      | nil => cases short'
      | cons c cs =>
        have first := each a mem_cons_self b mem_cons_self c mem_cons_self
        refine first.then fun _ _ => ih (Nat.succ.inj short) (Nat.succ.inj short') ?_
        exact fun a ha b hb c hc => each a (mem_cons_of_mem _ ha) b (mem_cons_of_mem _ hb)
          c (mem_cons_of_mem _ hc)

lemma orderStructures_composes
    (each : ∀ x ∈ a.args, ∀ y ∈ b.args, ∀ z ∈ c.args,
      Ordering.Composes (order x y) (order y z) (order x z)) :
    Ordering.Composes (orderStructures a b) (orderStructures b c) (orderStructures a c) := by
  refine (Ordering.composes_compare a.arity b.arity c.arity).then fun short short' => ?_
  refine (Ordering.composes_compare _ _ _).then fun _ _ => ?_
  exact orderAll_composes (Nat.compare_eq_eq.1 short) (Nat.compare_eq_eq.1 short') each

lemma order_int (i j : Int64) : (Number.int i).order (.int j) = compare i.toInt j.toInt := by
  rw [Number.order, Arithmetic.compareNumbers]
  cases compare i.toInt j.toInt <;> rfl

lemma orderAlike_composes (ha : a.Comparable) (hb : b.Comparable) (hc : c.Comparable)
    (rank_b : a.rank = b.rank) (rank_c : b.rank = c.rank)
    (each : ∀ x ∈ a.args, ∀ y ∈ b.args, ∀ z ∈ c.args,
      Ordering.Composes (order x y) (order y z) (order x z)) :
    Ordering.Composes (orderAlike a b) (orderAlike b c) (orderAlike a c) := by
  have structures := orderStructures_composes each
  cases a <;> cases b <;> cases rank_b <;> cases c <;> cases rank_c
  case number.number.refl.number.refl x y z =>
    cases x with
    | float x => exact absurd mem_cons_self (ha.floatFree x)
    | int i =>
      cases y with
      | float y => exact absurd mem_cons_self (hb.floatFree y)
      | int j =>
        cases z with
        | float z => exact absurd mem_cons_self (hc.floatFree z)
        | int k =>
          simp only [orderAlike, order_int]
          exact Ordering.composes_compare _ _ _
  case atom.atom.refl.atom.refl => exact Ordering.composes_compare _ _ _
  case var.var.refl.var.refl => exact Ordering.composes_compare _ _ _
  all_goals exact structures

lemma induct_args {P : Term → Prop} (step : ∀ a, (∀ x ∈ a.args, P x) → P a) (a : Term) : P a := by
  induction a using induct with
  | atom | number | var => exact step _ nofun
  | compound f args ih => exact step _ ih
  | cell x y ihx ihy => exact step _ (by simpa [args] using ⟨ihx, ihy⟩)

lemma order_composes (ha : a.Comparable) (hb : b.Comparable) (hc : c.Comparable) :
    Ordering.Composes (order a b) (order b c) (order a c) := by
  induction a using induct_args generalizing b c with
  | step a ih =>
    simp only [order_eq_then]
    refine (Ordering.composes_compare _ _ _).then fun rank_b rank_c => ?_
    refine orderAlike_composes ha hb hc (Nat.compare_eq_eq.1 rank_b) (Nat.compare_eq_eq.1 rank_c) ?_
    exact fun x hx y hy z hz => ih x hx (ha.arg hx) (hb.arg hy) (hc.arg hz)

lemma orderAll_eq_iff {as bs : List Term} (short : as.length = bs.length)
    (each : ∀ a ∈ as, ∀ b ∈ bs, order a b = .eq ↔ a.same b) :
    orderAll as bs = .eq ↔ sameAll as bs := by
  induction as generalizing bs with
  | nil =>
    cases bs with
    | nil => exact ⟨fun _ => rfl, fun _ => rfl⟩
    | cons => cases short
  | cons a as ih =>
    cases bs with
    | nil => cases short
    | cons b bs =>
      rw [orderAll, sameAll, Ordering.then_eq_eq, Bool.and_eq_true,
        each a mem_cons_self b mem_cons_self, ih (Nat.succ.inj short)]
      exact fun a ha b hb => each a (mem_cons_of_mem _ ha) b (mem_cons_of_mem _ hb)

lemma same_structures (ha : a.Normal) (hb : b.Normal) (sa : a.isStructure) (sb : b.isStructure) :
    a.same b ↔ a.arity = b.arity ∧ a.name?.getD "" = b.name?.getD "" ∧ sameAll a.args b.args := by
  have list {f : String} {as : List Term} (h : (compound f as).Normal) :
      ¬(as.length = 2 ∧ f = ".") :=
    fun dotted => (h f as (self_mem_subterms _)).2 dotted.symm
  cases a <;> cases sa <;> cases b <;> cases sb
  case compound.refl.compound.refl f as g bs =>
    rw [same_compound, sameAll_iff]
    exact ⟨fun h => ⟨h.2.length_eq, h⟩, fun h => h.2⟩
  case compound.refl.cell.refl f as x y => exact ⟨nofun, fun h => (list ha ⟨h.1, h.2.1⟩).elim⟩
  case cell.refl.compound.refl x y f as => exact ⟨nofun, fun h => (list hb ⟨h.1.symm, h.2.1.symm⟩).elim⟩
  case cell.refl.cell.refl x y x' y' => simp [arity, args, name?, sameAll]

lemma orderAlike_eq_iff (ha : a.Comparable) (hb : b.Comparable) (ranks : a.rank = b.rank)
    (each : ∀ x ∈ a.args, ∀ y ∈ b.args, order x y = .eq ↔ x.same y) :
    orderAlike a b = .eq ↔ a.same b := by
  have structures (sa : a.isStructure) (sb : b.isStructure) :
      orderStructures a b = .eq ↔ a.same b := by
    rw [same_structures ha.normal hb.normal sa sb, orderStructures, Ordering.then_eq_eq,
      Ordering.then_eq_eq, Nat.compare_eq_eq, Std.LawfulEqOrd.compare_eq_iff_eq]
    exact and_congr_right fun short => and_congr_right fun _ => orderAll_eq_iff short each
  cases a <;> cases b <;> cases ranks
  case number.number.refl x y =>
    cases x with
    | float x => exact absurd mem_cons_self (ha.floatFree x)
    | int i =>
      cases y with
      | float y => exact absurd mem_cons_self (hb.floatFree y)
      | int j => simp [orderAlike, order_int, same, Number.same, Int64.toInt_inj]
  case atom.atom.refl => simp [orderAlike, same]
  case var.var.refl => simp [orderAlike, same]
  all_goals exact structures rfl rfl

lemma rank_of_same (h : a.same b) : a.rank = b.rank := by
  cases a <;> cases b <;> first | rfl | cases h

lemma order_eq_iff (ha : a.Comparable) (hb : b.Comparable) : order a b = .eq ↔ a.same b := by
  induction a using induct_args generalizing b with
  | step a ih =>
    have alike (ranks : a.rank = b.rank) :=
      orderAlike_eq_iff ha hb ranks fun x hx y hy => ih x hx (ha.arg hx) (hb.arg hy)
    rw [order_eq_then, Ordering.then_eq_eq, Nat.compare_eq_eq]
    exact ⟨fun h => (alike h.1).1 h.2, fun h => ⟨rank_of_same h, (alike (rank_of_same h)).2 h⟩⟩

lemma order_swap (ha : a.Comparable) (hb : b.Comparable) : order b a = (order a b).swap := by
  have self : order a a = .eq := (order_eq_iff ha ha).2 (same_self ha.floatFree)
  exact (self ▸ order_composes ha hb ha).swap

end Term

namespace Builtin

def comparisons (o : Ordering) : List (Builtin × Bool) :=
  [(.termLess, o = .lt), (.termGreater, o = .gt), (.termLessEq, o ≠ .gt), (.termGreaterEq, o ≠ .lt),
    (.identical, o = .eq), (.notIdentical, o ≠ .eq)]

section Resolved

variable {s t a b : Term} {fuel : Nat} {w : World}

section

variable (left : w.bindings.resolve? fuel s = some a) (right : w.bindings.resolve? fuel t = some b)

include left right

lemma bind_resolve {α : Type} (f : Term → Term → Action α) :
    (Action.resolve fuel s >>= fun x => Action.resolve fuel t >>= f x) w = f a b w := by
  simp only [bind, EStateM.bind, Action.resolve, left, right]

lemma bind_standardOrder {α : Type} (f : Ordering → Action α) :
    (standardOrder fuel s t >>= f) w = f (a.order b) w := by
  have ordered : standardOrder fuel s t w = .ok (a.order b) w := bind_resolve left right _
  simp only [bind, EStateM.bind, ordered]

lemma run_comparisons (same : a.order b = .eq ↔ a.same b) :
    ∀ c ∈ comparisons (a.order b), run fuel c.1 [s, t] w = .ok (.ofBool c.2) w := by
  have equal : decide (a.order b = .eq) = a.same b := by
    cases h : a.same b <;> simp_all
  have unequal : decide (a.order b ≠ .eq) = !a.same b := by rw [decide_not, equal]
  have ordered (f : Ordering → Action Verdict) := bind_standardOrder left right f
  simp only [comparisons, forall_mem_cons, equal, unequal]
  exact ⟨ordered _, ordered _, ordered _, ordered _, bind_resolve left right _,
    bind_resolve left right _, nofun⟩

end

end Resolved

end Builtin

open Builtin in
/-- The standard order is total, antisymmetric and transitive, and two terms are of equal order
exactly when they are equal. All built-ins that compare terms tell of the same order, and `compare`
gives its name. -/
theorem Term.order_linear {a b c : Term} (ha : a.Comparable) (hb : b.Comparable)
    (hc : c.Comparable) :
    (a.order b ≠ .gt ∨ b.order a ≠ .gt) ∧
      (a.order b ≠ .gt → b.order a ≠ .gt → a.same b) ∧
      (a.order b ≠ .gt → b.order c ≠ .gt → a.order c ≠ .gt) ∧
      (a.order b = .eq ↔ a.same b) ∧ b.order a = (a.order b).swap ∧
      ∀ (fuel : Nat) (w : World) (s t : Term), w.bindings.resolve? fuel s = some a →
        w.bindings.resolve? fuel t = some b →
        (∀ c ∈ comparisons (a.order b), run fuel c.1 [s, t] w = .ok (.ofBool c.2) w) ∧
          ∀ u, run fuel .compare [u, s, t] w =
            run fuel .unify [u, .atom (orderText (a.order b))] w := by
  have swap := order_swap ha hb
  have equal := order_eq_iff ha hb
  refine ⟨?_, ?_, (order_composes ha hb hc).not_gt, equal, swap, fun fuel w s t left right => ?_⟩
  · rw [swap]
    cases a.order b <;> decide
  · rw [swap, ← equal]
    cases a.order b <;> decide
  · exact ⟨run_comparisons left right equal, fun u => bind_standardOrder left right _⟩

/-- A list, and two structures that differ in their last argument and in the names of variables. -/
theorem Term.order_linear_mixed :
    let a : Term := .cell (.var "X" 0) .nil
    let b : Term := .compound "f" [.var "Y" 0, .int 3]
    let c : Term := .compound "f" [.var "X" 0, .int 4]
    a.Comparable ∧ b.Comparable ∧ c.Comparable ∧ a.order b ≠ .gt ∧ b.order c ≠ .gt ∧
      a.order c ≠ .gt := by
  intro a b c
  have ha : a.Comparable := ⟨by decide, fun x => by simp [a, subterms, nil]⟩
  have hb : b.Comparable := ⟨by decide, fun x => by simp [b, subterms, subtermsAll, int]⟩
  have hc : c.Comparable := ⟨by decide, fun x => by simp [c, subterms, subtermsAll, int]⟩
  have first : a.order b ≠ .gt := by decide
  have second : b.order c ≠ .gt := by decide
  exact ⟨ha, hb, hc, first, second, (order_linear ha hb hc).2.2.1 first second⟩

end Horn
