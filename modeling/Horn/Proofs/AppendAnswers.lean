import Horn.Proofs.GroundAnswers
import Horn.Proofs.ObservedCalls

/-! # Joining and splitting lists -/

namespace Horn

open List Term Subst

variable {zs xs : List Term} {r : Option Subst} {v : Nat}

def appendGoal (s t u : Term) : Term := .compound "append" [s, t, u]

/-- The head of `append([], L, L)`. -/
def appendNil : Term := appendGoal .nil (.var "L" 0) (.var "L" 0)

/-- The head of `append([H|T], L, [H|R]) :- append(T, L, R)`. -/
def appendCell : Term :=
  appendGoal (.cell (.var "H" 0) (.var "T" 1)) (.var "L" 2) (.cell (.var "H" 0) (.var "R" 3))

/-- The domain has these two clauses of `append/3`, and no others. -/
def Domain.HasAppend (d : Domain) : Prop :=
  ((d.find? ⟨"append", 3⟩).map fun p => p.clauses.map fun c => (c.clause.head, c.clause.body)) =
    some [(some appendNil, []),
      (some appendCell, [appendGoal (.var "T" 1) (.var "L" 2) (.var "R" 3)])]

lemma Domain.two_clauses {d : Domain} {f : Functor} {h h' : Option Term} {b b' : List Term}
    (has : ((d.find? f).map fun p => p.clauses.map fun c => (c.clause.head, c.clause.body)) =
      some [(h, b), (h', b')]) :
    ∃ p, d.find? f = some p ∧ ∃ c c', p.clauses = [c, c'] ∧
      (c.clause.head = h ∧ c.clause.body = b) ∧ c'.clause.head = h' ∧ c'.clause.body = b' := by
  obtain ⟨p, found, clauses⟩ := Option.map_eq_some_iff.1 has
  obtain ⟨c, _, all, first, rest⟩ := map_eq_cons_iff.1 clauses
  obtain ⟨c', _, rfl, second, rest⟩ := map_eq_cons_iff.1 rest
  obtain rfl := map_eq_nil_iff.1 rest
  exact ⟨p, found, c, c', all, Prod.mk.inj first, Prod.mk.inj second⟩

instance (d : Domain) : Decidable d.HasAppend := by
  unfold Domain.HasAppend
  infer_instance

def splits (zs : List Term) : List (Term × Term) :=
  (range (zs.length + 1)).map fun k => (.list (zs.take k), .list (zs.drop k))

lemma splits_cons (z : Term) (zs : List Term) :
    splits (z :: zs) =
      (.nil, .list (z :: zs)) :: (splits zs).map fun (x, y) => (.cell z x, y) := by
  rw [splits, length_cons, range_succ_eq_map, map_cons, map_map, splits,
    map_map]
  rfl

lemma ground_splits (items : ∀ z ∈ zs, z.Ground) : ∀ p ∈ splits zs, p.1.Ground ∧ p.2.Ground := by
  refine forall_mem_map.2 fun k _ => ⟨Term.Ground.list.2 fun z hz => ?_,
    Ground.list.2 fun z hz => ?_⟩
  · exact items z (mem_of_mem_take hz)
  · exact items z (mem_of_mem_drop hz)

namespace Search

open Subst (free unify? assign single)
open Answers (ofList)

variable {p : Program} {s : State} {σ : Subst} {n : Nat}
  {x : Nat} {a b c : Term}

def Refines (τ σ : Subst) : Prop := ∃ θ : Subst, ∀ v, τ v = θ.apply (σ v)

lemma Refines.trans {τ υ : Subst} (h : Refines τ σ) (h' : Refines υ τ) : Refines υ σ := by
  obtain ⟨θ, hθ⟩ := h
  obtain ⟨θ', hθ'⟩ := h'
  exact ⟨fun v => θ'.apply (θ v), fun v => by rw [hθ' v, hθ v, apply_apply]⟩

lemma refines_assign (x : Nat) (u : Term) : Refines (σ.assign x u) σ := ⟨single x u, fun _ => rfl⟩

lemma Refines.apply_eq {τ : Subst} (h : Refines τ σ) {t u : Term} (value : σ.apply t = u)
    (settled : σ.apply u = u) : τ.apply t = τ.apply u := by
  obtain ⟨θ, hθ⟩ := h
  have through (t : Term) : τ.apply t = θ.apply (σ.apply t) := by
    rw [apply_apply]
    exact apply_eq_apply.2 fun v _ => hθ v
  rw [through, through, value, settled]

lemma single_free (x : Nat) (u : Term) : (single x u).apply (free x) = u := single_self x u

lemma single_free_of_ne (u : Term) (ne : v ≠ x) :
    (single x u).apply (free v) = free v := single_of_ne u ne

lemma notMem_free (ne : x ≠ v) : x ∉ (free v).ids := fun mem =>
  ne (mem_ids_var.1 mem)

def State.Idle (s : State) : Prop := ∀ v, s.next ≤ v → s.subst.apply (free v) = free v

structure State.Open (s : State) (t : Term) (x : Nat) : Prop where
  value : s.subst.apply t = free x
  unbound : s.subst.apply (free x) = free x
  below : x < s.next

lemma unifies_triple {f : String} {a' b' c' t₁ t₂ t₃ u₁ u₂ u₃ : Term}
    (h : σ.apply t₁ = u₁ ∧ σ.apply t₂ = u₂ ∧ σ.apply t₃ = u₃)
    (h' : σ.apply a = a' ∧ σ.apply b = b' ∧ σ.apply c = c')
    (unified : Unifies σ [(u₁, a'), (u₂, b'), (u₃, c')] r) :
    Unifies σ [(.compound f [t₁, t₂, t₃], .compound f [a, b, c])] r := by
  obtain ⟨rfl, rfl, rfl⟩ := h
  obtain ⟨rfl, rfl, rfl⟩ := h'
  exact .compound rfl unified

lemma State.Idle.new (idle : s.Idle) (le : s.next ≤ v) : s.subst.apply (free v) = free v :=
  idle v le

lemma State.Idle.cell (idle : s.Idle) (k : Nat) :
    s.subst.apply (.cell (free s.next) (free (s.next + k))) =
      .cell (free s.next) (free (s.next + k)) := by
  rw [apply_cell, idle _ (Nat.le_refl _), idle _ (Nat.le_add_right _ k)]

abbrev State.Meets (s : State) (head goal : Term) (r : Option Subst) : Prop :=
  Unifies s.subst [(Bindings.rename s.next head, goal)] r

section Joining

variable {y : Term} {r : Nat}

lemma unifies_appendNil_join (idle : s.Idle) (ha : s.subst.apply a = .nil)
    (hb : s.subst.apply b = y) (ground : y.Ground) (hc : s.Open c r) :
    ∃ τ, s.Meets appendNil (appendGoal a b c) (some τ) ∧
      Refines τ s.subst ∧ τ.apply (free r) = y := by
  obtain ⟨hc, hr, lt⟩ := hc
  have new : s.subst.apply (free s.next) = free s.next := idle s.next (Nat.le_refl _)
  refine ⟨(s.subst.assign s.next y).assign r y, unifies_triple ⟨rfl, new, new⟩ ⟨ha, hb, hc⟩ ?_,
    (refines_assign _ _).trans (refines_assign _ _), ?_⟩
  · refine .atom rfl rfl (.assign_left new (ground.apply _) ground.isVar (ground.notMem _) ?_)
    refine .assign_right (u := y) (y := r) ?_ ?_ ground.isVar (ground.notMem _) (.nil _)
    · rw [assign_apply, new, single_free]
    · rw [assign_apply, hr, single_free_of_ne y (Nat.ne_of_lt lt)]
  · simp (disch := omega) only [assign_apply, hr, single_free_of_ne, single_free]

lemma unifies_appendCell_join {x l : Term} (idle : s.Idle) (ha : s.subst.apply a = .cell x l)
    (item : x.Ground) (items : l.Ground) (hb : s.subst.apply b = y) (ground : y.Ground)
    (hc : s.Open c r) :
    ∃ τ, s.Meets appendCell (appendGoal a b c) (some τ) ∧
      Refines τ s.subst ∧ τ.apply (free (s.next + 1)) = l ∧ τ.apply (free (s.next + 2)) = y ∧
      τ.apply (free r) = .cell x (free (s.next + 3)) ∧
      ∀ v, s.next + 3 ≤ v → τ.apply (free v) = free v := by
  obtain ⟨hc, hr, lt⟩ := hc
  have plain : s.subst.apply (.cell x l) = .cell x l := (Term.Ground.cell.2 ⟨item, items⟩).apply _
  refine ⟨(((s.subst.assign s.next x).assign (s.next + 1) l).assign (s.next + 2) y).assign r
    (.cell x (free (s.next + 3))),
    unifies_triple ⟨idle.cell 1, idle.new (by omega), idle.cell 3⟩ ⟨ha, hb, hc⟩ ?_,
    ((refines_assign _ _).trans (refines_assign _ _)).trans
      ((refines_assign _ _).trans (refines_assign _ _)), ?_⟩
  · refine .cell (idle.cell 1) plain ?_
    refine .assign_left (idle.new (by omega)) (item.apply _) item.isVar (item.notMem _) ?_
    refine .assign_left (x := s.next + 1) ?_ (items.apply _) items.isVar (items.notMem _) ?_
    · simp (disch := omega) only [assign_apply, idle.new, single_free_of_ne]
    refine .assign_left (x := s.next + 2) ?_ (ground.apply _) ground.isVar (ground.notMem _) ?_
    · simp (disch := omega) only [assign_apply, idle.new, single_free_of_ne]
    refine .assign_right (y := r) ?_ ?_ rfl ?_ (.nil _)
    · simp (disch := omega) only [assign_apply, idle.new, single_free_of_ne, single_free,
        apply_cell, item.apply]
    · simp (disch := omega) only [assign_apply, hr, single_free_of_ne]
    · rw [mem_ids_cell]
      exact not_or_intro (item.notMem r) (notMem_free (by omega))
  · refine ⟨?_, ?_, ?_, fun v le => ?_⟩
    all_goals simp (disch := omega) only [assign_apply, idle.new, hr, single_free_of_ne,
      single_free, ground.apply, items.apply]

end Joining

section Splitting

variable {z l : Term} {y : Nat}

section

variable (idle : s.Idle) (ha : s.Open a x) (hb : s.Open b y) (ne : x ≠ y)

include idle ha hb ne

lemma unifies_appendNil_split (hc : s.subst.apply c = z) (ground : z.Ground) :
    ∃ τ, s.Meets appendNil (appendGoal a b c) (some τ) ∧
      Refines τ s.subst ∧ τ.apply (free x) = .nil ∧ τ.apply (free y) = z := by
  obtain ⟨ha, hx, ltx⟩ := ha
  obtain ⟨hb, hy, lty⟩ := hb
  have new : s.subst.apply (free s.next) = free s.next := idle s.next (Nat.le_refl _)
  refine ⟨((s.subst.assign x .nil).assign s.next (free y)).assign y z,
    unifies_triple ⟨rfl, new, new⟩ ⟨ha, hb, hc⟩ ?_,
    ((refines_assign _ _).trans (refines_assign _ _)).trans (refines_assign _ _), ?_⟩
  · refine .assign_right rfl hx rfl not_mem_nil ?_
    refine .vars (x := s.next) (y := y) ?_ ?_ (by omega) ?_
    · simp (disch := omega) only [assign_apply, new, single_free_of_ne]
    · simp (disch := omega) only [assign_apply, hy, single_free_of_ne]
    refine .assign_left (x := y) ?_ (ground.apply _) ground.isVar (ground.notMem _) (.nil _)
    simp (disch := omega) only [assign_apply, new, single_free_of_ne, single_free]
  · have nil (k : Nat) (u : Term) : (single k u).apply .nil = .nil := rfl
    constructor
    all_goals simp (disch := omega) only [assign_apply, hx, hy, single_free_of_ne,
      single_free, nil]

lemma unifies_appendCell_open (hc : s.subst.apply c = z)
    (unified : Unifies ((s.subst.assign x (.cell (free s.next) (free (s.next + 1)))).assign
      (s.next + 2) (free y)) [(.cell (free s.next) (free (s.next + 3)), z)] r) :
    s.Meets appendCell (appendGoal a b c) r := by
  obtain ⟨ha, hx, ltx⟩ := ha
  obtain ⟨hb, hy, lty⟩ := hb
  refine unifies_triple ⟨idle.cell 1, idle.new (by omega), idle.cell 3⟩ ⟨ha, hb, hc⟩ ?_
  refine .assign_right (idle.cell 1) hx rfl ?_
    (.vars (x := s.next + 2) (y := y) ?_ ?_ (by omega) unified)
  · rw [mem_ids_cell]
    exact not_or_intro (notMem_free (by omega)) (notMem_free (by omega))
  · simp (disch := omega) only [assign_apply, idle.new, single_free_of_ne]
  · simp (disch := omega) only [assign_apply, hy, single_free_of_ne]

lemma unifies_appendCell_split (hc : s.subst.apply c = .cell z l) (item : z.Ground)
    (items : l.Ground) :
    ∃ τ, s.Meets appendCell (appendGoal a b c) (some τ) ∧
      Refines τ s.subst ∧ τ.apply (free x) = .cell z (free (s.next + 1)) ∧
      State.Open ⟨τ, s.next + 4⟩ (free (s.next + 1)) (s.next + 1) ∧
      State.Open ⟨τ, s.next + 4⟩ (free (s.next + 2)) y ∧
      τ.apply (free (s.next + 3)) = l ∧ State.Idle ⟨τ, s.next + 4⟩ := by
  have ⟨_, hx, ltx⟩ := ha
  have ⟨_, hy, lty⟩ := hb
  refine ⟨(((s.subst.assign x (.cell (free s.next) (free (s.next + 1)))).assign (s.next + 2)
      (free y)).assign s.next z).assign (s.next + 3) l,
    unifies_appendCell_open idle ha hb ne hc ?_,
    ((refines_assign _ _).trans (refines_assign _ _)).trans
      ((refines_assign _ _).trans (refines_assign _ _)), ?_⟩
  · refine .cell (h := free s.next) (l := free (s.next + 3)) ?_
      ((Term.Ground.cell.2 ⟨item, items⟩).apply _) ?_
    · simp (disch := omega) only [apply_cell, assign_apply, idle.new, single_free_of_ne]
    refine .assign_left (x := s.next) ?_ (item.apply _) item.isVar (item.notMem _) ?_
    · simp (disch := omega) only [assign_apply, idle.new, single_free_of_ne]
    refine .assign_left (x := s.next + 3) ?_ (items.apply _) items.isVar (items.notMem _) (.nil _)
    simp (disch := omega) only [assign_apply, idle.new, single_free_of_ne]
  · refine ⟨?_, ⟨?_, ?_, Nat.add_lt_add_left (by decide) _⟩, ⟨?_, ?_, Nat.lt_add_right 4 lty⟩, ?_,
      fun v (le : s.next + 4 ≤ v) => ?_⟩
    all_goals simp (disch := omega) only [assign_apply, apply_cell, idle.new, hx, hy,
      single_free_of_ne, single_free, item.apply]

end

end Splitting

lemma bare_append (a b c : Term) : bare (appendGoal a b c) = appendGoal a b c :=
  bare_user rfl (by decide)

lemma solved_append (has : p.domain.HasAppend) {first second : List State}
    (fact : s.Meets appendNil (appendGoal a b c) none ∧ first = [] ∨
      ∃ τ, s.Meets appendNil (appendGoal a b c) (some τ) ∧
        first = [⟨τ, s.next + 1⟩])
    (rule : s.Meets appendCell (appendGoal a b c) none ∧ second = [] ∨
      ∃ τ, s.Meets appendCell (appendGoal a b c) (some τ) ∧
        Solved (solve p) (appendGoal (free (s.next + 1)) (free (s.next + 2)) (free (s.next + 3)))
          ⟨τ, s.next + 4⟩ second) : Solved (solve p) (appendGoal a b c) s (first ++ second) := by
  obtain ⟨pred, found, c₁, c₂, all, ⟨head₁, body₁⟩, head₂, body₂⟩ := Domain.two_clauses has
  change Solved (solve p) (.compound "append" [a, b, c]) s _
  refine SolvedBy.solved (solve_user rfl (by decide)) found (all ▸ ?_)
  have ⟨bound₁, bound₂⟩ : c₁.clause.idBound = 1 ∧ c₂.clause.idBound = 4 := by
    rw [Clause.idBound, head₁, body₁, Clause.idBound, head₂, body₂]
    exact ⟨rfl, rfl⟩
  have second : SolvedBy (solve p) (appendGoal a b c) [c₂] s second := by
    rcases rule with ⟨clash, rfl⟩ | ⟨τ, unified, body⟩
    · exact .skip head₂ clash (.nil _ _)
    · rw [← append_nil second]
      refine .rule head₂ body₂ unified ?_ (.nil _ _)
      rw [bound₂]
      exact (bare_append _ _ _).symm ▸ body
  rcases fact with ⟨clash, rfl⟩ | ⟨τ, unified, rfl⟩
  · exact .skip head₁ clash second
  · have := SolvedBy.fact head₁ body₁ unified second
    rwa [bound₁] at this

lemma solved_join (has : p.domain.HasAppend) {y : Term} (ground : y.Ground)
    (items : ∀ x ∈ xs, x.Ground) (idle : s.Idle) {r : Nat} (ha : s.subst.apply a = .list xs)
    (hb : s.subst.apply b = y) (hc : s.Open c r) :
    ∃ s', Solved (solve p) (appendGoal a b c) s [s'] ∧ Refines s'.subst s.subst ∧
      s'.subst.apply (free r) = .listTo xs y := by
  induction xs generalizing s a b c r with
  | nil =>
    obtain ⟨τ, fact, refined, value⟩ := unifies_appendNil_join idle ha hb ground hc
    have rule : s.Meets appendCell (appendGoal a b c) none :=
      .compound rfl (.clash (.inr ⟨rfl, by rw [ha]; rfl⟩))
    exact ⟨_, solved_append has (.inr ⟨τ, fact, rfl⟩) (.inl ⟨rule, rfl⟩), refined, value⟩
  | cons x xs ih =>
    have plain := Term.Ground.list.2 items
    obtain ⟨item, items⟩ := forall_mem_cons.1 items
    have fact : s.Meets appendNil (appendGoal a b c) none :=
      .compound rfl (.clash (.inl ⟨rfl, by rw [ha, plain.apply]; rfl⟩))
    obtain ⟨τ, rule, refined, first, second, value, above⟩ :=
      unifies_appendCell_join idle ha item (Ground.list.2 items) hb ground hc
    have newest := above (s.next + 3) (Nat.le_refl _)
    obtain ⟨s', solved, refines, rest⟩ := ih items (s := ⟨τ, s.next + 4⟩)
      (fun v le => above v (Nat.le_of_succ_le le)) first second ⟨newest, newest, Nat.lt_succ_self _⟩
    refine ⟨s', solved_append has (.inl ⟨fact, rfl⟩) (.inr ⟨τ, rule, solved⟩),
      refined.trans refines, ?_⟩
    rw [refines.apply_eq value (by rw [apply_cell, item.apply, newest]), apply_cell,
      item.apply, rest]
    rfl

lemma solved_split (has : p.domain.HasAppend) (items : ∀ z ∈ zs, z.Ground) (idle : s.Idle) {y : Nat}
    (ha : s.Open a x) (hb : s.Open b y) (ne : x ≠ y) (hc : s.subst.apply c = .list zs) :
    ∃ states, Solved (solve p) (appendGoal a b c) s states ∧ (∀ s' ∈ states, Refines s'.subst s.subst) ∧
      (states.map fun s' => (s'.subst.apply (free x), s'.subst.apply (free y))) = splits zs := by
  induction zs generalizing s a b c x y with
  | nil =>
    obtain ⟨τ, fact, refined, first, second⟩ := unifies_appendNil_split idle ha hb ne hc rfl
    have rule : s.Meets appendCell (appendGoal a b c) none :=
      unifies_appendCell_open idle ha hb ne hc (.clash (.inr ⟨apply_cell _ _, rfl⟩))
    refine ⟨_, solved_append has (.inr ⟨τ, fact, rfl⟩) (.inl ⟨rule, rfl⟩), ?_, ?_⟩
    · exact forall_mem_singleton.2 refined
    · rw [append_nil, map_singleton, first, second]
      rfl
  | cons z zs ih =>
    obtain ⟨τ, fact, refined, first, second⟩ :=
      unifies_appendNil_split idle ha hb ne hc (Term.Ground.list.2 items)
    obtain ⟨item, items⟩ := forall_mem_cons.1 items
    obtain ⟨τ', rule, refined', value, left, right, rest, idle'⟩ :=
      unifies_appendCell_split idle ha hb ne hc item (Ground.list.2 items)
    have apart : s.next + 1 ≠ y := Nat.ne_of_gt (Nat.lt_succ_of_lt hb.below)
    obtain ⟨states, solved, refines, parts⟩ := ih items idle' left right apart rest
    refine ⟨_, solved_append has (.inr ⟨τ, fact, rfl⟩) (.inr ⟨τ', rule, solved⟩), ?_, ?_⟩
    · exact forall_mem_cons.2 ⟨refined, fun s' hs => refined'.trans (refines s' hs)⟩
    · rw [singleton_append, map_cons, first, second, splits_cons, ← parts, map_map]
      refine congrArg _ (map_congr_left fun s' hs => ?_)
      have settled : τ'.apply (.cell z (free (s.next + 1))) = .cell z (free (s.next + 1)) := by
        rw [apply_cell, item.apply, left.value]
      rw [(refines s' hs).apply_eq value settled, apply_cell, item.apply]
      rfl

end Search

namespace Engine

open Search

variable {e : Engine} {q : CompiledQuery} {x y : String} {i j : Nat}

lemma answers_join (ops : OperatorTable) (has : e.domain.HasAppend) (query : e.query = some q)
    {ys : List Term} (goal : q.goal = appendGoal (.list xs) (.list ys) (.var x i))
    (names : shownNames q.names = [(x, .var x i)]) (items : ∀ t ∈ xs ++ ys, t.Ground) :
    ∃ N, ∀ fuel, N ≤ fuel → ∀ limit, answers fuel limit (ops, e) =
      .ok ([⟨[(x, .list (xs ++ ys))]⟩].take limit, none) (ops, e) := by
  obtain ⟨first, second⟩ := forall_mem_append.1 items
  have below : i < roomFor q := by
    refine Nat.lt_of_lt_of_le (lt_idBound ?_) (Nat.le_max_left _ _)
    simp [goal, appendGoal]
  obtain ⟨s, solved, -, value⟩ := solved_join (p := e.program) has (Ground.list.2 second) first
    (s := ⟨free, roomFor q⟩) (fun _ _ => rfl) ((Ground.list.2 first).apply _)
    ((Ground.list.2 second).apply _) (c := .var x i) ⟨rfl, rfl, below⟩
  have value : s.subst i = .list (xs ++ ys) := by
    rw [list, listTo, foldr_append]
    exact value
  rw [← bare_append, ← goal] at solved
  obtain ⟨N, run⟩ := answers_of_solve e ops query (by simpa [names] using below) (Setting.solves rfl) solved
    (by simpa [names, value] using Ground.list.2 items)
  refine ⟨N, fun fuel le limit => ?_⟩
  rw [run fuel le limit, names, map_take]
  simp [value]

lemma answers_split (ops : OperatorTable) (has : e.domain.HasAppend) (query : e.query = some q)
    (goal : q.goal = appendGoal (.var x i) (.var y j) (.list zs)) (ne : i ≠ j)
    (names : shownNames q.names = [(x, .var x i), (y, .var y j)]) (items : ∀ z ∈ zs, z.Ground) :
    ∃ N, ∀ fuel, N ≤ fuel → ∀ limit, answers fuel limit (ops, e) =
      .ok (((splits zs).map fun p => ⟨[(x, p.1), (y, p.2)]⟩).take limit, none) (ops, e) := by
  have below : i < roomFor q ∧ j < roomFor q := by
    constructor
    all_goals
      refine Nat.lt_of_lt_of_le (lt_idBound ?_) (Nat.le_max_left _ _)
      simp [goal, appendGoal]
  obtain ⟨states, solved, -, parts⟩ := solved_split (p := e.program) has items
    (s := ⟨free, roomFor q⟩) (fun _ _ => rfl) (a := .var x i) ⟨rfl, rfl, below.1⟩
    (b := .var y j) ⟨rfl, rfl, below.2⟩ ne ((Term.Ground.list.2 items).apply _)
  have ground : ∀ s ∈ states, (s.subst i).Ground ∧ (s.subst j).Ground := fun s hs =>
    ground_splits items _ (parts ▸ mem_map_of_mem hs)
  rw [← bare_append, ← goal] at solved
  obtain ⟨N, run⟩ := answers_of_solve e ops query (by simpa [names] using below) (Setting.solves rfl) solved
    (by simpa [names] using ground)
  refine ⟨N, fun fuel le limit => ?_⟩
  rw [run fuel le limit, names, map_take, ← parts, map_map]
  rfl

/-- With the clauses of `append/3`, two lists are joined in one way and a list is split in as many
ways as it has items and one more. The search then ends. -/
theorem append_joins_and_splits (ops : OperatorTable) (has : e.domain.HasAppend)
    (query : e.query = some q) :
    (∀ (xs ys : List Term) (x : String) (i : Nat), (∀ t ∈ xs ++ ys, t.Ground) →
      q.goal = appendGoal (.list xs) (.list ys) (.var x i) → shownNames q.names = [(x, .var x i)] →
      ∃ N, ∀ fuel, N ≤ fuel → ∀ limit, answers fuel limit (ops, e) =
        .ok ([⟨[(x, .list (xs ++ ys))]⟩].take limit, none) (ops, e)) ∧
    ∀ (zs : List Term) (x y : String) (i j : Nat), (∀ z ∈ zs, z.Ground) → i ≠ j →
      q.goal = appendGoal (.var x i) (.var y j) (.list zs) →
      shownNames q.names = [(x, .var x i), (y, .var y j)] →
      ∃ N, ∀ fuel, N ≤ fuel → ∀ limit, answers fuel limit (ops, e) =
        .ok (((List.range (zs.length + 1)).map fun k =>
          ⟨[(x, .list (zs.take k)), (y, .list (zs.drop k))]⟩).take limit, none) (ops, e) := by
  refine ⟨fun xs ys x i items goal names => answers_join ops has query goal names items,
    fun zs x y i j items ne goal names => ?_⟩
  have split := answers_split ops has query goal ne names items
  rwa [splits, map_map] at split

/-- The clauses of the library, and the goals `append([a], [f(1)], X)` and `append(X, Y, [a])`. -/
theorem append_joins_and_splits_library :
    let asking (goal : Term) (names : List (String × Term)) (e : Engine) : Engine :=
      { e with query := some ⟨⟨none, [goal], .query, ⟨1, 1⟩⟩, names, [], 0⟩ }
    let x : Term := .var "X" 0
    let y : Term := .var "Y" 1
    let one : List Term := [.atom "a"]
    let other : List Term := [.compound "f" [.int 1]]
    ∃ report s, Session.consult 20 Library.name
        (String.join (((Library.lines.drop 4).take 3).map (· ++ "\n"))) (.new .standard .standard) =
          .ok report s ∧ s.engine.domain.HasAppend ∧
      (let e := asking (appendGoal (.list one) (.list other) x) [("X", x)] s.engine
        ∃ N, ∀ fuel, N ≤ fuel → ∀ limit, answers fuel limit (.standard, e) =
          .ok ([⟨[("X", .list (one ++ other))]⟩].take limit, none) (.standard, e)) ∧
      let e := asking (appendGoal x y (.list one)) [("X", x), ("Y", y)] s.engine
      ∃ N, ∀ fuel, N ≤ fuel → ∀ limit, answers fuel limit (.standard, e) =
        .ok ([⟨[("X", .list []), ("Y", .list one)]⟩, ⟨[("X", .list one), ("Y", .list [])]⟩].take limit,
          none) (.standard, e) := by
  intro asking x y one other
  have run : (match Session.consult 20 Library.name
      (String.join (((Library.lines.drop 4).take 3).map (· ++ "\n"))) (.new .standard .standard) with
      | .ok _ s => decide s.engine.domain.HasAppend
      | .error _ _ => false) = true := by
    simp only [Session.consult, SourceUnit.compile_eq_stages]
    decide +kernel
  split at run
  · next report s consulted =>
    have has : s.engine.domain.HasAppend := of_decide_eq_true run
    have joined := append_joins_and_splits (e := asking (appendGoal (.list one) (.list other) x)
      [("X", x)] s.engine) .standard has rfl
    have divided := append_joins_and_splits (e := asking (appendGoal x y (.list one))
      [("X", x), ("Y", y)] s.engine) .standard has rfl
    exact ⟨report, s, consulted, has, joined.1 one other "X" 0 (by decide) rfl (by decide),
      divided.2 one "X" "Y" 0 1 (by decide) (by decide) rfl (by decide)⟩
  · cases run

end Engine

end Horn
