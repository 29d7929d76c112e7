import Horn.Operator.Declaration
import Mathlib.Data.List.Nodup
import Mathlib.Data.String.Basic

/-! # Operator tables -/

namespace Horn

open List

namespace OperatorTable

inductive Reachable : OperatorTable → Prop where
  | empty : Reachable empty
  | standard : Reachable standard
  | declare {ops ops' : OperatorTable} {priority : Nat} {type : OpType} {name : String}
      {op : Option Operator} (before : Reachable ops)
      (declared : ops.declare priority type name = .ok (op, ops')) : Reachable ops'
  | remove {ops : OperatorTable} (before : Reachable ops) (fixity : Fixity) (name : String) :
      Reachable (ops.remove fixity name).2

def registered (t : OperatorTable) : List Operator := t.prefixOps ++ t.infixOps

section Counting

def countAt : List (Nat × Nat) → Nat → Nat
  | [], _ => 0
  | (q, n) :: rest, p => (if q = p then n else 0) + countAt rest p

structure Counts (index : List (Nat × Nat)) (ops : List Operator) : Prop where
  ordered : index.Pairwise (·.1 < ·.1)
  positive : ∀ e ∈ index, 0 < e.2
  exact : ∀ p, countAt index p = ops.countP (·.priority = p)

variable {index : List (Nat × Nat)} {ops ops' : List Operator} {e : Nat × Nat} {p : Nat}

lemma countAt_countUp (p q : Nat) :
    countAt (countUp p index) q = countAt index q + if p = q then 1 else 0 := by
  induction index with
  | nil => simp [countUp, countAt]
  | cons e rest ih =>
    rw [countUp]
    split
    · simp only [countAt]
      omega
    · split
      · next eq =>
        simp only [countAt, eq]
        split <;> omega
      · simp only [countAt, ih]
        omega

lemma countAt_countDown (positive : ∀ e ∈ index, 0 < e.2) (p q : Nat)
    (counted : 0 < countAt index p) :
    countAt (countDown p index) q + (if p = q then 1 else 0) = countAt index q := by
  induction index with
  | nil => cases counted
  | cons e rest ih =>
    obtain ⟨first, others⟩ := forall_mem_cons.1 positive
    rw [countDown]
    split
    · next eq =>
      split <;> simp only [countAt, eq] <;> split <;> omega
    · next ne =>
      rw [countAt, if_neg (Ne.symm ne), Nat.zero_add] at counted
      simp only [countAt, ← ih others counted]
      omega

lemma mem_countUp (h : e ∈ countUp p index) : e ∈ index ∨ e.1 = p ∧ 0 < e.2 := by
  induction index with
  | nil => simp_all [countUp]
  | cons e' rest ih =>
    rw [countUp] at h
    split at h
    · grind
    · split at h <;> grind

lemma mem_countDown (h : e ∈ countDown p index) :
    0 < e.2 ∧ (∃ n, (e.1, n) ∈ index) ∨ e ∈ index := by
  induction index with
  | nil => cases h
  | cons e' rest ih =>
    rw [countDown] at h
    split at h
    · split at h <;> grind
    · grind

lemma Counts.perm (h : Counts index ops) (same : ops.Perm ops') : Counts index ops' where
  ordered := h.ordered
  positive := h.positive
  exact p := by rw [h.exact, same.countP_eq]

lemma ordered_countUp (h : index.Pairwise (·.1 < ·.1)) (p : Nat) :
    (countUp p index).Pairwise (·.1 < ·.1) := by
  induction index with
  | nil => simp [countUp]
  | cons e rest ih =>
    obtain ⟨first, others⟩ := pairwise_cons.1 h
    rw [countUp]
    split
    · next lt => exact pairwise_cons.2 ⟨by grind, h⟩
    · split
      · exact pairwise_cons.2 ⟨first, others⟩
      · refine pairwise_cons.2 ⟨fun e' he' => ?_, ih others⟩
        rcases mem_countUp he' with he' | ⟨eq, -⟩
        · exact first e' he'
        · rw [eq]
          omega

lemma ordered_countDown (h : index.Pairwise (·.1 < ·.1)) (p : Nat) :
    (countDown p index).Pairwise (·.1 < ·.1) := by
  induction index with
  | nil => exact h
  | cons e rest ih =>
    obtain ⟨first, others⟩ := pairwise_cons.1 h
    rw [countDown]
    split
    · split
      · exact others
      · exact pairwise_cons.2 ⟨first, others⟩
    · refine pairwise_cons.2 ⟨fun e' he' => ?_, ih others⟩
      rcases mem_countDown he' with ⟨-, n, he'⟩ | he'
      · exact first (e'.1, n) he'
      · exact first e' he'

lemma Counts.up (h : Counts index ops) (op : Operator) :
    Counts (countUp op.priority index) (op :: ops) where
  ordered := ordered_countUp h.ordered _
  positive e he := (mem_countUp he).elim (h.positive e) And.right
  exact p := by rw [countAt_countUp, h.exact, countP_cons]; simp

lemma Counts.down {op : Operator} (h : Counts index (op :: ops)) :
    Counts (countDown op.priority index) ops where
  ordered := ordered_countDown h.ordered _
  positive e he := (mem_countDown he).elim And.left (h.positive e)
  exact p := by
    have counted : 0 < countAt index op.priority := by simp [h.exact]
    have one := countAt_countDown h.positive op.priority p counted
    rw [h.exact, countP_cons] at one
    simpa using one

lemma Counts.mem_iff (h : Counts index ops) {n : Nat} :
    (p, n) ∈ index ↔ 0 < n ∧ n = ops.countP (·.priority = p) := by
  rw [← h.exact]
  obtain ⟨ordered, positive, -⟩ := h
  induction index generalizing n with
  | nil => simp [countAt, Nat.pos_iff_ne_zero]
  | cons e rest ih =>
    obtain ⟨q, m⟩ := e
    obtain ⟨first, others⟩ := pairwise_cons.1 ordered
    obtain ⟨some, more⟩ := forall_mem_cons.1 positive
    by_cases eq : q = p
    · subst eq
      have out (n : Nat) : (q, n) ∉ rest := fun h => Nat.lt_irrefl q (first _ h)
      have none : countAt rest q = 0 :=
        Nat.eq_zero_of_not_pos fun pos => out _ ((ih others more).2 ⟨pos, rfl⟩)
      simp only [List.mem_cons, Prod.mk.injEq, true_and, out, or_false, countAt, if_true, none]
      omega
    · simp [countAt, eq, Ne.symm eq, ih others more]

end Counting

section Groups

variable {ops : List Operator} {name : String} {op : Operator} {o : Operator}

lemma removeName_cons_self (named : ((o :: ops).map (·.name)).Nodup) :
    removeName o.name (o :: ops) = ops := by
  rw [removeName, filter_cons_of_neg (by simp), filter_eq_self]
  intro o' ho'
  rw [decide_eq_true_eq]
  exact fun eq => (nodup_cons.1 named).1 (mem_map.2 ⟨o', ho', eq⟩)

lemma removeName_cons_of_ne (ne : o.name ≠ name) :
    removeName name (o :: ops) = o :: removeName name ops := by
  rw [removeName, filter_cons_of_pos (by simpa using ne)]
  rfl

lemma perm_put (op : Operator) (named : (ops.map (·.name)).Nodup) :
    (put op ops).Perm (op :: removeName op.name ops) := by
  induction ops with
  | nil => exact .refl _
  | cons o rest ih =>
    rw [put]
    split
    · next eq => rw [← eq, removeName_cons_self named]
    · next ne =>
      rw [removeName_cons_of_ne ne]
      exact ((ih (nodup_cons.1 named).2).cons o).trans (.swap op o _)

lemma perm_of_find? (named : (ops.map (·.name)).Nodup)
    (found : ops.find? (·.name = name) = some op) : ops.Perm (op :: removeName name ops) := by
  induction ops with
  | nil => cases found
  | cons o rest ih =>
    rw [find?_cons] at found
    split at found
    · next eq =>
      cases found
      rw [← of_decide_eq_true eq, removeName_cons_self named]
    · next ne =>
      rw [removeName_cons_of_ne (of_decide_eq_false ne)]
      exact ((ih (nodup_cons.1 named).2 found).cons o).trans (.swap op o _)

end Groups

structure Permitted (op : Operator) : Prop where
  positive : 0 < op.priority
  bounded : op.priority ≤ maxPriority
  comma : op.name = "," → op = ⟨",", 1000, .xfy⟩
  bar : op.name = "|" → op.fixity = .infixOp ∧ minBarPriority ≤ op.priority

structure WellKept (t : OperatorTable) : Prop where
  named : ∀ fixity, ((t.group fixity).map (·.name)).Nodup
  classed : ∀ fixity, ∀ op ∈ t.group fixity, op.fixity = .prefixOp ↔ fixity = .prefixOp
  permitted : ∀ op ∈ t.registered, Permitted op
  counts : Counts t.priorities t.registered

variable {t : OperatorTable} {ops ops' : List Operator} {op : Operator}

lemma mem_registered : op ∈ t.registered ↔ ∃ fixity, op ∈ t.group fixity := by
  rw [registered, mem_append]
  constructor
  · rintro (h | h)
    · exact ⟨.prefixOp, h⟩
    · exact ⟨.infixOp, h⟩
  · rintro ⟨_ | _ | _, h⟩
    · exact .inl h
    · exact .inr h
    · exact .inr h

lemma group_withGroup (t : OperatorTable) (ops : List Operator) (fixity other : Fixity) :
    (t.withGroup fixity ops).group other = ops ∧ (fixity = .prefixOp ↔ other = .prefixOp) ∨
      (t.withGroup fixity ops).group other = t.group other := by
  cases fixity <;> cases other <;> simp [withGroup, group]

lemma registered_withGroup (t : OperatorTable) (fixity : Fixity) (perm : ops.Perm (op :: ops')) :
    (t.withGroup fixity ops).registered.Perm (op :: (t.withGroup fixity ops').registered) := by
  cases fixity with
  | prefixOp => exact perm.append_right _
  | infixOp | postfixOp => exact (perm.append_left _).trans perm_middle

lemma withGroup_group (fixity : Fixity) : t.withGroup fixity (t.group fixity) = t := by
  cases fixity <;> rfl

@[simp]
lemma priorities_withGroup (fixity : Fixity) :
    (t.withGroup fixity ops).priorities = t.priorities := by
  cases fixity <;> rfl

lemma WellKept.replace (h : t.WellKept) {fixity : Fixity} {index : List (Nat × Nat)}
    (named : (ops.map (·.name)).Nodup)
    (classed : ∀ op ∈ ops, op.fixity = .prefixOp ↔ fixity = .prefixOp)
    (permitted : ∀ op ∈ ops, Permitted op)
    (counts : Counts index (t.withGroup fixity ops).registered) :
    WellKept { t.withGroup fixity ops with priorities := index } where
  named other := by
    change (((t.withGroup fixity ops).group other).map (·.name)).Nodup
    rcases group_withGroup t ops fixity other with ⟨eq, -⟩ | eq <;> rw [eq]
    · exact named
    · exact h.named other
  classed other op ho := by
    rcases group_withGroup t ops fixity other with ⟨eq, same⟩ | eq
    · exact (classed op (eq ▸ ho)).trans same
    · exact h.classed other op (eq ▸ ho)
  permitted op ho := by
    obtain ⟨other, ho⟩ := mem_registered.1 ho
    rcases group_withGroup t ops fixity other with ⟨eq, -⟩ | eq
    · exact permitted op (eq ▸ ho)
    · exact h.permitted op (mem_registered.2 ⟨other, eq ▸ ho⟩)
  counts := counts

lemma WellKept.counts_without (h : t.WellKept) (fixity : Fixity) (name : String) :
    Counts (match t.lookup? fixity name with
      | none => t.priorities
      | some old => countDown old.priority t.priorities)
      (t.withGroup fixity (removeName name (t.group fixity))).registered := by
  split
  · next none =>
    have same : removeName name (t.group fixity) = t.group fixity :=
      filter_eq_self.2 fun o ho => by simpa using find?_eq_none.1 none o ho
    rw [same, withGroup_group]
    exact h.counts
  · next old found =>
    have perm := registered_withGroup t fixity (perm_of_find? (h.named fixity) found)
    rw [withGroup_group] at perm
    exact (h.counts.perm perm).down

lemma WellKept.remove (h : t.WellKept) (fixity : Fixity) (name : String) :
    (t.remove fixity name).2.WellKept := by
  have counts := h.counts_without fixity name
  unfold OperatorTable.remove
  split
  · exact h
  · next op found =>
    have kept : ∀ o ∈ removeName name (t.group fixity), o ∈ t.group fixity :=
      fun o ho => (mem_filter.1 ho).1
    refine h.replace ((h.named fixity).sublist (filter_sublist.map _)) ?_ ?_ ?_
    · exact fun o ho => h.classed fixity o (kept o ho)
    · exact fun o ho => h.permitted o (mem_registered.2 ⟨fixity, kept o ho⟩)
    · rwa [found, ← priorities_withGroup fixity] at counts

lemma WellKept.insert (h : t.WellKept) (permitted : Permitted op) : (t.insert op).WellKept := by
  have perm := perm_put op (h.named op.fixity)
  have each : ∀ o ∈ put op (t.group op.fixity), o = op ∨ o ∈ t.group op.fixity :=
    fun o ho => (mem_cons.1 (perm.mem_iff.1 ho)).imp_right fun ho => (mem_filter.1 ho).1
  refine h.replace ?_ (fun o ho => ?_) (fun o ho => ?_) ?_
  · refine (perm.map _).nodup_iff.2 (nodup_cons.2 ⟨by simp [removeName], ?_⟩)
    exact (h.named op.fixity).sublist (filter_sublist.map _)
  · rcases each o ho with rfl | ho
    · rfl
    · exact h.classed op.fixity o ho
  · rcases each o ho with rfl | ho
    · exact permitted
    · exact h.permitted o (mem_registered.2 ⟨op.fixity, ho⟩)
  · exact ((h.counts_without op.fixity op.name).up op).perm
      (registered_withGroup t op.fixity perm).symm

lemma wellKept_empty : empty.WellKept where
  named fixity := by cases fixity <;> exact .nil
  classed fixity _ ho := by cases fixity <;> cases ho
  permitted _ ho := nomatch ho
  counts := ⟨.nil, nofun, fun _ => rfl⟩

lemma wellKept_standard : standard.WellKept := by
  have permitted : ∀ op ∈ standardOperators, 0 < op.priority ∧ op.priority ≤ maxPriority ∧
      (op.name = "," → op = ⟨",", 1000, .xfy⟩) ∧
      (op.name = "|" → op.fixity = .infixOp ∧ minBarPriority ≤ op.priority) := by decide
  unfold standard
  generalize standardOperators = ops at permitted
  have start := wellKept_empty
  generalize empty = t at start ⊢
  induction ops generalizing t with
  | nil => exact start
  | cons op ops ih =>
    obtain ⟨⟨positive, bounded, comma, bar⟩, others⟩ := forall_mem_cons.1 permitted
    exact ih others _ (start.insert ⟨positive, bounded, comma, bar⟩)

lemma declare_ok {t' : OperatorTable} {priority : Nat} {type : OpType} {name : String}
    {declared : Option Operator} (h : t.declare priority type name = .ok (declared, t')) :
    t' = (t.remove type.fixity name).2 ∨
      Permitted ⟨name, priority, type⟩ ∧ t' = t.insert ⟨name, priority, type⟩ := by
  unfold declare at h
  split at h
  · cases h
  · next range =>
    split at h
    · cases h
    · next locked =>
      split at h
      · cases h
        exact .inl rfl
      · next positive =>
        cases h
        simp only [isLocked, Bool.or_eq_true, decide_eq_true_eq, Bool.and_eq_true, not_or]
          at locked
        refine .inr ⟨⟨Nat.pos_of_ne_zero positive, Nat.le_of_not_lt range, ?_, ?_⟩, rfl⟩
        · exact fun comma => absurd comma locked.1
        · intro (bar : name = "|")
          obtain ⟨above, inside⟩ := not_or.1 fun out => locked.2 ⟨⟨bar, positive⟩, out⟩
          exact ⟨Decidable.not_not.1 inside, Nat.le_of_not_lt above⟩

lemma Reachable.wellKept (h : t.Reachable) : t.WellKept := by
  induction h with
  | empty => exact wellKept_empty
  | standard => exact wellKept_standard
  | declare _ declared ih =>
    rcases declare_ok declared with rfl | ⟨permitted, rfl⟩
    · exact ih.remove _ _
    · exact ih.insert permitted
  | remove _ fixity name ih => exact ih.remove fixity name

section Listing

lemma nextLower_spec (counts : Counts t.priorities t.registered) (p : Nat) :
    (∀ op ∈ t.registered, op.priority < p → op.priority ≤ t.nextLower p) ∧
      (t.nextLower p = 0 ∨ ∃ op ∈ t.registered, op.priority < p ∧ op.priority = t.nextLower p) := by
  -- The loop keeps the best entry so far.
  have loop (index : List (Nat × Nat)) (start : Nat) :
      let best := index.foldl (fun best e => if e.1 < p then max best e.1 else best) start
      start ≤ best ∧ (∀ e ∈ index, e.1 < p → e.1 ≤ best) ∧
        (best = start ∨ ∃ e ∈ index, e.1 < p ∧ e.1 = best) := by
    induction index generalizing start with
    | nil => simp
    | cons e rest ih =>
      obtain ⟨above, most, found⟩ := ih (if e.1 < p then max start e.1 else start)
      refine ⟨?_, forall_mem_cons.2 ⟨?_, most⟩, ?_⟩
      · exact Nat.le_trans (by split <;> omega) above
      · exact fun below => Nat.le_trans (by rw [if_pos below]; exact Nat.le_max_right _ _) above
      · grind
  have entry {op : Operator} (ho : op ∈ t.registered) :
      ∃ n, (op.priority, n) ∈ t.priorities :=
    ⟨_, counts.mem_iff.2 ⟨countP_pos_iff.2 ⟨op, ho, by simp⟩, rfl⟩⟩
  obtain ⟨-, most, found⟩ := loop t.priorities 0
  refine ⟨fun op ho below => ?_, found.imp_right fun ⟨e, he, below, best⟩ => ?_⟩
  · obtain ⟨n, he⟩ := entry ho
    exact most _ he below
  · obtain ⟨pos, eq⟩ := counts.mem_iff.1 he
    rw [eq] at pos
    obtain ⟨op, ho, same⟩ := countP_pos_iff.1 pos
    rw [decide_eq_true_eq] at same
    exact ⟨op, ho, same ▸ below, same.trans best⟩

lemma listedBefore_iff (a b : Operator) : a.listedBefore b ↔
    b.priority < a.priority ∨ a.priority = b.priority ∧
      (a.name < b.name ∨ a.name = b.name ∧ a.type.text ≤ b.type.text) := by
  simp [Operator.listedBefore]

lemma listedBefore_trans (a b c : Operator) (h : a.listedBefore b) (h' : b.listedBefore c) :
    a.listedBefore c := by
  rw [listedBefore_iff] at h h' ⊢
  grind

lemma listedBefore_total (a b : Operator) : a.listedBefore b || b.listedBefore a := by
  rw [Bool.or_eq_true, listedBefore_iff, listedBefore_iff]
  grind

lemma listedBefore_antisymm {a b : Operator} (h : a.listedBefore b) (h' : b.listedBefore a) :
    a = b := by
  have text : ∀ x y : OpType, x.text = y.text → x = y := by
    intro x y
    cases x <;> cases y <;> decide
  rw [listedBefore_iff] at h h'
  have same : a.priority = b.priority ∧ a.name = b.name ∧ a.type.text = b.type.text := by grind
  have type := text a.type b.type same.2.2
  cases a
  cases b
  simp_all

/-- Every operator is listed once, each before those of lower priority and of later names. The
order of the listing does not depend on how the operators are stored. -/
lemma WellKept.operators (h : t.WellKept) :
    t.operators.Perm t.registered ∧ t.operators.Nodup ∧
      t.operators.Pairwise fun a b => a.listedBefore b ∧ ¬b.listedBefore a := by
  have perm : t.operators.Perm t.registered := mergeSort_perm _ _
  have once : t.registered.Nodup := by
    refine nodup_append.2 ⟨(h.named .prefixOp).of_map, (h.named .infixOp).of_map, ?_⟩
    rintro a ha b hb rfl
    exact nomatch (h.classed .infixOp a hb).1 ((h.classed .prefixOp a ha).2 rfl)
  have nodup := perm.nodup_iff.2 once
  refine ⟨perm, nodup, ?_⟩
  have sorted : t.operators.Pairwise fun a b => a.listedBefore b :=
    pairwise_mergeSort listedBefore_trans listedBefore_total _
  exact (sorted.and nodup).imp fun ⟨before, ne⟩ =>
    ⟨before, fun after => ne (listedBefore_antisymm before after)⟩

lemma WellKept.lookup?_iff (h : t.WellKept) {fixity : Fixity} {name : String} :
    t.lookup? fixity name = some op ↔ op ∈ t.registered ∧ op.name = name ∧
      (op.fixity = .prefixOp ↔ fixity = .prefixOp) := by
  constructor
  · intro found
    have ho := mem_of_find?_eq_some found
    exact ⟨mem_registered.2 ⟨fixity, ho⟩, by simpa using find?_some found, h.classed fixity op ho⟩
  · rintro ⟨ho, rfl, side⟩
    obtain ⟨other, ho⟩ := mem_registered.1 ho
    have here : op ∈ t.group fixity := by
      have same := (h.classed other op ho).symm.trans side
      cases fixity <;> cases other <;> simp_all [group]
    cases found : t.lookup? fixity op.name with
    | none => simpa using find?_eq_none.1 found op here
    | some o =>
      have name : o.name = op.name := by simpa using find?_some found
      rw [inj_on_of_nodup_map (h.named fixity) (mem_of_find?_eq_some found) here name]

end Listing

inductive Request where
  | add (priority : Nat) (fixity : Fixity) (assoc : Assoc) (name : String)
  | addTyped (priority : Nat) (type : OpType) (name : String)
  | define (priority type names : Term)
  | remove (fixity : Fixity) (name : String)

/-- The table after a request. One that fails changes nothing, but a declaration of several names
stays made as far as it went. -/
def serve (t : OperatorTable) : Request → OperatorTable
  | .add priority fixity assoc name =>
    match t.declareParts priority fixity assoc name with
    | .ok (_, t') => t'
    | .error _ => t
  | .addTyped priority type name =>
    match t.declare priority type name with
    | .ok (_, t') => t'
    | .error _ => t
  | .define priority type names => (t.declareTerms priority type names).2
  | .remove fixity name => (t.remove fixity name).2

lemma Reachable.declareNames (h : t.Reachable) (priority : Nat) (type : OpType)
    (names : List Term) : (t.declareNames priority type names).2.Reachable := by
  induction names generalizing t with
  | nil => exact h
  | cons name rest ih =>
    cases name with
    | atom name =>
      rw [OperatorTable.declareNames]
      split
      · next declared => exact ih (h.declare declared)
      · exact h
    | _ => exact h

lemma Reachable.serve (h : t.Reachable) (r : Request) : (t.serve r).Reachable := by
  cases r with
  | add priority fixity assoc name =>
    rw [OperatorTable.serve, declareParts]
    split
    · next declared =>
      split at declared
      · cases declared
      · exact h.declare declared
    · exact h
  | addTyped priority type name =>
    rw [OperatorTable.serve]
    split
    · next declared => exact h.declare declared
    · exact h
  | define priority type names =>
    rw [OperatorTable.serve, declareTerms]
    split
    · exact h
    · split
      · exact h
      · exact h.declareNames _ _ _
  | remove fixity name => exact h.remove fixity name

lemma Reachable.serveAll (h : t.Reachable) (requests : List Request) :
    (requests.foldl OperatorTable.serve t).Reachable := by
  induction requests generalizing t with
  | nil => exact h
  | cons r rest ih => exact ih (h.serve r)

/-- Whatever a table was asked for since it was new: a name has at most one operator on each side,
and what is registered is found there; priorities are in range, and the comma and the bar are as they
have to be; the index counts the operators at each priority, has no other entry, and gives the next
lower priority; every operator is listed once, and in order. -/
theorem served_table_consistent (seeded : Bool) (requests : List Request) :
    let t := requests.foldl serve (if seeded then standard else empty)
    (∀ name op, t.prefixOp? name = some op ↔
      op ∈ t.registered ∧ op.name = name ∧ op.fixity = .prefixOp) ∧
    (∀ name op, t.infixOp? name = some op ↔
      op ∈ t.registered ∧ op.name = name ∧ op.fixity ≠ .prefixOp) ∧
    (∀ op ∈ t.registered, 1 ≤ op.priority ∧ op.priority ≤ 1200 ∧
      (op.name = "," → op = ⟨",", 1000, .xfy⟩) ∧
      (op.name = "|" → op.fixity = .infixOp ∧ 1001 ≤ op.priority)) ∧
    (t.priorities.Pairwise (·.1 < ·.1) ∧
      ∀ p n, (p, n) ∈ t.priorities ↔ 0 < n ∧ n = t.registered.countP (·.priority = p)) ∧
    (∀ p, (∀ op ∈ t.registered, op.priority < p → op.priority ≤ t.nextLower p) ∧
      (t.nextLower p = 0 ∨
        ∃ op ∈ t.registered, op.priority < p ∧ op.priority = t.nextLower p)) ∧
    (t.operators.Perm t.registered ∧ t.operators.Nodup ∧ t.operators.length = t.size ∧
      t.operators.Pairwise fun a b => a.listedBefore b ∧ ¬b.listedBefore a) := by
  intro t
  have start : (if seeded then standard else empty).Reachable := by
    split
    · exact .standard
    · exact .empty
  have wellKept : t.WellKept := (start.serveAll requests).wellKept
  obtain ⟨perm, once, sorted⟩ := wellKept.operators
  refine ⟨fun name op => ?_, fun name op => ?_, fun op ho => ?_,
    ⟨wellKept.counts.ordered, fun p n => wellKept.counts.mem_iff⟩, nextLower_spec wellKept.counts,
    perm, once, ?_, sorted⟩
  · change t.lookup? .prefixOp name = some op ↔ _
    simp [wellKept.lookup?_iff]
  · change t.lookup? .infixOp name = some op ↔ _
    simp [wellKept.lookup?_iff]
  · obtain ⟨positive, bounded, comma, bar⟩ := wellKept.permitted op ho
    exact ⟨positive, bounded, comma, bar⟩
  · rw [perm.length_eq, registered, length_append, size]

end OperatorTable

end Horn
