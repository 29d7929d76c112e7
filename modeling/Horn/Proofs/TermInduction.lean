import Horn.Term.Basic
import Mathlib.Tactic.Lemma

/-!
# Induction over terms

A property of terms may be assumed of all arguments at once.
-/

namespace Horn

open List

namespace Term

variable {args : List Term} {f : String} {t : Term}

/-- Induction over terms, the arguments of a compound taken as members of a list. -/
@[elab_as_elim]
lemma induct {P : Term → Prop} (atom : ∀ name, P (.atom name)) (number : ∀ n, P (.number n))
    (var : ∀ name id, P (.var name id))
    (compound : ∀ f args, (∀ a ∈ args, P a) → P (.compound f args))
    (cell : ∀ h t, P h → P t → P (.cell h t)) (t : Term) : P t :=
  @Term.rec P (fun args => ∀ a ∈ args, P a) atom number var compound cell
    (fun _ ha => by cases ha)
    (fun a as ha has b hb => by
      rcases mem_cons.1 hb with rfl | hb
      · exact ha
      · exact has b hb) t

lemma mapAllVars_eq (f : String → Nat → Term) (ts : List Term) :
    mapAllVars f ts = ts.map (mapVars f) := by
  induction ts with
  | nil => rfl
  | cons t ts ih => simp [mapAllVars, ih]

lemma mapVars_build (f : String → Nat → Term) (g : String) (ts : List Term) :
    mapVars f (build g ts) = build g (ts.map (mapVars f)) := by
  match ts with
  | [] => rfl
  | [a] => rfl
  | [a, b] =>
    simp only [build, map_cons, map_nil]
    split <;> rfl
  | a :: b :: c :: rest => simp [build, mapVars, mapAllVars_eq]

lemma mapVars_var (t : Term) : mapVars .var t = t := by
  induction t using induct with
  | atom | number | var => rfl
  | compound f args ih =>
    have same : args.map (mapVars .var) = args := by
      conv => rhs; rw [← map_id args]
      exact map_congr_left ih
    rw [mapVars, mapAllVars_eq, same]
  | cell h t ihh iht => rw [mapVars, ihh, iht]

section MapVarsWith

variable {σ : Type} (f : String → Nat → σ → Term × σ) (s : σ)

lemma mapAllVarsWith_cons (a : Term) (as : List Term) :
    mapAllVarsWith f (a :: as) s =
      ((mapVarsWith f a s).1 :: (mapAllVarsWith f as (mapVarsWith f a s).2).1,
        (mapAllVarsWith f as (mapVarsWith f a s).2).2) := rfl

lemma length_mapAllVarsWith (as : List Term) :
    (mapAllVarsWith f as s).1.length = as.length := by
  induction as generalizing s with
  | nil => rfl
  | cons a as ih => rw [mapAllVarsWith_cons, length_cons, ih, length_cons]

lemma mapVarsWith_compound (g : String) (args : List Term) :
    mapVarsWith f (.compound g args) s =
      (.compound g (mapAllVarsWith f args s).1, (mapAllVarsWith f args s).2) := rfl

lemma mapVarsWith_cell (h t : Term) :
    mapVarsWith f (.cell h t) s =
      (.cell (mapVarsWith f h s).1 (mapVarsWith f t (mapVarsWith f h s).2).1,
        (mapVarsWith f t (mapVarsWith f h s).2).2) := rfl

end MapVarsWith

mutual

def subterms : Term → List Term
  | .compound f args => .compound f args :: subtermsAll args
  | .cell h t => .cell h t :: (subterms h ++ subterms t)
  | t => [t]

def subtermsAll : List Term → List Term
  | [] => []
  | a :: as => subterms a ++ subtermsAll as

end

lemma subtermsAll_eq (ts : List Term) : subtermsAll ts = ts.flatMap subterms := by
  induction ts with
  | nil => rfl
  | cons t ts ih => rw [subtermsAll, ih, flatMap_cons]

lemma self_mem_subterms (t : Term) : t ∈ t.subterms := by
  cases t <;> exact mem_cons_self

lemma build_eq_compound (some : args ≠ [])
    (list : ¬(f = "." ∧ args.length = 2)) : build f args = .compound f args := by
  match args with
  | [] => exact absurd rfl some
  | [a] => rfl
  | [a, b] => exact if_neg fun dot => list ⟨dot, rfl⟩
  | a :: b :: c :: rest => rfl

/-- A compound has arguments, and a list is made of cells. -/
def Normal (t : Term) : Prop :=
  ∀ f args, .compound f args ∈ t.subterms → args ≠ [] ∧ ¬(f = "." ∧ args.length = 2)

instance (t : Term) : Decidable t.Normal :=
  decidable_of_iff (∀ s ∈ t.subterms, (match s with
      | .compound f args => decide (args ≠ [] ∧ ¬(f = "." ∧ args.length = 2))
      | _ => true) = true) <| by
    constructor
    · exact fun h f args hs => of_decide_eq_true (h _ hs)
    · intro h s hs
      cases s with
      | compound f args => exact decide_eq_true (h f args hs)
      | _ => rfl

lemma subterms_arg {a : Term} (ha : a ∈ args) :
    a.subterms ⊆ (compound f args).subterms := by
  intro s hs
  rw [subterms, subtermsAll_eq]
  exact mem_cons_of_mem _ (mem_flatMap.2 ⟨a, ha, hs⟩)

def namedVars (t : Term) : List (String × Nat) :=
  t.subterms.filterMap fun
    | .var name id => some (name, id)
    | _ => none

lemma mem_namedVars {name : String} {id : Nat} :
    (name, id) ∈ t.namedVars ↔ .var name id ∈ t.subterms := by
  constructor
  · intro h
    obtain ⟨s, hs, eq⟩ := mem_filterMap.1 h
    cases s with
    | var name' id' => cases eq; exact hs
    | _ => cases eq
  · exact fun h => mem_filterMap.2 ⟨_, h, rfl⟩

lemma namedVars_sub {s : Term} (h : s.subterms ⊆ t.subterms) : s.namedVars ⊆ t.namedVars :=
  fun _ hv => mem_namedVars.2 (h (mem_namedVars.1 hv))

def ids (t : Term) : List Nat := t.namedVars.map (·.2)

lemma namedVars_cell (h t : Term) : (cell h t).namedVars = h.namedVars ++ t.namedVars := by
  simp [namedVars, subterms]

lemma namedVars_compound (f : String) (args : List Term) :
    (compound f args).namedVars = args.flatMap namedVars := by
  rw [namedVars, subterms, subtermsAll_eq]
  simp only [filterMap_cons, filterMap_flatMap]
  rfl

lemma subterms_head {h : Term} : h.subterms ⊆ (cell h t).subterms :=
  fun _ hs => mem_cons_of_mem _ (mem_append_left _ hs)

lemma subterms_tail {h : Term} : t.subterms ⊆ (cell h t).subterms :=
  fun _ hs => mem_cons_of_mem _ (mem_append_right _ hs)

lemma Normal.sub {s : Term} (ht : t.Normal) (sub : s.subterms ⊆ t.subterms) : s.Normal :=
  fun f args hs => ht f args (sub hs)

lemma normal_cell {h : Term} : (cell h t).Normal ↔ h.Normal ∧ t.Normal := by
  constructor
  · exact fun n => ⟨n.sub subterms_head, n.sub subterms_tail⟩
  · intro ⟨hh, ht⟩ f args hs
    rw [subterms] at hs
    rcases mem_cons.1 hs with hs | hs
    · cases hs
    · exact (mem_append.1 hs).elim (hh f args) (ht f args)

lemma normal_compound : (compound f args).Normal ↔
    (args ≠ [] ∧ ¬(f = "." ∧ args.length = 2)) ∧ ∀ a ∈ args, a.Normal := by
  constructor
  · exact fun n => ⟨n f args (self_mem_subterms _), fun a ha => n.sub (subterms_arg ha)⟩
  · intro ⟨top, each⟩ g bs hs
    rw [subterms, subtermsAll_eq] at hs
    rcases mem_cons.1 hs with hs | hs
    · cases hs
      exact top
    · obtain ⟨a, ha, hs⟩ := mem_flatMap.1 hs
      exact each a ha g bs hs

lemma normal_build (h : ∀ a ∈ args, a.Normal) :
    (build f args).Normal := by
  by_cases some : args = []
  · subst some
    exact fun g bs hs => by simp [build, subterms] at hs
  by_cases list : f = "." ∧ args.length = 2
  · obtain ⟨rfl, two⟩ := list
    rcases args with _ | ⟨a, _ | ⟨b, _ | ⟨_, _⟩⟩⟩ <;> cases two
    exact normal_cell.2 ⟨h a mem_cons_self, h b (mem_cons_of_mem _ mem_cons_self)⟩
  · rw [build_eq_compound some list]
    exact normal_compound.2 ⟨⟨some, list⟩, h⟩

/-- The variables of a term are replaced one after the other, with a state. Of a variable that has
been met, later states say the same, and `M` holds. -/
structure Threads {σ : Type} (f : String → Nat → σ → Term × σ) (vs : List (String × Nat))
    (Good : σ → Prop) (Later : σ → σ → Prop) (g : σ → String → Nat → Term) (M : σ → Nat → Prop) :
    Prop where
  refl : ∀ s, Later s s
  trans : ∀ {s s' s''}, Later s s' → Later s' s'' → Later s s''
  step : ∀ v ∈ vs, ∀ s, Good s → Good (f v.1 v.2 s).2 ∧ Later s (f v.1 v.2 s).2 ∧
    ∀ s', Later (f v.1 v.2 s).2 s' → (f v.1 v.2 s).1 = g s' v.1 v.2 ∧ M s' v.2

lemma Threads.mapVarsWith {σ : Type} {f : String → Nat → σ → Term × σ} {vs : List (String × Nat)}
    {Good : σ → Prop} {Later : σ → σ → Prop} {g : σ → String → Nat → Term} {M : σ → Nat → Prop}
    (h : Threads f vs Good Later g M) (sub : t.namedVars ⊆ vs) {s : σ} (good : Good s) :
    Good (t.mapVarsWith f s).2 ∧ Later s (t.mapVarsWith f s).2 ∧
      ∀ s', Later (t.mapVarsWith f s).2 s' →
        (t.mapVarsWith f s).1 = t.mapVars (g s') ∧ ∀ v ∈ t.namedVars, M s' v.2 := by
  induction t using induct generalizing s with
  | atom | number => exact ⟨good, h.refl s, fun _ _ => ⟨rfl, nofun⟩⟩
  | var name id =>
    obtain ⟨good, later, known⟩ := h.step (name, id) (sub mem_cons_self) s good
    exact ⟨good, later, fun s' le => ⟨(known s' le).1, forall_mem_singleton.2 (known s' le).2⟩⟩
  | cell x y ihx ihy =>
    rw [namedVars_cell] at sub ⊢
    obtain ⟨good, later, first⟩ := ihx (fun v hv => sub (mem_append_left _ hv)) good
    obtain ⟨good, later', second⟩ := ihy (fun v hv => sub (mem_append_right _ hv)) good
    refine ⟨good, h.trans later later', fun s' le => ?_⟩
    obtain ⟨eq, met⟩ := first s' (h.trans later' le)
    obtain ⟨eq', met'⟩ := second s' le
    rw [mapVarsWith_cell, eq, eq', mapVars]
    exact ⟨rfl, forall_mem_append.2 ⟨met, met'⟩⟩
  | compound c args ih =>
    rw [namedVars_compound] at sub ⊢
    rw [mapVarsWith_compound]
    simp only [mapVars, compound.injEq, true_and]
    induction args generalizing s with
    | nil => exact ⟨good, h.refl s, fun _ _ => ⟨rfl, nofun⟩⟩
    | cons a args ih' =>
      obtain ⟨ih_a, ih_args⟩ := forall_mem_cons.1 ih
      rw [flatMap_cons] at sub ⊢
      obtain ⟨good, later, first⟩ := ih_a (fun v hv => sub (mem_append_left _ hv)) good
      obtain ⟨good, later', rest⟩ := ih' ih_args (fun v hv => sub (mem_append_right _ hv)) good
      rw [mapAllVarsWith_cons]
      refine ⟨good, h.trans later later', fun s' le => ?_⟩
      obtain ⟨eq, met⟩ := first s' (h.trans later' le)
      obtain ⟨eq', met'⟩ := rest s' le
      rw [eq, eq', mapAllVars]
      exact ⟨rfl, forall_mem_append.2 ⟨met, met'⟩⟩

/-- Terms that are closed under taking arguments and under building. A compound may be given other
arguments, as many as it has. -/
structure Kind (T : Term → Prop) : Prop where
  atom : ∀ a, T (.atom a)
  number : ∀ n, T (.number n)
  var : ∀ name id, T (.var name id)
  args : ∀ {t}, T t → ∀ a ∈ t.args, T a
  build : ∀ f {ts}, (∀ t ∈ ts, T t) → T (build f ts)
  again : ∀ {f as bs}, T (.compound f as) → bs.length = as.length → (∀ b ∈ bs, T b) →
    T (.compound f bs)

lemma kind_true : Kind fun _ => True := by
  constructor <;> exact fun _ => by simp

lemma kind_normal : Kind Normal where
  atom _ f args h := by simp [subterms] at h
  number _ f args h := by simp [subterms] at h
  var _ _ f args h := by simp [subterms] at h
  args {t} h := by
    cases t with
    | compound => exact (normal_compound.1 h).2
    | cell => simpa [args] using normal_cell.1 h
    | _ => exact forall_mem_nil _
  build _ := normal_build
  again h same each := by
    obtain ⟨⟨some, list⟩, -⟩ := normal_compound.1 h
    refine normal_compound.2 ⟨⟨?_, same ▸ list⟩, each⟩
    rwa [ne_eq, ← length_eq_zero_iff, same, length_eq_zero_iff]

namespace Kind

variable {T : Term → Prop} (h : Kind T)

include h

lemma cell {x y : Term} (hx : T x) (hy : T y) : T (.cell x y) :=
  h.build "." (forall_mem_cons.2 ⟨hx, forall_mem_singleton.2 hy⟩)

lemma compound {ts : List Term} (some : ts ≠ []) (proper : f ≠ ".")
    (each : ∀ t ∈ ts, T t) : T (.compound f ts) :=
  build_eq_compound some (fun dot => proper dot.1) ▸ h.build f each

lemma mapVars {f : String → Nat → Term} (each : ∀ name id, T (f name id)) (ht : T t) :
    T (t.mapVars f) := by
  induction t using induct with
  | atom | number => exact ht
  | var name id => exact each name id
  | compound g args ih =>
    rw [Term.mapVars, mapAllVars_eq]
    exact h.again ht (length_map _) (forall_mem_map.2 fun a ha => ih a ha (h.args ht a ha))
  | cell x y ihx ihy =>
    exact h.cell (ihx (h.args ht x (by simp [Term.args]))) (ihy (h.args ht y (by simp [Term.args])))

lemma conjuncts (ht : T t) : ∀ u ∈ t.conjuncts, T u := by
  fun_induction Term.conjuncts t with
  | case1 a b ih =>
    obtain ⟨first, rest⟩ := forall_mem_cons.1 (h.args ht)
    exact forall_mem_cons.2 ⟨first, ih (forall_mem_singleton.1 rest)⟩
  | case2 | case3 | case4 => exact forall_mem_singleton.2 ht

end Kind

end Term

end Horn
