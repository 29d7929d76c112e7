import Horn.Proofs.ReaderInvariants
import Horn.Proofs.ReportedNames

/-!
# Variables that goal expansion brings in

Variables that the expansion of a goal of the body brings in are numbered above those of the clause,
by one table for all the goals inside it. So those that are brought in at two places of one goal are
the same where expansion gave them the same number, and one with the number of a variable of that
goal is taken for that variable.
-/

namespace Horn

open List Term Subst Compiling EventLog Text

namespace Expansion

variable {σ : Type} {n v : Nat}

/-- A goal that was expanded, and what came into its place before the goals inside that were
expanded in turn. -/
structure Site where
  before : Term
  after : Term
  deriving DecidableEq, Repr

def Site.introduced (s : Site) : List Nat := s.after.ids.filter (· ∉ s.before.ids)

mutual

def goalSites (o : Observer σ) (hooks : List Hook) (rounds : Nat) :
    Nat → Term → Compiling σ (Term × List Site)
  | 0, _ => throw .outOfFuel
  | n + 1, t => do
    let unsettled : CompileError := .source (.unsettled t rounds) t.text .unknown
    let current ← settle o hooks unsettled rounds t
    match current with
    | .compound f args =>
      let (args, sites) ← argSites o hooks rounds n current.metaGoalArgs 0 args
      return (.compound f args, ⟨t, current⟩ :: sites)
    | _ => return (current, [⟨t, current⟩])

def argSites (o : Observer σ) (hooks : List Hook) (rounds : Nat) :
    Nat → List Nat → Nat → List Term → Compiling σ (List Term × List Site)
  | 0, _, _, _ => throw .outOfFuel
  | _ + 1, _, _, [] => return ([], [])
  | n + 1, goals, i, a :: rest => do
    let (a, sites) ← if goals.contains i then goalSites o hooks rounds n a else pure (a, [])
    let (rest, more) ← argSites o hooks rounds n goals (i + 1) rest
    return (a :: rest, sites ++ more)

end

lemma goalSites_fst (o : Observer σ) (hooks : List Hook) (rounds n : Nat) :
    (∀ t, Prod.fst <$> goalSites o hooks rounds n t = goal o hooks rounds n t) ∧
    (∀ goals i ts, Prod.fst <$> argSites o hooks rounds n goals i ts =
      goalArgs o hooks rounds n goals i ts) := by
  induction n with
  | zero => exact ⟨fun _ => rfl, fun _ _ _ => rfl⟩
  | succ n ih =>
    obtain ⟨one, all⟩ := ih
    constructor
    · intro t
      simp only [goalSites, goal, map_bind]
      congr 1
      funext current
      cases current with
      | compound f args =>
        simp only [map_bind, ← all]
        simp
      | _ => simp
    · intro goals i ts
      cases ts with
      | nil => rfl
      | cons a rest =>
        simp only [argSites, goalArgs]
        simp only [← all, ← one]
        split <;> simp

lemma mem_introduced {site : Site} :
    v ∈ site.introduced ↔ v ∈ site.after.ids ∧ v ∉ site.before.ids := by
  simp [Site.introduced]

lemma Site.mem_after (site : Site) (h : v ∈ site.after.ids) :
    v ∈ site.before.ids ∨ v ∈ site.introduced := by
  by_cases old : v ∈ site.before.ids
  · exact .inl old
  · exact .inr (mem_introduced.2 ⟨h, old⟩)

lemma mem_of_goalSites (o : Observer σ) (hooks : List Hook) (rounds n : Nat) :
    (∀ t s r sites s', goalSites o hooks rounds n t s = .ok (r, sites) s' →
      ∀ v ∈ r.ids, v ∈ t.ids ∨ ∃ site ∈ sites, v ∈ site.introduced) ∧
    (∀ goals i ts s rs sites s', argSites o hooks rounds n goals i ts s = .ok (rs, sites) s' →
      ∀ r ∈ rs, ∀ v ∈ r.ids, (∃ t ∈ ts, v ∈ t.ids) ∨ ∃ site ∈ sites, v ∈ site.introduced) := by
  induction n with
  | zero =>
    constructor
    · intro t s r sites s' ok
      cases ok
    · intro goals i ts s rs sites s' ok
      cases ok
  | succ n ih =>
    obtain ⟨one, all⟩ := ih
    constructor
    · intro t s r sites s' ok v hv
      obtain ⟨current, s₁, -, ok⟩ := ok_of_bind ok
      have top (h : v ∈ current.ids) {more : List Site} :
          v ∈ t.ids ∨ ∃ site ∈ ⟨t, current⟩ :: more, v ∈ site.introduced :=
        (Site.mem_after ⟨t, current⟩ h).imp_right fun h => ⟨_, mem_cons_self, h⟩
      cases current with
      | compound f args =>
        obtain ⟨⟨rs, below⟩, s₂, inner, ok⟩ := ok_of_bind ok
        cases ok
        obtain ⟨r, hr, hv⟩ := mem_ids_compound.1 hv
        rcases all _ _ _ _ _ _ _ inner r hr v hv with ⟨a, ha, hv⟩ | ⟨site, hs, hv⟩
        · exact top (mem_ids_compound.2 ⟨a, ha, hv⟩)
        · exact .inr ⟨site, mem_cons_of_mem _ hs, hv⟩
      | atom | number | var | cell =>
        cases ok
        exact top hv
    · intro goals i ts s rs sites s' ok r hr v hv
      cases ts with
      | nil =>
        cases ok
        cases hr
      | cons a ts =>
        have split : argSites o hooks rounds (n + 1) goals i (a :: ts) =
            (if goals.contains i then goalSites o hooks rounds n a else pure (a, [])) >>= fun x =>
              argSites o hooks rounds n goals (i + 1) ts >>= fun y =>
                pure (x.1 :: y.1, x.2 ++ y.2) := by
          rw [argSites]
          split <;> rfl
        rw [split] at ok
        obtain ⟨⟨first, sites₁⟩, s₁, run, ok⟩ := ok_of_bind ok
        obtain ⟨⟨others, sites₂⟩, s₂, inner, ok⟩ := ok_of_bind ok
        cases ok
        rcases mem_cons.1 hr with rfl | hr
        · split at run
          · refine (one _ _ _ _ _ run v hv).imp (fun h => ⟨a, mem_cons_self, h⟩) ?_
            exact fun ⟨site, hs, h⟩ => ⟨site, mem_append_left _ hs, h⟩
          · cases run
            exact .inl ⟨_, mem_cons_self, hv⟩
        · refine (all _ _ _ _ _ _ _ inner r hr v hv).imp ?_ ?_
          · exact fun ⟨t, ht, h⟩ => ⟨t, mem_cons_of_mem _ ht, h⟩
          · exact fun ⟨site, hs, h⟩ => ⟨site, mem_append_right _ hs, h⟩

section Numbering

variable {known : List Nat}

/-- The number of a variable in the table. A known variable keeps the one that it has. -/
def placeIn (known : List Nat) (table : List (Nat × Term)) (v : Nat) : Nat :=
  if v ∈ known then v
  else match table.lookup v with
    | some (.var _ id) => id
    | _ => v

def given (known : List Nat) (table : List (Nat × Term)) (name : String) (v : Nat) : Term :=
  if v ∈ known then .var name v
  else match table.lookup v with
    | some (.var name' id) => .var name' id
    | _ => .var name v

lemma free_given (table : List (Nat × Term)) (name : String) (v : Nat) :
    free.apply (given known table name v) = moved (placeIn known table) v := by
  simp only [given, placeIn, moved]
  split
  · rfl
  · split <;> rfl

lemma threads_introduce (known : List Nat) (base : Nat) (vs : List (String × Nat)) :
    Threads (introduce known) vs (fun s => Numbered base s.2 s.1)
      (fun s s' => s.2 ≤ s'.2 ∧ ∀ v u, s.1.lookup v = some u → s'.1.lookup v = some u)
      (fun s => given known s.1) fun s v => v ∉ known → (s.1.lookup v).isSome where
  refl s := ⟨Nat.le_refl _, fun _ _ h => h⟩
  trans h h' := ⟨Nat.le_trans h.1 h'.1, fun v u hu => h'.2 v u (h.2 v u hu)⟩
  step := by
    rintro ⟨name, v⟩ - s numbered
    dsimp only
    unfold introduce
    by_cases old : v ∈ known
    · rw [if_pos (contains_iff_mem.2 old)]
      exact ⟨numbered, ⟨Nat.le_refl _, fun _ _ h => h⟩, fun _ _ =>
        ⟨(if_pos old).symm, fun new => absurd old new⟩⟩
    · rw [if_neg (mt contains_iff_mem.1 old)]
      cases found : s.1.lookup v with
      | some u =>
        refine ⟨numbered, ⟨Nat.le_refl _, fun _ _ h => h⟩, fun s' later => ?_⟩
        obtain ⟨name', id, rfl, -⟩ := numbered.var v u found
        simp [given, old, later.2 v _ found]
      | none =>
        obtain ⟨numbered, kept⟩ := numbered.add found name
        refine ⟨numbered, ⟨Nat.le_succ _, kept⟩, fun s' later => ?_⟩
        simp [given, old, later.2 v (.var name s.2) (by simp)]

end Numbering

def knownIds (t : Term) : List Nat :=
  t.vars.filterMap fun
    | .var _ id => some id
    | _ => none

lemma mem_gatherVars {t : Term} {seen : List Term} :
    (∃ name, .var name v ∈ Term.gatherVars seen t) ↔ (∃ name, .var name v ∈ seen) ∨ v ∈ t.ids := by
  rw [Term.gatherVars_eq_foldl, Term.ids]
  generalize t.namedVars = vs
  induction vs generalizing seen with
  | nil => simp
  | cons w vs ih =>
    rw [List.foldl_cons, ih, List.map_cons, List.mem_cons, ← or_assoc]
    refine or_congr_left ?_
    unfold Term.noteVar
    split
    · next noted =>
      -- A variable with this number has been noted before, if by another name.
      obtain ⟨u, hu, same⟩ := List.any_eq_true.1 noted
      refine ⟨.inl, fun h => h.elim id fun eq => ?_⟩
      cases u with
      | var name id =>
        have eq' : id = w.2 := by simpa [Term.same] using same
        rw [eq, ← eq']
        exact ⟨name, hu⟩
      | _ => simp [Term.same] at same
    · simp only [List.mem_cons, Term.var.injEq, exists_or]
      rw [or_comm]
      simp

lemma mem_knownIds {t : Term} : v ∈ knownIds t ↔ v ∈ t.ids := by
  have gathered : (∃ name, .var name v ∈ gatherVars [] t) ↔ v ∈ t.ids := by
    simp [mem_gatherVars]
  rw [← gathered, knownIds, mem_filterMap, vars]
  constructor
  · rintro ⟨u, hu, eq⟩
    cases u with
    | var name id =>
      cases eq
      exact ⟨name, mem_reverse.1 hu⟩
    | _ => cases eq
  · rintro ⟨name, h⟩
    exact ⟨_, mem_reverse.2 h, rfl⟩

structure Trace where
  goal : Term
  result : Term
  sites : List Site
  nextId : Nat

namespace Trace

def renamed (t : Trace) : Term × Nat := renameIntroduced t.goal t.result t.nextId

def table (t : Trace) : List (Nat × Term) × Nat :=
  (t.result.mapVarsWith (introduce (knownIds t.goal)) ([], t.nextId)).2

def place (t : Trace) (v : Nat) : Nat := placeIn (knownIds t.goal) t.table.1 v

variable {t : Trace} {w : Nat}

lemma numbers (t : Trace) : Numbered t.nextId t.renamed.2 t.table.1 ∧
    t.renamed.1 = t.result.mapVars (given (knownIds t.goal) t.table.1) ∧
      ∀ v ∈ t.result.ids, v ∉ knownIds t.goal → (t.table.1.lookup v).isSome := by
  have threads := threads_introduce (knownIds t.goal) t.nextId t.result.namedVars
  have ⟨numbered, _, last⟩ := threads.mapVarsWith (Subset.refl _) (.start t.nextId)
    (s := ([], t.nextId))
  have ⟨eq, met⟩ := last t.table (threads.refl _)
  exact ⟨numbered, eq, forall_mem_map.2 met⟩

lemma moved (t : Trace) : Search.Moved t.place t.renamed.1 t.result := by
  rw [Search.Moved, t.numbers.2.1, apply_mapVars]
  simp only [free_given]
  rfl

lemma nextId_le (t : Trace) : t.nextId ≤ t.renamed.2 := t.numbers.1.above

lemma place_known (h : v ∈ t.goal.ids) : t.place v = v := if_pos (mem_knownIds.2 h)

lemma place_new (hv : v ∈ t.result.ids) (new : v ∉ t.goal.ids) :
    ∃ name, t.table.1.lookup v = some (.var name (t.place v)) ∧
      t.nextId ≤ t.place v ∧ t.place v < t.renamed.2 := by
  obtain ⟨numbered, -, met⟩ := t.numbers
  have unknown := mt mem_knownIds.1 new
  obtain ⟨u, found⟩ := Option.isSome_iff_exists.1 (met v hv unknown)
  obtain ⟨name, id, rfl, le, lt⟩ := numbered.var v u found
  have place : t.place v = id := by
    rw [Trace.place, placeIn, if_neg unknown, found]
  rw [place]
  exact ⟨name, found, le, lt⟩

lemma place_inj (hv : v ∈ t.result.ids) (hw : w ∈ t.result.ids) (newV : v ∉ t.goal.ids)
    (newW : w ∉ t.goal.ids) (same : t.place v = t.place w) : v = w := by
  obtain ⟨name, found, -⟩ := place_new hv newV
  obtain ⟨name', found', -⟩ := place_new hw newW
  rw [← same] at found'
  exact t.numbers.1.once v w name name' _ found found'

end Trace

def bodyTraces (o : Observer σ) (fuel : Nat) (position : Text.Position) :
    Nat → List Term → Compiling σ (List Trace)
  | _, [] => return []
  | nextId, t :: rest => do
    let c ← Compiling.context
    let (result, sites) ← Compiling.located position
      (goalSites o c.hooks c.config.maxExpansionDepth fuel t)
    let trace : Trace := ⟨t, result, sites, nextId⟩
    let more ← bodyTraces o fuel position trace.renamed.2 rest
    return trace :: more

lemma located_map {α β : Type} (position : Position) (f : α → β) (x : Compiling σ α) :
    located position (f <$> x) = f <$> located position x := by
  funext s
  change Compiling.located position (EStateM.map f x) s =
    EStateM.map f (Compiling.located position x) s
  simp only [located, EStateM.map]
  cases x s <;> rfl

lemma bodyGoals_eq (o : Observer σ) (fuel : Nat) (position : Position) (nextId : Nat)
    (ts : List Term) :
    bodyGoals o fuel position nextId ts =
      (fun traces => traces.flatMap (·.renamed.1.conjuncts)) <$>
        bodyTraces o fuel position nextId ts := by
  induction ts generalizing nextId with
  | nil => rfl
  | cons t ts ih =>
    simp only [bodyGoals, bodyTraces, map_bind, ← (goalSites_fst o _ _ fuel).1, located_map, ih]
    simp [Trace.renamed]

inductive Chained : Nat → List Trace → Prop where
  | nil {n : Nat} : Chained n []
  | cons {t : Trace} {ts : List Trace} (rest : Chained t.renamed.2 ts) : Chained t.nextId (t :: ts)

variable {ts : List Trace}

lemma Chained.le (h : Chained n ts) : ∀ t ∈ ts, n ≤ t.nextId := by
  induction h with
  | nil => nofun
  | @cons t ts _ ih =>
    refine forall_mem_cons.2 ⟨Nat.le_refl _, fun u hu => ?_⟩
    exact Nat.le_trans t.nextId_le (ih u hu)

lemma Chained.pairwise (h : Chained n ts) :
    ts.Pairwise fun t u => t.renamed.2 ≤ u.nextId := by
  induction h with
  | nil => exact .nil
  | cons rest ih => exact .cons rest.le ih

lemma Chained.order {i j : Nat} {t u : Trace} (h : Chained n ts) (lt : i < j)
    (hi : ts[i]? = some t) (hj : ts[j]? = some u) : t.renamed.2 ≤ u.nextId := by
  obtain ⟨inside, rfl⟩ := List.getElem?_eq_some_iff.1 hi
  obtain ⟨inside', rfl⟩ := List.getElem?_eq_some_iff.1 hj
  exact pairwise_iff_getElem.1 h.pairwise i j inside inside' lt

def Trace.Brings (t : Trace) (site : Site) (v : Nat) : Prop :=
  site ∈ t.sites ∧ v ∈ site.introduced ∧ v ∈ t.result.ids

lemma bodyTraces_ok {o : Observer σ} {fuel : Nat} {position : Position} {nextId : Nat}
    {ts : List Term} {s s' : Context × σ} {traces : List Trace}
    (ok : bodyTraces o fuel position nextId ts s = .ok traces s') :
    Chained nextId traces ∧ traces.map (·.goal) = ts ∧
      ∀ t ∈ traces, ∀ v ∈ t.result.ids, v ∈ t.goal.ids ∨ ∃ site, t.Brings site v := by
  induction ts generalizing nextId s traces with
  | nil =>
    cases ok
    exact ⟨.nil, rfl, nofun⟩
  | cons t ts ih =>
    rw [bodyTraces] at ok
    obtain ⟨c, s₁, -, ok⟩ := ok_of_bind ok
    obtain ⟨⟨result, sites⟩, s₂, expanded, ok⟩ := ok_of_bind ok
    obtain ⟨more, s₃, rest, ok⟩ := ok_of_bind ok
    cases ok
    obtain ⟨chained, goals, origin⟩ := ih rest
    have run := Compiling.located_eq_ok.1 expanded
    refine ⟨.cons chained, by rw [map_cons, goals], forall_mem_cons.2 ⟨?_, origin⟩⟩
    intro v hv
    refine ((mem_of_goalSites o _ _ fuel).1 _ _ _ _ _ run v hv).imp_right ?_
    exact fun ⟨site, hs, h⟩ => ⟨site, hs, h, hv⟩

end Expansion

def Clause.ids (c : Clause) : List Nat := (c.head.toList ++ c.body).flatMap Term.ids

lemma Clause.lt_idBound {c : Clause} {v : Nat} (h : v ∈ c.ids) : v < c.idBound :=
  lt_idBoundAllFrom (.inr (mem_flatMap.1 h))

namespace Expansion

variable {σ : Type}

/-- How the variables that expansion brings into the body of a clause are told apart. -/
structure RenamedApart (c : Clause) (traces : List Trace) : Prop where
  goals : traces.map (·.goal) = c.body
  moved : ∀ t ∈ traces, Search.Moved t.place t.renamed.1 t.result
  /-- What is not from the goal was brought in somewhere. -/
  origin : ∀ t ∈ traces, ∀ v ∈ t.result.ids, v ∈ t.goal.ids ∨ ∃ site, t.Brings site v
  /-- A variable becomes a variable of the clause only by having the number of one in its goal. -/
  captured : ∀ t ∈ traces, ∀ site v, t.Brings site v → (t.place v ∈ c.ids ↔ v ∈ t.goal.ids)
  /-- Two variables become the same only by having the same number: inside one goal of the body, or
  if both are taken for a variable of the clause. -/
  shared : ∀ (i j : Nat) (t u : Trace), traces[i]? = some t → traces[j]? = some u →
    ∀ site site' v w, t.Brings site v → u.Brings site' w →
      (t.place v = u.place w ↔ v = w ∧ (i = j ∨ v ∈ t.goal.ids ∧ w ∈ u.goal.ids))

section Apart

variable {c : Clause} {traces : List Trace} {t u : Trace} {v w : Nat}

section

variable (chained : Chained c.idBound traces) (goals : traces.map (·.goal) = c.body)
  (ht : t ∈ traces)

include chained goals ht

lemma place_mem_iff (hv : v ∈ t.result.ids) : t.place v ∈ c.ids ↔ v ∈ t.goal.ids := by
  constructor
  · intro mem
    by_contra new
    obtain ⟨-, -, le, -⟩ := Trace.place_new hv new
    have lt := Clause.lt_idBound mem
    have base := chained.le t ht
    omega
  · intro known
    rw [Trace.place_known known]
    have body : t.goal ∈ c.body := goals ▸ mem_map_of_mem ht
    exact mem_flatMap.2 ⟨t.goal, mem_append_right _ body, known⟩

lemma place_eq_iff_of_le (hu : u ∈ traces) (order : t.renamed.2 ≤ u.nextId)
    (hv : v ∈ t.result.ids) (hw : w ∈ u.result.ids) :
    t.place v = u.place w ↔ v = w ∧ v ∈ t.goal.ids ∧ w ∈ u.goal.ids := by
  constructor
  · intro same
    have knownV : v ∈ t.goal.ids ↔ w ∈ u.goal.ids := by
      rw [← place_mem_iff chained goals ht hv, same, place_mem_iff chained goals hu hw]
    by_cases old : v ∈ t.goal.ids
    · have old' := knownV.1 old
      rw [Trace.place_known old, Trace.place_known old'] at same
      exact ⟨same, old, old'⟩
    · obtain ⟨-, -, -, lt⟩ := Trace.place_new hv old
      obtain ⟨-, -, le, -⟩ := Trace.place_new hw (mt knownV.2 old)
      omega
  · rintro ⟨rfl, old, old'⟩
    rw [Trace.place_known old, Trace.place_known old']

lemma place_eq_iff_of_self (hv : v ∈ t.result.ids) (hw : w ∈ t.result.ids) :
    t.place v = t.place w ↔ v = w := by
  refine ⟨fun same => ?_, fun eq => eq ▸ rfl⟩
  have known : v ∈ t.goal.ids ↔ w ∈ t.goal.ids := by
    rw [← place_mem_iff chained goals ht hv, same, place_mem_iff chained goals ht hw]
  by_cases old : v ∈ t.goal.ids
  · rw [Trace.place_known old, Trace.place_known (known.1 old)] at same
    exact same
  · exact Trace.place_inj hv hw old (mt known.2 old) same

end

end Apart

/-- Expansion renames the variables that it brings into a clause, goal by goal of the body. -/
theorem clause_renamedApart {o : Observer σ} {fuel : Nat} {c c' : Clause} {s s' : Context × σ}
    (ok : Expansion.clause o fuel c s = .ok c' s') :
    ∃ traces, bodyTraces o fuel c.position c.idBound c.body s = .ok traces s' ∧
      c' = { c with body := traces.flatMap (·.renamed.1.conjuncts) } ∧ RenamedApart c traces := by
  obtain ⟨body, s₁, expanded, ok⟩ := ok_of_bind ok
  cases ok
  rw [bodyGoals_eq, map_eq_pure_bind] at expanded
  obtain ⟨traces, s₂, run, mapped⟩ := ok_of_bind expanded
  cases mapped
  obtain ⟨chained, goals, origin⟩ := bodyTraces_ok run
  refine ⟨traces, run, rfl, goals, fun t _ => t.moved, origin, ?_, ?_⟩
  · exact fun t ht site v ⟨_, _, hv⟩ => place_mem_iff chained goals ht hv
  · intro i j t u hi hj site site' v w ⟨_, _, hv⟩ ⟨_, _, hw⟩
    have ht := mem_of_getElem? hi
    have hu := mem_of_getElem? hj
    rcases Nat.lt_trichotomy i j with lt | rfl | lt
    · rw [place_eq_iff_of_le chained goals ht hu (chained.order lt hi hj) hv hw]
      simp [Nat.ne_of_lt lt]
    · cases hi.symm.trans hj
      rw [place_eq_iff_of_self chained goals ht hv hw]
      simp
    · rw [eq_comm, place_eq_iff_of_le chained goals hu ht (chained.order lt hj hi) hw hv]
      simp only [Nat.ne_of_gt lt, false_or, eq_comm, and_comm]

def fooBar (id : Nat) : Hook where
  name := "rules"
  expandTerm _ := none
  expandGoal g :=
    if g = .atom "foo" then some (.compound "p" [.var "_" id])
    else if g = .atom "bar" then some (.compound "q" [.var "_" id])
    else none

def bodyBy (h : Hook) (c : Clause) : Option (List Term) :=
  match clause EventLog.observer 9 c ((Context.new .standard .standard).addHook h, .empty) with
  | .ok c' _ => some c'.body
  | .error _ _ => none

lemma bodyBy_eq_some {h : Hook} {c : Clause} {body : List Term} (eq : bodyBy h c = some body) :
    ∃ c' s', clause observer 9 c ((Context.new .standard .standard).addHook h, .empty) =
      .ok c' s' ∧ c'.body = body := by
  unfold bodyBy at eq
  split at eq
  · next c' s' ok => exact ⟨c', s', ok, Option.some.inj eq⟩
  · cases eq

/-- Two goals of the body have the same number for a variable, and one of them has it for another
variable as well. -/
theorem clause_renamedApart_fooBar :
    let c : Clause := ⟨some (.compound "t" [.var "X" 0]),
      [.compound ";" [.compound "r" [.var "X" 0], .atom "foo"], .atom "foo", .atom "bar"], .rule,
      .start⟩
    let s : Context × EventLog := ((Context.new .standard .standard).addHook (fooBar 0), .empty)
    ∃ c' s' traces, clause observer 9 c s = .ok c' s' ∧
      c'.body = [.compound ";" [.compound "r" [.var "X" 0], .compound "p" [.var "_" 0]],
        .compound "p" [.var "_" 1], .compound "q" [.var "_" 2]] ∧
      bodyTraces observer 9 c.position c.idBound c.body s = .ok traces s' ∧
      RenamedApart c traces := by
  intro c s
  have body : bodyBy (fooBar 0) c =
      some [.compound ";" [.compound "r" [.var "X" 0], .compound "p" [.var "_" 0]],
        .compound "p" [.var "_" 1], .compound "q" [.var "_" 2]] := by decide +kernel
  obtain ⟨c', s', ok, body⟩ := bodyBy_eq_some body
  obtain ⟨traces, run, -, apart⟩ := clause_renamedApart ok
  exact ⟨c', s', traces, ok, body, run, apart⟩

/-- Of one goal of the body, two goals inside it share the variable that each of them brings in, and
a variable that is brought in is taken for one of the clause. -/
theorem clause_shares_introduced :
    bodyBy (fooBar 7) ⟨some (.atom "t"), [.compound ";" [.atom "foo", .atom "bar"]], .rule, .start⟩ =
      some [.compound ";" [.compound "p" [.var "_" 0], .compound "q" [.var "_" 0]]] ∧
    bodyBy (fooBar 0) ⟨some (.compound "t" [.var "X" 0]),
        [.compound ";" [.compound "r" [.var "X" 0], .atom "foo"]], .rule, .start⟩ =
      some [.compound ";" [.compound "r" [.var "X" 0], .compound "p" [.var "_" 0]]] := by
  decide +kernel

end Expansion

end Horn
