import Horn.Proofs.DepthFirstSearch

/-!
# Substitutions

What a substitution makes of a term depends on the variables of the term only, and one applied
after another is a substitution again.
-/

namespace Horn

open List Subst Bindings

namespace Term

@[simp]
lemma ids_atom (a : String) : (atom a).ids = [] := rfl

@[simp]
lemma ids_number (n : Number) : (number n).ids = [] := rfl

variable {args : List Term} {id : Nat} {f : String}

@[simp]
lemma mem_ids_var {name : String} {v : Nat} : id ∈ (var name v).ids ↔ id = v := by
  change id ∈ [v] ↔ id = v
  simp

lemma ids_compound (f : String) (args : List Term) :
    (compound f args).ids = args.flatMap ids := by
  rw [ids, namedVars_compound, map_flatMap]
  rfl

lemma ids_single (f : String) (a : Term) : (compound f [a]).ids = a.ids := by
  simp [ids_compound]

lemma ids_pair (f : String) (a b : Term) : (compound f [a, b]).ids = a.ids ++ b.ids := by
  simp [ids_compound]

lemma ids_cell (h t : Term) : (cell h t).ids = h.ids ++ t.ids := by
  simp [ids, namedVars_cell]

@[simp]
lemma mem_ids_compound : id ∈ (compound f args).ids ↔ ∃ a ∈ args, id ∈ a.ids := by
  rw [ids_compound]
  exact mem_flatMap

@[simp]
lemma mem_ids_cell {h t : Term} : id ∈ (cell h t).ids ↔ id ∈ h.ids ∨ id ∈ t.ids := by
  simp [ids, namedVars_cell]

lemma mem_ids_build : id ∈ (build f args).ids ↔ ∃ a ∈ args, id ∈ a.ids := by
  unfold build
  split
  · simp
  · split <;> simp
  · simp

mutual

/-- The bound is above the given one and above every variable of the term. -/
lemma lt_idBoundFrom {bound : Nat} :
    ∀ {t : Term}, id < bound ∨ id ∈ t.ids → id < t.idBoundFrom bound
  | .atom _, h => by simpa [idBoundFrom] using h
  | .number _, h => by simpa [idBoundFrom] using h
  | .var _ v, h => by
    simp only [mem_ids_var] at h
    rw [idBoundFrom]
    omega
  | .compound _ args, h => by
    rw [idBoundFrom]
    exact lt_idBoundAllFrom (h.imp_right mem_ids_compound.1)
  | .cell h t, hid => by
    rw [idBoundFrom]
    rw [mem_ids_cell, ← or_assoc] at hid
    exact lt_idBoundFrom (hid.imp_left lt_idBoundFrom)

lemma lt_idBoundAllFrom {bound : Nat} :
    ∀ {ts : List Term}, (id < bound ∨ ∃ t ∈ ts, id ∈ t.ids) → id < idBoundAllFrom bound ts
  | [], h => by simpa [idBoundAllFrom] using h
  | t :: ts, h => by
    simp only [mem_cons, exists_eq_or_imp, ← or_assoc] at h
    rw [idBoundAllFrom]
    exact lt_idBoundAllFrom (h.imp_left lt_idBoundFrom)

end

lemma lt_idBound {t : Term} (h : id ∈ t.ids) : id < t.idBound :=
  lt_idBoundFrom (.inr h)

/-- A table of variables for others, each with a number of its own from `base` on. -/
structure Numbered (base next : Nat) (table : List (Nat × Term)) : Prop where
  above : base ≤ next
  var : ∀ v u, table.lookup v = some u → ∃ name id, u = .var name id ∧ base ≤ id ∧ id < next
  once : ∀ v w name name' id, table.lookup v = some (.var name id) →
    table.lookup w = some (.var name' id) → v = w

namespace Numbered

lemma start (base : Nat) : Numbered base base [] := ⟨Nat.le_refl _, nofun, nofun⟩

lemma add {base next v : Nat} {table : List (Nat × Term)} (h : Numbered base next table)
    (missing : table.lookup v = none) (name : String) :
    Numbered base (next + 1) ((v, .var name next) :: table) ∧
      ∀ w u, table.lookup w = some u → ((v, .var name next) :: table).lookup w = some u := by
  have first (w : Nat) : ((v, Term.var name next) :: table).lookup w =
      if w = v then some (.var name next) else table.lookup w := by
    by_cases eq : w = v
    · simp [eq]
    · rw [lookup_cons, if_neg eq, beq_false_of_ne eq]
  -- Numbers in the table so far are below the new one.
  have older {w : Nat} {name' : String} (hw : table.lookup w = some (.var name' next)) : False := by
    obtain ⟨_, _, eq, -, lt⟩ := h.var w _ hw
    cases eq
    exact Nat.lt_irrefl _ lt
  refine ⟨⟨Nat.le_succ_of_le h.above, fun w u hu => ?_, fun w w' name₁ name₂ id hw hw' => ?_⟩,
    fun w u hu => ?_⟩
  · rw [first] at hu
    split at hu
    · cases hu
      exact ⟨name, next, rfl, h.above, Nat.lt_succ_self _⟩
    · obtain ⟨name', id, rfl, le, lt⟩ := h.var w u hu
      exact ⟨name', id, rfl, le, Nat.lt_succ_of_lt lt⟩
  · rw [first] at hw hw'
    split at hw <;> split at hw'
    · next eq eq' => rw [eq, eq']
    · cases hw
      exact (older hw').elim
    · cases hw'
      exact (older hw).elim
    · exact h.once w w' name₁ name₂ id hw hw'
  · rw [first, if_neg]
    · exact hu
    · rintro rfl
      rw [missing] at hu
      cases hu

end Numbered

end Term

namespace Subst

open Term

variable {σ τ : Subst} {t : Term} {w v x : Nat}

@[simp]
lemma apply_atom (a : String) : σ.apply (.atom a) = .atom a := rfl

@[simp]
lemma apply_number (n : Number) : σ.apply (.number n) = .number n := rfl

@[simp]
lemma apply_var (name : String) (v : Nat) : σ.apply (.var name v) = σ v := rfl

@[simp]
lemma apply_varOf (v : Nat) : σ.apply (varOf v) = σ v := rfl

@[simp]
lemma apply_compound (f : String) (args : List Term) :
    σ.apply (.compound f args) = .compound f (args.map σ.apply) := by
  rw [apply, mapVars, mapAllVars_eq]
  rfl

@[simp]
lemma apply_cell (h t : Term) : σ.apply (.cell h t) = .cell (σ.apply h) (σ.apply t) := rfl

lemma apply_mapVars (f : String → Nat → Term) (t : Term) :
    τ.apply (t.mapVars f) = t.mapVars fun name v => τ.apply (f name v) := by
  induction t using induct with
  | atom | number | var => rfl
  | compound g args ih =>
    simp only [mapVars, mapAllVars_eq, apply_compound, map_map, compound.injEq, true_and]
    exact map_congr_left ih
  | cell h t ihh iht => simp only [mapVars, apply_cell, ihh, iht]

lemma apply_apply (t : Term) : τ.apply (σ.apply t) = apply (fun v => τ.apply (σ v)) t :=
  apply_mapVars _ t

/-- Only the variables of a term matter. -/
lemma apply_eq_apply : σ.apply t = τ.apply t ↔ ∀ v ∈ t.ids, σ v = τ v := by
  induction t using induct with
  | atom | number | var => simp
  | compound f args ih =>
    simp only [apply_compound, compound.injEq, true_and, map_inj_left, mem_ids_compound]
    constructor
    · rintro h v ⟨a, ha, hv⟩
      exact (ih a ha).1 (h a ha) v hv
    · exact fun h a ha => (ih a ha).2 fun v hv => h v ⟨a, ha, hv⟩
  | cell h t ihh iht =>
    simp only [apply_cell, cell.injEq, ihh, iht, mem_ids_cell, or_imp, forall_and]

lemma mem_ids_apply : w ∈ (σ.apply t).ids ↔ ∃ v ∈ t.ids, w ∈ (σ v).ids := by
  induction t using induct with
  | atom | number | var => simp
  | compound f args ih =>
    rw [apply_compound, mem_ids_compound]
    constructor
    · rintro ⟨_, hb, hw⟩
      obtain ⟨a, ha, rfl⟩ := mem_map.1 hb
      obtain ⟨v, hv, hw⟩ := (ih a ha).1 hw
      exact ⟨v, mem_ids_compound.2 ⟨a, ha, hv⟩, hw⟩
    · rintro ⟨v, hv, hw⟩
      obtain ⟨a, ha, hv⟩ := mem_ids_compound.1 hv
      exact ⟨_, mem_map_of_mem ha, (ih a ha).2 ⟨v, hv, hw⟩⟩
  | cell h t ihh iht => simp only [apply_cell, mem_ids_cell, ihh, iht, or_and_right, exists_or]

lemma apply_eq_free : σ.apply t = free.apply t ↔ ∀ v ∈ t.ids, σ v = free v := apply_eq_apply

lemma free_apply_free (t : Term) : free.apply (free.apply t) = free.apply t := by
  rw [apply_apply]
  rfl

lemma apply_free (t : Term) : σ.apply (free.apply t) = σ.apply t := by
  rw [apply_apply]
  rfl

lemma mem_ids_free : v ∈ (free.apply t).ids ↔ v ∈ t.ids := by
  rw [mem_ids_apply]
  simp [free, varOf]

lemma assign_apply (x : Nat) (u t : Term) :
    (σ.assign x u).apply t = (single x u).apply (σ.apply t) := (apply_apply t).symm

lemma single_self (x : Nat) (u : Term) : single x u x = u := if_pos rfl

lemma single_of_ne (u : Term) (h : v ≠ x) : single x u v = free v := if_neg h

lemma single_apply_of_notMem {u : Term} (h : x ∉ t.ids) : (single x u).apply t = free.apply t :=
  apply_eq_apply.2 fun _ hv => single_of_ne u fun eq => h (eq ▸ hv)

/-- The variables in a value are unbound, so that a value is never looked up twice. -/
def Settled (σ : Subst) : Prop := ∀ v, ∀ w ∈ (σ v).ids, σ w = free w

lemma Settled.apply (h : σ.Settled) (hw : w ∈ (σ.apply t).ids) : σ w = free w := by
  obtain ⟨v, -, hw⟩ := mem_ids_apply.1 hw
  exact h v w hw

lemma Settled.apply_apply (h : σ.Settled) (t : Term) :
    σ.apply (σ.apply t) = free.apply (σ.apply t) :=
  apply_eq_free.2 fun _ hw => h.apply hw

/-- What `σ` says is known to `τ`, up to the names of variables. -/
def Absorbs (τ σ : Subst) : Prop := ∀ v, free.apply (τ.apply (σ v)) = free.apply (τ v)

lemma Settled.absorbs (h : σ.Settled) : σ.Absorbs σ := by
  intro v
  rw [apply_eq_free.2 (h v), free_apply_free]

lemma Absorbs.apply (h : τ.Absorbs σ) (t : Term) :
    free.apply (τ.apply (σ.apply t)) = free.apply (τ.apply t) := by
  rw [apply_apply, apply_apply, apply_apply]
  refine apply_eq_apply.2 fun v _ => ?_
  rw [← apply_apply]
  exact h v

lemma Absorbs.trans {υ : Subst} (h : τ.Absorbs σ) (h' : υ.Absorbs τ) : υ.Absorbs σ := by
  intro v
  have through := congrArg υ.apply (h v)
  rw [apply_free, apply_free] at through
  rw [← h'.apply (σ v), through, h' v]

/-- The variable `x` can be bound to `u` without a cycle. -/
structure Fits (σ : Subst) (x : Nat) (u : Term) : Prop where
  unbound : σ x = free x
  settled : ∀ w ∈ u.ids, σ w = free w
  acyclic : x ∉ u.ids

variable {u : Term}

lemma Fits.assign_self (h : σ.Fits x u) : σ.assign x u x = u := by
  rw [assign, h.unbound]
  exact single_self x u

/-- Binding a variable to a term that fits keeps a substitution settled. -/
lemma Settled.assign (settled : σ.Settled) (h : σ.Fits x u) : (σ.assign x u).Settled := by
  intro v w hw
  obtain ⟨y, hy, hw⟩ := mem_ids_apply.1 hw
  have only : w ≠ x ∧ σ w = free w := by
    by_cases eq : y = x
    · subst eq
      rw [single_self] at hw
      exact ⟨fun eq => h.acyclic (eq ▸ hw), h.settled w hw⟩
    · rw [single_of_ne u eq] at hw
      rw [mem_ids_var.1 hw]
      exact ⟨eq, settled v y hy⟩
  rw [Subst.assign, only.2]
  exact single_of_ne u only.1

lemma Settled.absorbs_assign (settled : σ.Settled) : (σ.assign x u).Absorbs σ := by
  intro v
  rw [assign_apply, apply_eq_free.2 (settled v), apply_free]
  rfl

end Subst

end Horn
