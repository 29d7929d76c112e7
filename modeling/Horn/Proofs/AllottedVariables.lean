import Horn.Proofs.KeptStores
import Horn.Proofs.LinkedStores

/-!
# Variables that a store has room for

The variables of a term are allotted if each has a place in the store. All is said of the variables
that satisfy a property `P`, so the same lemmas say where the variables of a result can come from.
-/

namespace Horn

open List Term Subst Array

namespace Term

variable {P : Nat → Prop} {n : Nat} {t : Term}

def Allotted (P : Nat → Prop) (n : Nat) (t : Term) : Prop := ∀ id ∈ t.ids, P id ∧ id < n

lemma Allotted.mono {m : Nat} (h : t.Allotted P n) (le : n ≤ m) : t.Allotted P m :=
  fun id hid => ⟨(h id hid).1, Nat.lt_of_lt_of_le (h id hid).2 le⟩

end Term

namespace Bindings

variable {P : Nat → Prop} {b : Bindings}

/-- The variables of all values are allotted, and `P` holds of all that there is no room for yet. -/
structure Closed (P : Nat → Prop) (b : Bindings) : Prop where
  value : ∀ {i : Nat} {v : Term}, b.value? i = some v → v.Allotted P b.values.size
  above : ∀ id, b.values.size ≤ id → P id

lemma Closed.reserve (h : b.Closed P) (count : Nat) : (b.reserve count).2.Closed P where
  value bound := by
    rw [value?_reserve] at bound
    exact (h.value bound).mono (by rw [size_reserve]; omega)
  above id le := h.above id (by rw [size_reserve] at le; omega)

lemma size_bind {i : Nat} (inside : i < b.values.size) (v : Term) :
    (b.bind i v).values.size = b.values.size := by
  simp only [bind, size_setIfInBounds, size_append, size_replicate]
  omega

lemma Closed.bind (h : b.Closed P) {i : Nat} (inside : i < b.values.size) {v : Term}
    (hv : v.Allotted P b.values.size) : (b.bind i v).Closed P := by
  have size := size_bind inside v
  refine ⟨fun {j u} bound => ?_, fun id le => h.above id (by omega)⟩
  rw [size]
  rw [value?_bind] at bound
  split at bound
  · cases bound
    exact hv
  · exact h.value bound

lemma undo_values (b : Bindings) (mark : Nat) : (b.undo mark).values.size = b.values.size ∧
    ∀ {i : Nat} {v : Term}, (b.undo mark).value? i = some v → b.value? i = some v := by
  have times (n : Nat) (b : Bindings) : (undoTimes n b).values.size = b.values.size ∧
      ∀ {i : Nat} {v : Term}, (undoTimes n b).value? i = some v → b.value? i = some v := by
    induction n generalizing b with
    | zero => exact ⟨rfl, fun bound => bound⟩
    | succ n ih =>
      obtain ⟨size, values⟩ := ih b.undoLast
      refine ⟨size.trans b.undoLast_size.1, fun {i v} bound => ?_⟩
      have bound := values bound
      cases last : b.trail.back? with
      | none => rwa [undoLast, last] at bound
      | some id =>
        rw [undoLast, last, value?_cleared] at bound
        split at bound
        · cases bound
        · exact bound
  exact times _ b

lemma Closed.undo (h : b.Closed P) (mark : Nat) : (b.undo mark).Closed P := by
  obtain ⟨size, values⟩ := b.undo_values mark
  exact ⟨fun bound => size ▸ h.value (values bound), fun id le => h.above id (size ▸ le)⟩

end Bindings

def Upkeep.allotted (P : Nat → Prop) (n : Nat) : Upkeep where
  Good b := b.Closed P ∧ n ≤ b.values.size
  Var b id := P id ∧ id < b.values.size
  Text _ := True
  kind := kind_true
  Back _ := True
  value good bound := ⟨good.1.value bound, trivial⟩
  assign {b s t i u} good _ var fits := by
    have size := Bindings.size_bind var.2 u
    exact ⟨⟨good.1.bind var.2 fits.1, size ▸ good.2⟩, fun id var => size ▸ var⟩
  reserve {b} count good := by
    simp only [Bindings.size_reserve]
    refine ⟨⟨good.1.reserve count, Nat.le_add_right_of_le good.2⟩, fun id var => ⟨var.1, ?_⟩,
      fun v lt => ⟨good.1.above _ (Nat.le_add_right _ _), Nat.add_lt_add_left lt _⟩⟩
    exact Nat.lt_add_right _ var.2
  undo {b mark} good _ := by
    have size := (b.undo_values mark).1
    exact ⟨⟨good.1.undo mark, size ▸ good.2⟩, fun id var => size ▸ var⟩
  mark _ := trivial

namespace Bindings

variable {b : Bindings}

/-- The number that a copy under way has given to a variable. -/
def renewed (table : List (Nat × Term)) (v : Nat) : Nat :=
  match table.lookup v with
  | some (.var _ id) => id
  | _ => v

/-- A copy under way: the variables met so far with those for them, which are new. -/
structure Renews (b : Bindings) (s : List (Nat × Term) × Bindings) : Prop where
  table : Numbered b.values.size s.2.values.size s.1
  named : ∀ v u, s.1.lookup v = some u → ∃ i, u = varOf i
  store : b.Restored s.2

lemma threads_copy (b : Bindings) (vs : List (String × Nat)) :
    Threads (fun _ id s => copyVar id s) vs b.Renews
      (fun s s' => ∀ v u, s.1.lookup v = some u → s'.1.lookup v = some u)
      (fun s _ v => varOf (renewed s.1 v)) fun s v => (s.1.lookup v).isSome where
  refl _ _ _ h := h
  trans h h' v u hu := h' v u (h v u hu)
  step := by
    rintro ⟨name, v⟩ - s renews
    dsimp only
    unfold Bindings.copyVar
    cases found : s.1.lookup v with
    | some u =>
      refine ⟨renews, fun _ _ h => h, fun s' later => ?_⟩
      obtain ⟨i, rfl⟩ := renews.named v u found
      rw [renewed, later v _ found]
      exact ⟨rfl, rfl⟩
    | none =>
      obtain ⟨table, kept⟩ := renews.table.add found ("_G" ++ toString s.2.values.size)
      have size : (s.2.reserve 1).2.values.size = s.2.values.size + 1 := size_reserve _ _
      refine ⟨⟨size ▸ table, fun w u hw => ?_, renews.store.trans (s.2.restored_reserve 1)⟩, kept,
        fun s' later => ?_⟩
      · rw [lookup_cons] at hw
        split at hw
        · exact ⟨_, (Option.some.inj hw).symm⟩
        · exact renews.named w u hw
      · rw [renewed, later v (varOf s.2.values.size) lookup_cons_self]
        exact ⟨rfl, rfl⟩

end Bindings

/-- One term is the other with other variables, from `n` on, and as many of them. -/
def Term.Renamed (n : Nat) (t u : Term) : Prop :=
  ∃ place : Nat → Nat, u = (Subst.moved place).apply t ∧ (∀ v ∈ t.ids, n ≤ place v) ∧
    ∀ v ∈ t.ids, ∀ w ∈ t.ids, place v = place w → v = w

lemma Term.Renamed.above {n : Nat} {t u : Term} (h : t.Renamed n u) : ∀ v ∈ u.ids, n ≤ v := by
  intro w hw
  obtain ⟨place, rfl, above, -⟩ := h
  obtain ⟨v, hv, hw⟩ := mem_ids_apply.1 hw
  rw [mem_ids_var.1 hw]
  exact above v hv

namespace Bindings

variable {b : Bindings}

/-- A copy has variables that there was no room for, and the store is as it was but for its room. -/
lemma copy_renamed {n : Nat} {t r : Term} (resolved : b.resolve? n t = some r) :
    ∃ u b', b.copy n t = (some u, b') ∧ r.Renamed b.values.size u ∧
      (∀ v ∈ u.ids, v < b'.values.size) ∧ b.Restored b' := by
  have threads := threads_copy b r.namedVars
  obtain ⟨renews, -, last⟩ := threads.mapVarsWith (s := ([], b)) (Subset.refl _)
    ⟨.start _, nofun, .refl b⟩
  obtain ⟨term, met⟩ := last _ (threads.refl _)
  have copied : b.copy n t = (some (r.mapVarsWith (fun _ id s => copyVar id s) ([], b)).1,
      (r.mapVarsWith (fun _ id s => copyVar id s) ([], b)).2.2) := by
    rw [copy, resolved]
    rfl
  generalize r.mapVarsWith (fun _ id s => copyVar id s) ([], b) = x at renews term met copied
  have found (v : Nat) (hv : v ∈ r.ids) : ∃ name,
      x.2.1.lookup v = some (.var name (renewed x.2.1 v)) ∧
        b.values.size ≤ renewed x.2.1 v ∧ renewed x.2.1 v < x.2.2.values.size := by
    obtain ⟨w, hw, rfl⟩ := List.mem_map.1 hv
    obtain ⟨u, found⟩ := Option.isSome_iff_exists.1 (met w hw)
    obtain ⟨name, id, rfl, above, below⟩ := renews.table.var w.2 u found
    rw [renewed, found]
    exact ⟨name, rfl, above, below⟩
  refine ⟨x.1, x.2.2, copied, ⟨renewed x.2.1, term, fun v hv => ?_, fun v hv w hw same => ?_⟩,
    fun w hw => ?_, renews.store⟩
  · obtain ⟨-, -, above, -⟩ := found v hv
    exact above
  · obtain ⟨name, found_v, -⟩ := found v hv
    obtain ⟨name', found_w, -⟩ := found w hw
    exact renews.table.once v w name name' _ found_v (same ▸ found_w)
  · rw [term] at hw
    obtain ⟨v, hv, hw⟩ := mem_ids_apply.1 hw
    obtain ⟨-, -, -, below⟩ := found v hv
    exact mem_ids_var.1 hw ▸ below

end Bindings

end Horn
