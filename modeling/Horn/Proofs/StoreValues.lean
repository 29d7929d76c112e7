import Horn.Proofs.Substitutions
import Mathlib.Data.List.Perm.Subperm

/-!
# The values in a store

The trail of a store tells its history. A variable that is bound to another variable was bound
before that one, so a chain of bindings ends within the store.
-/

namespace Horn

open List Subst Option Array

namespace Bindings

variable {b b' : Bindings}
  {id : Nat} {u : Term}

lemma join_padded (values : Array (Option Term)) (count id : Nat) :
    ((values ++ Array.replicate count none)[id]?).join = (values[id]?).join := by
  rw [Array.getElem?_append]
  split
  · rfl
  · next out =>
    rw [Array.getElem?_replicate, Array.getElem?_eq_none (Nat.le_of_not_lt out)]
    split <;> rfl

lemma value?_reserve (b : Bindings) (count id : Nat) :
    (b.reserve count).2.value? id = b.value? id :=
  join_padded b.values count id

lemma size_reserve (b : Bindings) (count : Nat) :
    (b.reserve count).2.values.size = b.values.size + count := by
  simp [reserve]

lemma value?_bind (b : Bindings) (id : Nat) (u : Term) (v : Nat) :
    (b.bind id u).value? v = if v = id then some u else b.value? v := by
  simp only [bind, value?, getElem?_setIfInBounds]
  by_cases eq : v = id
  · have inside : id < b.values.size + (id + 1 - b.values.size) := by omega
    simp [eq, inside]
  · rw [if_neg (Ne.symm eq), if_neg eq]
    exact join_padded b.values _ v

/-- The trail has the bound variables, each once. -/
structure Sound (b : Bindings) : Prop where
  bound : ∀ id, id ∈ b.trail.toList ↔ (b.value? id).isSome
  once : b.trail.toList.Nodup
  order : ∀ id name v, b.value? id = some (.var name v) → (b.value? v).isSome →
    b.trail.toList.idxOf id < b.trail.toList.idxOf v

structure Later (b b' : Bindings) : Prop where
  sound : b'.Sound
  trail : b.trail.toList <+: b'.trail.toList
  kept : ∀ id ∈ b.trail.toList, b'.value? id = b.value? id
  room : b.values.size ≤ b'.values.size

lemma Sound.later (h : b.Sound) : b.Later b :=
  ⟨h, prefix_rfl, fun _ _ => rfl, Nat.le_refl _⟩

lemma Later.trans {b'' : Bindings} (h : b.Later b') (h' : b'.Later b'') : b.Later b'' where
  sound := h'.sound
  trail := h.trail.trans h'.trail
  kept id hid := (h'.kept id (h.trail.subset hid)).trans (h.kept id hid)
  room := Nat.le_trans h.room h'.room

lemma Sound.reserve (h : b.Sound) (count : Nat) : b.Later (b.reserve count).2 where
  sound := by
    refine ⟨fun id => ?_, h.once, fun id name v => ?_⟩
    · rw [value?_reserve]
      exact h.bound id
    · rw [value?_reserve, value?_reserve]
      exact h.order id name v
  trail := prefix_rfl
  kept id _ := value?_reserve b count id
  room := by simp [Bindings.reserve]

lemma Sound.notMem (h : b.Sound) (unbound : b.value? id = none) :
    id ∉ b.trail.toList := by
  rw [h.bound, unbound]
  simp

lemma Sound.bind (h : b.Sound) (unbound : b.value? id = none)
    (ends : ∀ name v, u = .var name v → v ≠ id ∧ b.value? v = none) : b.Later (b.bind id u) := by
  have new := h.notMem unbound
  have trail : (b.bind id u).trail.toList = b.trail.toList ++ [id] := toList_push
  refine ⟨⟨fun v => ?_, ?_, fun v name w => ?_⟩, ?_, fun v hv => ?_, ?_⟩
  · rw [trail, value?_bind, List.mem_append, List.mem_singleton, h.bound]
    by_cases eq : v = id <;> simp [eq]
  · rw [trail, nodup_append]
    refine ⟨h.once, by simp, fun v hv w hw => ?_⟩
    rw [mem_singleton.1 hw]
    exact fun eq => new (eq ▸ hv)
  · rw [trail, value?_bind, value?_bind]
    by_cases eq : v = id
    · subst eq
      intro value
      rw [if_pos rfl] at value
      obtain ⟨other, free⟩ := ends name w (some.inj value)
      simp [other, free]
    · rw [if_neg eq]
      intro value
      have hv : v ∈ b.trail.toList := (h.bound v).2 (by rw [value]; rfl)
      rw [List.idxOf_append, if_pos hv, List.idxOf_append]
      by_cases last : w = id
      · subst last
        rw [if_neg new]
        have := idxOf_lt_length_of_mem hv
        omega
      · rw [if_neg last]
        intro bound
        rw [if_pos ((h.bound w).2 bound)]
        exact h.order v name w value bound
  · exact ⟨[id], trail.symm⟩
  · rw [value?_bind, if_neg]
    rintro rfl
    exact new hv
  · simp [Bindings.bind]

lemma undoLast_eq {before : Array Nat} (trail : b.trail = before.push id) :
    b.undoLast = ⟨b.values.setIfInBounds id none, before⟩ := by
  unfold undoLast
  rw [trail, back?_push, pop_push]

lemma value?_cleared (b : Bindings) (trail : Array Nat) (id v : Nat) :
    value? ⟨b.values.setIfInBounds id none, trail⟩ v = if v = id then none else b.value? v := by
  simp only [value?, getElem?_setIfInBounds]
  by_cases eq : v = id
  · subst eq
    rw [if_pos rfl, if_pos rfl]
    split <;> rfl
  · rw [if_neg (Ne.symm eq), if_neg eq]

lemma Sound.undoLast (h : b.Sound) : b.undoLast.Sound ∧ b.undoLast.Later b := by
  cases last : b.trail.back? with
  | none =>
    have same : b.undoLast = b := by rw [Bindings.undoLast, last]
    rw [same]
    exact ⟨h, h.later⟩
  | some id =>
    obtain ⟨before, trail⟩ := back?_eq_some_iff.1 last
    have list : b.trail.toList = before.toList ++ [id] := by rw [trail, toList_push]
    have once := h.once
    rw [list, nodup_append] at once
    have gone : id ∉ before.toList := fun hid => once.2.2 id hid id (mem_singleton.2 rfl) rfl
    have bound (v : Nat) : v ∈ before.toList ↔ v ≠ id ∧ (b.value? v).isSome := by
      rw [← h.bound, list, List.mem_append, List.mem_singleton]
      grind
    rw [undoLast_eq trail]
    refine ⟨⟨fun v => ?_, once.1, fun v name w => ?_⟩, ⟨h, ⟨[id], list.symm⟩, fun v hv => ?_, ?_⟩⟩
    · rw [bound, value?_cleared]
      by_cases eq : v = id <;> simp [eq]
    · rw [value?_cleared, value?_cleared]
      intro value hw
      have hv : v ≠ id := fun eq => by simp [eq] at value
      have hw' : w ≠ id := fun eq => by simp [eq] at hw
      rw [if_neg hv] at value
      rw [if_neg hw'] at hw
      have order := h.order v name w value hw
      rw [list, List.idxOf_append, if_pos ((bound v).2 ⟨hv, by rw [value]; rfl⟩),
        List.idxOf_append, if_pos ((bound w).2 ⟨hw', hw⟩)] at order
      exact order
    · rw [value?_cleared, if_neg ((bound v).1 hv).1]
    · simp

lemma undoLast_size (b : Bindings) :
    b.undoLast.values.size = b.values.size ∧ b.undoLast.trail.size = b.trail.size - 1 := by
  unfold undoLast
  split
  · next last => simp [back?_eq_none_iff.1 last]
  · simp

lemma trail_undoTimes (n : Nat) (b : Bindings) :
    (undoTimes n b).trail.size = b.trail.size - n := by
  induction n generalizing b with
  | zero => rfl
  | succ n ih =>
    rw [undoTimes, ih, b.undoLast_size.2]
    omega

lemma Sound.undoTimes (h : b.Sound) (n : Nat) :
    (undoTimes n b).Sound ∧ (undoTimes n b).Later b ∧
      (undoTimes n b).values.size = b.values.size ∧
      (undoTimes n b).trail.size = b.trail.size - n := by
  induction n generalizing b with
  | zero => exact ⟨h, h.later, rfl, rfl⟩
  | succ n ih =>
    obtain ⟨sound, later⟩ := h.undoLast
    obtain ⟨sound', later', values, -⟩ := ih sound
    exact ⟨sound', later'.trans later, values.trans b.undoLast_size.1, trail_undoTimes _ b⟩

structure Restored (b b' : Bindings) : Prop where
  trail : b'.trail = b.trail
  value : ∀ id, b'.value? id = b.value? id
  room : b.values.size ≤ b'.values.size

lemma Later.undo (h : b.Later b') (sound : b.Sound) : b.Restored (b'.undo b.mark) := by
  obtain ⟨sound', later, values, size⟩ := h.sound.undoTimes (b'.trail.size - b.mark)
  change b.Restored (undoTimes (b'.trail.size - b.mark) b')
  have short : b.trail.size ≤ b'.trail.size := h.trail.length_le
  have same : (undoTimes (b'.trail.size - b.mark) b').trail = b.trail := by
    apply toList_inj.1
    refine IsPrefix.eq_of_length (prefix_of_prefix_length_le later.trail h.trail ?_) ?_
    all_goals
      rw [Array.length_toList, Array.length_toList, size, mark]
      omega
  refine ⟨same, fun id => ?_, by rw [values]; exact h.room⟩
  by_cases bound : id ∈ b.trail.toList
  · rw [← h.kept id bound, later.kept id (by rw [same]; exact bound)]
  · have unbound := bound
    rw [sound.bound, not_isSome_iff_eq_none] at unbound
    rw [unbound]
    rw [← same, sound'.bound, not_isSome_iff_eq_none] at bound
    exact bound

lemma Restored.later (h : b.Restored b') (sound : b.Sound) : b.Later b' where
  sound := by
    refine ⟨fun id => ?_, ?_, fun id name v => ?_⟩
    · rw [h.trail, h.value]
      exact sound.bound id
    · rw [h.trail]
      exact sound.once
    · rw [h.trail, h.value, h.value]
      exact sound.order id name v
  trail := h.trail ▸ prefix_rfl
  kept id _ := h.value id
  room := h.room

structure Solves (sol : Subst) (b : Bindings) : Prop where
  unbound : ∀ id, b.value? id = none → sol id = free id
  bound : ∀ id u, b.value? id = some u → sol id = sol.apply u
  settled : sol.Settled

variable {sol : Subst} {name : String} {value t : Term} {v : Nat}

lemma Solves.walkFor (h : Solves sol b) (n : Nat) (t : Term) :
    sol.apply (b.walkFor n t) = sol.apply t := by
  induction n generalizing t with
  | zero => rfl
  | succ n ih =>
    unfold Bindings.walkFor
    split
    · next name id =>
      split
      · next u value => rw [ih, apply_var, h.bound id u value]
      · rfl
    · rfl

lemma Solves.walk (h : Solves sol b) (t : Term) : sol.apply (b.walk t) = sol.apply t :=
  h.walkFor _ t

lemma Sound.trail_le (h : b.Sound) : b.trail.size ≤ b.values.size := by
  have inside : b.trail.toList ⊆ range b.values.size := by
    intro id hid
    rw [h.bound] at hid
    rw [List.mem_range]
    apply Nat.lt_of_not_le
    intro out
    rw [value?, Array.getElem?_eq_none out] at hid
    cases hid
  have fits := (subperm_of_subset h.once inside).length_le
  rw [length_range] at fits
  exact fits

lemma Sound.walkFor_unbound (h : b.Sound) {n : Nat}
    (enough : ∀ name id, t = .var name id → b.trail.size ≤ n + b.trail.toList.idxOf id)
    (ends : b.walkFor n t = .var name v) : b.value? v = none := by
  have unbound_of_late {id : Nat} (late : b.trail.size ≤ b.trail.toList.idxOf id) :
      b.value? id = none := by
    rw [← not_isSome_iff_eq_none, ← h.bound]
    exact fun mem => Nat.not_le_of_lt (idxOf_lt_length_of_mem mem) late
  induction n generalizing t with
  | zero =>
    have late := enough name v ends
    exact unbound_of_late (by omega)
  | succ n ih =>
    unfold walkFor at ends
    split at ends
    · next name' id =>
      split at ends
      · next u value =>
        refine ih (fun name' w eq => ?_) ends
        subst eq
        by_cases bound : (b.value? w).isSome
        · have order := h.order id name' w value bound
          have from_id := enough _ id rfl
          omega
        · -- A variable that is not on the trail has an index past its end.
          rw [← h.bound, ← List.idxOf_lt_length_iff, Array.length_toList] at bound
          omega
      · next value =>
        cases ends
        exact value
    · next other => exact absurd ends (other name v)

lemma Sound.walk_unbound (h : b.Sound) (ends : b.walk t = .var name v) : b.value? v = none :=
  h.walkFor_unbound (fun _ _ _ => Nat.le_trans h.trail_le (Nat.le_add_right _ _)) ends

lemma Solves.fits (h : Solves sol b) (unbound : b.value? id = none)
    (eq : value = free.apply (sol.apply u)) (acyclic : id ∉ value.ids) :
    sol.Fits id value where
  unbound := h.unbound id unbound
  settled w hw := by
    rw [eq, mem_ids_free] at hw
    exact h.settled.apply hw
  acyclic := acyclic

lemma Solves.bind (h : Solves sol b) (unbound : b.value? id = none)
    (eq : value = free.apply (sol.apply u)) (acyclic : id ∉ value.ids) :
    Solves (sol.assign id value) (b.bind id u) where
  unbound v hv := by
    rw [value?_bind] at hv
    have other : v ≠ id := fun eq => by simp [eq] at hv
    rw [if_neg other] at hv
    rw [assign, h.unbound v hv]
    exact single_of_ne value other
  bound v w hv := by
    rw [value?_bind] at hv
    rw [assign_apply]
    by_cases same : v = id
    · rw [if_pos same] at hv
      cases hv
      rw [eq, mem_ids_free] at acyclic
      rw [same, (h.fits unbound eq (eq ▸ mem_ids_free.not.2 acyclic)).assign_self, eq,
        single_apply_of_notMem acyclic]
    · rw [if_neg same] at hv
      rw [assign, h.bound v w hv]
  settled := h.settled.assign (h.fits unbound eq acyclic)

section Resolving

variable {r : Term} {n : Nat}

lemma resolve?_leaf (walked : b.walk t = r) (leaf : r.isStructure = false) (n : Nat) :
    b.resolve? (n + 1) t = some r := by
  rw [resolve?, walked]
  cases r with
  | compound | cell => cases leaf
  | atom | number | var => rfl

lemma resolve?_compound {f : String} {args rs : List Term} (walked : b.walk t = .compound f args)
    (resolved : b.resolveAll? n args = some rs) : b.resolve? (n + 1) t = some (.compound f rs) := by
  rw [resolve?, walked]
  simp [resolved]

lemma resolve?_cell {x y v : Term} (walked : b.walk t = .cell x y)
    (head : b.resolve? n x = some u) (tail : b.resolve? n y = some v) :
    b.resolve? (n + 1) t = some (.cell u v) := by
  rw [resolve?, walked]
  simp [head, tail]

lemma resolveAll?_cons {ts rs : List Term} (first : b.resolve? n t = some r)
    (rest : b.resolveAll? n ts = some rs) : b.resolveAll? (n + 1) (t :: ts) = some (r :: rs) := by
  rw [resolveAll?, first, rest]
  rfl

lemma of_succ_le {p : Nat → Prop} {k : Nat} (h : ∀ n, k ≤ n → p (n + 1)) (n : Nat)
    (le : k + 1 ≤ n) : p n := by
  obtain ⟨n, rfl⟩ := Nat.exists_eq_add_of_le' (Nat.le_of_add_left_le le)
  exact h n (Nat.le_of_add_le_add_right le)

lemma resolve?_induct {P : Nat → Term → Term → Prop} {Q : Nat → List Term → List Term → Prop}
    (leaf : ∀ {n t r}, b.walk t = r → r.isStructure = false → P (n + 1) t r)
    (compound : ∀ {n t f args rs}, b.walk t = .compound f args → Q n args rs →
      P (n + 1) t (.compound f rs))
    (cell : ∀ {n t x y u v}, b.walk t = .cell x y → P n x u → P n y v → P (n + 1) t (.cell u v))
    (nil : ∀ {n}, Q (n + 1) [] [])
    (cons : ∀ {n t r ts rs}, P n t r → Q n ts rs → Q (n + 1) (t :: ts) (r :: rs)) (n : Nat) :
    (∀ {t r}, b.resolve? n t = some r → P n t r) ∧
      ∀ {ts rs}, b.resolveAll? n ts = some rs → Q n ts rs := by
  induction n with
  | zero => exact ⟨nofun, nofun⟩
  | succ n ih =>
    obtain ⟨one, all⟩ := ih
    refine ⟨fun {t r} run => ?_, fun {ts rs} run => ?_⟩
    · rw [resolve?] at run
      cases walked : b.walk t with
      | compound f args =>
        rw [walked] at run
        obtain ⟨rs, resolved, eq⟩ := bind_eq_some_iff.1 run
        cases eq
        exact compound walked (all resolved)
      | cell x y =>
        rw [walked] at run
        obtain ⟨u, head, run⟩ := bind_eq_some_iff.1 run
        obtain ⟨v, tail, eq⟩ := bind_eq_some_iff.1 run
        cases eq
        exact cell walked (one head) (one tail)
      | atom | number | var =>
        rw [walked] at run
        cases run
        exact leaf walked rfl
    · cases ts with
      | nil =>
        cases run
        exact nil
      | cons t ts =>
        rw [resolveAll?] at run
        obtain ⟨u, first, run⟩ := bind_eq_some_iff.1 run
        obtain ⟨us, rest, eq⟩ := bind_eq_some_iff.1 run
        cases eq
        exact cons (one first) (all rest)

end Resolving

def Resolvable (sol : Subst) (b : Bindings) (t : Term) : Prop :=
  ∃ N, ∀ n, N ≤ n → ∃ r, b.resolve? n t = some r ∧ free.apply r = free.apply (sol.apply t)

lemma resolvable_all {ts : List Term} (h : ∀ t ∈ ts, Resolvable sol b t) :
    ∃ N, ∀ n, N ≤ n → ∃ rs, b.resolveAll? n ts = some rs ∧
      rs.map free.apply = ts.map fun t => free.apply (sol.apply t) := by
  induction ts with
  | nil =>
    refine ⟨1, fun n le => ⟨[], ?_, rfl⟩⟩
    obtain ⟨n, rfl⟩ := Nat.exists_eq_add_of_le' le
    rfl
  | cons t ts ih =>
    obtain ⟨first, others⟩ := forall_mem_cons.1 h
    obtain ⟨N, first⟩ := first
    obtain ⟨M, others⟩ := ih others
    refine ⟨max N M + 1, fun n le => ?_⟩
    obtain ⟨n, rfl⟩ := Nat.exists_eq_add_of_le' le
    obtain ⟨r, resolved, value⟩ := first (n + max N M) (by omega)
    obtain ⟨rs, resolved', values⟩ := others (n + max N M) (by omega)
    refine ⟨r :: rs, ?_, by rw [map_cons, map_cons, value, values]⟩
    rw [← Nat.add_assoc, resolveAll?, resolved, resolved']
    rfl

lemma Solves.resolvable (h : Solves sol b)
    (ends : ∀ t name v, b.walk t = .var name v → b.value? v = none) (t : Term) :
    Resolvable sol b t := by
  -- The recursion goes down the value in full, which is finite whatever the store.
  induction size : (sol.apply t).size using Nat.strongRecOn generalizing t with
  | ind k ih =>
    have walked := h.walk t
    have leaf (value : free.apply (b.walk t) = sol.apply (b.walk t))
        (resolved : ∀ n, b.resolve? (n + 1) t = some (b.walk t)) : Resolvable sol b t := by
      refine ⟨1, fun n le => ⟨b.walk t, ?_, ?_⟩⟩
      · obtain ⟨n, rfl⟩ := Nat.exists_eq_add_of_le' le
        exact resolved n
      · rw [← walked, ← value, free_apply_free]
    cases top : b.walk t with
    | atom | number => exact leaf (by rw [top]; rfl) fun n => by rw [resolve?, top]
    | var name v =>
      have unbound := ends t name v top
      exact leaf (by rw [top]; exact (h.unbound v unbound).symm) fun n => by rw [resolve?, top]
    | compound f args =>
      rw [top, apply_compound] at walked
      have each : ∀ a ∈ args, Resolvable sol b a := by
        intro a ha
        have smaller := Term.size_le_sizeAll (mem_map_of_mem ha : sol.apply a ∈ _)
        rw [← walked, Term.size] at size
        exact ih _ (by omega) a rfl
      obtain ⟨N, each⟩ := resolvable_all each
      refine ⟨N + 1, fun n le => ?_⟩
      obtain ⟨n, rfl⟩ := Nat.exists_eq_add_of_le' le
      obtain ⟨rs, resolved, values⟩ := each (n + N) (by omega)
      refine ⟨.compound f rs, ?_, ?_⟩
      · rw [← Nat.add_assoc, resolve?, top]
        simp only [resolved]
        rfl
      · rw [← walked, Subst.apply_compound, Subst.apply_compound, values, List.map_map]
        rfl
    | cell x y =>
      rw [top, apply_cell] at walked
      rw [← walked, Term.size] at size
      obtain ⟨N, left⟩ := ih _ (by omega) x rfl
      obtain ⟨M, right⟩ := ih _ (by omega) y rfl
      refine ⟨max N M + 1, fun n le => ?_⟩
      obtain ⟨n, rfl⟩ := Nat.exists_eq_add_of_le' le
      obtain ⟨r, resolved, value⟩ := left (n + max N M) (by omega)
      obtain ⟨r', resolved', value'⟩ := right (n + max N M) (by omega)
      refine ⟨.cell r r', ?_, ?_⟩
      · rw [← Nat.add_assoc, resolve?, top]
        simp only [resolved, resolved']
        rfl
      · rw [← walked, apply_cell, apply_cell, value, value']

lemma Sound.resolvable (sound : b.Sound) (h : Solves sol b) (t : Term) : Resolvable sol b t :=
  h.resolvable (fun _ _ _ top => sound.walk_unbound top) t

end Bindings

end Horn
