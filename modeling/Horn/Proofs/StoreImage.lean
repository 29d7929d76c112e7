import Horn.Proofs.StoreValues
import Mathlib.Data.List.Forall2

/-!
# Stores that show a state of the search

A store shows a state of the search if each variable of the search has a variable in the store and
the values are the same, read in full. The store may have more variables than the search.
-/

namespace Horn

open Subst Bindings

def Subst.moved (place : Nat → Nat) : Subst := fun v => Subst.free (place v)

lemma Subst.free_moved (place : Nat → Nat) (t : Term) :
    free.apply ((moved place).apply t) = (moved place).apply t := by
  rw [apply_apply]
  rfl

namespace Search

open Subst (free moved)

structure Image where
  state : State
  store : Bindings
  sol : Subst
  place : Nat → Nat
  sound : store.Sound
  solves : Bindings.Solves sol store
  injective : place.Injective
  room : ∀ v < state.next, place v < store.values.size
  idle : ∀ v, state.next ≤ v → state.subst v = free v
  closed : ∀ v < state.next, ∀ w ∈ (state.subst v).ids, w < state.next
  settled : state.subst.Settled
  shown : ∀ v < state.next, free.apply (sol (place v)) = (moved place).apply (state.subst v)

namespace Image

variable {i j k : Image} {u t : Term}

/-- A term over the store has the value of a term of the search. -/
structure Shows (i : Image) (u t : Term) : Prop where
  below : ∀ v ∈ t.ids, v < i.state.next
  value : free.apply (i.sol.apply u) = (moved i.place).apply (i.state.subst.apply t)

structure Before (i j : Image) : Prop where
  store : i.store.Later j.store
  next : i.state.next ≤ j.state.next
  place : ∀ v < i.state.next, j.place v = i.place v
  subst : j.state.subst.Absorbs i.state.subst
  sol : j.sol.Absorbs i.sol

lemma Before.refl (i : Image) : i.Before i :=
  ⟨i.sound.later, Nat.le_refl _, fun _ _ => rfl, i.settled.absorbs, i.solves.settled.absorbs⟩

lemma Before.trans (h : i.Before j) (h' : j.Before k) : i.Before k where
  store := h.store.trans h'.store
  next := Nat.le_trans h.next h'.next
  place v hv := (h'.place v (Nat.lt_of_lt_of_le hv h.next)).trans (h.place v hv)
  subst := h.subst.trans h'.subst
  sol := h.sol.trans h'.sol

lemma apply_below (h : ∀ v ∈ t.ids, v < i.state.next) :
    ∀ w ∈ (i.state.subst.apply t).ids, w < i.state.next := by
  intro w hw
  obtain ⟨v, hv, hw⟩ := mem_ids_apply.1 hw
  exact i.closed v (h v hv) w hw

lemma moved_congr (h : i.Before j) (below : ∀ v ∈ t.ids, v < i.state.next) :
    (moved j.place).apply t = (moved i.place).apply t :=
  apply_eq_apply.2 fun v hv => congrArg free (h.place v (below v hv))

lemma shows_moved (below : ∀ v ∈ t.ids, v < i.state.next)
    (eq : free.apply u = (moved i.place).apply t) : i.Shows u t := by
  refine ⟨below, ?_⟩
  rw [← apply_free (σ := i.sol), eq, apply_apply, apply_apply, apply_apply]
  exact apply_eq_apply.2 fun v hv => i.shown v (below v hv)

lemma Shows.mono (h : i.Shows u t) (before : i.Before j) : j.Shows u t where
  below v hv := Nat.lt_of_lt_of_le (h.below v hv) before.next
  value := by
    have below := apply_below h.below
    have known : free.apply (i.sol.apply u) = (moved j.place).apply (i.state.subst.apply t) := by
      rw [h.value, moved_congr before below]
    have shown := (shows_moved (fun v hv => Nat.lt_of_lt_of_le (below v hv) before.next) known).value
    rw [before.sol.apply] at shown
    rw [shown, ← apply_free (σ := moved j.place), before.subst.apply, apply_free]

def restore (i : Image) (b : Bindings) (h : i.store.Later b) : Image :=
  have restored := h.undo i.sound
  { i with
    store := b.undo i.store.mark
    sound := (restored.later i.sound).sound
    solves := by
      refine ⟨fun id hid => ?_, fun id w hid => ?_, i.solves.settled⟩
      · exact i.solves.unbound id (by rwa [restored.value] at hid)
      · exact i.solves.bound id w (by rwa [restored.value] at hid)
    room := fun v hv => Nat.lt_of_lt_of_le (i.room v hv) restored.room }

lemma before_restore {b : Bindings} (h : i.store.Later b) : i.Before (i.restore b h) where
  store := (h.undo i.sound).later i.sound
  next := Nat.le_refl _
  place _ _ := rfl
  subst := i.settled.absorbs
  sol := i.solves.settled.absorbs

def reservePlace (i : Image) : Nat → Nat := fun v =>
  if v < i.state.next then i.place v else i.store.values.size + (v - i.state.next)

lemma reservePlace_injective (i : Image) : i.reservePlace.Injective := by
  intro v w eq
  unfold reservePlace at eq
  split at eq <;> split at eq
  · exact i.injective eq
  · have := i.room v ‹_›
    omega
  · have := i.room w ‹_›
    omega
  · omega

lemma reservePlace_lt (i : Image) {count v : Nat} (hv : v < i.state.next + count) :
    i.reservePlace v < (i.store.reserve count).2.values.size := by
  rw [size_reserve, reservePlace]
  split
  · have := i.room v ‹_›
    omega
  · omega

lemma moved_reserve (below : ∀ v ∈ t.ids, v < i.state.next) :
    (moved i.reservePlace).apply t = (moved i.place).apply t :=
  apply_eq_apply.2 fun v hv => congrArg free (if_pos (below v hv))

lemma value?_of_le {b : Bindings} {id : Nat} (h : b.values.size ≤ id) : b.value? id = none := by
  rw [value?, Array.getElem?_eq_none h]
  rfl

def reserve (i : Image) (count : Nat) : Image where
  state := ⟨i.state.subst, i.state.next + count⟩
  store := (i.store.reserve count).2
  sol := i.sol
  place := i.reservePlace
  sound := (i.sound.reserve count).sound
  solves := by
    refine ⟨fun id hid => ?_, fun id w hid => ?_, i.solves.settled⟩
    · exact i.solves.unbound id (by rwa [value?_reserve] at hid)
    · exact i.solves.bound id w (by rwa [value?_reserve] at hid)
  injective := i.reservePlace_injective
  room _ hv := i.reservePlace_lt hv
  idle v hv := i.idle v (Nat.le_trans (Nat.le_add_right _ _) hv)
  closed v hv w hw := by
    by_cases old : v < i.state.next
    · exact Nat.lt_of_lt_of_le (i.closed v old w hw) (Nat.le_add_right _ _)
    · rw [i.idle v (Nat.le_of_not_lt old)] at hw
      rw [Term.mem_ids_var.1 hw]
      exact hv
  settled := i.settled
  shown v hv := by
    by_cases old : v < i.state.next
    · rw [moved_reserve (i.closed v old), ← i.shown v old, reservePlace, if_pos old]
    · rw [i.idle v (Nat.le_of_not_lt old), i.solves.unbound]
      · rfl
      · rw [reservePlace, if_neg old]
        exact value?_of_le (Nat.le_add_right _ _)

lemma before_reserve (i : Image) (count : Nat) : i.Before (i.reserve count) where
  store := i.sound.reserve count
  next := Nat.le_add_right _ _
  place _ hv := if_pos hv
  subst := i.settled.absorbs
  sol := i.solves.settled.absorbs

structure Assigns (i : Image) (x : Nat) (u t : Term) : Prop where
  inside : x < i.state.next
  unbound : i.store.value? (i.place x) = none
  fits : i.state.subst.Fits x t
  below : ∀ v ∈ t.ids, v < i.state.next
  value : free.apply (i.sol.apply u) = (moved i.place).apply t
  ends : ∀ name v, u = .var name v → i.store.value? v = none

variable {x : Nat}

lemma Assigns.acyclic (h : i.Assigns x u t) : i.place x ∉ ((moved i.place).apply t).ids := by
  intro hx
  obtain ⟨v, hv, hx⟩ := mem_ids_apply.1 hx
  rw [i.injective (Term.mem_ids_var.1 hx)] at h
  exact h.fits.acyclic hv

lemma Assigns.ends' (h : i.Assigns x u t) (name : String) (v : Nat) (eq : u = .var name v) :
    v ≠ i.place x ∧ i.store.value? v = none := by
  refine ⟨fun same => h.acyclic ?_, h.ends name v eq⟩
  rw [← h.value, eq, apply_var, i.solves.unbound v (h.ends name v eq), same]
  exact Term.mem_ids_var.2 rfl

def bind (i : Image) (x : Nat) (u t : Term) (h : i.Assigns x u t) : Image where
  state := ⟨i.state.subst.assign x t, i.state.next⟩
  store := i.store.bind (i.place x) u
  sol := i.sol.assign (i.place x) ((moved i.place).apply t)
  place := i.place
  sound := (i.sound.bind h.unbound h.ends').sound
  solves := i.solves.bind h.unbound h.value.symm h.acyclic
  injective := i.injective
  room v hv := Nat.lt_of_lt_of_le (i.room v hv) (i.sound.bind h.unbound h.ends').room
  idle v hv := by
    have other : v ≠ x := fun eq => Nat.not_lt_of_le hv (eq ▸ h.inside)
    change (single x t).apply (i.state.subst v) = free v
    rw [i.idle v hv]
    exact single_of_ne t other
  closed v hv w hw := by
    obtain ⟨y, hy, hw⟩ := mem_ids_apply.1 hw
    by_cases eq : y = x
    · rw [eq, single_self] at hw
      exact h.below w hw
    · rw [single_of_ne t eq] at hw
      rw [Term.mem_ids_var.1 hw]
      exact i.closed v hv y hy
  settled := i.settled.assign h.fits
  shown v hv := by
    have single (w : Nat) : free.apply (single (i.place x) ((moved i.place).apply t)
        (i.place w)) = (moved i.place).apply (single x t w) := by
      by_cases eq : w = x
      · rw [eq, single_self, single_self, free_moved]
      · rw [single_of_ne _ eq, single_of_ne _ fun same => eq (i.injective same)]
        rfl
    change free.apply ((Subst.single (i.place x) _).apply (i.sol (i.place v))) =
      (moved i.place).apply ((Subst.single x t).apply (i.state.subst v))
    rw [← apply_free (i.sol (i.place v)), i.shown v hv, apply_apply, apply_apply,
      apply_apply]
    exact apply_eq_apply.2 fun w _ => single w

lemma before_bind (h : i.Assigns x u t) : i.Before (i.bind x u t h) where
  store := i.sound.bind h.unbound h.ends'
  next := Nat.le_refl _
  place _ _ := rfl
  subst := i.settled.absorbs_assign
  sol := i.solves.settled.absorbs_assign

end Image

end Search

end Horn
