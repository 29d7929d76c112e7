import Horn.Proofs.PairedActions

/-!
# Stores that differ in their variables

Two stores match under a link if linked variables have alike values and were bound in the same
order. A link is never made smaller: after bindings have been taken back, variables that were linked
in the meantime are still linked.
-/

namespace Horn

open List Bindings
open Term (Alike)

namespace Bindings

variable {b b' : Bindings}

lemma walkFor_stays (n : Nat) {t : Term} (h : ∀ name v, t = .var name v → b.value? v = none) :
    b.walkFor n t = t := by
  cases n with
  | zero => rfl
  | succ n =>
    cases t with
    | var name v => rw [walkFor, h name v rfl]
    | _ => rfl

lemma walkFor_add (b : Bindings) (m n : Nat) (t : Term) :
    b.walkFor (m + n) t = b.walkFor n (b.walkFor m t) := by
  induction m generalizing t with
  | zero => rw [Nat.zero_add, walkFor]
  | succ m ih =>
    rw [Nat.succ_add]
    cases t with
    | var name v =>
      simp only [walkFor]
      cases value : b.value? v with
      | some u => exact ih u
      | none =>
        refine (walkFor_stays n fun name' w eq => ?_).symm
        cases eq
        exact value
    | _ => exact (walkFor_stays n fun _ _ eq => by cases eq).symm

lemma Sound.walkFor_eq (h : b.Sound) {n : Nat} (enough : b.values.size ≤ n) (t : Term) :
    b.walkFor n t = b.walk t := by
  obtain ⟨k, rfl⟩ := Nat.exists_eq_add_of_le enough
  rw [walkFor_add]
  exact walkFor_stays k fun _ _ top => h.walk_unbound top

lemma Restored.walk (h : b.Restored b') (sound : b.Sound) (t : Term) : b'.walk t = b.walk t := by
  have same (n : Nat) (t : Term) : b'.walkFor n t = b.walkFor n t := by
    induction n generalizing t with
    | zero => rfl
    | succ n ih =>
      cases t with
      | var name v =>
        simp only [walkFor, h.value]
        cases b.value? v with
        | none => rfl
        | some u => exact ih u
      | _ => rfl
  rw [← sound.walkFor_eq h.room, ← same]
  rfl

lemma Restored.refl (b : Bindings) : b.Restored b := ⟨rfl, fun _ => rfl, Nat.le_refl _⟩

lemma Restored.trans {b'' : Bindings} (h : b.Restored b') (h' : b'.Restored b'') :
    b.Restored b'' :=
  ⟨h'.trail.trans h.trail, fun id => (h'.value id).trans (h.value id), Nat.le_trans h.room h'.room⟩

lemma restored_reserve (b : Bindings) (count : Nat) : b.Restored (b.reserve count).2 :=
  ⟨rfl, value?_reserve b count, by rw [size_reserve]; exact Nat.le_add_right _ _⟩

lemma Sound.size_undo (h : b.Sound) (mark : Nat) :
    (b.undo mark).values.size = b.values.size :=
  (h.undoTimes _).2.2.1

end Bindings

/-- The stores of two runs, and which variables stand for which. -/
structure Duo where
  left : Bindings
  right : Bindings
  link : Link
  leftSound : left.Sound
  rightSound : right.Sound
  ordered : link.Ordered
  below : ∀ {i i' : Nat}, link i i' → i < left.values.size ∧ i' < right.values.size

namespace Duo

variable {d e f : Duo} {t t' : Term}

/-- Linked variables have alike values and were bound in the same order. -/
structure Matched (d : Duo) : Prop where
  trail : List.Forall₂ d.link d.left.trail.toList d.right.trail.toList
  value : ∀ {i i' : Nat}, d.link i i' →
    Option.Rel (Alike d.link) (d.left.value? i) (d.right.value? i')

structure Before (d e : Duo) : Prop where
  left : d.left.Later e.left
  right : d.right.Later e.right
  kept : d.link.Within e.link
  new : ∀ {i i' : Nat}, e.link i i' →
    d.link i i' ∨ d.left.values.size ≤ i ∧ d.right.values.size ≤ i'

lemma Before.refl (d : Duo) : d.Before d :=
  ⟨d.leftSound.later, d.rightSound.later, Link.Within.refl _, .inl⟩

lemma Before.trans (h : d.Before e) (h' : e.Before f) : d.Before f where
  left := h.left.trans h'.left
  right := h.right.trans h'.right
  kept := h.kept.trans h'.kept
  new linked := by
    rcases h'.new linked with old | ⟨left, right⟩
    · exact h.new old
    · exact .inr ⟨Nat.le_trans h.left.room left, Nat.le_trans h.right.room right⟩

section Stores

variable {b b' : Bindings}

def Before.stores (_ : d.Before e) (left : d.left.Later b) (right : d.right.Later b')
    (room : e.left.values.size ≤ b.values.size) (room' : e.right.values.size ≤ b'.values.size) :
    Duo where
  left := b
  right := b'
  link := e.link
  leftSound := left.sound
  rightSound := right.sound
  ordered := e.ordered
  below linked := by
    have inside := e.below linked
    omega

lemma Before.before_stores (h : d.Before e) (left : d.left.Later b) (right : d.right.Later b')
    (room : e.left.values.size ≤ b.values.size) (room' : e.right.values.size ≤ b'.values.size) :
    d.Before (h.stores left right room room') :=
  ⟨left, right, h.kept, h.new⟩

lemma Before.matched_stores (h : d.Before e) (matched : d.Matched)
    (left : d.left.Restored b) (right : d.right.Restored b')
    (room : e.left.values.size ≤ b.values.size) (room' : e.right.values.size ≤ b'.values.size) :
    (h.stores (left.later d.leftSound) (right.later d.rightSound) room room').Matched where
  trail := by
    change Forall₂ e.link b.trail.toList b'.trail.toList
    rw [left.trail, right.trail]
    exact matched.trail.imp fun _ _ linked => h.kept linked
  value {i i'} linked := by
    change Option.Rel (Alike e.link) (b.value? i) (b'.value? i')
    rw [left.value, right.value]
    rcases h.new linked with old | ⟨above, above'⟩
    · have value := matched.value old
      generalize d.left.value? i = v, d.right.value? i' = v' at value
      cases value with
      | none => exact .none
      | some alike => exact .some (alike.mono h.kept)
    · rw [Search.Image.value?_of_le above, Search.Image.value?_of_le above']
      exact .none

def Before.restore (h : d.Before e) : Duo :=
  h.stores ((h.left.undo d.leftSound).later d.leftSound)
    ((h.right.undo d.rightSound).later d.rightSound)
    (by rw [h.left.sound.size_undo]) (by rw [h.right.sound.size_undo])

lemma Before.before_restore (h : d.Before e) : d.Before h.restore := h.before_stores _ _ _ _

lemma Before.matched_restore (h : d.Before e) (matched : d.Matched) : h.restore.Matched :=
  h.matched_stores matched (h.left.undo d.leftSound) (h.right.undo d.rightSound) _ _

end Stores

section Room

def reserve (d : Duo) (count : Nat) : Duo where
  left := (d.left.reserve count).2
  right := (d.right.reserve count).2
  link i i' := d.link i i' ∨
    ∃ k < count, i = d.left.values.size + k ∧ i' = d.right.values.size + k
  leftSound := (d.leftSound.reserve count).sound
  rightSound := (d.rightSound.reserve count).sound
  ordered {i i' j j'} hi hj := by
    rcases hi with hi | ⟨k, _, rfl, rfl⟩ <;> rcases hj with hj | ⟨l, _, rfl, rfl⟩
    · exact d.ordered hi hj
    · have := d.below hi
      omega
    · have := d.below hj
      omega
    · omega
  below {i i'} linked := by
    rw [Bindings.size_reserve, Bindings.size_reserve]
    rcases linked with old | ⟨k, _, rfl, rfl⟩
    · have := d.below old
      omega
    · omega

lemma before_reserve (d : Duo) (count : Nat) : d.Before (d.reserve count) where
  left := d.leftSound.reserve count
  right := d.rightSound.reserve count
  kept _ _ := .inl
  new linked := linked.imp_right fun ⟨k, _, hi, hi'⟩ => by omega

lemma Matched.reserve (h : d.Matched) (count : Nat) : (d.reserve count).Matched := by
  have before := d.before_reserve count
  exact before.matched_stores h (d.left.restored_reserve count) (d.right.restored_reserve count)
    (Nat.le_refl _) (Nat.le_refl _)

end Room

lemma Matched.walk (h : d.Matched) (alike : Alike d.link t t') :
    Alike d.link (d.left.walk t) (d.right.walk t') := by
  have follow (n : Nat) {t t' : Term} (alike : Alike d.link t t') :
      Alike d.link (d.left.walkFor n t) (d.right.walkFor n t') := by
    induction n generalizing t t' with
    | zero => exact alike
    | succ n ih =>
      have whole := alike
      cases alike with
      | @var name name' i i' linked names =>
        have value := h.value linked
        simp only [walkFor]
        generalize d.left.value? i = v, d.right.value? i' = v' at value
        cases value with
        | none => exact whole
        | some alike => exact ih alike
      | _ => exact whole
  have both := follow (max d.left.values.size d.right.values.size) alike
  rwa [d.leftSound.walkFor_eq (Nat.le_max_left _ _), d.rightSound.walkFor_eq (Nat.le_max_right _ _)]
    at both

lemma Matched.assign (h : d.Matched) {i i' : Nat} {u u' : Term} (linked : d.link i i')
    (alike : Alike d.link u u') (left : d.left.Later (d.left.bind i u))
    (right : d.right.Later (d.right.bind i' u')) :
    ((Before.refl d).stores left right left.room right.room).Matched where
  trail := by
    change Forall₂ d.link (d.left.trail.push i).toList (d.right.trail.push i').toList
    rw [Array.toList_push, Array.toList_push]
    exact rel_append h.trail (.cons linked .nil)
  value {j j'} linked' := by
    change Option.Rel (Alike d.link) ((d.left.bind i u).value? j) ((d.right.bind i' u').value? j')
    rw [value?_bind, value?_bind]
    simp only [d.ordered.eq_iff linked' linked]
    split
    · exact .some alike
    · exact h.value linked'

def coupling : Coupling {d : Duo // d.Matched} where
  Stores d b b' := b = d.1.left ∧ b' = d.1.right
  link d := d.1.link
  Terms d := Alike d.1.link
  like d := Alike.likeness d.1.link
  ordered d := d.1.ordered
  Before d e := d.1.Before e.1
  refl d := .refl d.1
  trans := Before.trans
  kept := Before.kept
  later before alike := alike.mono before.kept
  Spent _ _ := True
  spent _ := trivial
  spent_before _ _ := trivial
  walk {d b b' t t'} stores alike := by
    obtain ⟨rfl, rfl⟩ := stores
    exact d.2.walk alike
  assign {d b b' s s' t t' i i' u u'} stores left right linked alike := by
    obtain ⟨rfl, rfl⟩ := stores
    obtain ⟨unbound, ends⟩ := Bindings.Ordered.assign ⟨_, d.1.leftSound⟩ left
    obtain ⟨unbound', ends'⟩ := Bindings.Ordered.assign ⟨_, d.1.rightSound⟩ right
    have later := d.1.leftSound.bind unbound ends
    have later' := d.1.rightSound.bind unbound' ends'
    exact ⟨⟨_, d.2.assign linked alike later later'⟩,
      (Before.refl d.1).before_stores later later' later.room later'.room, rfl, rfl⟩
  reserve {d b b'} count stores := by
    obtain ⟨rfl, rfl⟩ := stores
    exact ⟨⟨d.1.reserve count, d.2.reserve count⟩, d.1.before_reserve count, ⟨rfl, rfl⟩,
      fun v lt => .inr ⟨v, lt, rfl, rfl⟩⟩
  undo {d e b b' c c'} stores before stores' := by
    obtain ⟨rfl, rfl⟩ := stores
    obtain ⟨rfl, rfl⟩ := stores'
    exact ⟨⟨_, before.matched_restore d.2⟩, before.before_restore, rfl, rfl⟩

lemma Matched.resolve? (h : d.Matched) {n : Nat} {r : Term} (alike : Alike d.link t t')
    (resolved : d.left.resolve? n t = some r) :
    ∃ r', Alike d.link r r' ∧ ∀ m, n ≤ m → d.right.resolve? m t' = some r' :=
  Coupling.resolve? (C := coupling) (d := ⟨d, h⟩) ⟨rfl, rfl⟩ alike resolved

structure Worlds (d : Duo) (w w' : World) : Prop where
  left : w.bindings = d.left
  right : w'.bindings = d.right
  operators : w'.operators = w.operators
  output : Renamed d.link w.output w'.output

lemma worlds_iff {w w' : World} (matched : d.Matched) :
    coupling.Worlds ⟨d, matched⟩ w w' ↔ d.Worlds w w' :=
  ⟨fun h => ⟨h.stores.1, h.stores.2, h.operators, h.output⟩,
    fun h => ⟨⟨h.left, h.right⟩, h.operators, h.output⟩⟩

end Duo

end Horn
