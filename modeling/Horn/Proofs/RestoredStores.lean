import Horn.Proofs.BoundedRuns

/-!
# Restored stores

Undoing to a mark leads back to the values of that moment: a store only ever binds variables that
are not bound, so its trail has each bound variable once.
-/

namespace Horn

open List

namespace Bindings

/-- What a store is asked for. Unification and copying may be given up when their fuel is spent. -/
inductive Request where
  | reserve (count : Nat)
  | fresh
  | copy (fuel : Nat) (t : Term)
  | unify (fuel : Nat) (s t : Term)
  | undo (mark : Nat)
  deriving DecidableEq, Repr

def serve (b : Bindings) : Request → Bindings
  | .reserve count => (b.reserve count).2
  | .fresh => b.fresh.2
  | .copy fuel t => (b.copy fuel t).2
  | .unify fuel s t => (unify fuel s t b).2
  | .undo mark => b.undo mark

def serveAll (b : Bindings) (requests : List Request) : Bindings := requests.foldl serve b

variable {b b' : Bindings}

lemma sound_empty : empty.Sound where
  bound _ := by simp [empty, value?]
  once := .nil
  order _ _ _ value := by simp [empty, value?] at value

lemma Later.serve (h : b.Later b') (r : Request) (ahead : ∀ k, r = .undo k → b.mark ≤ k) :
    b.Later (b'.serve r) := by
  cases r with
  | reserve count => exact h.trans (h.sound.reserve count)
  | fresh => exact h.trans (h.sound.reserve 1)
  | copy fuel t => exact h.trans (h.sound.copy fuel t)
  | unify fuel s t => exact h.trans (h.sound.unifyPairs fuel [(s, t)])
  | undo k => exact h.undo_of_le (ahead k rfl)

lemma Later.serveAll (h : b.Later b') {requests : List Request}
    (ahead : ∀ k, .undo k ∈ requests → b.mark ≤ k) : b.Later (b'.serveAll requests) := by
  induction requests generalizing b' with
  | nil => exact h
  | cons r rest ih =>
    have first := h.serve r fun k eq => ahead k (eq ▸ mem_cons_self)
    exact ih first fun k hk => ahead k (mem_cons_of_mem _ hk)

lemma sound_serveAll (requests : List Request) : (empty.serveAll requests).Sound :=
  (sound_empty.later.serveAll fun k _ => Nat.zero_le k).sound

lemma Restored.resolve? (h : b.Restored b') (sound : b.Sound) (n : Nat) :
    (∀ t, b'.resolve? n t = b.resolve? n t) ∧ ∀ ts, b'.resolveAll? n ts = b.resolveAll? n ts := by
  induction n with
  | zero => exact ⟨fun _ => rfl, fun _ => rfl⟩
  | succ n ih =>
    refine ⟨fun t => ?_, fun ts => ?_⟩
    · rw [Bindings.resolve?, Bindings.resolve?, h.walk sound]
      cases b.walk t with
      | compound f args => simp only [ih.2]
      | cell x y => simp only [ih.1]
      | _ => rfl
    · cases ts with
      | nil => rfl
      | cons t ts => simp only [resolveAll?, ih]

lemma undoTimes_add (m n : Nat) (b : Bindings) :
    undoTimes (m + n) b = undoTimes n (undoTimes m b) := by
  induction m generalizing b with
  | zero => rw [Nat.zero_add, undoTimes]
  | succ m ih => rw [Nat.succ_add, undoTimes, undoTimes, ih]

lemma undo_undo (b : Bindings) (m k : Nat) : (b.undo m).undo k = b.undo (min m k) := by
  unfold undo
  rw [trail_undoTimes, ← undoTimes_add]
  congr 1
  omega

lemma undo_all {m : Nat} {marks : List Nat} (outermost : ∀ k ∈ marks, m ≤ k) {order : List Nat}
    (all : order.Perm (m :: marks)) (b : Bindings) : order.foldl undo b = b.undo m := by
  have swap (b : Bindings) (k l : Nat) : (b.undo k).undo l = (b.undo l).undo k := by
    rw [undo_undo, undo_undo, Nat.min_comm]
  have sorted : order.foldl undo b = (m :: marks).foldl undo b :=
    all.foldl_eq' (fun k _ l _ b => swap b k l) b
  rw [sorted, foldl_cons]
  clear sorted all
  induction marks with
  | nil => rfl
  | cons k marks ih =>
    obtain ⟨first, others⟩ := forall_mem_cons.1 outermost
    rw [foldl_cons, undo_undo, Nat.min_eq_left first]
    exact ih others

/-- A store `b` that any requests have led to is marked, and more requests are made of it, none of
which goes back behind the mark. Undoing to the mark gives every variable of `b` the value it had
and leaves all later ones unbound, and terms are walked and resolved as they were. The trail has
the bound variables, each once, and of nested marks only the outermost counts. -/
theorem undo_restores (before after : List Request)
    (ahead : ∀ k, .undo k ∈ after → (empty.serveAll before).mark ≤ k) :
    let b := empty.serveAll before
    let b' := b.serveAll after
    let restored := b'.undo b.mark
    (∀ id < b.values.size, restored.value? id = b.value? id) ∧
      (∀ id, b.values.size ≤ id → restored.value? id = none) ∧
      (∀ t, restored.walk t = b.walk t) ∧
      (∀ fuel t, restored.resolve? fuel t = b.resolve? fuel t) ∧
      (b'.trail.toList.Nodup ∧ ∀ id, id ∈ b'.trail.toList ↔ (b'.value? id).isSome) ∧
      ∀ marks order : List Nat, (∀ k ∈ marks, b.mark ≤ k) → order.Perm (b.mark :: marks) →
        order.foldl undo b' = restored := by
  intro b b' restored
  have sound : b.Sound := sound_serveAll before
  have later : b.Later b' := sound.later.serveAll ahead
  have back : b.Restored restored := later.undo sound
  refine ⟨fun id _ => back.value id, fun id out => ?_, back.walk sound,
    fun fuel => (back.resolve? sound fuel).1, ⟨later.sound.once, later.sound.bound⟩,
    fun marks order outermost all => undo_all outermost all b'⟩
  rw [back.value, value?, Array.getElem?_eq_none out]
  rfl

/-- A unification that fails leaves a variable bound, and variables are added after the mark. -/
theorem undo_restores_failed :
    let x := varOf 0
    let y := varOf 1
    let b := empty.serveAll [.reserve 2, .unify 3 x (.atom "a")]
    let b' := b.serveAll [.fresh,
      .unify 5 (.compound "f" [y, .atom "b"]) (.compound "f" [.cell x x, .atom "c"]), .copy 3 y]
    b'.value? 1 = some (.cell x x) ∧ (b'.undo b.mark).value? 1 = b.value? 1 ∧
      ∀ t, (b'.undo b.mark).walk t = b.walk t := by
  have restores := undo_restores [.reserve 2, .unify 3 (varOf 0) (.atom "a")]
    [.fresh, .unify 5 (.compound "f" [varOf 1, .atom "b"])
      (.compound "f" [.cell (varOf 0) (varOf 0), .atom "c"]), .copy 3 (varOf 1)] (by simp)
  exact ⟨rfl, restores.1 1 (by decide), restores.2.2.1⟩

end Bindings

end Horn
