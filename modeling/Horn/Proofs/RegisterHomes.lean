import Horn.Proofs.CodeReading
import Horn.Proofs.EnvironmentLayout
import Horn.Proofs.TermInduction
import Mathlib.Data.List.Forall2

/-!
# Where code keeps its variables

A variable of the clause that has occurred has a name among the variables of the reading, and its
register or slot holds that name. In the head there are also open variables, which stand for a term
that is still to be matched.
-/

namespace Horn.CodeReading

open List Term Option State Layout Lowering
open Bindings (varOf)

variable {x : Nat → Option Term} {q : Option Pending} {ρ : Nat → Nat} {n w : Nat} {l : Layout}

/-- The term `x` is `t`, where a variable of `x` may stand for a whole term. -/
inductive Reads (m : Nat → Term → Prop) : Term → Term → Prop where
  | stands {w : Nat} {t : Term} (h : m w t) : Reads m t (varOf w)
  | atom (a : String) : Reads m (.atom a) (.atom a)
  | number (n : Number) : Reads m (.number n) (.number n)
  | compound {f : String} {ts xs : List Term} (h : List.Forall₂ (Reads m) ts xs) :
      Reads m (.compound f ts) (.build f xs)
  | cell {h t x y : Term} (head : Reads m h x) (tail : Reads m t y) : Reads m (.cell h t) (.cell x y)

lemma forall₂_of_mem {α β γ : Type} {R : α → β → Prop} {S : α → γ → Prop} {f : β → γ}
    {as : List α} {bs : List β} (h : Forall₂ R as bs)
    (step : ∀ a ∈ as, ∀ b, R a b → S a (f b)) : Forall₂ S as (bs.map f) := by
  induction h with
  | nil => exact .nil
  | cons hab _ ih =>
    refine .cons (step _ mem_cons_self _ hab) (ih ?_)
    intro a ha
    exact step a (mem_cons_of_mem _ ha)

namespace Reads

variable {m m' : Nat → Term → Prop} {t x u : Term}

lemma mapVars {g : String → Nat → Term} (h : Reads m t x)
    (stands : ∀ v t', m v t' → Reads m' t' ((varOf v).mapVars g)) : Reads m' t (x.mapVars g) := by
  induction t using induct generalizing x with
  | atom name =>
    cases h with
    | stands hm => exact stands _ _ hm
    | atom => exact .atom name
  | number n =>
    cases h with
    | stands hm => exact stands _ _ hm
    | number => exact .number n
  | var name id =>
    cases h with
    | stands hm => exact stands _ _ hm
  | compound f ts ih =>
    cases h with
    | stands hm => exact stands _ _ hm
    | compound hs =>
      rw [mapVars_build]
      exact .compound (forall₂_of_mem hs fun t ht _ hx => ih t ht hx)
  | cell h t ihh iht =>
    cases h with
    | stands hm => exact stands _ _ hm
    | cell hh ht => exact .cell (ihh hh) (iht ht)

lemma imp (h : Reads m t x) (all : ∀ v t', m v t' → m' v t') : Reads m' t x := by
  rw [← mapVars_var x]
  exact h.mapVars fun v t' hm => .stands (all v t' hm)

lemma bind (h : Reads m t x) (others : ∀ v t', v ≠ w → m v t' → m' v t')
    (here : ∀ t', m w t' → Reads m' t' u) : Reads m' t (substitute w u x) := by
  refine h.mapVars fun v t' hm => ?_
  change Reads m' t' (if v = w then u else varOf v)
  by_cases hv : v = w
  · rw [if_pos hv]
    exact here t' (hv ▸ hm)
  · rw [if_neg hv]
    exact .stands (others v t' hv hm)

lemma eq_rebuilt (h : Reads m t x)
    (named : ∀ w t', m w t' → ∃ name id, t' = .var name id ∧ w = ρ id) : x = t.rebuilt ρ := by
  have stands : ∀ w t', m w t' → varOf w = t'.rebuilt ρ := by
    intro w t' hm
    obtain ⟨name, id, rfl, rfl⟩ := named w t' hm
    rfl
  induction t using induct generalizing x with
  | atom name =>
    cases h with
    | stands hm => exact stands _ _ hm
    | atom => rfl
  | number n =>
    cases h with
    | stands hm => exact stands _ _ hm
    | number => rfl
  | var name id =>
    cases h with
    | stands hm => exact stands _ _ hm
  | compound f ts ih =>
    cases h with
    | stands hm => exact stands _ _ hm
    | @compound _ _ xs hs =>
      have : xs = rebuiltAll ρ ts := by
        clear stands
        induction hs with
        | nil => rfl
        | cons hx _ ihs =>
          rw [rebuiltAll, ih _ mem_cons_self hx,
            ihs fun t ht _ => ih t (mem_cons_of_mem _ ht)]
      rw [rebuilt, this]
  | cell h t ihh iht =>
    cases h with
    | stands hm => exact stands _ _ hm
    | cell hh ht => rw [rebuilt, ← ihh hh, ← iht ht]

end Reads

lemma eq_rebuiltAll {m : Nat → Term → Prop} {ts xs : List Term} (h : Forall₂ (Reads m) ts xs)
    (named : ∀ w t', m w t' → ∃ name id, t' = .var name id ∧ w = ρ id) : xs = rebuiltAll ρ ts := by
  induction h with
  | nil => rfl
  | cons hx _ ih => rw [rebuiltAll, hx.eq_rebuilt named, ih]

structure Names where
  known : List Nat
  var : Nat → Nat

namespace Names

def add (N : Names) (id w : Nat) : Names :=
  ⟨id :: N.known, fun i => if i = id then w else N.var i⟩

def Sub (N N' : Names) : Prop := ∀ id ∈ N.known, id ∈ N'.known ∧ N'.var id = N.var id

lemma Sub.refl (N : Names) : N.Sub N := fun _ h => ⟨h, rfl⟩

lemma Sub.trans {N N' N'' : Names} (h : N.Sub N') (h' : N'.Sub N'') : N.Sub N'' := by
  intro id hid
  obtain ⟨hid', he⟩ := h id hid
  obtain ⟨hid'', he'⟩ := h' id hid'
  exact ⟨hid'', he'.trans he⟩

lemma sub_add {N : Names} {id : Nat} (h : id ∉ N.known) : N.Sub (N.add id w) := by
  intro i hi
  refine ⟨mem_cons_of_mem _ hi, ?_⟩
  have : i ≠ id := fun he => h (he ▸ hi)
  simp [add, this]

end Names

structure Open where
  var : Nat
  term : Term
  reg : Nat

variable {N N' : Names} {Q Q' : List Open} {o : Open}

/-- What a variable of the reading stands for: a term that is still to be matched, or a variable
of the clause. -/
def Stands (N : Names) (Q : List Open) (w : Nat) (t : Term) : Prop :=
  (∃ o ∈ Q, o.var = w ∧ o.term = t) ∨ ∃ name id, t = .var name id ∧ id ∈ N.known ∧ w = N.var id

lemma Stands.imp {t : Term} (h : Stands N Q w t) (names : N.Sub N') (queue : ∀ o ∈ Q, o ∈ Q') :
    Stands N' Q' w t := by
  rcases h with ⟨o, ho, hw, ht⟩ | ⟨name, id, rfl, hid, rfl⟩
  · exact .inl ⟨o, queue o ho, hw, ht⟩
  · obtain ⟨hid', he⟩ := names id hid
    exact .inr ⟨name, id, rfl, hid', he.symm⟩

lemma Reads.widen {t x : Term} (h : Reads (Stands N Q) t x)
    (names : N.Sub N') (queue : ∀ o ∈ Q, o ∈ Q') : Reads (Stands N' Q') t x :=
  h.imp fun _ _ hm => hm.imp names queue

lemma readsAll_widen {ts xs : List Term}
    (h : Forall₂ (Reads (Stands N Q)) ts xs) (names : N.Sub N') (queue : ∀ o ∈ Q, o ∈ Q') :
    Forall₂ (Reads (Stands N' Q')) ts xs :=
  h.imp fun _ _ hx => hx.widen names queue

structure Proper (N : Names) (Q : List Open) (next : Nat) : Prop where
  openBelow : ∀ o ∈ Q, o.var < next
  openOnce : (Q.map Open.var).Nodup
  namedBelow : ∀ id ∈ N.known, N.var id < next
  namedApart : ∀ id ∈ N.known, ∀ o ∈ Q, o.var ≠ N.var id
  namedOnce : ∀ id ∈ N.known, ∀ id' ∈ N.known, N.var id = N.var id' → id = id'

structure Free (N : Names) (Q : List Open) (next w : Nat) : Prop where
  below : w < next
  unnamed : ∀ id ∈ N.known, N.var id ≠ w
  closed : ∀ o ∈ Q, o.var ≠ w

namespace Proper

variable {next : Nat}

lemma more (h : Proper N Q next) (n : Nat) : Proper N Q (next + n) :=
  { h with
    openBelow := fun o ho => Nat.lt_add_right n (h.openBelow o ho)
    namedBelow := fun id hid => Nat.lt_add_right n (h.namedBelow id hid) }

lemma free_next (h : Proper N Q next) : Free N Q (next + 1) next where
  below := Nat.lt_succ_self next
  unnamed := fun id hid => Nat.ne_of_lt (h.namedBelow id hid)
  closed := fun o ho => Nat.ne_of_lt (h.openBelow o ho)

lemma tail (h : Proper N (o :: Q) next) : Proper N Q next :=
  { h with
    openBelow := fun p hp => h.openBelow p (mem_cons_of_mem _ hp)
    openOnce := (nodup_cons.1 h.openOnce).2
    namedApart := fun id hid p hp => h.namedApart id hid p (mem_cons_of_mem _ hp) }

lemma free_head (h : Proper N (o :: Q) next) : Free N Q next o.var := by
  refine ⟨h.openBelow o mem_cons_self, ?_, ?_⟩
  · intro id hid he
    exact h.namedApart id hid o mem_cons_self he.symm
  · intro p hp he
    exact (nodup_cons.1 h.openOnce).1 (mem_map.2 ⟨p, hp, he⟩)

lemma add (h : Proper N Q next) (free : Free N Q next w) (id : Nat) :
    Proper (N.add id w) Q next := by
  refine { h with namedBelow := ?_, namedApart := ?_, namedOnce := ?_ }
  · intro i hi
    by_cases he : i = id
    · simpa [Names.add, he] using free.below
    · simpa [Names.add, he] using h.namedBelow i (mem_of_ne_of_mem he hi)
  · intro i hi o ho
    by_cases he : i = id
    · simpa [Names.add, he] using free.closed o ho
    · simpa [Names.add, he] using h.namedApart i (mem_of_ne_of_mem he hi) o ho
  · intro i hi j hj hij
    by_cases hi' : i = id <;> by_cases hj' : j = id
    · rw [hi', hj']
    · have := free.unnamed j (mem_of_ne_of_mem hj' hj)
      simp [Names.add, hi', hj', this.symm] at hij
    · have := free.unnamed i (mem_of_ne_of_mem hi' hi)
      simp [Names.add, hi', hj', this] at hij
    · simp only [Names.add, hi', hj', if_false] at hij
      exact h.namedOnce i (mem_of_ne_of_mem hi' hi) j (mem_of_ne_of_mem hj' hj) hij

lemma push (h : Proper N Q next) (free : Free N Q next w) (t : Term) (reg : Nat) :
    Proper N (Q ++ [⟨w, t, reg⟩]) next := by
  refine { h with openBelow := ?_, openOnce := ?_, namedApart := ?_ }
  · intro o ho
    rcases mem_append.1 ho with ho | ho
    · exact h.openBelow o ho
    · rw [mem_singleton.1 ho]
      exact free.below
  · rw [map_append, map_singleton, nodup_append]
    refine ⟨h.openOnce, by simp, ?_⟩
    intro v hv u hu
    obtain ⟨o, ho, rfl⟩ := mem_map.1 hv
    rw [mem_singleton.1 hu]
    exact free.closed o ho
  · intro id hid o ho
    rcases mem_append.1 ho with ho | ho
    · exact h.namedApart id hid o ho
    · rw [mem_singleton.1 ho]
      exact (free.unnamed id hid).symm

end Proper

def home? (l : Layout) (r : Registers) (id : Nat) : Option Reg :=
  match l.slot? (.var id) with
  | some y => some (.y y)
  | none => (r.temps.lookup id).map .x

lemma occurrence_eq (l : Layout) (id : Nat) (r : Registers) :
    occurrence l id r =
      match l.slot? (.var id), r.temps.lookup id with
      | some y, _ => ((.y y, !r.seen.contains id), { r with seen := id :: r.seen })
      | none, some x => ((.x x, !r.seen.contains id), { r with seen := id :: r.seen })
      | none, none => ((.x r.nextTemp, !r.seen.contains id),
          { r with
            seen := id :: r.seen
            temps := (id, r.nextTemp) :: r.temps
            nextTemp := r.nextTemp + 1 }) := by
  obtain ⟨temps, next, seen, unsafeVars⟩ := r
  cases hs : l.slot? (.var id) with
  | some y =>
    simp only [occurrence, hs]
    rfl
  | none =>
    simp only [occurrence, hs]
    change (match temps.lookup id with
      | some x => _
      | none => _ : Lowering (Reg × Bool)) _ = _
    cases ht : temps.lookup id <;> rfl

/-- The state `s` of a reading where lowering has given out the registers `r`, the variables have the
names `N`, the variables of `Q` are open and the occurrences `todo` are still to come. Registers up
to `base` hold arguments. -/
structure Inv (l : Layout) (base : Nat) (r : Registers) (N : Names) (Q : List Open)
    (todo : List Nat) (s : State) : Prop where
  proper : Proper N Q s.next
  openHeld : ∀ o ∈ Q, o.reg < r.nextTemp ∧ s.x o.reg = some (varOf o.var)
  seen : ∀ id ∈ r.seen, id ∈ N.known ∧ (home? l r id).isSome
  held : ∀ id ∈ r.seen, id ∈ todo → ∀ reg, home? l r id = some reg →
    s.get reg = some (varOf (N.var id))
  unseen : ∀ id ∈ N.known, id ∉ r.seen → id ∈ l.singletons
  temps : ∀ id x, r.temps.lookup id = some x → id ∈ r.seen ∧ base < x ∧ x < r.nextTemp
  above : base < r.nextTemp
  once : ∀ id ∈ l.singletons, todo.count id ≤ 1 ∧ (id ∈ N.known → id ∉ todo)
  frame : 0 < l.frameSize → s.frame = some l.frameSize

namespace Inv

variable {base : Nat} {r r' : Registers} {todo : List Nat} {s s' : State} {id : Nat}

lemma home_bounds (h : Inv l base r N Q todo s) (hn : home? l r id = some (.x n)) :
    base < n ∧ n < r.nextTemp := by
  unfold home? at hn
  split at hn
  · cases hn
  · obtain ⟨x, hx, he⟩ := map_eq_some_iff.1 hn
    cases he
    exact (h.temps id n hx).2

lemma weaken {todo' : List Nat} (h : Inv l base r N Q todo s)
    (fewer : ∀ id, todo'.count id ≤ todo.count id) : Inv l base r N Q todo' s := by
  have sub : ∀ id, id ∈ todo' → id ∈ todo := by
    intro id hid
    have := fewer id
    have := count_pos_iff.2 hid
    exact count_pos_iff.1 (by omega)
  refine { h with held := ?_, once := ?_ }
  · intro id hs ht
    exact h.held id hs (sub id ht)
  · intro id hid
    obtain ⟨hc, hk⟩ := h.once id hid
    exact ⟨Nat.le_trans (fewer id) hc, fun hn ht => hk hn (sub id ht)⟩

lemma more (h : Inv l base r N Q todo s) (n : Nat) :
    Inv l base r N Q todo { s with next := s.next + n } :=
  { h with proper := h.proper.more n, openHeld := h.openHeld, held := h.held }

lemma tail (h : Inv l base r N (o :: Q) todo s) : Inv l base r N Q todo s :=
  { h with
    proper := h.proper.tail
    openHeld := fun p hp => h.openHeld p (mem_cons_of_mem _ hp) }

lemma once_add (h : Inv l base r N Q (id :: todo) s) :
    ∀ i ∈ l.singletons, todo.count i ≤ 1 ∧ (i ∈ (N.add id w).known → i ∉ todo) := by
  intro i hi
  obtain ⟨count, absent⟩ := h.once i hi
  rw [count_cons] at count
  refine ⟨by omega, ?_⟩
  intro hk ht
  rcases mem_cons.1 hk with rfl | hk
  · have := count_pos_iff.2 ht
    simp at count
    omega
  · exact absent hk (mem_cons_of_mem _ ht)

lemma nameOnce (h : Inv l base r N Q (id :: todo) s) (free : Free N Q s.next w)
    (single : id ∈ l.singletons) : id ∉ N.known ∧ Inv l base r (N.add id w) Q todo s := by
  have fresh : id ∉ N.known := fun hid => (h.once id single).2 hid mem_cons_self
  have sub := Names.sub_add (w := w) fresh
  refine ⟨fresh, { h with
    proper := h.proper.add free id
    seen := ?_
    held := ?_
    unseen := ?_
    once := h.once_add }⟩
  · intro i hi
    exact ⟨(sub i (h.seen i hi).1).1, (h.seen i hi).2⟩
  · intro i hi ht reg hreg
    rw [(sub i (h.seen i hi).1).2]
    exact h.held i hi (mem_cons_of_mem _ ht) reg hreg
  · intro i hi hs
    rcases mem_cons.1 hi with rfl | hi
    · exact single
    · exact h.unseen i hi hs

lemma place (reg : Reg) (h : Inv l base r N Q (id :: todo) s) (free : Free N Q s.next w)
    (fresh : id ∉ N.known) (seen : r'.seen = id :: r.seen) (here : home? l r' id = some reg)
    (put : s'.get reg = some (varOf w))
    (others : ∀ i ∈ r.seen, i ≠ id → ∀ reg, home? l r' i = some reg →
      home? l r i = some reg ∧ s'.get reg = s.get reg)
    (homes : ∀ i ∈ r.seen, (home? l r' i).isSome)
    (temps : ∀ i x, r'.temps.lookup i = some x → i ∈ id :: r.seen ∧ base < x ∧ x < r'.nextTemp)
    (next : r.nextTemp ≤ r'.nextTemp) (low : ∀ n < r.nextTemp, s'.x n = s.x n)
    (same : s'.next = s.next) (frame : s'.frame = s.frame) :
    Inv l base r' (N.add id w) Q todo s' := by
  have sub := Names.sub_add (w := w) fresh
  refine ⟨?_, ?_, ?_, ?_, ?_, ?_, ?_, h.once_add, ?_⟩
  · rw [same]
    exact h.proper.add free id
  · intro o ho
    obtain ⟨hlt, hx⟩ := h.openHeld o ho
    exact ⟨Nat.lt_of_lt_of_le hlt next, (low _ hlt).trans hx⟩
  · rw [seen]
    intro i hi
    rcases mem_cons.1 hi with rfl | hi
    · exact ⟨mem_cons_self, by rw [here]; rfl⟩
    · exact ⟨(sub i (h.seen i hi).1).1, homes i hi⟩
  · rw [seen]
    intro i hi ht reg' hreg
    by_cases he : i = id
    · subst he
      obtain rfl : reg = reg' := some.inj (here.symm.trans hreg)
      simpa [Names.add] using put
    · have hi := mem_of_ne_of_mem he hi
      obtain ⟨hold, hget⟩ := others i hi he reg' hreg
      rw [hget, (sub i (h.seen i hi).1).2]
      exact h.held i hi (mem_cons_of_mem _ ht) reg' hold
  · rw [seen]
    intro i hi hn
    have hne : i ≠ id := fun he => hn (he ▸ mem_cons_self)
    exact h.unseen i (mem_of_ne_of_mem hne hi) fun hs => hn (mem_cons_of_mem _ hs)
  · rw [seen]
    exact temps
  · exact Nat.lt_of_lt_of_le h.above next
  · rw [frame]
    exact h.frame

end Inv

structure Kept (l : Layout) (s s' : State) : Prop where
  frame : s'.frame = s.frame
  atNeck : s'.atNeck = s.atNeck
  finished : s'.finished = s.finished
  goals : s'.goals = s.goals
  level : ∀ y, l.slot? .cutLevel = some y → s.y y = some .level → s'.y y = some .level

structure Onward (l : Layout) (ids : List Nat) (r : Registers) (N : Names) (s : State)
    (r' : Registers) (N' : Names) (s' : State) : Prop extends Kept l s s' where
  names : N.Sub N'
  seen : ∀ id ∈ r'.seen, id ∈ r.seen ∨ id ∈ ids

structure Passes (l : Layout) (ids : List Nat) (r : Registers) (N : Names) (s : State)
    (r' : Registers) (N' : Names) (s' : State) : Prop extends Onward l ids r N s r' N' s' where
  args : s'.args = s.args
  next : r.nextTemp ≤ r'.nextTemp
  temps : ∀ id x, r'.temps.lookup id = some x → r.temps.lookup id = some x ∨ r.nextTemp ≤ x

lemma Kept.reset {s s' : State} (h : Kept l { s with x := x, next := n, pending := q } s')
    (x' : Nat → Option Term) (q' : Option Pending) : Kept l s { s' with x := x', pending := q' } :=
  ⟨h.frame, h.atNeck, h.finished, h.goals, h.level⟩

lemma Kept.trans {s s' s'' : State} (h : Kept l s s') (h' : Kept l s' s'') :
    Kept l s s'' where
  frame := h'.frame.trans h.frame
  atNeck := h'.atNeck.trans h.atNeck
  finished := h'.finished.trans h.finished
  goals := h'.goals.trans h.goals
  level := fun y hy hs => h'.level y hy (h.level y hy hs)

section

variable {ids ids' : List Nat} {r r' r'' : Registers} {N'' : Names} {s s' s'' : State}

lemma Onward.trans (h : Onward l ids r N s r' N' s') (h' : Onward l ids' r' N' s' r'' N'' s'') :
    Onward l (ids ++ ids') r N s r'' N'' s'' where
  toKept := h.toKept.trans h'.toKept
  names := h.names.trans h'.names
  seen := by
    intro id hid
    rcases h'.seen id hid with hid | hid
    · rcases h.seen id hid with hid | hid
      · exact .inl hid
      · exact .inr (mem_append_left _ hid)
    · exact .inr (mem_append_right _ hid)

lemma Onward.weaken (h : Onward l ids r N s r' N' s') (more : ∀ id ∈ ids, id ∈ ids') :
    Onward l ids' r N s r' N' s' :=
  { h with
    seen := by
      intro id hid
      rcases h.seen id hid with hid | hid
      · exact .inl hid
      · exact .inr (more id hid) }

lemma Passes.trans (h : Passes l ids r N s r' N' s') (h' : Passes l ids' r' N' s' r'' N'' s'') :
    Passes l (ids ++ ids') r N s r'' N'' s'' where
  toOnward := h.toOnward.trans h'.toOnward
  args := h'.args.trans h.args
  next := Nat.le_trans h.next h'.next
  temps := by
    intro id x hx
    rcases h'.temps id x hx with hx | hx
    · exact h.temps id x hx
    · exact .inr (Nat.le_trans h.next hx)

lemma Passes.idle (r : Registers) (N : Names) (s : State) (x : Nat → Option Term) (n : Nat)
    (q : Option Pending) : Passes l ids r N s r N { s with x := x, next := n, pending := q } :=
  ⟨⟨⟨rfl, rfl, rfl, rfl, fun _ _ hl => hl⟩, .refl N, fun _ hid => .inl hid⟩, rfl, Nat.le_refl _,
    fun _ _ hx => .inl hx⟩

lemma Passes.reset (h : Passes l ids r N { s with x := x, next := n, pending := q } r' N' s')
    (x' : Nat → Option Term) (q' : Option Pending) :
    Passes l ids r N s r' N' { s' with x := x', pending := q' } :=
  ⟨⟨h.toKept.reset x' q', h.names, h.seen⟩, h.args, h.next, h.temps⟩

lemma Passes.weaken (h : Passes l ids r N s r' N' s') (more : ∀ id ∈ ids, id ∈ ids') :
    Passes l ids' r N s r' N' s' :=
  { h with toOnward := h.toOnward.weaken more }

end

namespace Inv

variable {base : Nat} {r r' : Registers} {todo : List Nat} {s : State} {id : Nat}

lemma again (h : Inv l base r N Q (id :: todo) s) (hs : id ∈ r.seen) :
    ∃ reg, occurrence l id r = ((reg, false), { r with seen := id :: r.seen }) ∧
      id ∈ N.known ∧ s.get reg = some (varOf (N.var id)) ∧
      Inv l base { r with seen := id :: r.seen } N Q todo s ∧
      Passes l [id] r N s { r with seen := id :: r.seen } N s := by
  obtain ⟨known, some⟩ := h.seen id hs
  obtain ⟨reg, hreg⟩ := isSome_iff_exists.1 some
  have sub : ∀ i, i ∈ id :: r.seen → i ∈ r.seen := by
    intro i hi
    rcases mem_cons.1 hi with rfl | hi
    · exact hs
    · exact hi
  refine ⟨reg, ?_, known, h.held id hs mem_cons_self reg hreg, ?_, ?_⟩
  · rw [occurrence_eq]
    unfold home? at hreg
    cases hslot : l.slot? (.var id) with
    | some y =>
      rw [hslot] at hreg
      cases hreg
      simp [hs]
    | none =>
      rw [hslot] at hreg
      obtain ⟨x, hx, rfl⟩ := map_eq_some_iff.1 hreg
      simp [hx, hs]
  · have h : Inv l base r N Q todo s := h.weaken fun i => by
      rw [count_cons]
      omega
    exact { h with
      seen := fun i hi => h.seen i (sub i hi)
      held := fun i hi => h.held i (sub i hi)
      unseen := fun i hi hn => h.unseen i hi fun hs => hn (mem_cons_of_mem _ hs)
      temps := fun i x hx => ⟨mem_cons_of_mem _ (h.temps i x hx).1, (h.temps i x hx).2⟩ }
  · exact ⟨⟨⟨rfl, rfl, rfl, rfl, fun _ _ hl => hl⟩, .refl N, fun i hi => .inl (sub i hi)⟩, rfl,
      Nat.le_refl _, fun _ _ hx => .inl hx⟩

/-- A variable that has a slot takes it where it first occurs. -/
lemma first_slot {y : Nat} (h : Inv l base r N Q (id :: todo) s) (free : Free N Q s.next w)
    (fresh : id ∉ N.known) (hslot : l.slot? (.var id) = some y) :
    Inv l base { r with seen := id :: r.seen } (N.add id w) Q todo
        (s.setY y (.term (varOf w))) ∧
      Passes l [id] r N s { r with seen := id :: r.seen } (N.add id w)
        (s.setY y (.term (varOf w))) := by
  constructor
  · refine h.place (.y y) free fresh rfl (by simp [home?, hslot])
      (by simp [State.get, State.setY]) ?_
      (fun i hi => (h.seen i hi).2) ?_ (Nat.le_refl _) (fun _ _ => rfl) rfl rfl
    · intro i hi hne reg hreg
      refine ⟨hreg, ?_⟩
      cases reg with
      | x n => rfl
      | y n =>
        have : n ≠ y := by
          rintro rfl
          unfold home? at hreg
          split at hreg
          · next n' hn =>
            cases hreg
            have := slot?_inj hn hslot
            exact hne (by simpa using this)
          · simp at hreg
        simp [State.get, State.setY, this]
    · intro i x hx
      exact ⟨mem_cons_of_mem _ (h.temps i x hx).1, (h.temps i x hx).2⟩
  · refine ⟨⟨⟨rfl, rfl, rfl, rfl, ?_⟩, Names.sub_add fresh, fun i => ?_⟩, rfl, Nat.le_refl _,
      fun _ _ hx => .inl hx⟩
    · intro y' hy' hl
      have : y' ≠ y := by
        rintro rfl
        cases slot?_inj hy' hslot
      simpa [setY, this] using hl
    · exact fun hi => (mem_cons.1 hi).symm.imp_right mem_singleton.2

/-- A variable with no slot takes the next temporary where it first occurs. -/
lemma first_temp (h : Inv l base r N Q (id :: todo) s) (free : Free N Q s.next w)
    (fresh : id ∉ N.known) (hs : id ∉ r.seen) (hslot : l.slot? (.var id) = none)
    (given : r' = { r with
      seen := id :: r.seen
      temps := (id, r.nextTemp) :: r.temps
      nextTemp := r.nextTemp + 1 }) :
    Inv l base r' (N.add id w) Q todo (s.setX r.nextTemp (varOf w)) ∧
      Passes l [id] r N s r' (N.add id w) (s.setX r.nextTemp (varOf w)) := by
  subst given
  have lookup : ∀ i, ((id, r.nextTemp) :: r.temps).lookup i =
      if i = id then some r.nextTemp else r.temps.lookup i := by
    intro i
    rw [lookup_cons]
    by_cases he : i = id
    · simp [he]
    · have : (i == id) = false := by simpa using he
      simp [he, this]
  constructor
  · refine h.place (.x r.nextTemp) free fresh rfl (by simp [home?, hslot])
      (by simp [State.get, State.setX]) ?_ ?_ ?_ (Nat.le_succ _) ?_ rfl rfl
    · intro i hi hne reg hreg
      have hold : home? l r i = some reg := by
        simpa [home?, lookup, hne] using hreg
      refine ⟨hold, ?_⟩
      cases reg with
      | y n => rfl
      | x n =>
        have : n ≠ r.nextTemp := Nat.ne_of_lt (h.home_bounds hold).2
        simp [State.get, State.setX, this]
    · intro i hi
      have := (h.seen i hi).2
      have hne : i ≠ id := fun he => hs (he ▸ hi)
      simpa [home?, lookup, hne] using this
    · intro i x hx
      rw [lookup] at hx
      split at hx
      · next he =>
        cases hx
        exact ⟨he ▸ mem_cons_self, h.above, Nat.lt_succ_self _⟩
      · obtain ⟨hi, hb, hlt⟩ := h.temps i x hx
        exact ⟨mem_cons_of_mem _ hi, hb, Nat.lt_succ_of_lt hlt⟩
    · intro n hn
      simp [setX, Nat.ne_of_lt hn]
  · refine ⟨⟨⟨rfl, rfl, rfl, rfl, fun _ _ hl => hl⟩, Names.sub_add fresh, fun i => ?_⟩, rfl,
      Nat.le_succ _, fun i x hx => ?_⟩
    · exact fun hi => (mem_cons.1 hi).symm.imp_right mem_singleton.2
    · rw [lookup] at hx
      split at hx
      · cases hx
        exact .inr (Nat.le_refl _)
      · exact .inl hx

lemma first (h : Inv l base r N Q (id :: todo) s) (free : Free N Q s.next w)
    (hs : id ∉ r.seen) (hm : id ∉ l.singletons) :
    ∃ reg s' r', occurrence l id r = ((reg, true), r') ∧
      s.set reg (varOf w) = some s' ∧ id ∉ N.known ∧ Inv l base r' (N.add id w) Q todo s' ∧
      (∀ n < r.nextTemp, s'.x n = s.x n) ∧ Passes l [id] r N s r' (N.add id w) s' ∧
      s'.pending = s.pending ∧ s'.next = s.next := by
  have fresh : id ∉ N.known := fun hk => hm (h.unseen id hk hs)
  have hfirst : (!r.seen.contains id) = true := by simpa using hs
  cases hslot : l.slot? (.var id) with
  | some y =>
    obtain ⟨inv, passes⟩ := h.first_slot free fresh hslot
    refine ⟨.y y, _, _, ?_, ?_, fresh, inv, fun _ _ => rfl, passes, rfl, rfl⟩
    · rw [occurrence_eq, hslot, hfirst]
    · obtain ⟨one, size⟩ := slot?_bounds hslot
      have slot : s.hasSlot y = true := by
        rw [hasSlot, h.frame (by omega)]
        simp [one, size]
      simp [State.set, slot]
  | none =>
    have noTemp : r.temps.lookup id = none := by
      cases ht : r.temps.lookup id with
      | none => rfl
      | some x => exact absurd (h.temps id x ht).1 hs
    obtain ⟨inv, passes⟩ := h.first_temp free fresh hs hslot rfl
    refine ⟨.x r.nextTemp, _, _, ?_, rfl, fresh, inv, fun n hn => ?_, passes, rfl, rfl⟩
    · rw [occurrence_eq, hslot, noTemp, hfirst]
    · simp [setX, Nat.ne_of_lt hn]

end Inv

end Horn.CodeReading
