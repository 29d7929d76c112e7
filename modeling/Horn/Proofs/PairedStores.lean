import Horn.Proofs.LinkedTerms
import Horn.Proofs.MostGeneralUnifiers

/-!
# What is done to two stores

Two stores have something in common that binding, making room and taking back leave in common. They
may be stores whose variables are linked, or one store, of which something is kept.
-/

namespace Horn

open List Term Bindings
open Term (Alike)
open Bindings (Meeting meet)

/-- What two stores can have in common, and that it is kept. The link of an index is that of the
variables that stand for each other, and later indices have larger links. The terms of an index are
alike under its link. -/
structure Coupling (ι : Type) where
  Stores : ι → Bindings → Bindings → Prop
  link : ι → Link
  Terms : ι → Term → Term → Prop
  like : ∀ d, Likeness (link d) (Terms d)
  ordered : ∀ d, (link d).Ordered
  Before : ι → ι → Prop
  refl : ∀ d, Before d d
  trans : ∀ {d e f}, Before d e → Before e f → Before d f
  kept : ∀ {d e}, Before d e → (link d).Within (link e)
  later : ∀ {d e t t'}, Before d e → Terms d t t' → Terms e t t'
  Spent : ι → Bindings → Prop
  spent : ∀ {d b b'}, Stores d b b' → Spent d b
  spent_before : ∀ {d e b}, Before d e → Spent e b → Spent d b
  walk : ∀ {d b b' t t'}, Stores d b b' → Terms d t t' → Terms d (b.walk t) (b'.walk t')
  assign : ∀ {d b b' s s' t t' i i' u u'}, Stores d b b' →
    meet (b.walk s) (b.walk t) = .assign i u → meet (b'.walk s') (b'.walk t') = .assign i' u' →
    link d i i' → Terms d u u' → ∃ e, Before d e ∧ Stores e (b.bind i u) (b'.bind i' u')
  reserve : ∀ {d b b'} (count : Nat), Stores d b b' → ∃ e, Before d e ∧
    Stores e (b.reserve count).2 (b'.reserve count).2 ∧
    ∀ v < count, link e (b.values.size + v) (b'.values.size + v)
  undo : ∀ {d e b b' c c'}, Stores d b b' → Before d e → Stores e c c' →
    ∃ f, Before d f ∧ Stores f (c.undo b.mark) (c'.undo b'.mark)

namespace Coupling

section Meetings

variable {ρ : Link} {R : Term → Term → Prop}

def PairsAlike (R : Term → Term → Prop) : List (Term × Term) → List (Term × Term) → Prop :=
  List.Forall₂ fun p p' => R p.1 p'.1 ∧ R p.2 p'.2

lemma pairsAlike_zip {ss ss' ts ts' : List Term} (hs : Forall₂ R ss ss') (ht : Forall₂ R ts ts') :
    PairsAlike R (ss.zip ts) (ss'.zip ts') := by
  induction hs generalizing ts ts' with
  | nil => exact .nil
  | cons first _ ih =>
    cases ht with
    | nil => exact .nil
    | cons first' rest' => exact .cons ⟨first, first'⟩ (ih rest')

inductive MeetAlike (ρ : Link) (R : Term → Term → Prop) : Meeting → Meeting → Prop where
  | clash : MeetAlike ρ R .clash .clash
  | reduce {ps ps' : List (Term × Term)} (h : PairsAlike R ps ps') :
    MeetAlike ρ R (.reduce ps) (.reduce ps')
  | assign {i i' : Nat} {u u' : Term} (linked : ρ i i') (value : R u u') :
    MeetAlike ρ R (.assign i u) (.assign i' u')

lemma meet_alike (ordered : ρ.Ordered) (like : Likeness ρ R) {s s' t t' : Term} (hs : R s s')
    (ht : R t t') : MeetAlike ρ R (meet s t) (meet s' t') := by
  have left := like.alike hs
  have right := like.alike ht
  cases left with
  | @var _ _ i i' linked names =>
    cases right with
    | @var _ _ j j' linked' names' =>
      simp only [meet, ordered.eq_iff linked linked']
      split
      · exact .reduce .nil
      · exact .assign linked ht
    | _ => exact .assign linked ht
  | atom a =>
    cases right with
    | var linked' names' => exact .assign linked' hs
    | atom b =>
      simp only [meet]
      split
      · exact .reduce .nil
      · exact .clash
    | _ => exact .clash
  | number x =>
    cases right with
    | var linked' names' => exact .assign linked' hs
    | number y =>
      simp only [meet]
      split
      · exact .reduce .nil
      · exact .clash
    | _ => exact .clash
  | @compound f ss ss' args =>
    cases right with
    | var linked' names' => exact .assign linked' hs
    | @compound g ts ts' args' =>
      simp only [meet, args.length_eq, args'.length_eq]
      split
      · exact .reduce (pairsAlike_zip (like.args hs) (like.args ht))
      · exact .clash
    | _ => exact .clash
  | cell =>
    cases right with
    | var linked' names' => exact .assign linked' hs
    | cell => exact .reduce (pairsAlike_zip (like.args hs) (like.args ht))
    | _ => exact .clash

end Meetings

variable {ι : Type} {C : Coupling ι} {d : ι} {b b' : Bindings} {t t' : Term}

lemma alike (C : Coupling ι) (h : C.Terms d t t') : Alike (C.link d) t t' :=
  (C.like d).alike h

lemma resolve? (stores : C.Stores d b b') {n : Nat} {r : Term} (alike : C.Terms d t t')
    (resolved : b.resolve? n t = some r) :
    ∃ r', C.Terms d r r' ∧ ∀ m, n ≤ m → b'.resolve? m t' = some r' := by
  have like := C.like d
  refine (resolve?_induct (b := b)
    (P := fun n t r => ∀ t', C.Terms d t t' →
      ∃ r', C.Terms d r r' ∧ ∀ m, n ≤ m → b'.resolve? m t' = some r')
    (Q := fun n ts rs => ∀ ts', Forall₂ (C.Terms d) ts ts' → rs.length = ts.length ∧
      ∃ rs', Forall₂ (C.Terms d) rs rs' ∧ ∀ m, n ≤ m → b'.resolveAll? m ts' = some rs')
    ?_ ?_ ?_ ?_ ?_ n).1 resolved t' alike
  · intro n t r walked leaf t' alike
    have top := walked ▸ C.walk stores alike
    generalize walked' : b'.walk t' = u' at top
    refine ⟨u', top, of_succ_le fun m _ => resolve?_leaf walked' ?_ m⟩
    cases C.alike top with
    | compound | cell => cases leaf
    | atom | number | var => rfl
  · intro n t f args rs walked all t' alike
    have top := walked ▸ C.walk stores alike
    generalize walked' : b'.walk t' = u' at top
    have tops := C.alike top
    cases tops with
    | compound =>
      obtain ⟨same, rs', alike, settled⟩ := all _ (like.args top)
      exact ⟨.compound f rs', like.again top same alike, of_succ_le fun m le =>
        resolve?_compound walked' (settled m le)⟩
  · intro n t x y u v walked one two t' alike
    have top := walked ▸ C.walk stores alike
    generalize walked' : b'.walk t' = u' at top
    have tops := C.alike top
    cases tops with
    | cell =>
      obtain _ | ⟨head, _ | ⟨tail, -⟩⟩ := like.args top
      obtain ⟨r₁, alike₁, settled₁⟩ := one _ head
      obtain ⟨r₂, alike₂, settled₂⟩ := two _ tail
      exact ⟨.cell r₁ r₂, like.cell alike₁ alike₂, of_succ_le fun m le =>
        resolve?_cell walked' (settled₁ m le) (settled₂ m le)⟩
  · rintro n _ ⟨⟩
    exact ⟨rfl, [], .nil, of_succ_le fun _ _ => rfl⟩
  · rintro n t r ts rs one all _ (_ | ⟨first, rest⟩)
    obtain ⟨r', alike, settled⟩ := one _ first
    obtain ⟨same, rs', alikes, all_settled⟩ := all _ rest
    exact ⟨congrArg (· + 1) same, r' :: rs', .cons alike alikes, of_succ_le fun m le =>
      resolveAll?_cons (settled m le) (all_settled m le)⟩

lemma unifyPairs (stores : C.Stores d b b') (n : Nat) {ps ps' : List (Term × Term)}
    (alike : PairsAlike (C.Terms d) ps ps') :
    (∃ b₁, unifyPairs n ps b = (none, b₁) ∧ C.Spent d b₁) ∨
      ∃ e r b₁ b₁', unifyPairs n ps b = (some r, b₁) ∧ C.Before d e ∧ C.Stores e b₁ b₁' ∧
        ∀ m, n ≤ m → unifyPairs m ps' b' = (some r, b₁') := by
  induction n generalizing d b b' ps ps' with
  | zero => exact .inl ⟨b, rfl, C.spent stores⟩
  | succ n ih =>
    cases alike with
    | nil => exact .inr ⟨d, true, b, b', rfl, C.refl d, stores, of_succ_le fun _ _ => rfl⟩
    | @cons p p' rest rest' first others =>
      obtain ⟨s, t⟩ := p
      obtain ⟨s', t'⟩ := p'
      have meets := meet_alike (C.ordered d) (C.like d) (C.walk stores first.1)
        (C.walk stores first.2)
      simp only [unifyPairs_cons]
      generalize left : meet (b.walk s) (b.walk t) = x at meets
      generalize right : meet (b'.walk s') (b'.walk t') = x' at meets
      cases meets with
      | clash =>
        refine .inr ⟨d, false, b, b', rfl, C.refl d, stores, of_succ_le fun m _ => ?_⟩
        rw [unifyPairs_cons, right]
      | reduce parts =>
        refine (ih stores (rel_append parts others)).imp_right ?_
        rintro ⟨e, r, b₁, b₁', ran, before, after, settled⟩
        refine ⟨e, r, b₁, b₁', ran, before, after, of_succ_le fun m le => ?_⟩
        rw [unifyPairs_cons, right]
        exact settled m le
      | assign linked value =>
        obtain ⟨e, before, bound⟩ := C.assign stores left right linked value
        have others : PairsAlike (C.Terms e) rest rest' := others.imp fun _ _ h =>
          ⟨C.later before h.1, C.later before h.2⟩
        rcases ih bound others with ⟨b₁, ran, spent⟩ | ⟨f, r, b₁, b₁', ran, later, after, settled⟩
        · exact .inl ⟨b₁, ran, C.spent_before before spent⟩
        · refine .inr ⟨f, r, b₁, b₁', ran, C.trans before later, after,
            of_succ_le fun m le => ?_⟩
          rw [unifyPairs_cons, right]
          exact settled m le

section Copying

open Bindings (copyVar)

def Copied (ρ : Link) (R : Term → Term → Prop) : List (Nat × Term) → List (Nat × Term) → Prop :=
  List.Forall₂ fun p p' => ρ p.1 p'.1 ∧ R p.2 p'.2

lemma Copied.lookup {ρ : Link} {R : Term → Term → Prop} (ordered : ρ.Ordered)
    {seen seen' : List (Nat × Term)} (h : Copied ρ R seen seen') {i i' : Nat} (linked : ρ i i') :
    Option.Rel R (seen.lookup i) (seen'.lookup i') := by
  induction h with
  | nil => exact .none
  | @cons p p' _ _ first _ ih =>
    have same : (i == p.1) = (i' == p'.1) := by
      rw [Bool.eq_iff_iff, beq_iff_eq, beq_iff_eq]
      exact ordered.eq_iff linked first.1
    rw [lookup_cons, lookup_cons, same]
    split
    · exact .some first.2
    · exact ih

structure Copies (C : Coupling ι) (d : ι) (s s' : List (Nat × Term) × Bindings) : Prop where
  stores : C.Stores d s.2 s'.2
  seen : Copied (C.link d) (C.Terms d) s.1 s'.1

variable {s s' : List (Nat × Term) × Bindings}

lemma Copies.copyVar (h : C.Copies d s s') {i i' : Nat} (linked : C.link d i i') :
    ∃ e, C.Before d e ∧ C.Copies e (copyVar i s).2 (copyVar i' s').2 ∧
      C.Terms e (copyVar i s).1 (copyVar i' s').1 := by
  have found := h.seen.lookup (C.ordered d) linked
  simp only [Bindings.copyVar]
  generalize s.1.lookup i = x, s'.1.lookup i' = x' at found
  cases found with
  | some alike => exact ⟨d, C.refl d, h, alike⟩
  | none =>
    obtain ⟨e, before, stores, new⟩ := C.reserve 1 h.stores
    have new := (C.like e).fresh (new 0 Nat.one_pos)
    refine ⟨e, before, ⟨stores, .cons ⟨C.kept before linked, new⟩ ?_⟩, new⟩
    exact h.seen.imp fun p p' h => ⟨C.kept before h.1, C.later before h.2⟩

lemma Copies.mapVarsWith (h : C.Copies d s s') (alike : C.Terms d t t') :
    ∃ e, C.Before d e ∧
      C.Copies e (t.mapVarsWith (fun _ id s => Bindings.copyVar id s) s).2
        (t'.mapVarsWith (fun _ id s => Bindings.copyVar id s) s').2 ∧
      C.Terms e (t.mapVarsWith (fun _ id s => Bindings.copyVar id s) s).1
        (t'.mapVarsWith (fun _ id s => Bindings.copyVar id s) s').1 := by
  have tops := C.alike alike
  induction t using induct generalizing t' d s s' with
  | atom a =>
    cases tops
    exact ⟨d, C.refl d, h, alike⟩
  | number n =>
    cases tops
    exact ⟨d, C.refl d, h, alike⟩
  | var name i =>
    cases tops with
    | var linked names => exact h.copyVar linked
  | cell x y ihx ihy =>
    cases tops with
    | cell =>
      obtain _ | ⟨head, _ | ⟨tail, -⟩⟩ := (C.like d).args alike
      obtain ⟨e, before, copies, first⟩ := ihx h head (C.alike head)
      have tail := C.later before tail
      obtain ⟨f, before', copies', second⟩ := ihy copies tail (C.alike tail)
      rw [mapVarsWith_cell, mapVarsWith_cell]
      exact ⟨f, C.trans before before', copies', (C.like f).cell (C.later before' first) second⟩
  | compound g as ih =>
    cases tops with
    | compound _ parts =>
      have all {bs bs' : List Term} (each : ∀ b ∈ bs, b ∈ as)
          (args : Forall₂ (C.Terms d) bs bs') : ∃ e, C.Before d e ∧
          C.Copies e (Term.mapAllVarsWith (fun _ id s => Bindings.copyVar id s) bs s).2
            (Term.mapAllVarsWith (fun _ id s => Bindings.copyVar id s) bs' s').2 ∧
          Forall₂ (C.Terms e)
            (Term.mapAllVarsWith (fun _ id s => Bindings.copyVar id s) bs s).1
            (Term.mapAllVarsWith (fun _ id s => Bindings.copyVar id s) bs' s').1 := by
        clear parts alike
        induction bs generalizing bs' d s s' with
        | nil =>
          cases args
          exact ⟨d, C.refl d, h, .nil⟩
        | cons a as ih' =>
          obtain ⟨mem, each⟩ := forall_mem_cons.1 each
          cases args with
          | cons first others =>
            obtain ⟨e, before, copies, copy⟩ := ih a mem h first (C.alike first)
            obtain ⟨f, before', copies', rest⟩ :=
              ih' copies each (others.imp fun _ _ => C.later before)
            rw [mapAllVarsWith_cons, mapAllVarsWith_cons]
            exact ⟨f, C.trans before before', copies', .cons (C.later before' copy) rest⟩
      obtain ⟨e, before, copies, each⟩ := all (fun _ mem => mem) ((C.like d).args alike)
      rw [mapVarsWith_compound, mapVarsWith_compound]
      refine ⟨e, before, copies, (C.like e).again (C.later before alike) ?_ each⟩
      exact length_mapAllVarsWith _ _ _

lemma copy (stores : C.Stores d b b') (n : Nat) (alike : C.Terms d t t') :
    b.copy n t = (none, b) ∨
      ∃ e r r' b₁ b₁', b.copy n t = (some r, b₁) ∧ C.Before d e ∧ C.Stores e b₁ b₁' ∧
        C.Terms e r r' ∧ ∀ m, n ≤ m → b'.copy m t' = (some r', b₁') := by
  unfold Bindings.copy
  cases resolved : b.resolve? n t with
  | none => exact .inl rfl
  | some u =>
    obtain ⟨u', alike, settled⟩ := resolve? stores alike resolved
    have start : C.Copies d ([], b) ([], b') := ⟨stores, .nil⟩
    obtain ⟨e, before, copies, copy⟩ := start.mapVarsWith alike
    refine .inr ⟨e, _, _, _, _, rfl, before, copies.stores, copy, fun m le => ?_⟩
    rw [settled m le]
    rfl

end Copying

end Coupling

end Horn
