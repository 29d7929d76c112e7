import Horn.Proofs.Substitutions
import Mathlib.Data.List.Forall2

/-!
# Equality of terms

It is not reflexive: a float that is no number is not equal to itself. A term is equal to itself
when all its parts are, so a term without floats always is.
-/

namespace Horn

open List Bool Subst Bindings

lemma Binary64.equals_symm {x y : Binary64} (h : x.equals y) : y.equals x := by
  simp only [equals, and_eq_true, or_eq_true, decide_eq_true_eq] at h ⊢
  exact ⟨⟨h.1.2, h.1.1⟩, h.2.imp Eq.symm And.symm⟩

lemma Binary64.equals_trans {x y z : Binary64} (h : x.equals y) (h' : y.equals z) :
    x.equals z := by
  simp only [equals, and_eq_true, or_eq_true, decide_eq_true_eq] at h h' ⊢
  refine ⟨⟨h.1.1, h'.1.2⟩, ?_⟩
  have magnitude {u v : Binary64} (eq : u.bits = v.bits) : u.magnitudeBits = v.magnitudeBits := by
    rw [magnitudeBits, magnitudeBits, eq]
  rcases h.2 with eq | ⟨zero, zero'⟩
  · exact h'.2.imp eq.trans fun zeros => ⟨(magnitude eq).trans zeros.1, zeros.2⟩
  · refine .inr ⟨zero, ?_⟩
    rcases h'.2 with eq | zeros
    · exact (magnitude eq).symm.trans zero'
    · exact zeros.2

lemma Number.same_symm {m n : Number} (h : m.same n) : n.same m := by
  cases m <;> cases n
  case int.int => exact beq_iff_eq.2 (beq_iff_eq.1 h).symm
  case float.float => exact Binary64.equals_symm h
  all_goals cases h

lemma Number.same_trans {k m n : Number} (h : k.same m) (h' : m.same n) : k.same n := by
  cases k <;> cases m <;> try cases h
  all_goals cases n <;> try cases h'
  · exact beq_iff_eq.2 ((beq_iff_eq.1 h).trans (beq_iff_eq.1 h'))
  · exact Binary64.equals_trans h h'

namespace Term

variable {s t u : Term} {ss ts : List Term} {g : Term → Term}

lemma sameAll_iff :
    sameAll ss ts ↔ Forall₂ (fun s t => s.same t) ss ts := by
  induction ss generalizing ts with
  | nil => cases ts <;> simp [sameAll]
  | cons s ss ih => cases ts <;> simp [sameAll, ih]

@[simp]
lemma same_compound {f g : String} :
    (compound f ss).same (compound g ts) ↔
      f = g ∧ Forall₂ (fun s t => s.same t) ss ts := by
  rw [same, and_eq_true, decide_eq_true_eq, sameAll_iff]

@[simp]
lemma same_cell {h x h' x' : Term} :
    (cell h x).same (cell h' x') ↔ h.same h' ∧ x.same x' := by
  rw [same, and_eq_true]

lemma same_symm (h : s.same t) : t.same s := by
  induction s using induct generalizing t with
  | atom a => cases t <;> simp_all [same]
  | number m =>
    cases t with
    | number n => exact Number.same_symm h
    | _ => cases h
  | var name v => cases t <;> simp_all [same]
  | compound f args ih =>
    cases t with
    | compound g args' =>
      obtain ⟨rfl, all⟩ := same_compound.1 h
      have turned := ((forall₂_and_left _ _).2 ⟨ih, all⟩).imp fun _ _ both => both.1 both.2
      exact same_compound.2 ⟨rfl, turned.flip⟩
    | _ => cases h
  | cell x y ihx ihy =>
    cases t with
    | cell x' y' =>
      obtain ⟨hx, hy⟩ := same_cell.1 h
      exact same_cell.2 ⟨ihx hx, ihy hy⟩
    | _ => cases h

lemma same_trans (h : s.same t) (h' : t.same u) : s.same u := by
  induction s using induct generalizing t u with
  | atom a => cases t <;> cases u <;> simp_all [same]
  | number m =>
    cases t with
    | number n =>
      cases u with
      | number k => exact Number.same_trans h h'
      | _ => cases h'
    | _ => cases h
  | var name v => cases t <;> cases u <;> simp_all [same]
  | compound f args ih =>
    cases t with
    | compound g args' =>
      cases u with
      | compound k args'' =>
        obtain ⟨rfl, all⟩ := same_compound.1 h
        obtain ⟨rfl, all'⟩ := same_compound.1 h'
        have each := (forall₂_and_left _ _).2 ⟨ih, all⟩
        refine same_compound.2 ⟨rfl, ?_⟩
        clear h h' ih all
        induction each generalizing args'' with
        | nil => exact all'
        | cons first _ more =>
          cases all' with
          | cons first' others' => exact .cons (first.1 first.2 first') (more _ others')
      | _ => cases h'
    | _ => cases h
  | cell x y ihx ihy =>
    cases t with
    | cell x' y' =>
      cases u with
      | cell x'' y'' =>
        obtain ⟨hx, hy⟩ := same_cell.1 h
        obtain ⟨hx', hy'⟩ := same_cell.1 h'
        exact same_cell.2 ⟨ihx hx hx', ihy hy hy'⟩
      | _ => cases h'
    | _ => cases h

lemma sameAll_map_map (h : ∀ s ∈ ss, ∀ t, (g s).same (g t) = s.same t) :
    sameAll (ss.map g) (ts.map g) = sameAll ss ts := by
  induction ss generalizing ts with
  | nil => cases ts <;> rfl
  | cons s ss ih =>
    obtain ⟨first, others⟩ := forall_mem_cons.1 h
    cases ts with
    | nil => rfl
    | cons t ts => simp only [map_cons, sameAll, first t, ih others]

lemma same_free : (free.apply s).same (free.apply t) = s.same t := by
  induction s using induct generalizing t with
  | atom | number | var => cases t <;> simp [same, free, varOf]
  | compound f args ih =>
    cases t with
    | compound g args' =>
      rw [apply_compound, apply_compound, same, same,
        sameAll_map_map fun a ha t => ih a ha]
    | _ => simp [same, free, varOf]
  | cell x y ihx ihy =>
    cases t with
    | cell x' y' => simp only [apply_cell, same, ihx, ihy]
    | _ => simp [same, free, varOf]

lemma sameAll_map (h : ∀ t ∈ ts, (g t).same t) : sameAll (ts.map g) ts := by
  induction ts with
  | nil => rfl
  | cons t ts ih =>
    obtain ⟨first, others⟩ := forall_mem_cons.1 h
    exact and_eq_true_iff.2 ⟨first, ih others⟩

lemma same_mapVars {f : String → Nat → Term}
    (floatFree : ∀ x, .number (.float x) ∉ t.subterms)
    (keeps : ∀ name id, .var name id ∈ t.subterms → ∃ name', f name id = .var name' id) :
    (t.mapVars f).same t := by
  induction t using induct with
  | atom a => simp [mapVars, same]
  | number n =>
    cases n with
    | int i => simp [mapVars, same, Number.same]
    | float x => exact absurd mem_cons_self (floatFree x)
  | var name id =>
    obtain ⟨name', eq⟩ := keeps name id mem_cons_self
    simp [mapVars, eq, same]
  | compound g args ih =>
    rw [mapVars, mapAllVars_eq, same, decide_eq_true rfl, Bool.true_and]
    refine sameAll_map fun a ha => ih a ha ?_ ?_
    · exact fun x hx => floatFree x (subterms_arg ha hx)
    · exact fun name id hv => keeps name id (subterms_arg ha hv)
  | cell h t ihh iht =>
    refine and_eq_true_iff.2 ⟨ihh ?_ ?_, iht ?_ ?_⟩
    · exact fun x hx => floatFree x (subterms_head hx)
    · exact fun name id hv => keeps name id (subterms_head hv)
    · exact fun x hx => floatFree x (subterms_tail hx)
    · exact fun name id hv => keeps name id (subterms_tail hv)

lemma same_self (floatFree : ∀ x, .number (.float x) ∉ t.subterms) : t.same t := by
  have same := same_mapVars floatFree fun name id _ => ⟨name, rfl⟩
  rwa [mapVars_var] at same

end Term

end Horn
