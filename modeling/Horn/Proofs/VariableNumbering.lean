import Horn.Proofs.WordReading

/-!
# The numbers of variables that are read back

Where each variable is written under one name and no other variable under that name, reading back a
term renumbers its variables in order of first occurrence.
-/

namespace Horn

open List Term Reader WriteStyle

namespace Term

def numbered (order : List Term) (name : String) (id : Nat) : Term :=
  .var (WriteStyle.varText name id) (order.findIdx (·.same (.var name id)))

/-- The term with its variables under their written names, numbered in order of first
occurrence. -/
def renumbered (t : Term) : Term := t.mapVars (numbered t.vars)

/-- Each variable is written under one name, and under no other's. -/
def NamesApart (t : Term) : Prop :=
  ∀ v ∈ t.namedVars, ∀ w ∈ t.namedVars,
    WriteStyle.varText v.1 v.2 = WriteStyle.varText w.1 w.2 ↔ v.2 = w.2

instance (t : Term) : Decidable t.NamesApart := inferInstanceAs (Decidable (∀ v ∈ t.namedVars, _))

lemma gatherVars_suffix (t : Term) : ∀ seen, seen <:+ gatherVars seen t := by
  induction t using induct with
  | atom | number => exact fun seen => suffix_refl seen
  | var name id =>
    intro seen
    rw [gatherVars]
    split
    · exact suffix_refl seen
    · exact suffix_cons _ seen
  | compound f args ih =>
    intro seen
    rw [gatherVars]
    induction args generalizing seen with
    | nil => exact suffix_refl seen
    | cons a args ih' =>
      obtain ⟨first, others⟩ := forall_mem_cons.1 ih
      exact (first seen).trans (ih' others _)
  | cell h t ihh iht => exact fun seen => (ihh seen).trans (iht _)

end Term

namespace Reader

open Term

def Numbers (S : List (String × Nat)) (seen : List Term) (vs : Numbering) : Prop :=
  vs.2 = seen.length ∧ ∀ v ∈ S,
    vs.1.find? (·.1 = WriteStyle.varText v.1 v.2) =
      (seen.reverse.findIdx? (·.same (.var v.1 v.2))).map (WriteStyle.varText v.1 v.2, ·)

lemma Numbers.none (S : List (String × Nat)) : Numbers S [] ([], 0) := ⟨rfl, fun _ _ => rfl⟩

variable {S : List (String × Nat)} {seen : List Term} {vs : Numbering}

lemma Numbers.readBack {name : String} {id : Nat}
    (apart : ∀ v ∈ S, ∀ w ∈ S,
      varText v.1 v.2 = varText w.1 w.2 ↔ v.2 = w.2)
    (h : Numbers S seen vs) (hv : (name, id) ∈ S) :
    Numbers S (gatherVars seen (.var name id)) (readBack name id vs).2 ∧
      ∀ order, (gatherVars seen (.var name id)).reverse <+: order →
        (readBack name id vs).1 = numbered order name id := by
  have found := h.2 (name, id) hv
  rw [gatherVars, Reader.readBack]
  cases place : seen.reverse.findIdx? (·.same (.var name id)) with
  | some i =>
    have any : seen.any (·.same (.var name id)) = true := by
      rw [← any_reverse, any_eq_true]
      obtain ⟨hi, same, _⟩ := findIdx?_eq_some_iff_getElem.1 place
      exact ⟨_, getElem_mem hi, same⟩
    rw [place] at found
    simp only [found, any, if_true, Option.map_some]
    refine ⟨h, fun order ⟨more, ho⟩ => ?_⟩
    have index : order.findIdx (·.same (.var name id)) = i := by
      rw [findIdx_eq_getD_findIdx?, ← ho, findIdx?_append, place]
      rfl
    rw [numbered, index]
  | none =>
    have any : seen.any (·.same (.var name id)) = false := by
      rw [← any_reverse, any_eq_false]
      exact fun v hv => by simpa using findIdx?_eq_none_iff.1 place v hv
    rw [place] at found
    simp only [found, any, Bool.false_eq_true, if_false, Option.map_none]
    refine ⟨⟨congrArg (· + 1) h.1, fun ⟨name', id'⟩ hv' => ?_⟩, fun order ⟨more, ho⟩ => ?_⟩
    · rw [find?_append, h.2 (name', id') hv', reverse_cons, findIdx?_append, h.1]
      have same : (varText name id = varText name' id') ↔
          (var name id).same (.var name' id') = true := by
        rw [apart (name, id) hv (name', id') hv']
        simp [same]
      by_cases eq : varText name id = varText name' id'
      · simp only [find?_singleton, eq, same.1 eq, findIdx?_singleton]
        cases seen.reverse.findIdx? (·.same (.var name' id')) <;> simp
      · have differ : (var name id).same (.var name' id') = false := by
          rw [Bool.eq_false_iff]
          exact fun s => eq (same.2 s)
        simp only [find?_singleton, eq, differ, findIdx?_singleton]
        cases seen.reverse.findIdx? (·.same (.var name' id')) <;> simp
    · have self : (var name id).same (.var name id) = true := by simp [same]
      have index : order.findIdx (·.same (.var name id)) = seen.length := by
        rw [findIdx_eq_getD_findIdx?, ← ho, reverse_cons, append_assoc,
          findIdx?_append, place]
        simp [findIdx?_cons, self]
      rw [numbered, index, h.1]

lemma mapVarsWith_recall
    (apart : ∀ v ∈ S, ∀ w ∈ S,
      varText v.1 v.2 = varText w.1 w.2 ↔ v.2 = w.2) (t : Term) :
    ∀ {seen vs}, t.namedVars ⊆ S → Numbers S seen vs →
      Numbers S (gatherVars seen t) (t.mapVarsWith readBack vs).2 ∧
        ∀ order, (gatherVars seen t).reverse <+: order →
          (t.mapVarsWith readBack vs).1 = t.mapVars (numbered order) := by
  induction t using induct with
  | atom | number => exact fun _ h => ⟨h, fun _ _ => rfl⟩
  | var name id => exact fun sub h => h.readBack apart (sub (mem_namedVars.2 mem_cons_self))
  | cell h t ihh iht =>
    intro seen vs sub numbers
    obtain ⟨head, head_eq⟩ := ihh (fun v hv => sub (namedVars_sub subterms_head hv)) numbers
    obtain ⟨tail, tail_eq⟩ := iht (fun v hv => sub (namedVars_sub subterms_tail hv)) head
    refine ⟨tail, fun order prefixed => ?_⟩
    have earlier := ( reverse_prefix.2 (gatherVars_suffix t (gatherVars seen h))).trans prefixed
    rw [mapVarsWith_cell, head_eq order earlier, tail_eq order prefixed, mapVars]
  | compound f args ih =>
    intro seen vs sub numbers
    have each : ∀ a ∈ args, a.namedVars ⊆ S := fun a ha v hv =>
      sub (namedVars_sub (subterms_arg ha) hv)
    have all : Numbers S (gatherAllVars seen args) (mapAllVarsWith readBack args vs).2 ∧
        ∀ order, (gatherAllVars seen args).reverse <+: order →
          (mapAllVarsWith readBack args vs).1 = mapAllVars (numbered order) args := by
      clear sub
      induction args generalizing seen vs with
      | nil => exact ⟨numbers, fun _ _ => rfl⟩
      | cons a args ih' =>
        obtain ⟨ih_a, ih_args⟩ := forall_mem_cons.1 ih
        obtain ⟨sub_a, sub_args⟩ := forall_mem_cons.1 each
        obtain ⟨first, first_eq⟩ := ih_a sub_a numbers
        obtain ⟨others, others_eq⟩ := ih' ih_args first sub_args
        refine ⟨others, fun order prefixed => ?_⟩
        have later := gatherVars_suffix (.compound f args) (gatherVars seen a)
        have earlier := ( reverse_prefix.2 later).trans prefixed
        rw [mapAllVarsWith_cons, first_eq order earlier, others_eq order prefixed, mapAllVars]
    refine ⟨all.1, fun order prefixed => ?_⟩
    rw [mapVarsWith_compound, all.2 order prefixed, mapVars]

lemma recalled_eq_renumbered {t : Term} (apart : t.NamesApart) :
    (t.mapVarsWith readBack ([], 0)).1 = t.renumbered :=
  (mapVarsWith_recall apart t (Subset.refl _) (.none _)).2 _ (prefix_refl _)

end Reader

end Horn
