import Horn.Proofs.DomainHistories
import Mathlib.Data.List.Nodup
import Mathlib.Data.List.Induction

/-! # Histories of a symbol table -/

namespace Horn

open List Option

def Clause.uses (c : Clause) : List Functor :=
  (c.head.elim [] fun head =>
    (Sighting.structures head).map (·.functor) ++ [head.functor?.getD ⟨"?", 0⟩]) ++
    (c.body.flatMap (Sighting.ofGoal true)).map (·.functor)

namespace SymbolTable

inductive Request where
  | intern (f : Functor)
  | mark (c : Clause)
  | openUnit (name : String)
  | declareDiscontiguous (f : Functor)
  | record (f : Functor)
  | closeUnit

namespace Request

def uses : Request → List Functor
  | intern f => [f]
  | mark c => c.uses
  | _ => []

def recorded? : Request → Option Functor
  | record f => some f
  | _ => none

def declared? : Request → Option Functor
  | declareDiscontiguous f => some f
  | _ => none

def inUnit : Request → Bool
  | openUnit _ | closeUnit => false
  | _ => true

end Request

def perform (t : SymbolTable) : Request → SymbolTable
  | .intern f => (t.intern f).2
  | .mark c => (t.mark c).2.2
  | .openUnit name => t.openUnit name
  | .declareDiscontiguous f => t.declareDiscontiguous f
  | .record f => (t.record f).2
  | .closeUnit => t.closeUnit.2

def performAll (rs : List Request) : SymbolTable := rs.foldl perform .empty

def warnings (t : SymbolTable) : List Request → List Scattered
  | [] => []
  | r :: rs => (r.recorded?.bind (t.record · |>.1)).toList ++ warnings (t.perform r) rs

lemma performAll_concat (rs : List Request) (r : Request) :
    performAll (rs ++ [r]) = (performAll rs).perform r := by
  simp [performAll]

lemma warnings_concat (t : SymbolTable) (rs : List Request) (r : Request) :
    t.warnings (rs ++ [r]) =
      t.warnings rs ++ (r.recorded?.bind ((rs.foldl perform t).record · |>.1)).toList := by
  induction rs generalizing t with
  | nil => simp [warnings]
  | cons _ _ ih => simp [warnings, ih]

def internEach (t : SymbolTable) (fs : List Functor) : SymbolTable :=
  fs.foldl (fun t f => (t.intern f).2) t

variable {t : SymbolTable} {f : Functor} {k : SymbolKey} {rs unit before : List Request}
  {name : String}

def numbered (fs : List Functor) : List (Functor × SymbolKey) :=
  fs.zipIdx.map fun (f, i) => (f, ⟨i⟩)

/-- The table after the functors `us` were used. The map from functors to keys mirrors the list of
functors. -/
structure Holds (t : SymbolTable) (us : List Functor) : Prop where
  functors : t.functors = us.eraseDups
  keys : t.keys = numbered t.functors

lemma eraseDups_concat (fs : List Functor) (f : Functor) :
    (fs ++ [f]).eraseDups = if f ∈ fs then fs.eraseDups else fs.eraseDups ++ [f] := by
  rw [eraseDups_append]
  split <;> simp_all [removeAll, eraseDups_cons]

lemma nodup_eraseDups (fs : List Functor) : fs.eraseDups.Nodup := by
  induction fs using reverseRecOn with
  | nil => simp
  | append_singleton fs f ih =>
    rw [eraseDups_concat]
    split
    · exact ih
    · next new => simpa using ih.concat (by simpa using new)

namespace Holds

variable {us : List Functor}

lemma lookup?_iff (h : t.Holds us) : t.lookup? f = some k ↔ t.functor? k = some f := by
  obtain ⟨i⟩ := k
  have first : (numbered t.functors).map (·.1) = t.functors := by
    rw [numbered, List.map_map]
    exact zipIdx_map_fst 0 t.functors
  have once : ((numbered t.functors).map (·.1)).Nodup := by
    rw [first, h.functors]
    exact nodup_eraseDups us
  rw [lookup?, h.keys, Domain.lookup_iff_mem once, numbered, List.mem_map, functor?,
    ← mk_mem_zipIdx_iff_getElem?]
  constructor
  · rintro ⟨⟨g, j⟩, mem, same⟩
    cases same
    exact mem
  · exact fun mem => ⟨_, mem, rfl⟩

lemma intern_known (h : t.Holds us) (known : f ∈ us) : (t.intern f).2 = t := by
  obtain ⟨i, place⟩ := getElem?_of_mem (h.functors ▸ mem_eraseDups.2 known : f ∈ t.functors)
  rw [intern, (h.lookup?_iff (k := ⟨i⟩)).2 place]

lemma intern_new (h : t.Holds us) (new : f ∉ us) :
    (t.intern f).2 = ⟨numbered (us.eraseDups ++ [f]), us.eraseDups ++ [f],
      t.scope.map fun u => { u with interned := u.interned + 1 }⟩ := by
  have missing : t.lookup? f = none := by
    refine eq_none_iff_forall_ne_some.2 fun k found => new ?_
    exact mem_eraseDups.1 (h.functors ▸ mem_of_getElem? (h.lookup?_iff.1 found))
  rw [intern, missing, h.keys, h.functors, numbered, numbered, zipIdx_append, map_append]
  simp

end Holds

lemma internAll_snd (ss : List Sighting) (t : SymbolTable) :
    (t.internAll ss).2 = t.internEach (ss.map (·.functor)) := by
  induction ss generalizing t with
  | nil => rfl
  | cons s ss ih =>
    cases goal : s.goal <;> simpa [internAll, goal, internEach] using ih _

lemma perform_mark (t : SymbolTable) (c : Clause) : t.perform (.mark c) = t.internEach c.uses := by
  cases head : c.head <;>
    simp [perform, mark, internHead, internAll_snd, internEach, Clause.uses, head]

lemma length_eraseDups_le (us fs : List Functor) :
    us.eraseDups.length ≤ (us ++ fs).eraseDups.length := by
  rw [eraseDups_append, length_append]
  exact Nat.le_add_right _ _

lemma internEach_eq {us : List Functor} (fs : List Functor) (h : t.Holds us) :
    t.internEach fs = ⟨numbered (us ++ fs).eraseDups, (us ++ fs).eraseDups, t.scope.map fun u =>
      { u with interned := u.interned + ((us ++ fs).eraseDups.length - us.eraseDups.length) }⟩ := by
  induction fs generalizing t us with
  | nil => simp [internEach, ← h.functors, ← h.keys]
  | cons f fs ih =>
    change (t.intern f).2.internEach fs = _
    have grown := eraseDups_concat us f
    have rest := length_eraseDups_le (us ++ [f]) fs
    rw [append_cons]
    by_cases known : f ∈ us
    · rw [if_pos known] at grown
      rw [h.intern_known known, ih ⟨h.functors.trans grown.symm, h.keys⟩, grown]
    · rw [if_neg known] at grown
      rw [h.intern_new known, ih (show Holds _ (us ++ [f]) from ⟨grown.symm, rfl⟩)]
      rw [grown, length_append, length_singleton] at rest ⊢
      cases t.scope with
      | none => rfl
      | some u =>
        simp only [map_some, mk.injEq, some.injEq, UnitScope.mk.injEq, true_and]
        omega

lemma holds_performAll (rs : List Request) : (performAll rs).Holds (rs.flatMap Request.uses) := by
  induction rs using reverseRecOn with
  | nil => exact ⟨rfl, rfl⟩
  | append_singleton rs r ih =>
    have interns (fs : List Functor) :
        ((performAll rs).internEach fs).Holds (rs.flatMap Request.uses ++ fs) := by
      rw [internEach_eq fs ih]
      exact ⟨rfl, rfl⟩
    rw [performAll_concat, flatMap_append, flatMap_singleton]
    cases r with
    | intern f => exact interns [f]
    | mark c => exact perform_mark _ c ▸ interns c.uses
    | record f =>
      rw [show Request.uses (.record f) = [] from rfl, append_nil, perform, record]
      split <;> exact ⟨ih.functors, ih.keys⟩
    | _ => exact ⟨ih.functors.trans (by simp [Request.uses]), ih.keys⟩

lemma lookup?_intern (t : SymbolTable) (f : Functor) :
    (t.intern f).2.lookup? f = some (t.intern f).1 := by
  cases found : t.lookup? f with
  | some k => simp [intern, found]
  | none =>
    rw [lookup?] at found
    simp [intern, lookup?, found, lookup_append]

lemma lookup?_internEach (fs : List Functor) (h : t.lookup? f = some k) :
    (t.internEach fs).lookup? f = some k := by
  induction fs generalizing t with
  | nil => exact h
  | cons g fs ih =>
    refine ih (t := (t.intern g).2) ?_
    cases found : t.lookup? g with
    | some => simpa [intern, found] using h
    | none =>
      rw [lookup?] at h found
      simp [intern, lookup?, found, lookup_append, h]

lemma lookup?_internAll (ss : List Sighting) (t : SymbolTable) :
    ∀ g ∈ (t.internAll ss).1, (t.internAll ss).2.lookup? g.functor = some g.key := by
  induction ss generalizing t with
  | nil => simp [internAll]
  | cons s ss ih =>
    have first := lookup?_internEach (ss.map (·.functor)) (lookup?_intern t s.functor)
    rw [← internAll_snd] at first
    cases goal : s.goal with
    | none => simpa [internAll, goal] using ih _
    | some topLevel => simpa [internAll, goal, first] using ih _

lemma record_fst (u : UnitScope) : (u.record f).1 = true ↔
    f ∈ u.seen ∧ u.latest ≠ some f ∧ f ∉ u.discontiguous ∧ f ∉ u.warned := by
  unfold UnitScope.record
  split
  · simp_all
  · split
    · simp_all
    · split <;> simp_all [imp_iff_not_or]

lemma record_snd {u : UnitScope} (known : u.latest = some f → f ∈ u.seen) :
    (u.record f).2 = { u with
      latest := some f
      defined := if f ∈ u.seen then u.defined else u.defined ++ [f]
      seen := if f ∈ u.seen then u.seen else f :: u.seen
      warned := if (u.record f).1 then f :: u.warned else u.warned } := by
  unfold UnitScope.record
  split
  · simp_all
  · split
    · simp_all
    · split <;> simp_all

/-- What the open unit has noted. Its set of predicates mirrors the list of them. -/
def noted (before : List Request) (name : String) (unit : List Request) : UnitScope where
  name := name
  defined := (unit.filterMap Request.recorded?).eraseDups
  seen := (unit.filterMap Request.recorded?).eraseDups.reverse
  latest := (unit.filterMap Request.recorded?).getLast?
  discontiguous := (unit.filterMap Request.declared?).reverse
  warned := (((performAll (before ++ [.openUnit name])).warnings unit).map (·.functor)).reverse
  interned := ((before ++ unit).flatMap Request.uses).eraseDups.length -
    (before.flatMap Request.uses).eraseDups.length

lemma known_of_latest (latest : (noted before name unit).latest = some f) :
    f ∈ (noted before name unit).seen :=
  mem_reverse.2 (mem_eraseDups.2 (mem_of_getLast? latest))

lemma scope_interns {r : Request} (none : r.recorded? = none ∧ r.declared? = none)
    (held : t.scope = some (noted before name unit))
    (holds : t.Holds ((before ++ unit).flatMap Request.uses)) :
    (t.internEach r.uses).scope = some (noted before name (unit ++ [r])) := by
  have more := length_eraseDups_le ((before ++ unit).flatMap Request.uses) r.uses
  have least := length_eraseDups_le (before.flatMap Request.uses) (unit.flatMap Request.uses)
  rw [internEach_eq _ holds, held]
  simp only [noted, warnings_concat, none, filterMap_append, filterMap_cons,
    filterMap_nil, append_nil, flatMap_append, flatMap_singleton,
    map_some, bind_none, toList_none, some.injEq, UnitScope.mk.injEq,
    true_and, ← append_assoc] at more least ⊢
  omega

lemma record_eq {u : UnitScope} (held : t.scope = some u) (f : Functor) : t.record f =
    (if (u.record f).1 then some ⟨f, u.name⟩ else none, { t with scope := some (u.record f).2 }) := by
  rw [record, held]

lemma scope_performAll (before : List Request) (name : String) (unit : List Request)
    (stays : ∀ r ∈ unit, r.inUnit) :
    (performAll (before ++ .openUnit name :: unit)).scope = some (noted before name unit) := by
  induction unit using reverseRecOn with
  | nil => simp [performAll_concat, perform, openUnit, noted, warnings]
  | append_singleton unit r ih =>
    obtain ⟨stays, last⟩ := forall_mem_append.1 stays
    have ih := ih stays
    have opened : unit.foldl perform (performAll (before ++ [.openUnit name])) =
        performAll (before ++ .openUnit name :: unit) := by simp [performAll]
    have holds : (performAll (before ++ .openUnit name :: unit)).Holds
        ((before ++ unit).flatMap Request.uses) := by
      simpa [Request.uses] using holds_performAll (before ++ .openUnit name :: unit)
    rw [← cons_append, ← append_assoc, performAll_concat]
    cases r with
    | openUnit | closeUnit => cases forall_mem_singleton.1 last
    | intern f => exact scope_interns (r := .intern f) ⟨rfl, rfl⟩ ih holds
    | mark c => exact perform_mark _ c ▸ scope_interns (r := .mark c) ⟨rfl, rfl⟩ ih holds
    | declareDiscontiguous f =>
      refine (congrArg (Option.map _) ih).trans ?_
      simp [noted, warnings_concat, Request.recorded?, Request.declared?, Request.uses,
        filterMap_cons]
    | record f =>
      rw [perform, record_eq ih]
      dsimp only
      rw [record_snd known_of_latest]
      have warned := congrArg Prod.fst (record_eq ih f)
      cases apart : ((noted before name unit).record f).1 <;> rw [apart] at warned <;>
        simp [noted, warnings_concat, Request.recorded?, Request.declared?, Request.uses,
          filterMap_cons, opened, warned, eraseDups_concat, apply_ite reverse]

lemma scope_eq_none (rs : List Request)
    (closed : ∀ before name unit, rs = before ++ .openUnit name :: unit → ∃ r ∈ unit, ¬r.inUnit) :
    (performAll rs).scope = none := by
  induction rs using reverseRecOn with
  | nil => rfl
  | append_singleton rs r ih =>
    rw [performAll_concat]
    have interned (fs : List Functor) (none : (performAll rs).scope = none) :
        ((performAll rs).internEach fs).scope = Option.none := by
      rw [internEach_eq fs (holds_performAll rs), none]
      rfl
    have earlier (stays : r.inUnit) : (performAll rs).scope = none := by
      refine ih fun before name unit eq => ?_
      obtain ⟨s, hs, other⟩ := closed before name (unit ++ [r]) (by simp [eq])
      rcases mem_append.1 hs with hs | hs
      · exact ⟨s, hs, other⟩
      · exact absurd (mem_singleton.1 hs ▸ stays) other
    cases r with
    | openUnit name => simpa using closed rs name [] rfl
    | closeUnit => rfl
    | intern f => exact interned [f] (earlier rfl)
    | mark c => exact perform_mark _ c ▸ interned _ (earlier rfl)
    | declareDiscontiguous f => exact congrArg (Option.map _) (earlier rfl)
    | record f => rw [perform, record, earlier rfl]; exact earlier rfl

/-- The keys of the functors that were used number them in order of first use, and stay. A unit that
is closed has noted the predicates recorded in it, each once in order of first record, and the number
of functors first used since it was opened. There is a warning of a clause exactly if its predicate
was recorded in the unit before, though not last, and was neither declared discontiguous in it nor
warned of before. -/
theorem requests_decide (rs : List Request) :
    (∀ f k, (performAll rs).lookup? f = some k ↔ (performAll rs).functor? k = some f) ∧
      (∀ f, (∃ k, (performAll rs).lookup? f = some k) ↔ f ∈ rs.flatMap Request.uses) ∧
      (∀ more f k, (performAll rs).lookup? f = some k →
        (performAll (rs ++ more)).lookup? f = some k) ∧
      (∀ f, (performAll (rs ++ [.intern f])).lookup? f = some ((performAll rs).intern f).1) ∧
      (∀ c, ∀ g ∈ ((performAll rs).mark c).2.1,
        (performAll (rs ++ [.mark c])).lookup? g.functor = some g.key) ∧
      (∀ before name unit, rs = before ++ .openUnit name :: unit → (∀ r ∈ unit, r.inUnit) →
        (performAll rs).closeUnit.1 = some ⟨name, (unit.filterMap Request.recorded?).eraseDups,
          ((unit.flatMap Request.uses).removeAll (before.flatMap Request.uses)).eraseDups.length⟩ ∧
        ∀ f w, ((performAll rs).record f).1 = some w ↔ w = ⟨f, name⟩ ∧
          f ∈ unit.filterMap Request.recorded? ∧
          (unit.filterMap Request.recorded?).getLast? ≠ some f ∧
          f ∉ unit.filterMap Request.declared? ∧
          ∀ v ∈ (performAll (before ++ [.openUnit name])).warnings unit, v.functor ≠ f) ∧
      ((∀ before name unit, rs = before ++ .openUnit name :: unit → ∃ r ∈ unit, ¬r.inUnit) →
        (performAll rs).closeUnit.1 = none ∧ ∀ f, ((performAll rs).record f).1 = none) := by
  have keyed (rs : List Request) (f : Functor) (k : SymbolKey) :
      (performAll rs).lookup? f = some k ↔ (performAll rs).functor? k = some f :=
    (holds_performAll rs).lookup?_iff
  refine ⟨keyed rs, fun f => ?_, fun more f k => ?_, fun f => ?_, fun c => ?_,
    fun before name unit eq stays => ?_, fun closed => ?_⟩
  · simp only [keyed, functor?, (holds_performAll _).functors]
    rw [← mem_eraseDups, mem_iff_getElem?]
    exact ⟨fun ⟨k, h⟩ => ⟨k.index, h⟩, fun ⟨i, h⟩ => ⟨⟨i⟩, h⟩⟩
  · simp only [keyed, functor?, (holds_performAll _).functors, flatMap_append, eraseDups_append]
    exact fun h => List.getElem?_append_left (List.getElem?_eq_some_iff.1 h).1 ▸ h
  · rw [performAll_concat]
    exact lookup?_intern _ f
  · rw [performAll_concat]
    exact lookup?_internAll _ _
  · subst eq
    have held := scope_performAll before name unit stays
    refine ⟨?_, fun f w => ?_⟩
    · simp [closeUnit, held, UnitScope.summary, noted, eraseDups_append]
    · rw [record_eq held, ite_none_right_eq_some, record_fst, and_comm]
      simp [noted, eq_comm]
  · have held := scope_eq_none rs closed
    exact ⟨by rw [closeUnit, held]; rfl, fun f => by rw [record, held]⟩

/-- Clauses of `a/0` on both sides of one of `b/0`. -/
theorem requests_decide_apart :
    let a : Functor := ⟨"a", 0⟩
    let unit : List Request := [.record a, .record ⟨"b", 0⟩]
    (∀ r ∈ unit, r.inUnit) ∧
      ((performAll (.openUnit "u" :: unit)).record a).1 = some ⟨a, "u"⟩ := by
  intro a unit
  have stays : ∀ r ∈ unit, r.inUnit := by decide
  have decided := (requests_decide (.openUnit "u" :: unit)).2.2.2.2.2.1 [] "u" unit rfl stays
  exact ⟨stays, (decided.2 a ⟨a, "u"⟩).2 (by decide)⟩

end SymbolTable

end Horn
