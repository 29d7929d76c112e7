import Horn.Proofs.TermEquality

/-! # Histories of a domain -/

namespace Horn

open List Term Option Predicate

section Firsts

variable {α : Type} (same : α → α → Bool)

def firsts : List α → List α
  | [] => []
  | a :: as => a :: (firsts as).filter (!same a ·)

lemma firsts_concat (as : List α) (a : α) :
    firsts same (as ++ [a]) =
      if as.any (same · a) then firsts same as else firsts same as ++ [a] := by
  induction as with
  | nil => rfl
  | cons b as ih =>
    rw [cons_append, firsts, ih, any_cons, firsts]
    cases again : same b a <;> cases as.any (same · a) <;> simp [again]

lemma any_firsts (trans : ∀ {a b c}, same a b → same b c → same a c) (as : List α) (a : α) :
    (firsts same as).any (same · a) = as.any (same · a) := by
  induction as with
  | nil => rfl
  | cons b as ih =>
    rw [firsts, List.any_cons, List.any_cons, ← ih, List.any_filter]
    cases first : same b a with
    | true => rfl
    | false =>
      refine congrArg _ (any_congr rfl fun c => ?_)
      cases later : same c a with
      | false => rw [Bool.and_false]
      | true =>
        cases earlier : same b c with
        | false => rfl
        | true => rw [trans earlier later] at first; cases first

lemma firsts_apart (as : List α) : (firsts same as).Pairwise fun a b => same a b = false := by
  induction as with
  | nil => exact .nil
  | cons a as ih =>
    refine .cons (fun b hb => ?_) (ih.filter _)
    simpa using (mem_filter.1 hb).2

end Firsts

lemma Clause.same_trans {c d e : Clause} (h : c.same d) (h' : d.same e) : c.same e := by
  simp only [same, Bool.and_eq_true, decide_eq_true_eq] at h h' ⊢
  obtain ⟨⟨⟨head, body⟩, kind⟩, position⟩ := h
  obtain ⟨⟨⟨head', body'⟩, kind'⟩, position'⟩ := h'
  refine ⟨⟨⟨?_, ?_⟩, kind.trans kind'⟩, position.trans position'⟩
  · cases hc : c.head <;> cases hd : d.head <;> cases he : e.head <;>
      simp only [hc, hd, he, Bool.false_eq_true] at head head' ⊢
    exact Term.same_trans head head'
  · have whole {ss ts : List Term} :
        sameAll ss ts ↔ (compound "" ss).same (.compound "" ts) := by
      simp [sameAll_iff]
    exact whole.2 (Term.same_trans (whole.1 body) (whole.1 body'))

def Clause.FloatFree (c : Clause) : Prop :=
  ∀ t ∈ c.head.toList ++ c.body, ∀ x, .number (.float x) ∉ t.subterms

lemma Clause.same_self {c : Clause} (floatFree : c.FloatFree) : c.same c := by
  have body : sameAll c.body c.body :=
    sameAll_iff.2 (forall₂_same.2 fun t ht =>
      Term.same_self (floatFree t (List.mem_append_right _ ht)))
  have head : ∀ t, c.head = some t → t.same t := fun t ht =>
    Term.same_self (floatFree t (List.mem_append_left _ (by simp [ht])))
  cases hc : c.head with
  | none => simp [same, hc, body]
  | some t => simp [same, hc, body, head t hc]

inductive Addition where
  | clause (c : CompiledClause)
  | dynamic (f : Functor)
  | multifile (f : Functor)

namespace Addition

def functor : Addition → Functor
  | clause c => c.functor
  | dynamic f | multifile f => f

def clause? (f : Functor) : Addition → Option CompiledClause
  | clause c => if c.functor = f then some c else none
  | _ => none

def declares (f : Functor) : Addition → Bool
  | dynamic g => g = f
  | _ => false

def FloatFree : Addition → Prop
  | clause c => c.clause.FloatFree
  | _ => True

def predicate : Addition → Predicate
  | clause c => .ofClause c
  | dynamic f => { empty f with dynamic := true }
  | multifile f => .empty f

lemma functor_predicate (r : Addition) : r.predicate.functor = r.functor := by
  cases r <;> rfl

lemma other {r : Addition} {f : Functor} (h : f ≠ r.functor) :
    r.clause? f = none ∧ r.declares f = false := by
  cases r with
  | clause c => exact ⟨if_neg h.symm, rfl⟩
  | dynamic g => exact ⟨rfl, decide_eq_false h.symm⟩
  | multifile g => exact ⟨rfl, rfl⟩

end Addition

namespace Predicate

def ofHistory (rs : List Addition) (f : Functor) : Predicate where
  functor := f
  clauses := firsts (·.clause.same ·.clause) (rs.filterMap (·.clause? f))
  dynamic := rs.any (·.declares f)

variable {rs : List Addition} {r : Addition} {f : Functor}

lemma ofHistory_other (h : f ≠ r.functor) : ofHistory (rs ++ [r]) f = ofHistory rs f := by
  obtain ⟨clause, declared⟩ := r.other h
  simp [ofHistory, clause, declared]

lemma ofHistory_new (new : f ∉ rs.map Addition.functor) : ofHistory rs f = empty f := by
  have apart : ∀ r ∈ rs, f ≠ r.functor := by
    rintro r hr rfl
    exact new (mem_map_of_mem hr)
  have clauses : rs.filterMap (·.clause? f) = [] :=
    filterMap_eq_nil_iff.2 fun r hr => (r.other (apart r hr)).1
  have declared : rs.any (·.declares f) = false :=
    any_eq_false.2 fun r hr => by simp [(r.other (apart r hr)).2]
  rw [ofHistory, clauses, declared]
  rfl

lemma merge_ofHistory (rs : List Addition) (r : Addition) :
    (ofHistory rs r.functor).merge r.predicate =
      ((ofHistory (rs ++ [r]) r.functor).clauses.length - (ofHistory rs r.functor).clauses.length,
        ofHistory (rs ++ [r]) r.functor) := by
  cases r with
  | dynamic f | multifile f =>
    simp [merge, ofHistory, Addition.predicate, Addition.functor, Addition.clause?,
      Addition.declares, empty]
  | clause c =>
    have known := any_firsts (fun c d : CompiledClause => c.clause.same d.clause)
      Clause.same_trans (rs.filterMap (·.clause? c.functor)) c
    have last : [Addition.clause c].filterMap (·.clause? c.functor) = [c] := by
      simp [Addition.clause?]
    simp only [ofHistory, Addition.functor, filterMap_append, last, firsts_concat, ← known]
    simp only [merge, Addition.predicate, ofClause, foldl_cons, foldl_nil, addClause]
    split <;> simp [Addition.declares]

lemma ofHistory_again (again : r ∈ rs) (floatFree : r.FloatFree) (f : Functor) :
    ofHistory (rs ++ [r]) f = ofHistory rs f := by
  have declared : (rs ++ [r]).any (·.declares f) = rs.any (·.declares f) := by
    rw [any_append, any_cons, any_nil, Bool.or_false]
    cases known : r.declares f with
    | false => exact Bool.or_false _
    | true => rw [Bool.or_true, any_eq_true.2 ⟨r, again, known⟩]
  have clauses : firsts (·.clause.same ·.clause) ((rs ++ [r]).filterMap (·.clause? f)) =
      firsts (·.clause.same ·.clause) (rs.filterMap (·.clause? f)) := by
    rw [filterMap_append]
    cases added : r.clause? f with
    | none => simp [added]
    | some c =>
      have equal : c.clause.same c.clause := by
        cases r with
        | dynamic | multifile => cases added
        | clause d =>
          obtain ⟨-, rfl⟩ : d.functor = f ∧ d = c := by simpa [Addition.clause?] using added
          exact Clause.same_self floatFree
      rw [filterMap_cons, added, filterMap_nil, firsts_concat, if_pos]
      exact any_eq_true.2 ⟨c, mem_filterMap.2 ⟨r, again, added⟩, equal⟩
  rw [ofHistory, declared, clauses]
  rfl

lemma clauses_ofHistory_concat (rs : List Addition) (r : Addition) (f : Functor) :
    ∃ new, (ofHistory (rs ++ [r]) f).clauses = (ofHistory rs f).clauses ++ new := by
  simp only [ofHistory, filterMap_append]
  cases added : r.clause? f with
  | none => exact ⟨[], by simp [added]⟩
  | some c =>
    rw [filterMap_cons, added, filterMap_nil, firsts_concat]
    split
    · exact ⟨[], (append_nil _).symm⟩
    · exact ⟨[c], rfl⟩

lemma merge_empty (r : Addition) :
    (empty r.functor).merge r.predicate = (r.predicate.clauses.length, r.predicate) := by
  cases r <;> rfl

end Predicate

namespace Domain

def seen (rs : List Addition) : List Functor :=
  firsts (fun f g => decide (f = g)) (rs.map (·.functor))

def ofHistory (rs : List Addition) : Domain :=
  ⟨((seen rs).map (Predicate.ofHistory rs)).toArray, (seen rs).zipIdx⟩

def perform (d : Domain) : Addition → Nat × Domain
  | .clause c => d.addClause c
  | .dynamic f => (0, d.declareDynamic f)
  | .multifile f => d.add (.empty f)

def performAll (rs : List Addition) : Domain := rs.foldl (fun d r => (d.perform r).2) .empty

lemma perform_eq (d : Domain) (r : Addition) : d.perform r = d.add r.predicate := by
  cases r with
  | clause | multifile => rfl
  | dynamic f =>
    refine Prod.ext ?_ rfl
    change 0 = (d.add _).1
    unfold add
    split
    · rfl
    · split <;> rfl

lemma lookup_iff_mem {β : Type} {f : Functor} {i : β} {index : List (Functor × β)}
    (once : (index.map (·.1)).Nodup) : index.lookup f = some i ↔ (f, i) ∈ index := by
  induction index with
  | nil => simp
  | cons entry index ih =>
    obtain ⟨g, j⟩ := entry
    obtain ⟨apart, rest⟩ := nodup_cons.1 once
    rw [lookup_cons, mem_cons, ← ih rest]
    by_cases first : f = g
    · subst first
      have absent : index.lookup f ≠ some i := fun h =>
        apart (mem_map_of_mem (f := (·.1)) ((ih rest).1 h))
      simp [absent, eq_comm]
    · have differ : (f == g) = false := by simpa using first
      simp only [differ, Prod.mk.injEq, first, false_and, false_or]

section History

variable {rs : List Addition} {r : Addition} {f : Functor} {i : Nat}

lemma seen_nodup (rs : List Addition) : (seen rs).Nodup :=
  (firsts_apart _ _).imp fun apart => of_decide_eq_false apart

lemma mem_seen : f ∈ seen rs ↔ f ∈ rs.map (·.functor) := by
  have any := any_firsts (fun f g : Functor => decide (f = g)) (by simp_all) (rs.map (·.functor)) f
  rw [seen]
  simpa using Bool.eq_iff_iff.1 any

lemma seen_concat (rs : List Addition) (r : Addition) :
    seen (rs ++ [r]) = if r.functor ∈ seen rs then seen rs else seen rs ++ [r.functor] := by
  have any : (rs.map (·.functor)).any (fun f => decide (f = r.functor)) ↔ r.functor ∈ seen rs := by
    rw [mem_seen]
    simp
  conv => lhs; rw [seen, map_append, map_singleton, firsts_concat]
  simp only [any]
  rfl

lemma lookup_ofHistory : (ofHistory rs).index.lookup f = some i ↔ (seen rs)[i]? = some f := by
  rw [lookup_iff_mem]
  · exact mk_mem_zipIdx_iff_getElem?
  · rw [ofHistory, zipIdx_map_fst]
    exact seen_nodup rs

lemma getElem?_ofHistory (rs : List Addition) (i : Nat) :
    (ofHistory rs).predicates[i]? = (seen rs)[i]?.map (Predicate.ofHistory rs) := by
  simp [ofHistory]

lemma find?_ofHistory (rs : List Addition) (f : Functor) : (ofHistory rs).find? f =
    if f ∈ seen rs then some (Predicate.ofHistory rs f) else none := by
  rw [find?]
  split
  · next known =>
    obtain ⟨i, place⟩ := getElem?_of_mem known
    rw [lookup_ofHistory.2 place, bind_some, getElem?_ofHistory, place]
    rfl
  · next unknown =>
    cases found : (ofHistory rs).index.lookup f with
    | none => rfl
    | some i => exact absurd (mem_of_getElem? (lookup_ofHistory.1 found)) unknown

lemma set_ofHistory (place : (seen rs)[i]? = some r.functor) :
    ((seen rs).map (Predicate.ofHistory rs)).set i (Predicate.ofHistory (rs ++ [r]) r.functor) =
      (seen rs).map (Predicate.ofHistory (rs ++ [r])) := by
  have inside := (List.getElem?_eq_some_iff.1 place).1
  refine ext_getElem? fun j => ?_
  rw [getElem?_set, getElem?_map, getElem?_map, length_map, if_pos inside]
  split
  · next same => rw [← same, place, map_some]
  · next apart =>
    cases other : (seen rs)[j]? with
    | none => rfl
    | some g =>
      have differ : g ≠ r.functor := by
        rintro rfl
        exact apart ((getElem?_inj inside (seen_nodup rs)).1 (place.trans other.symm))
      simp [ofHistory_other differ]

lemma add_ofHistory (rs : List Addition) (r : Addition) :
    (ofHistory rs).add r.predicate =
      ((Predicate.ofHistory (rs ++ [r]) r.functor).clauses.length -
        (Predicate.ofHistory rs r.functor).clauses.length, ofHistory (rs ++ [r])) := by
  have merged := Predicate.merge_ofHistory rs r
  have functors := seen_concat rs r
  -- a known predicate is changed in its place, a new one comes last
  by_cases known : r.functor ∈ seen rs
  · obtain ⟨i, place⟩ := List.getElem?_of_mem known
    rw [if_pos known] at functors
    have found := lookup_ofHistory.2 place
    have old := getElem?_ofHistory rs i
    rw [place, Option.map_some] at old
    simp only [add, r.functor_predicate, found, old, merged]
    rw [ofHistory, ofHistory, functors, List.setIfInBounds_toArray, set_ofHistory place]
  · rw [if_neg known] at functors
    have fresh := Predicate.ofHistory_new (mem_seen.not.1 known)
    rw [fresh, Predicate.merge_empty] at merged
    have merged : r.predicate = Predicate.ofHistory (rs ++ [r]) r.functor := congrArg Prod.snd merged
    have unknown : (ofHistory rs).index.lookup r.functor = none := by
      cases found : (ofHistory rs).index.lookup r.functor with
      | none => rfl
      | some i => exact absurd (List.mem_of_getElem? (lookup_ofHistory.1 found)) known
    have others : (seen rs).map (Predicate.ofHistory (rs ++ [r])) =
        (seen rs).map (Predicate.ofHistory rs) := by
      refine List.map_congr_left fun f hf => Predicate.ofHistory_other ?_
      rintro rfl
      exact known hf
    simp only [add, r.functor_predicate, unknown, fresh, ← merged]
    rw [ofHistory, ofHistory, functors, List.map_append, others, List.map_singleton, ← merged,
      List.zipIdx_append]
    simp [Predicate.empty]

lemma foldl_perform (before rs : List Addition) :
    rs.foldl (fun d r => (d.perform r).2) (ofHistory before) = ofHistory (before ++ rs) := by
  induction rs generalizing before with
  | nil => rw [append_nil, foldl_nil]
  | cons r rs ih => rw [foldl_cons, perform_eq, add_ofHistory, ih, append_assoc]; rfl

lemma performAll_eq (rs : List Addition) : performAll rs = ofHistory rs := foldl_perform [] rs

/-- A domain holds what its history says: each functor once, in the order in which they were first
seen, with its place, its clauses and whether it was declared dynamic. -/
structure Holds (d : Domain) (rs : List Addition) : Prop where
  functors : d.predicates.toList.map (·.functor) = seen rs
  index : ∀ f i, d.index.lookup f = some i ↔ d.predicates[i]?.map (·.functor) = some f
  clauses : ∀ p ∈ d.predicates,
    p.clauses = firsts (·.clause.same ·.clause) (rs.filterMap (·.clause? p.functor))
  dynamic : ∀ p ∈ d.predicates, p.dynamic = true ↔ .dynamic p.functor ∈ rs

lemma holds_ofHistory (rs : List Addition) : (ofHistory rs).Holds rs where
  functors := by
    rw [ofHistory, List.map_map]
    exact map_id _
  index f i := by
    rw [lookup_ofHistory, getElem?_ofHistory, Option.map_map]
    exact iff_of_eq (congrArg (· = some f) map_id'.symm)
  clauses p hp := by
    obtain ⟨f, -, rfl⟩ : ∃ f ∈ seen rs, Predicate.ofHistory rs f = p := by
      simpa [ofHistory] using hp
    rfl
  dynamic p hp := by
    obtain ⟨f, -, rfl⟩ : ∃ f ∈ seen rs, Predicate.ofHistory rs f = p := by
      simpa [ofHistory] using hp
    change rs.any (·.declares f) = true ↔ .dynamic f ∈ rs
    rw [List.any_eq_true]
    constructor
    · rintro ⟨r, hr, declared⟩
      cases r with
      | clause | multifile => cases declared
      | dynamic g => rwa [of_decide_eq_true declared] at hr
    · exact fun h => ⟨_, h, decide_eq_true rfl⟩

def clausesOf (d : Domain) (f : Functor) : List CompiledClause :=
  ((d.find? f).map (·.clauses)).getD []

lemma clausesOf_ofHistory (rs : List Addition) (f : Functor) :
    (ofHistory rs).clausesOf f = (Predicate.ofHistory rs f).clauses := by
  rw [clausesOf, find?_ofHistory]
  split
  · rfl
  · next unknown => rw [ofHistory_new (mem_seen.not.1 unknown)]; rfl

lemma ofHistory_again (again : r ∈ rs) (floatFree : r.FloatFree) :
    ofHistory (rs ++ [r]) = ofHistory rs := by
  have known : seen (rs ++ [r]) = seen rs := by
    rw [seen_concat, if_pos (mem_seen.2 (mem_map_of_mem again))]
  rw [ofHistory, known, funext (Predicate.ofHistory_again again floatFree)]
  rfl

/-- After any history a domain holds what was added to it. The next request adds its new clauses
after those that are there and tells how many. A request without floats that was made before adds
nothing and changes nothing. -/
theorem history_decides (rs : List Addition) :
    (performAll rs).Holds rs ∧
      (∀ r, ∃ new, ((performAll rs).perform r).2.clausesOf r.functor =
          (performAll rs).clausesOf r.functor ++ new ∧
        ((performAll rs).perform r).1 = new.length) ∧
      ∀ r ∈ rs, r.FloatFree → (performAll rs).perform r = (0, performAll rs) := by
  rw [performAll_eq]
  refine ⟨holds_ofHistory rs, fun r => ?_, fun r again floatFree => ?_⟩
  · obtain ⟨new, added⟩ := clauses_ofHistory_concat rs r r.functor
    refine ⟨new, ?_, ?_⟩
    · rw [perform_eq, add_ofHistory, clausesOf_ofHistory, clausesOf_ofHistory, added]
    · rw [perform_eq, add_ofHistory, added, length_append, Nat.add_sub_cancel_left]
  · rw [perform_eq, add_ofHistory, ofHistory_again again floatFree,
      Predicate.ofHistory_again again floatFree, Nat.sub_self]

end History

/-- A fact that comes again after a declaration is not added again. -/
theorem history_decides_repeated :
    let p : PreparedClause :=
      ⟨⟨some (.compound "p" [.int 1]), [], .fact, ⟨1, 1⟩⟩, some ⟨0⟩, [], []⟩
    ∃ c, p.compileClause true = .ok c ∧
      let d := performAll [.clause c, .dynamic ⟨"q", 0⟩]
      d.clausesOf ⟨"p", 1⟩ = [c] ∧ d.perform (.clause c) = (0, d) := by
  intro p
  have accepted : p.compileClause true = .ok ⟨⟨"p", 1⟩, ⟨0⟩, p.clause,
      [.getConstant (.int 1) 1, .proceed], 0, []⟩ := by decide +kernel
  refine ⟨_, accepted, by decide +kernel, ?_⟩
  refine (history_decides _).2.2 _ (mem_cons_self ..) fun t ht x => ?_
  cases mem_singleton.1 ht
  simp [subterms, subtermsAll, int]

end Domain

end Horn
