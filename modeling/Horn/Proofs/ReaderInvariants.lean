import Horn.Proofs.WordReading
import Mathlib.Data.List.Pairwise

/-!
# What the reader returns

`Assigned vs l vs'` says that the occurrences `l` of variables are numbered from `vs` on and leave
`vs'`.
-/

namespace Horn

open Text List Term

namespace Reader

/-- Occurrences of variables, each with its number: a known name has the number it was given, a new
one and every anonymous one the next. -/
inductive Assigned : Numbering → List (String × Nat) → Numbering → Prop where
  | nil {vs : Numbering} : Assigned vs [] vs
  | anonymous {ids : List (String × Nat)} {next : Nat} {rest : List (String × Nat)}
      {vs' : Numbering} (others : Assigned (ids, next + 1) rest vs') :
      Assigned (ids, next) (("_", next) :: rest) vs'
  | known {ids : List (String × Nat)} {next : Nat} {rest : List (String × Nat)} {vs' : Numbering}
      {name : String} {id : Nat} (proper : name ≠ "_")
      (found : ids.find? (·.1 = name) = some (name, id)) (others : Assigned (ids, next) rest vs') :
      Assigned (ids, next) ((name, id) :: rest) vs'
  | new {ids : List (String × Nat)} {next : Nat} {rest : List (String × Nat)} {vs' : Numbering}
      {name : String} (proper : name ≠ "_") (missing : ids.find? (·.1 = name) = none)
      (others : Assigned (ids ++ [(name, next)], next + 1) rest vs') :
      Assigned (ids, next) ((name, next) :: rest) vs'

lemma Assigned.append {vs vs' vs'' : Numbering} {l l' : List (String × Nat)}
    (h : Assigned vs l vs') (h' : Assigned vs' l' vs'') : Assigned vs (l ++ l') vs'' := by
  induction h with
  | nil => exact h'
  | anonymous _ ih => exact .anonymous (ih h')
  | known proper found _ ih => exact .known proper found (ih h')
  | new proper missing _ ih => exact .new proper missing (ih h')

/-- A numbering, and the names of the variables that were read, one for each occurrence. -/
abbrev Tally := Numbering × List String

def Counted (vs : Tally) (l : List (String × Nat)) (vs' : Tally) : Prop :=
  Assigned vs.1 l vs'.1 ∧ vs'.2 = vs.2 ++ l.map Prod.fst

variable {vs vs'' : Tally} {t : Term}

lemma Counted.nil : Counted vs [] vs := ⟨.nil, by simp⟩

lemma Counted.append {vs' : Tally} {l l' : List (String × Nat)} (h : Counted vs l vs')
    (h' : Counted vs' l' vs'') : Counted vs (l ++ l') vs'' :=
  ⟨h.1.append h'.1, by simp [h.2, h'.2]⟩

def numbering (r : Reader) : Numbering := (r.varIds, r.nextVar)

/-- A normal term has been read, and its variables are what was counted meanwhile. -/
def TermRead (vs : Tally) (t : Term) (vs' : Tally) : Prop :=
  t.Normal ∧ Counted vs t.namedVars vs'

def ListRead (vs : Tally) (ts : List Term) (vs' : Tally) : Prop :=
  (∀ t ∈ ts, t.Normal) ∧ Counted vs (ts.flatMap Term.namedVars) vs'

lemma ListRead.nil (vs : Tally) : ListRead vs [] vs := ⟨nofun, .nil⟩

lemma ListRead.snoc {vs' : Tally} {ts : List Term} (h : ListRead vs ts vs')
    (ht : TermRead vs' t vs'') : ListRead vs (ts ++ [t]) vs'' := by
  refine ⟨fun s hs => ?_, ?_⟩
  · rcases mem_append.1 hs with hs | hs
    · exact h.1 s hs
    · rw [mem_singleton.1 hs]
      exact ht.1
  · rw [flatMap_append, flatMap_singleton]
    exact h.2.append ht.2

lemma varNamed_read {name : String} {r r' : Reader} (run : varNamed name r = .ok t r')
    (ws : List String) : TermRead (r.numbering, ws) t (r'.numbering, ws ++ [name]) := by
  unfold varNamed at run
  split at run
  · next anonymous =>
    subst anonymous
    cases run
    exact ⟨kind_normal.var _ _, .anonymous .nil, rfl⟩
  · next proper =>
    rw [get_bind] at run
    cases found : r.varIds.find? (·.1 = name) with
    | some entry =>
      rw [found] at run
      cases run
      have same : entry.1 = name := by simpa using find?_some found
      obtain ⟨k, id⟩ := entry
      cases same
      exact ⟨kind_normal.var _ _, .known proper found .nil, rfl⟩
    | none =>
      rw [found] at run
      cases run
      exact ⟨kind_normal.var _ _, .new proper found .nil, rfl⟩

end Reader

namespace Term

lemma namedVars_build (f : String) (args : List Term) :
    (build f args).namedVars = args.flatMap namedVars := by
  by_cases some : args = []
  · subst some
    rfl
  by_cases list : f = "." ∧ args.length = 2
  · obtain ⟨rfl, two⟩ := list
    match args, two with
    | [a, b], _ =>
      rw [flatMap_cons, flatMap_singleton]
      exact namedVars_cell a b
  · rw [build_eq_compound some list, namedVars_compound]

lemma normal_listTo {items : List Term} {tail : Term} (hi : ∀ t ∈ items, t.Normal)
    (ht : tail.Normal) : (listTo items tail).Normal := by
  induction items with
  | nil => exact ht
  | cons a items ih =>
    obtain ⟨first, others⟩ := forall_mem_cons.1 hi
    exact normal_cell.2 ⟨first, ih others⟩

lemma namedVars_listTo (items : List Term) (tail : Term) :
    (listTo items tail).namedVars = items.flatMap namedVars ++ tail.namedVars := by
  induction items with
  | nil => rfl
  | cons a items ih =>
    change (cell a (listTo items tail)).namedVars = _
    rw [namedVars_cell, ih, flatMap_cons, append_assoc]

end Term

namespace Reader

variable {t : Term} {vs' vs : Tally} {items ts : List Term} {vs'' : Tally}

lemma TermRead.ground (normal : t.Normal) (none : t.namedVars = []) (vs : Tally) :
    TermRead vs t vs :=
  ⟨normal, none ▸ .nil⟩

lemma TermRead.atomic (h : t.isAtomic) (vs : Tally) : TermRead vs t vs := by
  cases t with
  | atom a => exact .ground (kind_normal.atom a) rfl vs
  | number n => exact .ground (kind_normal.number n) rfl vs
  | _ => cases h

lemma ListRead.cons (ht : TermRead vs t vs') (h : ListRead vs' ts vs'') :
    ListRead vs (t :: ts) vs'' := by
  refine ⟨forall_mem_cons.2 ⟨ht.1, h.1⟩, ?_⟩
  rw [flatMap_cons]
  exact ht.2.append h.2

lemma ListRead.build (h : ListRead vs ts vs') (f : String) : TermRead vs (.build f ts) vs' :=
  ⟨normal_build h.1, namedVars_build f ts ▸ h.2⟩

lemma TermRead.single (h : TermRead vs t vs') : ListRead vs [t] vs' :=
  (ListRead.nil vs).snoc h

lemma ListRead.listTo {tail : Term} (h : ListRead vs items vs') (ht : TermRead vs' tail vs'') :
    TermRead vs (.listTo items tail) vs'' :=
  ⟨normal_listTo h.1 ht.1, namedVars_listTo items tail ▸ h.2.append ht.2⟩

lemma TermRead.atoms (h : ∀ t ∈ items, t.isAtomic) (vs : Tally) : TermRead vs (.list items) vs := by
  have read : ListRead vs items vs := by
    refine ⟨fun t ht => (TermRead.atomic (h t ht) vs).1, ?_⟩
    have none : items.flatMap namedVars = [] := by
      refine flatMap_eq_nil_iff.2 fun t ht => ?_
      cases t with
      | atom | number => rfl
      | _ => exact absurd (h _ ht) (by simp [isAtomic])
    rw [none]
    exact .nil
  exact read.listTo (.atomic rfl vs)

lemma codes_read (text : String) (vs : Tally) : TermRead vs (codes text) vs := by
  refine .atoms (fun t ht => ?_) vs
  obtain ⟨c, _, rfl⟩ := mem_map.1 ht
  rfl

lemma doubleQuoted_read (quotes : DoubleQuotes) (text : String) (vs : Tally) :
    TermRead vs (doubleQuoted quotes text) vs := by
  cases quotes with
  | codes => exact codes_read text vs
  | chars =>
    refine .atoms (fun t ht => ?_) vs
    obtain ⟨c, _, rfl⟩ := mem_map.1 ht
    rfl
  | atom => exact .atomic rfl vs

end Reader

namespace Term

/-- What gathering variables does at one occurrence. -/
def noteVar (seen : List Term) (v : String × Nat) : List Term :=
  if seen.any (·.same (.var v.1 v.2)) then seen else .var v.1 v.2 :: seen

lemma gatherVars_eq_foldl (t : Term) :
    ∀ seen, gatherVars seen t = t.namedVars.foldl noteVar seen := by
  induction t using induct with
  | atom | number | var => exact fun _ => rfl
  | cell h t ihh iht =>
    intro seen
    rw [gatherVars, ihh, iht, namedVars_cell, foldl_append]
  | compound f args ih =>
    intro seen
    rw [gatherVars, namedVars_compound]
    induction args generalizing seen with
    | nil => rfl
    | cons a args ih' =>
      obtain ⟨first, others⟩ := forall_mem_cons.1 ih
      rw [gatherAllVars, first, ih' others, flatMap_cons, foldl_append]

/-- The variables have the numbers from zero on, the latest first. -/
def Ordered (seen : List Term) : Prop :=
  ∀ i v, seen.reverse[i]? = some v → ∃ name, v = var name i

variable {seen : List Term}

lemma Ordered.cons (h : Ordered seen) (name : String) :
    Ordered (.var name seen.length :: seen) := by
  intro i v hi
  rw [reverse_cons] at hi
  by_cases earlier : i < seen.reverse.length
  · rw [getElem?_append_left earlier] at hi
    exact h i v hi
  · rw [getElem?_append_right (Nat.not_lt.1 earlier)] at hi
    have place : i = seen.length := by
      have := (List.getElem?_eq_some_iff.1 hi).1
      simp only [length_reverse, length_singleton] at this earlier
      omega
    subst place
    simp only [length_reverse, Nat.sub_self, getElem?_cons_zero] at hi
    exact ⟨name, (Option.some.inj hi).symm⟩

lemma Ordered.findIdx? (h : Ordered seen) (name : String) (id : Nat) :
    seen.reverse.findIdx? (·.same (.var name id)) = if id < seen.length then some id else none := by
  split
  · next bound =>
    have bound : id < seen.reverse.length := by rwa [length_reverse]
    refine findIdx?_eq_some_iff_getElem.2 ⟨bound, ?_, fun j earlier => ?_⟩
    · obtain ⟨name', eq⟩ := h id _ (getElem?_eq_getElem bound)
      simp [eq, same]
    · obtain ⟨name', eq⟩ := h j _ (getElem?_eq_getElem (Nat.lt_trans earlier bound))
      simp [eq, same, Nat.ne_of_lt earlier]
  · next bound =>
    refine findIdx?_eq_none_iff.2 fun v hv => ?_
    obtain ⟨i, hi, rfl⟩ := getElem_of_mem hv
    obtain ⟨name', eq⟩ := h i _ (getElem?_eq_getElem hi)
    rw [length_reverse] at hi
    simp only [eq, same, decide_eq_false_iff_not]
    omega

lemma Ordered.any (h : Ordered seen) (name : String) (id : Nat) :
    seen.any (·.same (.var name id)) = decide (id < seen.length) := by
  rw [← any_reverse, ← findIdx?_isSome, h.findIdx?]
  split <;> simp_all

end Term

namespace Reader

open Term

lemma noteVar_new {seen : List Term} (h : Ordered seen) (name : String) :
    noteVar seen (name, seen.length) = .var name seen.length :: seen := by
  rw [noteVar, h.any, decide_eq_false (Nat.lt_irrefl _)]
  rfl

/-- Two occurrences have one number exactly when they have one name that is not anonymous. -/
def SameNumber (v w : String × Nat) : Prop := v.2 = w.2 ↔ v.1 = w.1 ∧ v.1 ≠ "_"

instance : Std.Symm SameNumber := ⟨fun _ _ h => by grind [SameNumber]⟩

/-- What the occurrences `l` of variables have led to. -/
structure Numbered (l : List (String × Nat)) (vs : Numbering) : Prop where
  ids : vs.1 = (l.filter (·.1 ≠ "_")).eraseDups
  below : ∀ v ∈ l, v.2 < vs.2
  apart : l.Pairwise SameNumber
  ordered : Ordered (l.foldl noteVar [])
  length : (l.foldl noteVar []).length = vs.2

namespace Numbered

variable {l : List (String × Nat)} {ids : List (String × Nat)} {next : Nat} {vs : Numbering}
  {v w : String × Nat} {name : String}

lemma none : Numbered [] ([], 0) := ⟨rfl, nofun, .nil, nofun, rfl⟩

lemma mem_ids (h : Numbered l vs) : v ∈ vs.1 ↔ v ∈ l ∧ v.1 ≠ "_" := by
  simp [h.ids]

lemma eq_of_number (h : Numbered l vs) (hv : v ∈ l) (hw : w ∈ l) (same : v.2 = w.2) : v = w := by
  by_contra other
  exact other (Prod.ext ((h.apart.forall hv hw other).1 same).1 same)

lemma eq_of_name (h : Numbered l vs) (hv : v ∈ l) (hw : w ∈ l) (same : v.1 = w.1)
    (proper : v.1 ≠ "_") : v = w := by
  by_contra other
  exact other (Prod.ext same ((h.apart.forall hv hw other).2 ⟨same, proper⟩))

lemma given (h : Numbered l (ids, next)) (fresh : ∀ v ∈ l, v.1 = name → name = "_")
    (ids' : vs.1 = ((l ++ [(name, next)]).filter (·.1 ≠ "_")).eraseDups) (hn : vs.2 = next + 1) :
    Numbered (l ++ [(name, next)]) vs := by
  have note : (l ++ [(name, next)]).foldl noteVar [] =
      .var name next :: l.foldl noteVar [] := by
    have last := noteVar_new h.ordered name
    rw [h.length] at last
    rw [foldl_append, foldl_cons, foldl_nil, last]
  refine ⟨ids', ?_, ?_, ?_, ?_⟩
  · intro v hv
    rcases mem_append.1 hv with hv | hv
    · have := h.below v hv
      omega
    · simp_all
  · refine pairwise_append.2 ⟨h.apart, pairwise_singleton _ _, fun v hv w hw => ?_⟩
    rw [mem_singleton.1 hw]
    have := h.below v hv
    have := fresh v hv
    constructor
    · simp_all
      omega
    · simp_all
  · have last := h.ordered.cons name
    rwa [h.length, ← note] at last
  · rw [note, length_cons, h.length, hn]

lemma again (h : Numbered l vs) (hv : v ∈ vs.1) : Numbered (l ++ [v]) vs := by
  obtain ⟨earlier, proper⟩ := h.mem_ids.1 hv
  refine ⟨?_, ?_, ?_, ?_, ?_⟩
  · simp [h.ids, proper, eraseDups_append, removeAll, earlier]
  · intro w hw
    rcases mem_append.1 hw with hw | hw
    · exact h.below w hw
    · rw [mem_singleton.1 hw]
      exact h.below v earlier
  · refine pairwise_append.2 ⟨h.apart, pairwise_singleton _ _, fun w hw u hu => ?_⟩
    rw [mem_singleton.1 hu]
    constructor
    · intro same
      rw [h.eq_of_number hw earlier same]
      exact ⟨rfl, proper⟩
    · intro same
      rw [h.eq_of_name hw earlier same.1 same.2]
  all_goals
    have seen : noteVar (l.foldl noteVar []) v = l.foldl noteVar [] := by
      rw [noteVar, h.ordered.any, h.length, decide_eq_true (h.below v earlier)]
      rfl
    rw [foldl_append, foldl_cons, foldl_nil, seen]
  · exact h.ordered
  · exact h.length

lemma assigned {vs' : Numbering} {l' : List (String × Nat)} (h : Numbered l vs)
    (more : Assigned vs l' vs') : Numbered (l ++ l') vs' := by
  induction more generalizing l with
  | nil => rwa [append_nil]
  | anonymous _ ih =>
    rw [append_cons]
    refine ih (h.given (fun _ _ _ => rfl) ?_ rfl)
    simpa using h.ids
  | known _ found _ ih =>
    rw [append_cons]
    exact ih (h.again (mem_of_find?_eq_some found))
  | @new ids next rest vs' name proper missing _ ih =>
    have fresh : ∀ v ∈ l, v.1 = name → name = "_" := by
      intro v hv same
      by_contra
      have := find?_eq_none.1 missing v (h.mem_ids.2 ⟨hv, same ▸ proper⟩)
      simp_all
    rw [append_cons]
    refine ih (h.given fresh ?_ rfl)
    have missing : (name, next) ∉ l := fun earlier => Nat.lt_irrefl _ (h.below _ earlier)
    simpa [proper, eraseDups_append, removeAll, missing, eraseDups_cons] using h.ids

end Numbered

variable {ws : List String} {vs : Tally} {t : Term}

lemma TermRead.numbered (h : TermRead (([], 0), ws) t vs) : Numbered t.namedVars vs.1 :=
  Numbered.none.assigned h.2.1

/-- The number of a variable is its place among those of the term. -/
lemma TermRead.place (h : TermRead (([], 0), ws) t vs) {name : String} {id : Nat}
    (hv : (name, id) ∈ t.namedVars) : t.vars.findIdx (·.same (.var name id)) = id := by
  rw [vars, gatherVars_eq_foldl, findIdx_eq_getD_findIdx?, h.numbered.ordered.findIdx?,
    h.numbered.length, if_pos (h.numbered.below _ hv)]
  rfl

end Reader

end Horn
