import Horn.Proofs.UnificationSteps

/-!
# Goals of the machine and goals of the search

A goal of a clause is marked where the search has it without marks. Apart from that the machine's
goal has the value of the goal of the search, and what both see at its top is the same.
-/

namespace Horn

open List Term Subst Bindings

namespace Search

open Subst (free moved)

def Moved (place : Nat → Nat) (u t : Term) : Prop := free.apply u = (moved place).apply t

namespace Moved

variable {place : Nat → Nat} {u t : Term} {f : String} {us : List Term} {inner : Term} {b : Builtin}

lemma isVar (h : Moved place u t) : u.isVar = t.isVar := by
  have left : (free.apply u).isVar = u.isVar := by cases u <;> rfl
  have right : ((moved place).apply t).isVar = t.isVar := by cases t <;> rfl
  rw [← left, ← right, h]

lemma number {n : Number} (h : Moved place u t) : u = .number n ↔ t = .number n := by
  have left : free.apply u = .number n ↔ u = .number n := by cases u <;> simp [free, varOf]
  have right : (moved place).apply t = .number n ↔ t = .number n := by
    cases t <;> simp [moved, free, varOf]
  rw [← left, ← right, h]

lemma compound (h : Moved place (.compound f us) t) :
    ∃ ts, t = .compound f ts ∧ Forall₂ (Moved place) us ts := by
  cases t with
  | compound g ts =>
    simp only [Moved, apply_compound, compound.injEq] at h
    obtain ⟨rfl, args⟩ := h
    refine ⟨ts, rfl, ?_⟩
    rwa [← forall₂_eq_eq_eq, forall₂_map_left_iff, forall₂_map_right_iff] at args
  | _ => cases h

lemma of_compound {ts : List Term} (h : Moved place u (.compound f ts)) :
    ∃ us, u = .compound f us ∧ Forall₂ (Moved place) us ts := by
  cases u with
  | compound g us =>
    obtain ⟨ts', eq, args⟩ := h.compound
    cases eq
    exact ⟨us, rfl, args⟩
  | _ => cases h

lemma marked?_inner {id : Int64} {inner' : Term}
    (h : (Term.compound Term.markFunctor [.number (.int id), inner]).marked? = some (b, inner)) :
    (Term.compound Term.markFunctor [.number (.int id), inner']).marked? = some (b, inner') := by
  simp only [marked?] at h ⊢
  split at h
  · next mark =>
    obtain ⟨b', found, eq⟩ := Option.map_eq_some_iff.1 h
    cases eq
    rw [if_pos mark, found]
    rfl
  · cases h

lemma marked (h : Moved place u t) (mark : t.marked? = some (b, inner)) :
    ∃ inner', u.marked? = some (b, inner') ∧ Moved place inner' inner := by
  obtain ⟨id, rfl⟩ := marked?_eq_some mark
  obtain ⟨us, rfl, args⟩ := h.of_compound
  obtain _ | @⟨a, _, _, _, first, _ | @⟨inner', _, _, _, second, _ | _⟩⟩ := args
  rw [first.number.2 rfl]
  exact ⟨inner', marked?_inner mark, second⟩

lemma marked?_of_control (h : isControl ⟨f, us.length⟩ = true) :
    (Term.compound f us).marked? = none := by
  cases mark : (Term.compound f us).marked? with
  | none => rfl
  | some found =>
    obtain ⟨b, inner⟩ := found
    obtain ⟨id, eq⟩ := marked?_eq_some mark
    cases eq
    have plain : isControl ⟨markFunctor, 2⟩ = false := by decide
    exact absurd (plain.symm.trans h) Bool.noConfusion

lemma bareTop (h : Moved place u t) :
    ∃ inner, Moved place inner (bareTop t) ∧
      (inner = u ∨ ∃ b, u.marked? = some (b, inner) ∧ inner.isVar = false) := by
  unfold Search.bareTop
  split
  · exact ⟨u, h, .inl rfl⟩
  · next nonvar =>
    cases mark : t.marked? with
    | none =>
      rw [unmarked, mark]
      exact ⟨u, h, .inl rfl⟩
    | some found =>
      obtain ⟨b, inner⟩ := found
      obtain ⟨inner', mark', moved⟩ := h.marked mark
      rw [unmarked, mark] at nonvar ⊢
      exact ⟨inner', moved, .inr ⟨b, mark', moved.isVar.trans (Bool.eq_false_iff.2 nonvar)⟩⟩

end Moved

namespace Image

variable {i j : Image} {u t : Term} {b : Bindings}

/-- A goal of the machine and the goal of the search that it stands for. -/
inductive Reads (i : Image) : Term → Term → Prop where
  | plain {u t : Term} (shows : i.Shows u t) : Reads i u t
  | marked {u inner t : Term} {b : Builtin} (mark : u.marked? = some (b, inner))
      (nonvar : inner.isVar = false) (shows : i.Shows inner t) : Reads i u t
  | control {u : Term} {f : String} {us ts : List Term} (top : u.unmarked = .compound f us)
      (goals : isControl ⟨f, us.length⟩ = true) (length : us.length = ts.length)
      (args : ∀ pair ∈ us.zip ts, Reads i pair.1 pair.2) : Reads i u (.compound f ts)

lemma Reads.mono (h : i.Reads u t) (before : i.Before j) : j.Reads u t := by
  induction h with
  | plain shows => exact .plain (shows.mono before)
  | marked mark nonvar shows => exact .marked mark nonvar (shows.mono before)
  | control top goals length _ ih => exact .control top goals length ih

lemma mem_ids_bareTop {v : Nat} (h : v ∈ (bareTop t).ids) : v ∈ t.ids := by
  unfold bareTop at h
  split at h
  · exact h
  unfold unmarked at h
  split at h
  · next mark =>
    obtain ⟨id, rfl⟩ := marked?_eq_some mark
    exact mem_ids_compound.2 ⟨_, by simp, h⟩
  · exact h

lemma reads_bare (below : ∀ v ∈ t.ids, v < i.state.next) (h : Moved i.place u t) :
    i.Reads u (bare t) := by
  have whole {t : Term} (below : ∀ v ∈ t.ids, v < i.state.next) {u : Term}
      (h : Moved i.place u t) : i.Reads u (bareTop t) := by
    obtain ⟨inner, moved, eq⟩ := h.bareTop
    have shows : i.Shows inner (bareTop t) :=
      shows_moved (fun v hv => below v (mem_ids_bareTop hv)) moved
    rcases eq with rfl | ⟨b, mark, nonvar⟩
    · exact .plain shows
    · exact .marked mark nonvar shows
  fun_induction bare t generalizing u with
  | case1 t f args top control ih =>
    obtain ⟨inner, moved, eq⟩ := h.bareTop
    rw [top] at moved
    obtain ⟨us, rfl, each⟩ := moved.of_compound
    have unmarked : u.unmarked = .compound f us := by
      rcases eq with rfl | ⟨b, mark, -⟩
      · rw [Term.unmarked, Moved.marked?_of_control (each.length_eq ▸ control)]
      · rw [unmarked, mark]
    simp only [map_subtype, unattach_attach]
    refine .control unmarked (each.length_eq ▸ control) (by simp [each.length_eq]) ?_
    intro pair hp
    rw [zip_map_right, mem_map] at hp
    obtain ⟨⟨x, a⟩, hxa, rfl⟩ := hp
    have ha := (of_mem_zip hxa).2
    refine ih a ha (fun v hv => below v (mem_ids_bareTop ?_)) (forall₂_zip each hxa)
    rw [top]
    exact mem_ids_compound.2 ⟨a, ha, hv⟩
  | case2 t f args top control =>
    rw [← top]
    exact whole below h
  | case3 t other => exact whole below h

lemma Shows.walk (h : i.Shows u t) : i.Shows (i.store.walk u) t :=
  ⟨h.below, by rw [i.solves.walk, h.value]⟩

lemma shows_apply (below : ∀ v ∈ t.ids, v < i.state.next) :
    i.Shows u (i.state.subst.apply t) ↔ i.Shows u t := by
  have same : (moved i.place).apply (i.state.subst.apply (i.state.subst.apply t)) =
      (moved i.place).apply (i.state.subst.apply t) := by
    rw [i.settled.apply_apply, apply_free]
  constructor
  · exact fun h => ⟨below, by rw [h.value, same]⟩
  · exact fun h => ⟨apply_below below, by rw [h.value, same]⟩

structure Meets (i : Image) (u t : Term) : Prop where
  functor : u.functor? = t.functor?
  atom : ∀ a, u.isAtom a = t.isAtom a
  args : List.Forall₂ i.Reads u.args t.args
  whole : ∀ f, t.functor? = some f → isControl f = false → i.Shows u t

lemma Top.meets (top : i.Top u t) (shows : i.Shows u t) : i.Meets u t := by
  have plain {us ts : List Term} (h : List.Forall₂ i.Shows us ts) : List.Forall₂ i.Reads us ts :=
    h.imp fun _ _ => .plain
  cases top with
  | var => exact ⟨rfl, fun _ => rfl, .nil, nofun⟩
  | atom a => exact ⟨rfl, fun _ => rfl, .nil, fun _ _ _ => shows⟩
  | number x => exact ⟨rfl, fun _ => rfl, .nil, nofun⟩
  | compound f args =>
    refine ⟨?_, fun _ => rfl, plain args, fun _ _ _ => shows⟩
    simp [Term.functor?, Term.name?, Term.arity, Term.args, args.length_eq]
  | cell head tail =>
    exact ⟨rfl, fun _ => rfl, plain (.cons head (.cons tail .nil)), fun _ _ _ => shows⟩

lemma Top.of_apply (top : i.Top u (i.state.subst.apply t)) (nonvar : t.isVar = false)
    (below : ∀ v ∈ t.ids, v < i.state.next) : i.Top u t := by
  cases t with
  | atom | number => exact top
  | var name v => cases nonvar
  | compound f ts =>
    rw [apply_compound] at top
    cases top with
    | compound f args =>
      rw [forall₂_map_right_iff] at args
      refine .compound f (forall₂_iff_zip.2 ⟨args.length_eq, fun {x y} hxy => ?_⟩)
      refine (shows_apply fun v hv => below v ?_).1 (forall₂_zip args hxy)
      exact mem_ids_compound.2 ⟨y, (of_mem_zip hxy).2, hv⟩
  | cell h x =>
    rw [apply_cell] at top
    cases top with
    | cell head tail =>
      refine .cell ((shows_apply ?_).1 head) ((shows_apply ?_).1 tail)
      · exact fun v hv => below v (mem_ids_cell.2 (.inl hv))
      · exact fun v hv => below v (mem_ids_cell.2 (.inr hv))

lemma Shows.look (h : i.Shows u t) : i.Shows u (i.state.look t) := by
  cases t with
  | var name v => exact (shows_apply h.below).2 h
  | _ => exact h

lemma Shows.meets (h : i.Shows u t) (walked : i.store.walk u = u) :
    i.Meets u (i.state.look t) := by
  have top := h.top
  rw [walked] at top
  refine Top.meets ?_ h.look
  cases t with
  | var name v => exact top
  | _ => exact top.of_apply rfl h.below

lemma walk_stays (h : ∀ name v, u = .var name v → b.value? v = none) : b.walk u = u := by
  have stays (n : Nat) : b.walkFor n u = u := by
    cases n with
    | zero => rfl
    | succ n =>
      cases u with
      | var name v => rw [walkFor, h name v rfl]
      | _ => rfl
  exact stays _

lemma walk_of_nonvar (nonvar : u.isVar = false) : b.walk u = u :=
  walk_stays fun name v eq => by
    rw [eq] at nonvar
    cases nonvar

lemma walk_walk (u : Term) : i.store.walk (i.store.walk u) = i.store.walk u :=
  walk_stays fun _ _ top => i.sound.walk_unbound top

lemma marked?_eq_none (h : u.functor? ≠ some ⟨markFunctor, 2⟩) :
    u.marked? = none := by
  cases mark : u.marked? with
  | none => rfl
  | some found =>
    obtain ⟨id, rfl⟩ := marked?_eq_some mark
    exact absurd rfl h

lemma Reads.strip (h : i.Reads u t)
    (unreserved : (i.state.look t).functor? ≠ some ⟨Term.markFunctor, 2⟩) :
    i.Meets (i.store.walk u).unmarked (i.state.look t) ∧ i.Reads (i.store.walk u).unmarked t := by
  cases h with
  | plain shows =>
    have meets := shows.walk.meets (walk_walk u)
    rw [← meets.functor] at unreserved
    rw [Term.unmarked, marked?_eq_none unreserved]
    exact ⟨meets, .plain shows.walk⟩
  | @marked _ inner _ _ mark nonvar shows =>
    have stays : i.store.walk u = u := by
      obtain ⟨id, rfl⟩ := Term.marked?_eq_some mark
      exact walk_of_nonvar rfl
    rw [stays, Term.unmarked, mark]
    exact ⟨shows.meets (walk_of_nonvar nonvar), .plain shows⟩
  | @control _ f us ts top goals length args =>
    have stays : i.store.walk u = u := by
      refine walk_stays fun name v eq => ?_
      rw [eq] at top
      cases top
    have again : (Term.compound f us).unmarked = .compound f us := by
      rw [Term.unmarked, Moved.marked?_of_control goals]
    have functor : (Term.compound f us).functor? = (Term.compound f ts).functor? := by
      simp [Term.functor?, Term.name?, Term.arity, Term.args, length]
    rw [stays, top]
    refine ⟨⟨functor, fun _ => rfl, ?_, fun g found plain => ?_⟩, .control again goals length args⟩
    · exact List.forall₂_iff_zip.2 ⟨length, fun hp => args _ hp⟩
    · rw [length] at goals
      cases found
      exact absurd (plain.symm.trans goals) Bool.noConfusion

end Image

end Search

lemma Machine.candidates_sublist (p : Program) (m : Machine) (goal : Term)
    (cs : List CompiledClause) : (candidates p m goal cs).Sublist cs := by
  unfold candidates
  cases goal.arg? 0 with
  | none => exact .refl cs
  | some a => exact dropWhile_sublist _

end Horn
