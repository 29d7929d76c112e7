import Horn.Engine
import Horn.Proofs.CallPlans

/-!
# Running marked goals

A variable as a goal is marked as a call of its value, which keeps the cuts of that value to itself,
so there the two runs can part.
-/

namespace Horn

open List Term Machine Option Array Search

variable {p : Program}

namespace Term

def constructs : List Functor := [⟨",", 2⟩, ⟨";", 2⟩, ⟨"->", 2⟩, ⟨"*->", 2⟩, ⟨"\\+", 1⟩]

mutual

/-- No goal that the control constructs lead to is a variable. -/
def goalsKnown : Term → Bool
  | .var _ _ => false
  | .compound f args => !constructs.contains ⟨f, args.length⟩ || allGoalsKnown args
  | _ => true

def allGoalsKnown : List Term → Bool
  | [] => true
  | a :: as => goalsKnown a && allGoalsKnown as

end

lemma allGoalsKnown_eq (ts : List Term) : allGoalsKnown ts = ts.all goalsKnown := by
  induction ts with
  | nil => rfl
  | cons t ts ih => rw [allGoalsKnown, ih, all_cons]

lemma markAll_eq (ts : List Term) : markAll ts = ts.map mark := by
  induction ts with
  | nil => rfl
  | cons t ts ih => rw [markAll, ih, map_cons]

end Term

lemma isControl_eq (f : Functor) : isControl f = Term.constructs.contains f := by
  have marked : ∀ e ∈ Builtin.catalogue, e.1.goalArgs.isEmpty = !Term.constructs.contains e.2 := by
    decide
  have listed : ∀ f ∈ Term.constructs, (Builtin.lookup? f).isSome = true := by decide
  unfold isControl
  cases found : Builtin.lookup? f with
  | some b => simp only [Option.any_some, marked _ (Builtin.mem_catalogue found), Bool.not_not]
  | none =>
    have other : f ∉ Term.constructs := fun h => by simpa [found] using listed f h
    simpa using other

namespace Term

lemma goalsKnown_args {f : String} {args : List Term}
    (known : (compound f args).goalsKnown = true) (control : isControl ⟨f, args.length⟩ = true) :
    ∀ a ∈ args, a.goalsKnown = true := by
  rw [goalsKnown, ← isControl_eq, control, allGoalsKnown_eq] at known
  simpa using known

lemma unmarked_withMark {f : Functor} {b : Builtin} (listed : Builtin.lookup? f = some b)
    (goal : Term) : (withMark b goal).unmarked = goal := by
  have ids : ∀ e ∈ Builtin.catalogue, 0 ≤ (Int64.ofNat e.1.id).toInt ∧
      Builtin.ofId? (Int64.ofNat e.1.id).toInt.toNat = some e.1 := by decide
  obtain ⟨positive, found⟩ := ids _ (Builtin.mem_catalogue listed)
  have mark : (withMark b goal).marked? = some (b, goal) := by
    simp only [withMark, int, marked?, positive, found, decide_true, Bool.and_self, if_true,
      map_some]
  rw [unmarked, mark]

variable {t : Term}

lemma unmarked_bare (bare : t.marked? = none) : t.unmarked = t := by
  rw [unmarked, bare]

lemma mark_of_marked {found : Builtin × Term} (h : t.marked? = some found) : t.mark = t := by
  obtain ⟨id, rfl⟩ := marked?_eq_some h
  rw [mark, if_pos (by rw [h]; rfl)]

lemma unmarked_mark {f : String} {args : List Term} (bare : (compound f args).marked? = none) :
    (compound f args).mark.unmarked =
      compound f (if isControl ⟨f, args.length⟩ then args.map mark else args) := by
  rw [mark, if_neg (by rw [bare]; exact Bool.false_ne_true)]
  cases listed : Builtin.lookup? ⟨f, args.length⟩ with
  | none => rw [isControl, listed, unmarked_bare bare]; rfl
  | some b =>
    rw [isControl, listed]
    simp only [unmarked_withMark listed, markAll_eq, Option.any_some, Bool.not_eq_true']
    cases b.goalArgs.isEmpty <;> rfl

lemma unmarked_mark_atom (a : String) : (atom a).mark.unmarked = atom a := by
  rw [mark]
  cases listed : Builtin.lookup? ⟨a, 0⟩ with
  | none => rfl
  | some b => exact unmarked_withMark listed _

lemma idBoundFrom_mark (t : Term) (bound : Nat) :
    t.mark.idBoundFrom bound = t.idBoundFrom bound := by
  induction t using induct generalizing bound with
  | atom a =>
    rw [mark]
    split <;> rfl
  | number | var | cell => rfl
  | compound f args ih =>
    have all (ts : List Term) (sub : ts ⊆ args) (bound : Nat) :
        idBoundAllFrom bound (markAll ts) = idBoundAllFrom bound ts := by
      induction ts generalizing bound with
      | nil => rfl
      | cons t ts ihts =>
        rw [markAll, idBoundAllFrom, idBoundAllFrom, ih t (sub mem_cons_self),
          ihts fun _ h => sub (mem_cons_of_mem _ h)]
    rw [mark]
    split
    · rfl
    split
    · rfl
    · split
      · rfl
      · exact all args (Subset.refl _) bound

section Renaming

open Bindings (rename)

variable (base : Nat)

lemma rename_compound (g : String) (args : List Term) :
    rename base (compound g args) = compound g (args.map (rename base)) := by
  rw [rename, mapVars, mapAllVars_eq]
  rfl

lemma isSome_marked?_rename (t : Term) : (rename base t).marked?.isSome = t.marked?.isSome := by
  rw [Bool.eq_iff_iff, Option.isSome_iff_exists, Option.isSome_iff_exists]
  constructor
  · rintro ⟨⟨b, inner⟩, mark⟩
    obtain ⟨id, eq⟩ := marked?_eq_some mark
    cases t with
    | compound g args =>
      rw [rename_compound, compound.injEq] at eq
      obtain ⟨rfl, eq⟩ := eq
      obtain ⟨a, _, rfl, first, more⟩ := map_eq_cons_iff.1 eq
      obtain ⟨goal, _, rfl, rfl, none⟩ := map_eq_cons_iff.1 more
      obtain rfl := map_eq_nil_iff.1 none
      cases a with
      | number n =>
        cases first
        exact ⟨_, Moved.marked?_inner mark⟩
      | _ => cases first
    | _ => cases eq
  · rintro ⟨⟨b, inner⟩, mark⟩
    obtain ⟨id, rfl⟩ := marked?_eq_some mark
    exact ⟨_, Moved.marked?_inner mark⟩

lemma mark_rename (t : Term) : (rename base t).mark = rename base t.mark := by
  have wrapped (b : Builtin) (goal : Term) :
      rename base (withMark b goal) = withMark b (rename base goal) := rfl
  induction t using induct with
  | atom a =>
    change (atom a).mark = _
    rw [mark]
    split <;> rfl
  | number | var | cell => rfl
  | compound g args ih =>
    have bare := isSome_marked?_rename base (compound g args)
    rw [rename_compound] at bare
    rw [rename_compound, mark, mark, bare, length_map]
    split
    · rw [rename_compound]
    split
    · rw [rename_compound]
    · rw [wrapped, rename_compound]
      split
      · rfl
      · have each : (args.map (rename base)).map mark = (args.map mark).map (rename base) := by
          rw [List.map_map, List.map_map]
          exact map_congr_left ih
        rw [markAll_eq, markAll_eq, each]

lemma goalsKnown_rename (t : Term) : (rename base t).goalsKnown = t.goalsKnown := by
  induction t using induct with
  | compound g args ih =>
    have each : (args.map (rename base)).all goalsKnown = args.all goalsKnown := by
      rw [List.all_map, Bool.eq_iff_iff, List.all_eq_true, List.all_eq_true]
      exact forall₂_congr fun a ha => by rw [Function.comp, ih a ha]
    rw [rename_compound, goalsKnown, goalsKnown, allGoalsKnown_eq, allGoalsKnown_eq, each,
      length_map]
  | _ => rfl

end Renaming

/-- A goal, and what may stand for it in the marked program. -/
inductive Marks : Term → Term → Prop where
  | same (t : Term) : Marks t t
  | marked {t : Term} (known : t.goalsKnown = true) (bare : t.marked? = none) : Marks t t.mark
  | stripped {t : Term} (known : t.goalsKnown = true) (bare : t.marked? = none) :
    Marks t t.mark.unmarked

lemma marks_mark (known : t.goalsKnown = true) : Marks t t.mark := by
  cases h : t.marked? with
  | none => exact .marked known h
  | some found => rw [mark_of_marked h]; exact .same t

inductive MarksInside : Term → Term → Prop where
  | same (t : Term) : MarksInside t t
  | construct (f : String) {args : List Term} (control : isControl ⟨f, args.length⟩ = true)
    (known : ∀ a ∈ args, a.goalsKnown = true) :
    MarksInside (compound f args) (compound f (args.map mark))

lemma marksInside_mark (known : t.goalsKnown = true) (bare : t.marked? = none) :
    MarksInside t t.mark.unmarked := by
  cases t with
  | var name id => cases known
  | atom a => rw [unmarked_mark_atom]; exact .same _
  | number | cell => exact .same _
  | compound f args =>
    rw [unmarked_mark bare]
    cases control : isControl ⟨f, args.length⟩ with
    | false => exact .same _
    | true => exact .construct f control (goalsKnown_args known control)

namespace MarksInside

variable {t' : Term}

section

variable (h : MarksInside t t')

include h

lemma functor?_eq : t'.functor? = t.functor? := by
  cases h with
  | same => rfl
  | construct => simp [functor?, name?, arity, args]

lemma isAtom_eq (a : String) : t'.isAtom a = t.isAtom a := by
  cases h <;> rfl

lemma args : Forall₂ Marks t.args t'.args := by
  cases h with
  | same => exact forall₂_same.2 fun a _ => .same a
  | construct f control known =>
    exact forall₂_map_right_iff.2 (forall₂_same.2 fun a ha => marks_mark (known a ha))

lemma eq_of_plain (plain : ∀ f, t.functor? = some f → isControl f = false) : t' = t := by
  cases h with
  | same => rfl
  | @construct f args control known =>
    exact absurd (control.symm.trans (plain ⟨f, args.length⟩ rfl)) Bool.noConfusion

lemma marks : Marks t t' := by
  cases h with
  | same => exact .same t
  | @construct f args control known =>
    have bare : (compound f args).marked? = none := Moved.marked?_of_control control
    have stripped : (compound f args).mark.unmarked = compound f (args.map mark) := by
      rw [unmarked_mark bare, if_pos control]
    rw [← stripped]
    refine .stripped ?_ bare
    rw [goalsKnown, allGoalsKnown_eq, List.all_eq_true.2 known, Bool.or_true]

end

end MarksInside

lemma Marks.inside {t' : Term} (h : Marks t t') (b : Bindings) :
    MarksInside (b.walk t).unmarked (b.walk t').unmarked := by
  have stays {t : Term} (h : t.isVar = false) : b.walk t = t := Image.walk_of_nonvar h
  have nonvar {t : Term} (known : t.goalsKnown = true) : t.isVar = false := by
    cases t with
    | var name id => cases known
    | _ => rfl
  cases h with
  | same => exact .same _
  | marked known bare =>
    have inside := marksInside_mark known bare
    have top : t.mark.isVar = false := by
      cases t with
      | var name id => cases known
      | atom a => rw [mark]; split <;> rfl
      | compound f args =>
        rw [mark]
        split
        · rfl
        · split <;> rfl
      | _ => rfl
    rw [stays top, stays (nonvar known), unmarked_bare bare]
    exact inside
  | stripped known bare =>
    have inside := marksInside_mark known bare
    have top : t.mark.unmarked.isVar = false ∧ t.mark.unmarked.marked? = none := by
      generalize t.mark.unmarked = t' at inside
      cases inside with
      | same => exact ⟨nonvar known, bare⟩
      | construct f control known =>
        exact ⟨rfl, Moved.marked?_of_control (by rwa [length_map])⟩
    rw [stays top.1, stays (nonvar known), unmarked_bare bare, unmarked_bare top.2]
    exact inside

end Term

def CompiledClause.mark (c : CompiledClause) : CompiledClause := { c with clause := c.clause.mark }

def Predicate.mark (p : Predicate) : Predicate :=
  { p with clauses := p.clauses.map CompiledClause.mark }

def Domain.mark (d : Domain) : Domain := { d with predicates := d.predicates.map Predicate.mark }

def Program.mark (p : Program) : Program := { p with domain := p.domain.mark }

def CompiledClause.GoalsKnown (c : CompiledClause) : Prop :=
  ∀ g ∈ c.clause.body, g.goalsKnown = true

def Program.GoalsKnown (p : Program) : Prop :=
  ∀ q ∈ p.domain.predicates, ∀ c ∈ q.clauses, c.GoalsKnown

instance (p : Program) : Decidable p.GoalsKnown :=
  inferInstanceAs (Decidable (∀ q ∈ p.domain.predicates, ∀ c ∈ q.clauses, ∀ g ∈ c.clause.body,
    g.goalsKnown = true))

lemma Domain.find?_mark (d : Domain) (f : Functor) :
    d.mark.find? f = (d.find? f).map Predicate.mark := by
  unfold find?
  change (d.index.lookup f).bind ((d.predicates.map Predicate.mark)[·]?) = _
  cases d.index.lookup f with
  | none => rfl
  | some i => simp

lemma Program.GoalsKnown.found {f : Functor} {q : Predicate} (h : p.GoalsKnown)
    (found : p.domain.find? f = some q) : ∀ c ∈ q.clauses, c.GoalsKnown := by
  obtain ⟨i, -, at_i⟩ := bind_eq_some_iff.1 found
  exact h q (mem_of_getElem? at_i)

lemma Clause.idBound_mark (c : Clause) : c.mark.idBound = c.idBound := by
  have all (ts : List Term) (bound : Nat) :
      Term.idBoundAllFrom bound (ts.map Term.mark) = Term.idBoundAllFrom bound ts := by
    induction ts generalizing bound with
    | nil => rfl
    | cons t ts ih =>
      rw [map_cons, idBoundAllFrom, idBoundFrom_mark, ih, idBoundAllFrom]
  unfold idBound mark
  cases c.head with
  | none => exact all c.body 0
  | some head => exact all c.body _

inductive Goal.Marks : Goal → Goal → Prop where
  | call {t t' : Term} (h : t.Marks t') (barrier : Nat) : Marks (.call t barrier) (.call t' barrier)
  | cutTo (height : Nat) : Marks (.cutTo height) (.cutTo height)
  | softCut (index : Nat) : Marks (.softCut index) (.softCut index)

inductive Alternative.Marks : Alternative → Alternative → Prop where
  | clauses (goal : Term) {rest : List CompiledClause} (known : ∀ c ∈ rest, c.GoalsKnown) :
    Marks (.clauses goal rest) (.clauses goal (rest.map CompiledClause.mark))
  | goal {t t' : Term} (h : t.Marks t') (barrier : Nat) : Marks (.goal t barrier) (.goal t' barrier)
  | spent : Marks .spent .spent

structure Choice.Marks (c c' : Choice) : Prop where
  trail : c'.trail = c.trail
  goals : List.Forall₂ Goal.Marks c.goals c'.goals
  alternative : c.alternative.Marks c'.alternative

namespace Machine

structure Marks (m m' : Machine) : Prop where
  world : m'.world = m.world
  goals : List.Forall₂ Goal.Marks m.goals m'.goals
  choices : List.Forall₂ Choice.Marks m.choices.toList m'.choices.toList

inductive Step.Marks : Step → Step → Prop where
  | go {m m' : Machine} (h : m.Marks m') : Marks (.go m) (.go m')
  | fail {m m' : Machine} (h : m.Marks m') : Marks (.fail m) (.fail m')
  | solution {m m' : Machine} (h : m.Marks m') : Marks (.solution m) (.solution m')
  | exhausted {m m' : Machine} (h : m.Marks m') : Marks (.exhausted m) (.exhausted m')
  | halt (why : Halt) {m m' : Machine} (h : m.Marks m') : Marks (.halt why m) (.halt why m')
  | collect (template goal result : Term) {m m' : Machine} (h : m.Marks m') :
    Marks (.collect template goal result m) (.collect template goal result m')

namespace Marks

variable {m m' : Machine} {t t' u u' : Term} {barrier fuel : Nat} (h : m.Marks m')
  {c : CompiledClause}

include h

lemma size : m'.choices.size = m.choices.size := by
  simpa using h.choices.length_eq.symm

lemma push {g g' : Goal} (hg : g.Marks g') : (m.push g).Marks (m'.push g') :=
  ⟨h.world, .cons hg h.goals, h.choices⟩

lemma pushChoice {a a' : Alternative} (ha : a.Marks a') :
    (m.pushChoice a).Marks (m'.pushChoice a') := by
  refine ⟨h.world, h.goals, ?_⟩
  change Forall₂ _ (m.choices.push _).toList (m'.choices.push _).toList
  rw [toList_push, toList_push]
  refine rel_append h.choices (.cons ⟨?_, h.goals, ha⟩ .nil)
  change m'.world.bindings.mark = m.world.bindings.mark
  rw [h.world]

lemma cutTo (height : Nat) : (m.cutTo height).Marks (m'.cutTo height) := by
  refine ⟨h.world, h.goals, ?_⟩
  change Forall₂ _ (m.choices.shrink height).toList (m'.choices.shrink height).toList
  simpa using forall₂_take height h.choices

lemma act {α : Type} (a : Action α) {k k' : α → Machine → Step}
    (next : ∀ x n n', Marks n n' → (k x n).Marks (k' x n')) : (act m a k).Marks (act m' a k') := by
  obtain ⟨w, goals, choices⟩ := m
  obtain ⟨w', goals', choices'⟩ := m'
  obtain ⟨rfl, hg, hc⟩ := h
  simp only [act]
  cases a w' with
  | ok x w => exact next x _ _ ⟨rfl, hg, hc⟩
  | error why w => exact .halt why ⟨rfl, hg, hc⟩

lemma guarded {guard guard' : Guard} (guards : guard.Rel Term.Marks guard') (ht : t.Marks t')
    {ts ts' : List Term} (rest : Forall₂ Term.Marks ts ts') :
    (m.guarded barrier guard t ts).Marks (m'.guarded barrier guard' t' ts') := by
  have left : (guard.leave m barrier).Marks (guard'.leave m' barrier) := by
    cases guards with
    | free => exact h
    | cut other =>
      cases other with
      | none => exact h
      | some other => exact h.pushChoice (.goal other barrier)
    | softCut other => exact h.pushChoice (.goal other barrier)
  have ending : Forall₂ Goal.Marks (guard.ending m.choices.size) (guard'.ending m'.choices.size) := by
    rw [h.size]
    cases guards with
    | free => exact .nil
    | cut => exact .cons (.cutTo _) .nil
    | softCut => exact .cons (.softCut _) .nil
  have calls : Forall₂ Goal.Marks (ts.map (.call · barrier)) (ts'.map (.call · barrier)) := by
    rw [forall₂_map_left_iff, forall₂_map_right_iff]
    exact rest.imp fun _ _ ht => .call ht barrier
  refine ⟨left.world, ?_, left.choices⟩
  simp only [Machine.guarded, left.size]
  exact .cons (.call ht _) (rel_append ending (rel_append calls h.goals))

lemma enter (known : c.GoalsKnown) (base : Nat) :
    (m.enter c.clause base barrier).Marks (m'.enter c.mark.clause base barrier) := by
  refine ⟨h.world, rel_append ?_ h.goals, h.choices⟩
  change List.Forall₂ _ _ ((c.clause.body.map Term.mark).map _)
  rw [List.map_map, List.forall₂_map_left_iff, List.forall₂_map_right_iff]
  refine forall₂_same.2 fun g hg => .call ?_ barrier
  rw [← mark_rename]
  exact marks_mark ((goalsKnown_rename base g).trans (known g hg))

lemma resolveBy (goal : Term) (known : c.GoalsKnown) :
    (resolveBy fuel m goal c.clause barrier).Marks
      (resolveBy fuel m' goal c.mark.clause barrier) := by
  unfold Machine.resolveBy
  rw [show c.mark.clause.idBound = c.clause.idBound from c.clause.idBound_mark,
    show c.mark.clause.head = c.clause.head from rfl]
  refine h.act _ fun base n n' hn => ?_
  cases c.clause.head with
  | none => exact .go (hn.enter known base)
  | some head =>
    refine hn.act _ fun unified n n' hn => ?_
    cases unified with
    | true => exact .go (hn.enter known base)
    | false => exact .fail hn

lemma candidates (goal : Term) (cs : List CompiledClause) :
    candidates p.mark m' goal (cs.map CompiledClause.mark) =
      (candidates p m goal cs).map CompiledClause.mark := by
  unfold Machine.candidates
  cases goal.arg? 0 with
  | none => rfl
  | some a =>
    simp only [h.world, dropWhile_map]
    rfl

lemma tryClauses (goal : Term) {cs : List CompiledClause} (known : ∀ c ∈ cs, c.GoalsKnown) :
    (tryClauses p fuel m goal cs).Marks
      (tryClauses p.mark fuel m' goal (cs.map CompiledClause.mark)) := by
  have sub (cs : List CompiledClause) := (candidates_sublist p m goal cs).subset
  unfold Machine.tryClauses
  rw [h.candidates]
  cases eq : Machine.candidates p m goal cs with
  | nil => exact .fail h
  | cons c rest =>
    have hc : c ∈ cs := sub cs (eq ▸ mem_cons_self)
    have hrest : Machine.candidates p m goal rest ⊆ cs :=
      Subset.trans (sub rest) fun d hd => sub cs (eq ▸ mem_cons_of_mem c hd)
    simp only [map_cons, h.candidates, isEmpty_map, h.size]
    split
    · exact h.resolveBy goal (known c hc)
    · refine resolveBy (h.pushChoice ?_) goal (known c hc)
      exact .clauses goal fun d hd => known d (hrest hd)

omit h in
lemma accord (b : Bindings) : Accord b b Term.Marks Eq Eq where
  atom a := .same _
  see ht :=
    have inside := ht.inside b
    { goal := inside.marks, isAtom := inside.isAtom_eq _, functor := inside.functor?_eq
      args := inside.args
      plain := fun plain => by
        rw [inside.eq_of_plain plain]
        exact ⟨rfl, forall₂_refl _⟩ }
  apply := by
    rintro t _ ts ts' rfl extra
    obtain rfl := forall₂_eq_eq_eq.le _ _ extra
    cases addArgs (b.walk t).unmarked ts with
    | ok goal => exact .inl ⟨goal, goal, rfl, rfl, .same goal⟩
    | error e => exact .inr ⟨e, rfl, rfl⟩
  same _ := rfl
  fault := congrArg Plan.fault

lemma call (hp : p.GoalsKnown) (ht : t.Marks t') :
    (Machine.call p fuel m t barrier).Marks (Machine.call p.mark fuel m' t' barrier) := by
  have unknown : p.mark.unknown = p.unknown := rfl
  have plans := (accord m.world.bindings).ofGoal
    (C := fun cs cs' => (∀ c ∈ cs, c.GoalsKnown) ∧ cs' = cs.map CompiledClause.mark) unknown
    (fun f => ?_) ((accord m.world.bindings).see ht)
  · rw [call_eq_run, call_eq_run, h.world]
    generalize Plan.ofGoal p _ _ = plan, Plan.ofGoal p.mark _ _ = plan' at plans
    cases plans with
    | cut => exact .go (h.cutTo barrier)
    | raise eq => exact eq ▸ .halt _ h
    | fail => exact .fail h
    | both left right => exact .go ((h.push (.call right barrier)).push (.call left barrier))
    | either left right =>
      exact .go ((h.pushChoice (.goal right barrier)).push (.call left barrier))
    | guarded guards goal rest => exact .go (h.guarded guards goal rest)
    | collect template goal result => exact template ▸ goal ▸ result ▸ .collect _ _ _ h
    | act b args =>
      obtain rfl := forall₂_eq_eq_eq.le _ _ args
      simp only [Plan.run]
      refine h.act _ fun verdict n n' hn => ?_
      cases verdict with
      | succeed => exact .go hn
      | fail => exact .fail hn
      | solve goal => exact .go (hn.push (.call (.same goal) barrier))
    | resolve goal clauses =>
      obtain ⟨known, rfl⟩ := clauses
      exact goal ▸ h.tryClauses _ known
  · rw [show p.mark.domain.find? f = (p.domain.find? f).map Predicate.mark from
      p.domain.find?_mark f]
    cases found : p.domain.find? f with
    | none => exact .none
    | some q => exact .some ⟨hp.found found, rfl⟩

lemma advance (hp : p.GoalsKnown) : (advance p fuel m).Marks (advance p.mark fuel m') := by
  obtain ⟨w, goals, choices⟩ := m
  obtain ⟨w', goals', choices'⟩ := m'
  obtain ⟨rfl, hg, hc⟩ := h
  cases hg with
  | nil => exact .solution ⟨rfl, .nil, hc⟩
  | @cons g g' rest rest' first more =>
    have popped : Marks ⟨w', rest, choices⟩ ⟨w', rest', choices'⟩ := ⟨rfl, more, hc⟩
    cases first with
    | call ht barrier => exact popped.call hp ht
    | cutTo height => exact .go (popped.cutTo height)
    | softCut index =>
      refine .go ⟨rfl, more, ?_⟩
      simp only [toList_modify]
      refine forall₂_iff_get.2 ⟨by simpa using hc.length_eq, fun i hi hi' => ?_⟩
      have at_i := (forall₂_iff_get.1 hc).2 i (by simpa using hi) (by simpa using hi')
      simp only [List.get_eq_getElem, List.getElem_modify] at at_i ⊢
      split
      · exact ⟨at_i.trail, at_i.goals, .spent⟩
      · exact at_i

lemma retry : (retry p fuel m).Marks (retry p.mark fuel m') := by
  obtain ⟨w, goals, choices⟩ := m
  obtain ⟨w', goals', choices'⟩ := m'
  obtain ⟨rfl, hg, hc⟩ := h
  obtain ⟨cs, rfl⟩ : ∃ cs : List Choice, choices = cs.reverse.toArray :=
    ⟨choices.toList.reverse, by simp⟩
  obtain ⟨cs', rfl⟩ : ∃ cs : List Choice, choices' = cs.reverse.toArray :=
    ⟨choices'.toList.reverse, by simp⟩
  have latestFirst : Forall₂ Choice.Marks cs cs' := by simpa using hc
  cases latestFirst with
  | nil => exact .exhausted ⟨rfl, hg, .nil⟩
  | @cons c c' below below' last lower =>
    obtain ⟨trail, goals, alternative⟩ := c
    obtain ⟨trail', goals', alternative'⟩ := c'
    obtain ⟨rfl, hg, ha⟩ := last
    simp only [retry, reverse_cons, back?_toArray, getLast?_append,
      getLast?_singleton, some_or, pop_toArray, dropLast_concat]
    have popped : Marks ⟨w', goals, below.reverse.toArray⟩
        ⟨w', goals', below'.reverse.toArray⟩ := ⟨rfl, hg, by simpa using lower⟩
    refine popped.act _ fun _ n n' hn => ?_
    cases ha with
    | clauses goal known => exact hn.tryClauses goal known
    | goal ht barrier => exact .go (hn.push (.call ht barrier))
    | spent => exact .fail hn

lemma step (hp : p.GoalsKnown) (failed : Bool) :
    (step p fuel failed m).Marks (step p.mark fuel failed m') := by
  unfold Machine.step
  cases failed with
  | true => exact h.retry
  | false => exact h.advance hp

end Marks

inductive Outcome.Marks : Outcome → Outcome → Prop where
  | solution {m m' : Machine} (h : m.Marks m') : Marks (.solution m) (.solution m')
  | exhausted {m m' : Machine} (h : m.Marks m') : Marks (.exhausted m) (.exhausted m')
  | halted (why : Halt) {m m' : Machine} (h : m.Marks m') : Marks (.halted why m) (.halted why m')

lemma start_marks (w : World) {t t' : Term} (h : t.Marks t') : (start w t).Marks (start w t') :=
  ⟨rfl, .cons (.call h 0) .nil, .nil⟩

lemma run_marks (hp : p.GoalsKnown) (n : Nat) :
    (∀ failed m m', Marks m m' → (run p n failed m).Marks (run p.mark n failed m')) ∧
      ∀ failed template m m' found, Marks m m' →
        collect p.mark n failed template m' found = collect p n failed template m found := by
  induction n with
  | zero =>
    refine ⟨fun failed m m' h => .halted _ h, fun failed template m m' found h => ?_⟩
    rw [collect, collect, h.world]
  | succ n ih =>
    obtain ⟨runs, collects⟩ := ih
    constructor
    · intro failed m m' h
      rw [run, run]
      have one : (step p n failed m).Marks (step p.mark n failed m') := h.step hp failed
      generalize step p n failed m = s, step p.mark n failed m' = s' at one
      cases one with
      | go h => exact runs false _ _ h
      | fail h => exact runs true _ _ h
      | solution h => exact .solution h
      | exhausted h => exact .exhausted h
      | halt why h => exact .halted why h
      | @collect template goal result m m' h =>
        obtain ⟨w, goals, choices⟩ := m
        obtain ⟨w', goals', choices'⟩ := m'
        obtain ⟨rfl, hg, hc⟩ := h
        have inner := collects false template _ _ []
          (start_marks w' (.same (.compound "call" [goal])))
        simp only [inner]
        generalize collect p n false template (start w' (.compound "call" [goal])) [] = result'
        obtain ⟨found, w⟩ := result'
        cases found with
        | error why => exact .halted why ⟨rfl, hg, hc⟩
        | ok found =>
          dsimp only
          split
          · exact .halted _ ⟨rfl, hg, hc⟩
          · exact runs _ _ _ ⟨rfl, hg, hc⟩
    · intro failed template m m' found h
      rw [collect, collect]
      have one := runs failed m m' h
      generalize run p n failed m = o, run p.mark n failed m' = o' at one
      cases one with
      | exhausted h | halted why h => simp only [h.world]
      | solution h =>
        simp only [h.world]
        split
        · rfl
        · exact collects _ _ _ _ _ h

end Machine

namespace Engine

lemma answersFrom_marks (hp : p.GoalsKnown) (fuel : Nat) (names : List (String × Term))
    (limit : Nat) (failed : Bool) {m m' : Machine} (h : m.Marks m') (found : List Solution) :
    answersFrom p.mark fuel names limit failed m' found =
      answersFrom p fuel names limit failed m found := by
  induction limit generalizing failed m m' found with
  | zero => rw [answersFrom, answersFrom, h.world]
  | succ limit ih =>
    rw [answersFrom, answersFrom]
    have one := (run_marks hp fuel).1 failed m m' h
    generalize run p fuel failed m = o, run p.mark fuel failed m' = o' at one
    cases one with
    | exhausted h | halted why h => simp only [h.world]
    | solution h =>
      simp only [h.world]
      split
      · rfl
      · exact ih _ h _

/-- Marking changes nothing: whatever the fuel and the limit, the marked program gives the same
answers to the marked goal, stops for the same reason and leaves the same world, with what has been
written in it. -/
theorem answersFrom_mark {p : Program} {goal : Term} (clauses : p.GoalsKnown)
    (known : goal.goalsKnown = true) (w : World) (names : List (String × Term))
    (fuel limit : Nat) :
    answersFrom p.mark fuel names limit false (.start w goal.mark) [] =
      answersFrom p fuel names limit false (.start w goal) [] :=
  answersFrom_marks clauses fuel names limit false
    (start_marks w (marks_mark known)) []

/-- The goal `p(X), \+ X = 1` with the clause `p(X) :- ( X = 1 ; X = 2, ! ; X = 3 ), write(X)`. -/
theorem answersFrom_mark_example :
    let x : Term := .var "X" 0
    let is (n : Int64) : Term := .compound "=" [x, .int n]
    let cut : Term := .compound "," [is 2, .atom "!"]
    let body : List Term :=
      [.compound ";" [is 1, .compound ";" [cut, is 3]], .compound "write" [x]]
    let clause : CompiledClause :=
      ⟨⟨"p", 1⟩, ⟨0⟩, ⟨some (.compound "p" [x]), body, .rule, ⟨1, 1⟩⟩, [], 0, []⟩
    let p : Program := .ofDomain ⟨#[⟨⟨"p", 1⟩, [clause], false⟩], [(⟨"p", 1⟩, 0)]⟩ .error
    let goal : Term := .compound "," [.compound "p" [x], .compound "\\+" [is 1]]
    let w : World := ⟨(Bindings.empty.reserve 1).2, .empty, ""⟩
    p.GoalsKnown ∧ goal.goalsKnown = true ∧
      answersFrom p.mark 40 [("X", x)] 9 false (.start w goal.mark) [] =
        answersFrom p 40 [("X", x)] 9 false (.start w goal) [] ∧
      (answersFrom p 40 [("X", x)] 9 false (.start w goal) []).1 = [⟨[("X", .int 2)]⟩] ∧
      (answersFrom p 40 [("X", x)] 9 false (.start w goal) []).2.2.output = "12" := by
  intro x is cut body clause p goal w
  have clauses : p.GoalsKnown := by decide
  have known : goal.goalsKnown = true := by decide
  refine ⟨clauses, known, answersFrom_mark clauses known w _ 40 9, ?_, ?_⟩
  · decide +kernel
  · decide +kernel

end Engine

end Horn
