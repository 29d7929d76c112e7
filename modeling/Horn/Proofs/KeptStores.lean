import Horn.Proofs.CallPlans

/-!
# What a machine keeps of its store

Something may be kept of a store when a variable is bound, when room is made, and when bindings are
taken back to a mark that may be gone back to. An action in a store is one that is done on two
sides, which are the same.
-/

namespace Horn

open List Term Machine Array
open Term (Alike)
open Bindings (meet)

variable {gs : List Goal} {c : Clause} {ts : List Term} {base : Nat}

/-- What is kept of a store, which variables and which terms may occur then, and the marks to go
back to. -/
structure Upkeep where
  Good : Bindings → Prop
  Var : Bindings → Nat → Prop
  Text : Term → Prop
  kind : Kind Text
  Back : Nat → Prop
  value : ∀ {b i v}, Good b → b.value? i = some v → (∀ id ∈ v.ids, Var b id) ∧ Text v
  assign : ∀ {b s t i u}, Good b → meet (b.walk s) (b.walk t) = .assign i u → Var b i →
    (∀ id ∈ u.ids, Var b id) ∧ Text u → Good (b.bind i u) ∧ ∀ id, Var b id → Var (b.bind i u) id
  reserve : ∀ {b} (count : Nat), Good b → Good (b.reserve count).2 ∧
    (∀ id, Var b id → Var (b.reserve count).2 id) ∧
    ∀ v < count, Var (b.reserve count).2 (b.values.size + v)
  undo : ∀ {b mark}, Good b → Back mark → Good (b.undo mark) ∧ ∀ id, Var b id → Var (b.undo mark) id
  mark : ∀ {b}, Good b → Back b.mark

namespace Upkeep

variable {U : Upkeep} {b b' : Bindings} {t : Term}

def Fits (U : Upkeep) (b : Bindings) (t : Term) : Prop := (∀ id ∈ t.ids, U.Var b id) ∧ U.Text t

lemma Fits.later (h : U.Fits b t) (before : ∀ id, U.Var b id → U.Var b' id) : U.Fits b' t :=
  ⟨fun id hid => before id (h.1 id hid), h.2⟩

lemma fits_walk (good : U.Good b) (h : U.Fits b t) : U.Fits b (b.walk t) := by
  have follow (n : Nat) {t : Term} (h : U.Fits b t) : U.Fits b (b.walkFor n t) := by
    induction n generalizing t with
    | zero => exact h
    | succ n ih =>
      rw [Bindings.walkFor.eq_def]
      dsimp only
      split
      · split
        · next bound => exact ih (U.value good bound)
        · exact h
      · exact h
  exact follow _ h

/-- A store is coupled with itself: what two coupled actions have in common, one of them keeps. -/
def coupling (U : Upkeep) : Coupling Bindings where
  Stores d b b' := b = d ∧ b' = d ∧ U.Good d
  link b i i' := i' = i ∧ U.Var b i
  Terms b t t' := t' = t ∧ U.Fits b t
  like b := U.kind.likeness (U.Var b)
  ordered _ _ _ _ _ hi hj := by rw [hi.1, hj.1]
  Before b b' := ∀ id, U.Var b id → U.Var b' id
  refl _ _ var := var
  trans h h' id var := h' id (h id var)
  kept h _ _ linked := ⟨linked.1, h _ linked.2⟩
  later h terms := ⟨terms.1, terms.2.later h⟩
  Spent d b := U.Good b ∧ ∀ id, U.Var d id → U.Var b id
  spent := by
    rintro d _ _ ⟨rfl, rfl, good⟩
    exact ⟨good, fun _ var => var⟩
  spent_before before spent := ⟨spent.1, fun id var => spent.2 id (before id var)⟩
  walk := by
    rintro d _ _ t t' ⟨rfl, rfl, good⟩ ⟨rfl, fits⟩
    exact ⟨rfl, fits_walk good fits⟩
  assign := by
    rintro d _ _ s s' t t' i i' u u' ⟨rfl, rfl, good⟩ left - ⟨rfl, var⟩ ⟨rfl, fits⟩
    obtain ⟨good, before⟩ := U.assign good left var fits
    exact ⟨_, before, rfl, rfl, good⟩
  reserve := by
    rintro d _ _ count ⟨rfl, rfl, good⟩
    obtain ⟨good, before, new⟩ := U.reserve count good
    exact ⟨_, before, ⟨rfl, rfl, good⟩, fun v lt => ⟨rfl, new v lt⟩⟩
  undo := by
    rintro d e _ _ _ _ ⟨rfl, rfl, good⟩ before ⟨rfl, rfl, good'⟩
    obtain ⟨good', back⟩ := U.undo good' (U.mark good)
    exact ⟨_, fun id var => back id (before id var), rfl, rfl, good'⟩

lemma Fits.args (h : U.Fits b t) : ∀ a ∈ t.args, U.Fits b a :=
  fun a ha => (forall₂_same.1 ((U.coupling.like b).args ⟨rfl, h⟩) a ha).2

lemma forall₂_fits (h : ∀ t ∈ ts, U.Fits b t) : Forall₂ (U.coupling.Terms b) ts ts :=
  forall₂_same.2 fun t ht => ⟨rfl, h t ht⟩

lemma fits_resolve (good : U.Good b) (h : U.Fits b t) {n : Nat} {r : Term}
    (run : b.resolve? n t = some r) : U.Fits b r := by
  obtain ⟨r', ⟨rfl, fits⟩, -⟩ :=
    Coupling.resolve? (C := U.coupling) ⟨rfl, rfl, good⟩ ⟨rfl, h⟩ run
  exact fits

lemma fits_rename (vars : ∀ v < c.idBound, U.Var b (base + v)) (part : t ∈ c.head.toList ++ c.body)
    (text : U.Text t) : U.Fits b (Bindings.rename base t) := by
  refine ⟨fun id hid => ?_, U.kind.mapVars (fun _ _ => U.kind.var _ _) text⟩
  obtain ⟨v, hv, rfl⟩ := Search.mem_ids_rename hid
  exact vars v (lt_idBoundAllFrom (.inr ⟨t, part, hv⟩))

section Actions

variable {α : Type} {R : Bindings → α → α → Prop} {a : Nat → Action α} {w : World}

inductive Ran (U : Upkeep) (b : Bindings) (R : Bindings → α → α → Prop) :
    EStateM.Result Halt World α → Prop where
  | ok {x : α} {w : World} (good : U.Good w.bindings) (before : ∀ id, U.Var b id → U.Var w.bindings id)
    (related : R w.bindings x x) : Ran U b R (.ok x w)
  | error {h : Halt} {w : World} (good : U.Good w.bindings)
    (before : ∀ id, U.Var b id → U.Var w.bindings id) : Ran U b R (.error h w)

lemma ran (h : U.coupling.Acts w.bindings R a a) (good : U.Good w.bindings) (n : Nat) :
    U.Ran w.bindings R (a n w) ∧
      ((∃ w', a n w = .error .outOfFuel w') ∨ ∀ m, n ≤ m → a m w = a n w) := by
  rcases h w w ⟨⟨rfl, rfl, good⟩, rfl, .same _⟩ n with ⟨w₁, ran, spent⟩ | ⟨r', results, settled⟩
  · exact ⟨ran ▸ .error spent.1 spent.2, .inl ⟨w₁, ran⟩⟩
  · have same := settled n (Nat.le_refl n)
    refine ⟨?_, .inr fun m le => (settled m le).trans same.symm⟩
    generalize a n w = r at results same
    subst same
    generalize eq : r = r' at results
    cases results with
    | ok before worlds related =>
      cases eq
      obtain ⟨⟨rfl, -, good⟩, -, -⟩ := worlds
      exact .ok good before related
    | raised before worlds alike =>
      cases eq
      obtain ⟨⟨rfl, -, good⟩, -, -⟩ := worlds
      exact .error good before

/-- Nothing is kept. What is left to say is that more fuel changes no result. -/
def free : Upkeep where
  Good _ := True
  Var _ _ := True
  Text _ := True
  kind := kind_true
  Back _ := True
  value _ _ := ⟨fun _ _ => trivial, trivial⟩
  assign _ _ _ _ := ⟨trivial, fun _ _ => trivial⟩
  reserve _ _ := ⟨trivial, fun _ _ => trivial, fun _ _ => trivial⟩
  undo _ _ := ⟨trivial, fun _ _ => trivial⟩
  mark _ := trivial

lemma free_fits : free.Fits b t := ⟨fun _ _ => trivial, trivial⟩

lemma of_le (h : free.coupling.Acts w.bindings R a a) {n k : Nat} {x : α} {w' : World}
    (run : a n w = .ok x w') (le : n ≤ k) : a k w = .ok x w' := by
  rcases (ran h trivial n).2 with ⟨w'', spent⟩ | steady
  · rw [run] at spent
    cases spent
  · rw [steady k le, run]

end Actions

end Upkeep

lemma Bindings.resolve?_of_le {b : Bindings} {n k : Nat} {t r : Term}
    (run : b.resolve? n t = some r) (le : n ≤ k) : b.resolve? k t = some r := by
  obtain ⟨r', ⟨rfl, -⟩, settled⟩ :=
    Coupling.resolve? (C := Upkeep.free.coupling) ⟨rfl, rfl, trivial⟩ ⟨rfl, Upkeep.free_fits⟩ run
  exact settled k le

def Goal.ids : Goal → List Nat
  | .call t _ => t.ids
  | .cutTo _ | .softCut _ => []

def Alternative.ids : Alternative → List Nat
  | .clauses t _ => t.ids
  | .goal t _ => t.ids
  | .spent => []

def Choice.ids (c : Choice) : List Nat := c.goals.flatMap Goal.ids ++ c.alternative.ids

def Goal.terms : Goal → List Term
  | .call t _ => [t]
  | .cutTo _ | .softCut _ => []

def Alternative.terms : Alternative → List Term
  | .clauses t _ => [t]
  | .goal t _ => [t]
  | .spent => []

def Alternative.rest : Alternative → List CompiledClause
  | .clauses _ rest => rest
  | .goal _ _ | .spent => []

namespace Machine

section Stacks

variable {α : Type} {cs : Array α} {c : α}

lemma mem_of_mem_shrink {height : Nat} (h : c ∈ cs.shrink height) : c ∈ cs := by
  rw [← Array.mem_toList_iff, Array.toList_shrink] at h
  exact mem_toList_iff.1 (mem_of_mem_take h)

lemma mem_modify {i : Nat} {f : α → α} (h : c ∈ cs.modify i f) : ∃ d ∈ cs, c = d ∨ c = f d := by
  obtain ⟨j, hj, rfl⟩ := Array.mem_iff_getElem.1 h
  rw [size_modify] at hj
  refine ⟨cs[j], getElem_mem hj, ?_⟩
  rw [Array.getElem_modify]
  split
  · exact .inr rfl
  · exact .inl rfl

end Stacks

end Machine

namespace Upkeep

open Machine (Step)

def Texts (U : Upkeep) (cs : List CompiledClause) : Prop :=
  ∀ c ∈ cs, ∀ t ∈ c.clause.head.toList ++ c.clause.body, U.Text t

def Programs (U : Upkeep) (p : Program) : Prop :=
  ∀ f predicate, p.domain.find? f = some predicate → U.Texts predicate.clauses

def FitsAll (U : Upkeep) (b : Bindings) (gs : List Goal) : Prop :=
  ∀ g ∈ gs, ∀ t ∈ g.terms, U.Fits b t

/-- Going back to the choice keeps the store, and what it goes on with fits. -/
structure FitsChoice (U : Upkeep) (b : Bindings) (c : Choice) : Prop where
  back : U.Back c.trail
  goals : U.FitsAll b c.goals
  other : ∀ t ∈ c.alternative.terms, U.Fits b t
  rest : U.Texts c.alternative.rest

/-- The store is kept, and the goals and choices of the machine fit it. -/
structure Kept (U : Upkeep) (m : Machine) : Prop where
  store : U.Good m.world.bindings
  goals : U.FitsAll m.world.bindings m.goals
  choices : ∀ c ∈ m.choices, U.FitsChoice m.world.bindings c

def KeptStep (U : Upkeep) : Step → Prop
  | .go m | .fail m | .solution m | .exhausted m | .halt _ m => U.Kept m
  | .collect t g r m => U.Kept m ∧
    U.Fits m.world.bindings t ∧ U.Fits m.world.bindings g ∧ U.Fits m.world.bindings r

/-- The step leads to what is kept and, where it does not run out of fuel, is the same with more. -/
def Takes (U : Upkeep) (s : Nat → Step) : Prop :=
  ∀ n, U.KeptStep (s n) ∧ ((∃ m, s n = .halt .outOfFuel m) ∨ ∀ k, n ≤ k → s k = s n)

variable {U : Upkeep} {b b' : Bindings} {p : Program} {m : Machine} {t u v : Term} {barrier : Nat}

lemma FitsAll.cons (ht : U.Fits b t) (h : U.FitsAll b gs) : U.FitsAll b (.call t barrier :: gs) :=
  forall_mem_cons.2 ⟨forall_mem_singleton.2 ht, h⟩

lemma FitsAll.later (h : U.FitsAll b gs) (before : ∀ id, U.Var b id → U.Var b' id) :
    U.FitsAll b' gs :=
  fun g hg t ht => (h g hg t ht).later before

lemma FitsChoice.later {c : Choice} (h : U.FitsChoice b c)
    (before : ∀ id, U.Var b id → U.Var b' id) : U.FitsChoice b' c :=
  ⟨h.back, h.goals.later before, fun t ht => (h.other t ht).later before, h.rest⟩

lemma KeptStep.takes {s : Step} (h : U.KeptStep s) : U.Takes fun _ => s :=
  fun _ => ⟨h, .inr fun _ _ => rfl⟩

namespace Kept

variable (h : U.Kept m) (ht : U.Fits m.world.bindings t) (hu : U.Fits m.world.bindings u)

include h

lemma solve (goals : U.FitsAll m.world.bindings gs) : U.Kept { m with goals := gs } :=
  ⟨h.store, goals, h.choices⟩

lemma pushChoice {a : Alternative} (ha : ∀ t ∈ a.terms, U.Fits m.world.bindings t)
    (rest : U.Texts a.rest) : U.Kept (m.pushChoice a) := by
  refine ⟨h.store, h.goals, fun c hc => ?_⟩
  rcases Array.mem_push.1 hc with old | rfl
  · exact h.choices c old
  · exact ⟨U.mark h.store, h.goals, ha, rest⟩

lemma cutTo (height : Nat) : U.Kept (m.cutTo height) :=
  ⟨h.store, h.goals, fun c hc => h.choices c (Machine.mem_of_mem_shrink hc)⟩

lemma later {w : World} (good : U.Good w.bindings)
    (before : ∀ id, U.Var m.world.bindings id → U.Var w.bindings id) :
    U.Kept { m with world := w } :=
  ⟨good, h.goals.later before, fun c hc => (h.choices c hc).later before⟩

/-- An action of coupled stores, and what the machine goes on with. -/
lemma act {α : Type} {R : Bindings → α → α → Prop} {a : Nat → Action α}
    (acts : U.coupling.Acts m.world.bindings R a a) {k : Nat → α → Machine → Step}
    (next : ∀ {x w}, U.Kept { m with world := w } →
      (∀ id, U.Var m.world.bindings id → U.Var w.bindings id) → R w.bindings x x →
      U.Takes fun n => k n x { m with world := w }) : U.Takes fun n => m.act (a n) (k n) := by
  obtain ⟨w, goals, choices⟩ := m
  intro n
  obtain ⟨ran, steady⟩ := ran acts h.store n
  simp only [Machine.act]
  rcases steady with ⟨w', spent⟩ | steady
  · rw [spent] at ran ⊢
    cases ran with
    | error good before => exact ⟨h.later good before, .inl ⟨_, rfl⟩⟩
  generalize a n w = r at ran steady
  cases ran with
  | error good before =>
    exact ⟨h.later good before, .inr fun k le => by rw [steady k le]⟩
  | ok good before related =>
    obtain ⟨kept, same⟩ := next (h.later good before) before related n
    exact ⟨kept, same.imp_right fun same k le => by rw [steady k le]; exact same k le⟩

lemma enter (vars : ∀ v < c.idBound, U.Var m.world.bindings (base + v))
    (texts : ∀ t ∈ c.head.toList ++ c.body, U.Text t) : U.Kept (m.enter c base barrier) := by
  refine h.solve fun g hg => ?_
  rcases List.mem_append.1 hg with body | old
  · obtain ⟨t, ht, rfl⟩ := mem_map.1 body
    have part := mem_append_right c.head.toList ht
    exact forall_mem_singleton.2 (fits_rename vars part (texts t part))
  · exact h.goals g old

section

include ht

lemma push : U.Kept (m.push (.call t barrier)) := h.solve (h.goals.cons ht)

lemma pushGoal : U.Kept (m.pushChoice (.goal t barrier)) :=
  h.pushChoice (forall_mem_singleton.2 ht) nofun

lemma resolveBy (texts : ∀ t ∈ c.head.toList ++ c.body, U.Text t) :
    U.Takes fun n => Machine.resolveBy n m t c barrier := by
  refine h.act (.reserve c.idBound) fun {base w} h before linked => ?_
  have vars (v : Nat) (lt : v < c.idBound) : U.Var w.bindings (base + v) := (linked v lt).2
  cases hasHead : c.head with
  | none => exact KeptStep.takes (h.enter vars texts)
  | some head =>
    have part : head ∈ c.head.toList ++ c.body := by simp [hasHead]
    refine h.act (.unify ⟨rfl, fits_rename vars part (texts head part)⟩ ⟨rfl, ht.later before⟩)
      fun {unified w'} h before _ => KeptStep.takes ?_
    cases unified with
    | true => exact h.enter (fun v lt => before _ (vars v lt)) texts
    | false => exact h

lemma tryClauses (p : Program) {clauses : List CompiledClause} (texts : U.Texts clauses) :
    U.Takes fun n => Machine.tryClauses p n m t clauses := by
  have sub (cs : List CompiledClause) := (candidates_sublist p m t cs).subset
  unfold Machine.tryClauses
  split
  · exact KeptStep.takes h
  · next c rest eq =>
    have texts (c' : CompiledClause) (mem : c' ∈ c :: rest) := texts c' (sub clauses (eq ▸ mem))
    dsimp only
    split
    · exact h.resolveBy ht (texts c mem_cons_self)
    · have pushed : U.Kept (m.pushChoice (.clauses t (candidates p m t rest))) :=
        h.pushChoice (forall_mem_singleton.2 ht) fun c' mem =>
          texts c' (mem_cons_of_mem c (sub rest mem))
      exact pushed.resolveBy ht (texts c mem_cons_self)

lemma guarded {guard guard' : Guard} {ts' : List Term}
    (guards : guard.Rel (U.coupling.Terms m.world.bindings) guard')
    (rest : Forall₂ (U.coupling.Terms m.world.bindings) ts ts') :
    U.Kept (m.guarded barrier guard t ts) := by
  have calls : U.FitsAll m.world.bindings (ts.map (.call · barrier) ++ m.goals) := by
    induction rest with
    | nil => exact h.goals
    | cons first _ ih => exact ih.cons first.2
  have goals (height : Nat) : U.FitsAll m.world.bindings
      (guard.ending height ++ (ts.map (.call · barrier) ++ m.goals)) := by
    refine forall_mem_append.2 ⟨fun g hg => ?_, calls⟩
    cases guards with
    | free => cases hg
    | cut | softCut => exact mem_singleton.1 hg ▸ forall_mem_nil _
  cases guards with
  | free => exact h.solve ((goals _).cons ht)
  | cut other =>
    cases other with
    | none => exact h.solve ((goals _).cons ht)
    | some other => exact (h.pushGoal other.2).solve ((goals _).cons ht)
  | softCut other => exact (h.pushGoal other.2).solve ((goals _).cons ht)

/-- One case for each plan of a call. -/
lemma call (hp : U.Programs p) : U.Takes fun n => Machine.call p n m t barrier := by
  have accord : Accord m.world.bindings m.world.bindings _ _ _ :=
    accord_of_likeness (U.coupling.like m.world.bindings)
      fun same => ⟨congrArg _ same.1, fits_walk h.store same.2⟩
  have plans := accord.ofGoal (p := p) (C := fun cs _ => U.Texts cs) rfl (fun f => ?_)
    (accord.see ⟨rfl, ht⟩)
  · simp only [call_eq_run]
    generalize Plan.ofGoal p _ _ = plan at plans
    cases plans with
    | cut => exact KeptStep.takes (h.cutTo barrier)
    | raise | fail => exact KeptStep.takes h
    | both left right => exact KeptStep.takes ((h.push right.2).push left.2)
    | either left right => exact KeptStep.takes ((h.pushGoal right.2).push left.2)
    | guarded guards goal rest => exact KeptStep.takes (h.guarded goal.2 guards rest)
    | collect template goal result => exact KeptStep.takes ⟨h, template.2, goal.2, result.2⟩
    | act b args =>
      simp only [Plan.run]
      refine h.act (Builtin.acts_run b args) fun {verdict w} h _ alike => KeptStep.takes ?_
      cases verdict with
      | succeed | fail => exact h
      | solve goal =>
        cases alike with
        | solve alike => exact h.push alike.2
    | resolve goal texts => exact h.tryClauses goal.2 p texts
  · cases found : p.domain.find? f with
    | none => exact .none
    | some q => exact .some (hp f q found)

end

lemma advance (hp : U.Programs p) : U.Takes fun n => Machine.advance p n m := by
  obtain ⟨w, goals, choices⟩ := m
  unfold Machine.advance
  cases goals with
  | nil => exact KeptStep.takes h
  | cons g rest =>
    obtain ⟨first, others⟩ := forall_mem_cons.1 h.goals
    have left : U.Kept ⟨w, rest, choices⟩ := ⟨h.store, others, h.choices⟩
    cases g with
    | call t barrier => exact left.call (forall_mem_singleton.1 first) hp
    | cutTo height => exact KeptStep.takes (left.cutTo height)
    | softCut index =>
      refine KeptStep.takes ⟨h.store, others, fun c hc => ?_⟩
      have hc : c ∈ choices.modify index fun c => { c with alternative := .spent } := hc
      obtain ⟨d, hd, rfl | rfl⟩ := mem_modify hc
      · exact h.choices c hd
      · exact ⟨(h.choices d hd).back, (h.choices d hd).goals, nofun, nofun⟩

lemma retry (p : Program) : U.Takes fun n => Machine.retry p n m := by
  obtain ⟨w, goals, choices⟩ := m
  unfold Machine.retry
  dsimp only
  cases latest : choices.back? with
  | none => exact KeptStep.takes h
  | some c =>
    obtain ⟨below, rfl⟩ := back?_eq_some_iff.1 latest
    have last := h.choices c (mem_push.2 (.inr rfl))
    obtain ⟨good, before⟩ := U.undo h.store last.back
    have last := last.later before
    let left : Machine :=
      ⟨⟨w.bindings.undo c.trail, w.operators, w.output⟩, c.goals, (below.push c).pop⟩
    have kept : U.Kept left := by
      refine ⟨good, last.goals, fun d hd => ?_⟩
      have hd : d ∈ (below.push c).pop := hd
      rw [pop_push] at hd
      exact (h.choices d (mem_push.2 (.inl hd))).later before
    have other := last.other
    have texts := last.rest
    dsimp only
    cases eq : c.alternative with
    | spent => exact KeptStep.takes (s := .fail left) kept
    | goal t barrier =>
      rw [eq] at other
      exact KeptStep.takes (s := .go (left.push (.call t barrier)))
        (kept.push (forall_mem_singleton.1 other))
    | clauses t rest =>
      rw [eq] at other texts
      exact kept.tryClauses (forall_mem_singleton.1 other) p texts

lemma step (hp : U.Programs p) (failed : Bool) : U.Takes fun n => Machine.step p n failed m := by
  cases failed with
  | true => exact h.retry p
  | false => exact h.advance hp

end Kept

end Upkeep

end Horn
