import Horn.Proofs.CallPlans
import Horn.Proofs.TriedClauses

/-!
# Machines that differ in their variables and in idle choices

Two machines do the same if their stores match, their goals are alike and their choices are, but for
idle ones: a choice is idle if every clause that is left in it is passed over. The shape of two
stacks says where the choices of the one stand in the other, and a level is a part of a shape that
begins at the bottom.
-/

namespace Horn

open List Term Machine Bindings Array
open Machine (Step alive)

inductive Side where
  | both
  | left
  | right

namespace Duo

def lefts : List Side → Nat
  | [] => 0
  | .both :: S | .left :: S => lefts S + 1
  | .right :: S => lefts S

def rights : List Side → Nat
  | [] => 0
  | .both :: S | .right :: S => rights S + 1
  | .left :: S => rights S

/-- Goals to be solved one after the other. What is left after a cut refers to no choice that the cut
removes. -/
inductive Conts (ρ : Link) : List Side → List Goal → List Goal → Prop where
  | nil {S : List Side} : Conts ρ S [] []
  | call {S T : List Side} {t t' : Term} {gs gs' : List Goal} (level : T <:+ S)
    (alike : t.Alike ρ t') (rest : Conts ρ T gs gs') :
    Conts ρ S (.call t (lefts T) :: gs) (.call t' (rights T) :: gs')
  | cutTo {S T : List Side} {gs gs' : List Goal} (level : T <:+ S) (rest : Conts ρ T gs gs') :
    Conts ρ S (.cutTo (lefts T) :: gs) (.cutTo (rights T) :: gs')
  | softCut {S T : List Side} {gs gs' : List Goal} (level : .both :: T <:+ S)
    (rest : Conts ρ T gs gs') :
    Conts ρ S (.softCut (lefts T) :: gs) (.softCut (rights T) :: gs')

section Conts

variable {ρ τ : Link} {S T : List Side} {gs gs' : List Goal}

lemma Conts.above (h : Conts ρ T gs gs') (level : T <:+ S) : Conts ρ S gs gs' := by
  cases h with
  | nil => exact .nil
  | call lower alike rest => exact .call (lower.trans level) alike rest
  | cutTo lower rest => exact .cutTo (lower.trans level) rest
  | softCut lower rest => exact .softCut (lower.trans level) rest

lemma Conts.mono (h : Conts ρ S gs gs') (within : ρ.Within τ) : Conts τ S gs gs' := by
  induction h with
  | nil => exact .nil
  | call level alike _ ih => exact .call level (alike.mono within) ih
  | cutTo level _ ih => exact .cutTo level ih
  | softCut level _ ih => exact .softCut level ih

lemma Conts.calls (h : Conts ρ T gs gs') {ts ts' : List Term} (alike : Forall₂ (Alike ρ) ts ts') :
    Conts ρ T (ts.map (.call · (lefts T)) ++ gs) (ts'.map (.call · (rights T)) ++ gs') := by
  induction alike with
  | nil => exact h
  | cons first _ ih => exact .call (suffix_refl T) first ih

end Conts

inductive ChoiceAlike (d : Duo) (S : List Side) : Choice → Choice → Prop where
  | spent {gs gs' : List Goal} :
    ChoiceAlike d S ⟨d.left.mark, gs, .spent⟩ ⟨d.right.mark, gs', .spent⟩
  | goal {T : List Side} {t t' : Term} {gs gs' : List Goal} (level : T <:+ S)
    (alike : t.Alike d.link t') (rest : Conts d.link T gs gs') :
    ChoiceAlike d S ⟨d.left.mark, gs, .goal t (lefts T)⟩ ⟨d.right.mark, gs', .goal t' (rights T)⟩
  | clauses {u u' : Term} {cs cs' : List CompiledClause} {gs gs' : List Goal}
    (alike : u.Alike d.link u') (rest : Conts d.link S gs gs')
    (same : alive d.left u cs = alive d.right u' cs') :
    ChoiceAlike d S ⟨d.left.mark, gs, .clauses u cs⟩ ⟨d.right.mark, gs', .clauses u' cs'⟩

inductive Idle (b : Bindings) : Choice → Prop where
  | mk {u : Term} {cs : List CompiledClause} {gs : List Goal} (none : alive b u cs = []) :
    Idle b ⟨b.mark, gs, .clauses u cs⟩

/-- The choices of two machines that began with the stores `o`. -/
inductive Stack (o : Duo) : Duo → List Side → Array Choice → Array Choice → Prop where
  | nil {d : Duo} (before : o.Before d) : Stack o d [] #[] #[]
  | both {d e : Duo} {S : List Side} {c c' : Choice} {cs cs' : Array Choice} (matched : e.Matched)
    (before : e.Before d) (alike : e.ChoiceAlike S c c') (rest : Stack o e S cs cs') :
    Stack o d (.both :: S) (cs.push c) (cs'.push c')
  | left {d e : Duo} {S : List Side} {c : Choice} {cs cs' : Array Choice} (before : e.Before d)
    (idle : Idle e.left c) (rest : Stack o e S cs cs') : Stack o d (.left :: S) (cs.push c) cs'
  | right {d e : Duo} {S : List Side} {c' : Choice} {cs cs' : Array Choice} (before : e.Before d)
    (idle : Idle e.right c') (rest : Stack o e S cs cs') : Stack o d (.right :: S) cs (cs'.push c')

section Stack

variable {o d e : Duo} {S T : List Side} {cs cs' : Array Choice}

lemma Stack.later (h : Stack o d S cs cs') (before : d.Before e) : Stack o e S cs cs' := by
  cases h with
  | nil start => exact .nil (start.trans before)
  | both matched earlier alike rest => exact .both matched (earlier.trans before) alike rest
  | left earlier idle rest => exact .left (earlier.trans before) idle rest
  | right earlier idle rest => exact .right (earlier.trans before) idle rest

lemma Stack.start (h : Stack o d S cs cs') : o.Before d := by
  induction h with
  | nil before => exact before
  | both _ before _ _ ih | left before _ _ ih | right before _ _ ih => exact ih.trans before

lemma Stack.size (h : Stack o d S cs cs') : cs.size = lefts S ∧ cs'.size = rights S := by
  induction h with
  | nil before => exact ⟨rfl, rfl⟩
  | both _ _ _ _ ih | left _ _ _ ih | right _ _ _ ih => simp [lefts, rights, ih]

lemma level_le (h : T <:+ S) : lefts T ≤ lefts S ∧ rights T ≤ rights S := by
  induction S with
  | nil => simp [suffix_nil.1 h]
  | cons s S ih =>
    rcases suffix_cons_iff.1 h with rfl | h
    · exact ⟨Nat.le_refl _, Nat.le_refl _⟩
    · have := ih h
      cases s <;> simp only [lefts, rights] <;> omega

lemma Stack.cutTo (h : Stack o d S cs cs') (level : T <:+ S) :
    Stack o d T (cs.shrink (lefts T)) (cs'.shrink (rights T)) := by
  have whole {d : Duo} {S : List Side} {cs cs' : Array Choice} (h : Stack o d S cs cs') :
      Stack o d S (cs.shrink (lefts S)) (cs'.shrink (rights S)) := by
    rwa [← h.size.1, ← h.size.2, shrink_size, shrink_size]
  induction h with
  | nil before =>
    obtain rfl := suffix_nil.1 level
    exact .nil before
  | both matched before alike rest ih =>
    rcases suffix_cons_iff.1 level with rfl | lower
    · exact whole (.both matched before alike rest)
    · rw [shrink_push (rest.size.1 ▸ (level_le lower).1),
        shrink_push (rest.size.2 ▸ (level_le lower).2)]
      exact (ih lower).later before
  | left before idle rest ih =>
    rcases suffix_cons_iff.1 level with rfl | lower
    · exact whole (.left before idle rest)
    · rw [shrink_push (rest.size.1 ▸ (level_le lower).1)]
      exact (ih lower).later before
  | right before idle rest ih =>
    rcases suffix_cons_iff.1 level with rfl | lower
    · exact whole (.right before idle rest)
    · rw [shrink_push (rest.size.2 ▸ (level_le lower).2)]
      exact (ih lower).later before

lemma Stack.softCut (h : Stack o d S cs cs') (level : .both :: T <:+ S) :
    Stack o d S (cs.modify (lefts T) fun c => { c with alternative := .spent })
      (cs'.modify (rights T) fun c => { c with alternative := .spent }) := by
  have below {R : List Side} (level : .both :: T <:+ R) : lefts T < lefts R ∧ rights T < rights R :=
    level_le (T := .both :: T) level
  induction h with
  | nil before => cases suffix_nil.1 level
  | both matched before alike rest ih =>
    rcases suffix_cons_iff.1 level with same | lower
    · cases same
      rw [← rest.size.1, ← rest.size.2, modify_push_last, modify_push_last]
      refine .both matched before ?_ rest
      cases alike with
      | spent | goal | clauses => exact .spent
    · rw [modify_push (rest.size.1 ▸ (below lower).1), modify_push (rest.size.2 ▸ (below lower).2)]
      exact .both matched before alike (ih lower)
  | left before idle rest ih =>
    rcases suffix_cons_iff.1 level with same | lower
    · cases same
    · rw [modify_push (rest.size.1 ▸ (below lower).1)]
      exact .left before idle (ih lower)
  | right before idle rest ih =>
    rcases suffix_cons_iff.1 level with same | lower
    · cases same
    · rw [modify_push (rest.size.2 ▸ (below lower).2)]
      exact .right before idle (ih lower)

end Stack

structure Ready (o d : Duo) (S T : List Side) (m m' : Machine) : Prop where
  worlds : d.Worlds m.world m'.world
  matched : d.Matched
  level : T <:+ S
  goals : Conts d.link T m.goals m'.goals
  choices : Stack o d S m.choices m'.choices

def Going (o d : Duo) (m m' : Machine) : Prop := ∃ S T, Ready o d S T m m'

def Failing (o d : Duo) (m m' : Machine) : Prop :=
  d.Worlds m.world m'.world ∧ ∃ S, Stack o d S m.choices m'.choices

inductive Steps (o : Duo) (ρ : Link) : Step → Step → Prop where
  | go {d : Duo} {m m' : Machine} (within : ρ.Within d.link) (h : Going o d m m') :
    Steps o ρ (.go m) (.go m')
  | fail {d : Duo} {m m' : Machine} (within : ρ.Within d.link) (h : Failing o d m m') :
    Steps o ρ (.fail m) (.fail m')
  | solution {d : Duo} {m m' : Machine} (within : ρ.Within d.link) (h : Going o d m m') :
    Steps o ρ (.solution m) (.solution m')
  | exhausted {d : Duo} {m m' : Machine} (within : ρ.Within d.link) (before : o.Before d)
    (worlds : d.Worlds m.world m'.world) : Steps o ρ (.exhausted m) (.exhausted m')
  | raised {d : Duo} {m m' : Machine} {x x' : ExecutionError} (within : ρ.Within d.link)
    (before : o.Before d) (worlds : d.Worlds m.world m'.world) (alike : x.Alike d.link x') :
    Steps o ρ (.halt (.raised x) m) (.halt (.raised x') m')
  | collect {d : Duo} {m m' : Machine} {t t' g g' r r' : Term} (within : ρ.Within d.link)
    (template : t.Alike d.link t') (goal : g.Alike d.link g') (result : r.Alike d.link r')
    (h : Going o d m m') : Steps o ρ (.collect t g r m) (.collect t' g' r' m')

lemma Steps.within {o : Duo} {ρ τ : Link} {s s' : Step} (h : Steps o τ s s')
    (within : ρ.Within τ) : Steps o ρ s s' := by
  cases h with
  | go more h => exact .go (within.trans more) h
  | fail more h => exact .fail (within.trans more) h
  | solution more h => exact .solution (within.trans more) h
  | exhausted more before worlds => exact .exhausted (within.trans more) before worlds
  | raised more before worlds alike => exact .raised (within.trans more) before worlds alike
  | collect more template goal result h => exact .collect (within.trans more) template goal result h

def Takes (o : Duo) (ρ : Link) (s s' : Nat → Step) : Prop :=
  ∀ n, (∃ m, s n = .halt .outOfFuel m) ∨ ∃ r', Steps o ρ (s n) r' ∧ ∀ k, n ≤ k → s' k = r'

lemma Steps.takes {o : Duo} {ρ : Link} {s s' : Step} (h : Steps o ρ s s') :
    Takes o ρ (fun _ => s) (fun _ => s') :=
  fun _ => .inr ⟨s', h, fun _ _ => rfl⟩

lemma takes_act {o d : Duo} (matched : d.Matched) {α : Type}
    {R : {d : Duo // d.Matched} → α → α → Prop}
    {x x' : Nat → Action α} (h : coupling.Acts ⟨d, matched⟩ R x x') {m m' : Machine}
    (worlds : d.Worlds m.world m'.world) (start : o.Before d) {k k' : Nat → α → Machine → Step}
    (next : ∀ {e : Duo} {a a' : α} {w w' : World}, d.Before e → (matched : e.Matched) →
      e.Worlds w w' → R ⟨e, matched⟩ a a' → Takes o e.link (fun n => k n a { m with world := w })
        (fun n => k' n a' { m' with world := w' })) :
    Takes o d.link (fun n => m.act (x n) (k n)) (fun n => m'.act (x' n) (k' n)) := by
  obtain ⟨w, gs, cs⟩ := m
  obtain ⟨w', gs', cs'⟩ := m'
  intro n
  simp only [act]
  rcases h w w' ((worlds_iff matched).2 worlds) n with ⟨w₁, ran, -⟩ | ⟨r', results, settled⟩
  · exact .inl ⟨_, by rw [ran]⟩
  · generalize x n w = r at results
    cases results with
    | @raised e w₁ w₁' x x' before worlds alike =>
      exact .inr ⟨_, .raised before.kept (start.trans before) ((worlds_iff e.2).1 worlds) alike,
        fun k le => by rw [settled k le]⟩
    | @ok e w₁ w₁' a a' before worlds related =>
      rcases next before e.2 ((worlds_iff e.2).1 worlds) related n with spent | ⟨r', steps, more⟩
      · exact .inl spent
      · exact .inr ⟨r', steps.within before.kept, fun k le => by rw [settled k le]; exact more k le⟩

namespace Ready

variable {o d : Duo} {S T : List Side} {m m' : Machine} (h : Ready o d S T m m')

include h

lemma going : Going o d m m' := ⟨S, T, h⟩

lemma failing : Failing o d m m' := ⟨h.worlds, S, h.choices⟩

lemma size : m.choices.size = lefts S ∧ m'.choices.size = rights S := h.choices.size

lemma solve {gs gs' : List Goal} (goals : Conts d.link S gs gs') :
    Going o d { m with goals := gs } { m' with goals := gs' } :=
  ⟨S, S, h.worlds, h.matched, suffix_refl S, goals, h.choices⟩

lemma later {e : Duo} {w w' : World} (before : d.Before e) (matched : e.Matched)
    (worlds : e.Worlds w w') : Ready o e S T { m with world := w } { m' with world := w' } :=
  ⟨worlds, matched, h.level, h.goals.mono before.kept, h.choices.later before⟩

lemma push {t t' : Term} (alike : t.Alike d.link t') :
    Going o d (m.push (.call t (lefts T))) (m'.push (.call t' (rights T))) :=
  h.solve (.call h.level alike h.goals)

lemma pushChoice {a a' : Alternative}
    (alike : d.ChoiceAlike S ⟨d.left.mark, m.goals, a⟩ ⟨d.right.mark, m'.goals, a'⟩) :
    Ready o d (.both :: S) T (m.pushChoice a) (m'.pushChoice a') := by
  obtain ⟨⟨b, ops, out⟩, gs, cs⟩ := m
  obtain ⟨⟨b', ops', out'⟩, gs', cs'⟩ := m'
  obtain ⟨rfl, rfl, operators, output⟩ := h.worlds
  exact ⟨⟨rfl, rfl, operators, output⟩, h.matched, h.level.trans (suffix_cons _ S), h.goals,
    .both h.matched (.refl d) alike h.choices⟩

lemma pushGoal {t t' : Term} (alike : t.Alike d.link t') :
    Ready o d (.both :: S) T (m.pushChoice (.goal t (lefts T)))
      (m'.pushChoice (.goal t' (rights T))) :=
  h.pushChoice (.goal h.level alike h.goals)

lemma accord : Accord m.world.bindings m'.world.bindings (Alike d.link) (Alike d.link)
    (ExecutionError.Alike d.link) := by
  refine accord_of_likeness (Alike.likeness _) fun ht => ?_
  rw [h.worlds.left, h.worlds.right]
  exact h.matched.walk ht

section Control

variable {t t' : Term} (ht : t.Alike d.link t')

include ht

lemma resolveBy (c : Clause) :
    Takes o d.link (fun n => resolveBy n m t c (lefts T))
      (fun n => resolveBy n m' t' c (rights T)) := by
  have enter {e : Duo} {n n' : Machine} (h : Ready o e S T n n') {base base' : Nat}
      (linked : ∀ v < c.idBound, e.link (base + v) (base' + v)) :
      Going o e (n.enter c base (lefts T)) (n'.enter c base' (rights T)) := by
    have body : Forall₂ (Alike e.link) (c.body.map (rename base))
        (c.body.map (rename base')) := by
      rw [forall₂_map_left_iff, forall₂_map_right_iff]
      exact forall₂_same.2 fun g hg => c.alike_rename linked (mem_append_right _ hg)
    have goals := (h.goals.calls body).above h.level
    rw [List.map_map, List.map_map] at goals
    exact h.solve goals
  refine takes_act h.matched (.reserve c.idBound) h.worlds h.choices.start ?_
  intro e base base' w w' before matched worlds linked
  have h := h.later before matched worlds
  have ht := ht.mono before.kept
  cases hasHead : c.head with
  | none => exact (Steps.go (.refl _) (enter h linked)).takes
  | some head =>
    have heads := c.alike_rename linked (g := head) (by simp [hasHead])
    refine takes_act h.matched (.unify heads ht) h.worlds h.choices.start ?_
    intro f r r' w w' before matched worlds eq
    have h := h.later before matched worlds
    subst eq
    cases r with
    | true => exact (Steps.go (.refl _) (enter h fun v lt => before.kept (linked v lt))).takes
    | false => exact (Steps.fail (.refl _) h.failing).takes

lemma guarded {guard guard' : Guard} (guards : guard.Rel (Alike d.link) guard')
    {ts ts' : List Term} (rest : Forall₂ (Alike d.link) ts ts') :
    Going o d (m.guarded (lefts T) guard t ts) (m'.guarded (rights T) guard' t' ts') := by
  have calls := h.goals.calls rest
  have closed {S : List Side} {n n' : Machine} {gs gs' : List Goal} (left : Ready o d S T n n')
      (ending : Conts d.link S gs gs') :
      Going o d { n with goals := .call t n.choices.size :: gs }
        { n' with goals := .call t' n'.choices.size :: gs' } := by
    rw [left.size.1, left.size.2]
    exact left.solve (.call (suffix_refl S) ht ending)
  have cut : Conts d.link S (.cutTo m.choices.size :: (ts.map (.call · (lefts T)) ++ m.goals))
      (.cutTo m'.choices.size :: (ts'.map (.call · (rights T)) ++ m'.goals)) := by
    rw [h.size.1, h.size.2]
    exact .cutTo (suffix_refl S) (calls.above h.level)
  cases guards with
  | free => exact closed h (calls.above h.level)
  | cut other =>
    cases other with
    | none => exact closed h cut
    | some other => exact closed (h.pushGoal other) (cut.above (suffix_cons _ S))
  | softCut other =>
    refine closed (h.pushGoal other) ?_
    rw [Guard.ending, Guard.ending, h.size.1, h.size.2]
    exact .softCut (suffix_refl _) (calls.above h.level)

end Control

end Ready

end Duo

end Horn
