import Horn.Proofs.LinkedMachines

/-!
# Runs that differ in the clauses they pass over

Two programs with the same clauses may pass over different ones, as long as those that may match are
tried.
-/

namespace Horn

open Machine List

variable {failed : Bool} {e : Duo}

structure Program.SameClauses (p p' : Program) : Prop where
  domain : p'.domain = p.domain
  unknown : p'.unknown = p.unknown
  fair : p.Fair
  fair' : p'.Fair

namespace Duo

variable {o d : Duo} {ρ τ : Link} {p p' : Program} {α : Type} {x' x : Search.Course} {r : α}

inductive Outcomes (o : Duo) (ρ : Link) : Outcome → Outcome → Prop where
  | solution {d : Duo} {m m' : Machine} (within : ρ.Within d.link) (h : Going o d m m') :
    Outcomes o ρ (.solution m) (.solution m')
  | exhausted {d : Duo} {m m' : Machine} (within : ρ.Within d.link) (before : o.Before d)
    (worlds : d.Worlds m.world m'.world) : Outcomes o ρ (.exhausted m) (.exhausted m')
  | raised {d : Duo} {m m' : Machine} {x x' : ExecutionError} (within : ρ.Within d.link)
    (before : o.Before d) (worlds : d.Worlds m.world m'.world) (alike : x.Alike d.link x') :
    Outcomes o ρ (.halted (.raised x) m) (.halted (.raised x') m')

lemma Outcomes.within {r r' : Outcome} (h : Outcomes o τ r r') (within : ρ.Within τ) :
    Outcomes o ρ r r' := by
  cases h with
  | solution more h => exact .solution (within.trans more) h
  | exhausted more before worlds => exact .exhausted (within.trans more) before worlds
  | raised more before worlds alike => exact .raised (within.trans more) before worlds alike

def Settles {α : Type} (x : Nat → α) (r : α) : Prop := ∃ N, ∀ n, N ≤ n → x n = r

lemma Settles.after {x y : Nat → α} (h : Settles y r) {n : Nat} (eq : ∀ i, n ≤ i → x i = y i) :
    Settles x r := by
  obtain ⟨N, settled⟩ := h
  exact ⟨max N n, fun i le => (eq i (by omega)).trans (settled i (by omega))⟩

lemma settles_const (r : α) : Settles (fun _ => r) r := ⟨0, fun _ _ => rfl⟩

lemma settles_of_succ {x : Nat → α} (h : Settles (fun n => x (n + 1)) r) : Settles x r := by
  obtain ⟨N, settled⟩ := h
  refine ⟨N + 1, fun n le => ?_⟩
  obtain ⟨i, rfl⟩ := Nat.exists_eq_add_of_le' (show 1 ≤ n by omega)
  exact settled i (by omega)

/-- Unless the first course runs out of fuel, with less than `k`, the second comes to the same. -/
def Follows (o : Duo) (ρ : Link) (k : Nat) (x x' : Search.Course) : Prop :=
  ∀ n < k, (x n).Spent ∨ ∃ r', Settles x' r' ∧ Outcomes o ρ (x n) r'

lemma Follows.leads {i j k : Nat} {y y' : Search.Course} (h : Follows o ρ k y y') (hx : Leads i x y)
    (hx' : Leads j x' y') : Follows o ρ (k + i) x x' := by
  intro n lt
  rcases hx.either n with spent | ⟨m, le, eq⟩
  · exact .inl spent
  · rw [eq]
    rcases h m (by omega) with spent | ⟨r', ⟨N, settled⟩, outcomes⟩
    · exact .inl spent
    · obtain ⟨l, M, onwards⟩ := hx'.onwards
      refine .inr ⟨r', ⟨max N M + l, fun n le => ?_⟩, outcomes⟩
      obtain ⟨i, rfl⟩ := Nat.exists_eq_add_of_le' (show l ≤ n by omega)
      rw [onwards i (by omega), settled i (by omega)]

lemma Follows.within {k : Nat} (h : Follows o τ k x x') (within : ρ.Within τ) :
    Follows o ρ k x x' := fun n lt =>
  (h n lt).imp_right fun ⟨r', settles, outcomes⟩ => ⟨r', settles, outcomes.within within⟩

def Placed (o d : Duo) : Bool → Machine → Machine → Prop
  | false => Going o d
  | true => Failing o d

lemma Placed.worlds {m m' : Machine} (h : Placed o d failed m m') :
    o.Before d ∧ d.Worlds m.world m'.world := by
  cases failed with
  | false =>
    obtain ⟨S, T, ready⟩ := h
    exact ⟨ready.choices.start, ready.worlds⟩
  | true =>
    obtain ⟨worlds, S, stack⟩ := h
    exact ⟨stack.start, worlds⟩

inductive Collections (o : Duo) :
    Except Halt (List Term) × World → Except Halt (List Term) × World → Prop where
  | ok {d : Duo} {ts ts' : List Term} {w w' : World} (before : o.Before d) (worlds : d.Worlds w w')
    (alike : List.Forall₂ (Term.Alike d.link) ts ts') : Collections o (.ok ts, w) (.ok ts', w')
  | raised {d : Duo} {x x' : ExecutionError} {w w' : World} (before : o.Before d)
    (worlds : d.Worlds w w') (alike : x.Alike d.link x') :
    Collections o (.error (.raised x), w) (.error (.raised x'), w')

structure Upto (p p' : Program) (k : Nat) : Prop where
  runs : ∀ {o d : Duo} {m m' : Machine} {failed : Bool}, Placed o d failed m m' →
    Follows o d.link k (resuming p failed m) (resuming p' failed m')
  collects : ∀ {o d : Duo} {m m' : Machine} {failed : Bool} {t t' : Term} {ts ts' : List Term},
    Placed o d failed m m' → t.Alike d.link t' → List.Forall₂ (Term.Alike d.link) ts ts' →
    ∀ n ≤ k, (∃ w, collect p n failed t m ts = (.error .outOfFuel, w)) ∨
      ∃ r', Settles (fun n => collect p' n failed t' m' ts') r' ∧
        Collections o (collect p n failed t m ts) r'

lemma Worlds.restore {w w' : World} (h : e.Worlds w w') (before : d.Before e) :
    before.restore.Worlds ⟨w.bindings.undo d.left.mark, w.operators, w.output⟩
      ⟨w'.bindings.undo d.right.mark, w'.operators, w'.output⟩ where
  left := by rw [h.left]; rfl
  right := by rw [h.right]; rfl
  operators := h.operators
  output := h.output

section Step

variable {k : Nat} {m' m : Machine} {n : Nat}

lemma Upto.run (h : Upto p p' k) (placed : Placed o d failed m m') (le : n ≤ k) :
    (run p n failed m).Spent ∨
      ∃ r', Settles (fun n => run p' n failed m') r' ∧
        Outcomes o d.link (run p n failed m) r' := by
  cases n with
  | zero => exact .inl ⟨m, by rw [Machine.run]⟩
  | succ n =>
    rw [run_succ]
    rcases h.runs placed n le with spent | ⟨r', settles, outcomes⟩
    · exact .inl spent
    refine .inr ⟨r', settles_of_succ ?_, outcomes⟩
    simp only [run_succ]
    exact settles

lemma Upto.gathered (h : Upto p p' k) {S T : List Side} (ready : Ready o d S T m m') {r r' : Term}
    (result : r.Alike d.link r') {c c' : Except Halt (List Term) × World}
    (collected : Collections d c c') (le : n ≤ k) :
    (gathered p n d.left.mark r m.goals m.choices c).Spent ∨
      ∃ s', Settles (fun n => gathered p' n d.right.mark r' m'.goals m'.choices c') s' ∧
        Outcomes o d.link (gathered p n d.left.mark r m.goals m.choices c) s' := by
  cases collected with
  | raised before worlds alike =>
    have back := before.before_restore
    exact .inr ⟨_, settles_const _,
      .raised back.kept (ready.choices.start.trans back) (worlds.restore before) alike⟩
  | @ok e ts ts' w w' before worlds alike =>
    have back := before.before_restore
    have worlds := worlds.restore before
    simp only [Machine.gathered]
    generalize World.mk _ _ _ = w₁ at worlds ⊢
    generalize World.mk _ _ _ = w₁' at worlds ⊢
    have matched := before.matched_restore ready.matched
    have unified := acts_unifyFound (C := coupling) (d := ⟨_, matched⟩) alike (result.mono back.kept)
      w₁ w₁' ((worlds_iff matched).2 worlds) n
    beta_reduce at unified
    rcases unified with ⟨w₂, spent, -⟩ | ⟨u', results, settled⟩
    · rw [spent]
      exact .inl ⟨_, rfl⟩
    generalize unifyFound n ts r w₁ = u at results
    cases results with
    | @raised f w₂ w₂' x x' later worlds alike =>
      have later := back.trans later
      have worlds := (worlds_iff f.2).1 worlds
      refine .inr ⟨.halted (.raised x') { m' with world := w₂' },
        (settles_const _).after (n := n) fun i le => ?_,
        .raised later.kept (ready.choices.start.trans later) worlds alike⟩
      rw [settled i le]
    | @ok f w₂ w₂' unified unified' later worlds same =>
      have ready := ready.later (back.trans later) f.2 ((worlds_iff f.2).1 worlds)
      have placed : Placed o f.1 (!unified) { m with world := w₂ } { m' with world := w₂' } := by
        cases unified with
        | true => exact ready.going
        | false => exact ready.failing
      refine (h.run placed le).imp_right fun ⟨s', settles, outcomes⟩ => ?_
      refine ⟨s', settles.after (n := n) fun i le => ?_, outcomes.within (back.trans later).kept⟩
      rw [settled i le, ← same]

lemma Upto.taking (h : Upto p p' k) {s s' : Nat → Step} (takes : Takes o ρ s s') :
    Follows o ρ (k + 1) (taking p s) (taking p' s') := by
  intro n lt
  have le : n ≤ k := Nat.lt_succ_iff.1 lt
  rcases takes n with ⟨m, spent⟩ | ⟨r', steps, settled⟩
  · exact .inl ⟨m, by rw [Machine.taking, spent]; rfl⟩
  have after {s₁ : Outcome} (h : Settles (fun n => proceed p' n r') s₁) :
      Settles (Machine.taking p' s') s₁ :=
    h.after fun i le => by rw [Machine.taking, settled i le]
  rw [Machine.taking]
  generalize s n = r at steps
  cases steps with
  | @go d m m' within going =>
    have placed : Placed o d false m m' := going
    rcases h.run placed le with spent | ⟨s₁, settles, outcomes⟩
    · exact .inl spent
    · exact .inr ⟨s₁, after settles, outcomes.within within⟩
  | @fail d m m' within failing =>
    have placed : Placed o d true m m' := failing
    rcases h.run placed le with spent | ⟨s₁, settles, outcomes⟩
    · exact .inl spent
    · exact .inr ⟨s₁, after settles, outcomes.within within⟩
  | solution within going =>
    exact .inr ⟨_, after (settles_const _), .solution within going⟩
  | exhausted within before worlds =>
    exact .inr ⟨_, after (settles_const _), .exhausted within before worlds⟩
  | raised within before worlds alike =>
    exact .inr ⟨_, after (settles_const _), .raised within before worlds alike⟩
  | @collect d m m' t t' g g' r r' within template goal result going =>
    obtain ⟨S, T, ready⟩ := going
    have start : Placed d d false (start m.world (.compound "call" [g]))
        (start m'.world (.compound "call" [g'])) :=
      ⟨[], [], ready.worlds, ready.matched, suffix_refl _,
        .call (suffix_refl _) (.compound "call" (.cons goal .nil)) .nil, .nil (.refl d)⟩
    simp only [proceed, ready.worlds.left, ready.worlds.right] at after ⊢
    rcases h.collects start template .nil n le with ⟨w, spent⟩ | ⟨c', ⟨N, settled⟩, collected⟩
    · rw [spent]
      exact .inl ⟨_, rfl⟩
    · rcases h.gathered ready result collected le with spent | ⟨s₁, settles, outcomes⟩
      · exact .inl spent
      refine .inr ⟨s₁, after (settles.after (n := N) fun i le => ?_), outcomes.within within⟩
      exact congrArg _ (settled i le)

section Clauses

variable {S : List Side} {u u' : Term}

lemma passedOver_alike (matched : d.Matched) (h : u.Alike d.link u') (c : CompiledClause) :
    Search.passedOver d.right u' c = Search.passedOver d.left u c := by
  have first := h.arg? 0
  unfold Search.passedOver
  generalize u.arg? 0 = a, u'.arg? 0 = a' at first
  cases first with
  | none => rfl
  | some alike =>
    cases c.clause.head.bind (·.arg? 0) with
    | none => rfl
    | some x => exact congrArg (!·) ((matched.walk alike).mayUnify_eq x)

lemma Stack.leaves {cs cs' left left' : Array Choice} {goals goals' : List Goal}
    {rest : List CompiledClause} (stack : Stack o e S cs cs') (matched : e.Matched)
    (goal : u.Alike e.link u') (conts : Conts e.link S goals goals')
    (hl : Leaves e.left goals cs u rest left) (hr : Leaves e.right goals' cs' u' rest left') :
    ∃ R, S <:+ R ∧ Stack o e R left left' := by
  generalize eq : rest = rest' at hr
  cases hl with
  | nothing =>
    cases hr with
    | nothing => exact ⟨S, suffix_refl S, stack⟩
    | choice more => exact ⟨_, suffix_cons _ S, .right (.refl e) (.mk eq.symm) stack⟩
  | choice more =>
    cases hr with
    | nothing => exact ⟨_, suffix_cons _ S, .left (.refl e) (.mk eq) stack⟩
    | choice more' =>
      exact ⟨_, suffix_cons _ S, .both matched (.refl e) (.clauses goal conts eq) stack⟩

lemma Upto.tryClauses (h : Upto p p' k) (fair : p.Fair) (fair' : p'.Fair)
    (ready : Ready o d S S m m') (hu : u.Alike d.link u') {cs cs' : List CompiledClause}
    (same : alive d.left u cs = alive d.right u' cs') :
    Follows o d.link (k + 1) (Machine.taking p fun n => tryClauses p n m u cs)
      (Machine.taking p' fun n => tryClauses p' n m' u' cs') := by
  obtain ⟨⟨b, ops, out⟩, goals, choices⟩ := m
  obtain ⟨⟨b', ops', out'⟩, goals', choices'⟩ := m'
  obtain ⟨eq, eq', operators, output⟩ := ready.worlds
  cases eq
  cases eq'
  have tried : Tries p d.left ops out goals choices u cs _ := tries fair d.leftSound cs
  have tried' : Tries p' d.right ops' out' goals' choices' u' cs' _ :=
    tries fair' d.rightSound cs'
  -- What has been tried in vain has made room in the stores.
  have later {b b' : Bindings} (hb : d.left.Restored b) (hb' : d.right.Restored b') :
      ∃ e : Duo, d.Before e ∧
        Ready o e S S ⟨⟨b, ops, out⟩, goals, choices⟩ ⟨⟨b', ops', out'⟩, goals', choices'⟩ := by
    have before := (Before.refl d).before_stores (hb.later d.leftSound) (hb'.later d.rightSound)
      hb.room hb'.room
    have matched := (Before.refl d).matched_stores ready.matched hb hb' hb.room hb'.room
    exact ⟨_, before, ready.later before matched ⟨rfl, rfl, operators, output⟩⟩
  cases tried with
  | none hb dead leads =>
    cases tried' with
    | none hb' dead' leads' =>
      obtain ⟨e, before, ready⟩ := later hb hb'
      have placed : Placed o e true _ _ := ready.failing
      exact ((h.runs placed).leads leads leads').within before.kept
    | first hb' first' leaves' leads' => simp [dead, first'] at same
  | @first b c rest left hb first leaves leads =>
    cases tried' with
    | none hb' dead' leads' => simp [first, dead'] at same
    | @first b' c' rest' left' hb' first' leaves' leads' =>
      rw [first, first'] at same
      cases same
      obtain ⟨e, before, ready'⟩ := later hb hb'
      obtain ⟨R, level, stack⟩ := ready.choices.leaves ready.matched hu ready.goals leaves leaves'
      have sizes : choices.size = lefts S ∧ choices'.size = rights S := ready.size
      rw [sizes.1] at leads
      rw [sizes.2] at leads'
      have resolve : Ready o e R S ⟨⟨b, ops, out⟩, goals, left⟩ ⟨⟨b', ops', out'⟩, goals', left'⟩ :=
        ⟨ready'.worlds, ready'.matched, level, ready'.goals, stack.later before⟩
      have follows := h.taking (resolve.resolveBy (hu.mono before.kept) c.clause)
      exact (follows.leads leads leads').within before.kept

end Clauses

section Calls

variable {S T : List Side} {t t' : Term}

lemma Upto.go (h : Upto p p' k) (going : Going o d m m') :
    Follows o d.link (k + 1) (Machine.taking p fun _ => .go m) (Machine.taking p' fun _ => .go m') :=
  h.taking (Steps.go (.refl _) going).takes

section

variable (h : Upto p p' k) (same : p.SameClauses p')

include h same

lemma Upto.call (ready : Ready o d S T m m') (ht : t.Alike d.link t') :
    Follows o d.link (k + 1) (Machine.taking p fun n => Machine.call p n m t (lefts T))
      (Machine.taking p' fun n => Machine.call p' n m' t' (rights T)) := by
  have plans := ready.accord.ofGoal (C := Eq) same.unknown (fun f => ?_) (ready.accord.see ht)
  · simp only [call_eq_run]
    generalize Plan.ofGoal p _ _ = plan, Plan.ofGoal p' _ _ = plan' at plans
    cases plans with
    | cut =>
      exact h.go ⟨T, T, ready.worlds, ready.matched, suffix_refl T, ready.goals,
        ready.choices.cutTo ready.level⟩
    | raise alike =>
      exact h.taking (Steps.raised (.refl _) ready.choices.start ready.worlds alike).takes
    | fail => exact h.taking (Steps.fail (.refl _) ready.failing).takes
    | both left right =>
      exact h.go (ready.solve (.call ready.level left (.call (suffix_refl T) right ready.goals)))
    | either left right => exact h.go ((ready.pushGoal right).push left)
    | guarded guards goal rest => exact h.go (ready.guarded goal guards rest)
    | collect template goal result =>
      exact h.taking (Steps.collect (.refl _) template goal result ready.going).takes
    | act b args =>
      simp only [Plan.run]
      refine h.taking (takes_act ready.matched (Builtin.acts_run b args) ready.worlds
        ready.choices.start ?_)
      intro e a a' w w' before matched worlds related
      have ready := ready.later before matched worlds
      cases related with
      | succeed => exact (Steps.go (.refl _) ready.going).takes
      | fail => exact (Steps.fail (.refl _) ready.failing).takes
      | solve alike => exact (Steps.go (.refl _) (ready.push alike)).takes
    | resolve goal clauses =>
      subst clauses
      have whole : Ready o d S S m m' :=
        ⟨ready.worlds, ready.matched, suffix_refl S, ready.goals.above ready.level, ready.choices⟩
      refine h.tryClauses same.fair same.fair' whole goal ?_
      unfold alive
      simp only [passedOver_alike ready.matched goal]
  · rw [same.domain]
    cases p.domain.find? f with
    | none => exact .none
    | some q => exact .some rfl

lemma Upto.advance (going : Going o d m m') :
    Follows o d.link (k + 1) (resuming p false m) (resuming p' false m') := by
  obtain ⟨S, T, ready⟩ := going
  obtain ⟨w, goals, choices⟩ := m
  obtain ⟨w', goals', choices'⟩ := m'
  obtain ⟨worlds, matched, level, conts, stack⟩ := ready
  cases conts with
  | nil =>
    have ended : Going o d ⟨w, [], choices⟩ ⟨w', [], choices'⟩ :=
      ⟨S, T, worlds, matched, level, .nil, stack⟩
    exact h.taking (Steps.solution (.refl _) ended).takes
  | @call _ R t t' gs gs' lower alike rest =>
    have ready : Ready o d S R ⟨w, gs, choices⟩ ⟨w', gs', choices'⟩ :=
      ⟨worlds, matched, lower.trans level, rest, stack⟩
    exact h.call same ready alike
  | @cutTo _ R gs gs' lower rest =>
    exact h.go ⟨R, R, worlds, matched, suffix_refl R, rest, stack.cutTo (lower.trans level)⟩
  | @softCut _ R gs gs' lower rest =>
    have below : R <:+ S := (suffix_cons _ R).trans (lower.trans level)
    exact h.go ⟨S, R, worlds, matched, below, rest, stack.softCut (lower.trans level)⟩

lemma Upto.retry {cs cs' : Array Choice} (stack : Stack o e S cs cs') (before : e.Before d)
    {w w' : World} (worlds : d.Worlds w w') (gs gs' : List Goal) :
    Follows o d.link (k + 1) (resuming p true ⟨w, gs, cs⟩) (resuming p' true ⟨w', gs', cs'⟩) := by
  induction stack generalizing d w w' gs gs' with
  | nil start => exact h.taking (Steps.exhausted (.refl _) (start.trans before) worlds).takes
  | @left e f S c cs cs' earlier idle rest ih =>
    obtain ⟨b, ops, out⟩ := w
    obtain ⟨rfl, right, operators, output⟩ := worlds
    cases idle with
    | @mk u clauses goals dead =>
      have before := earlier.trans before
      obtain ⟨b₁, restored, room, leads⟩ := leads_of_idle same.fair f.leftSound before.left dead
      have later := before.before_stores (restored.later f.leftSound) before.right room (Nat.le_refl _)
      refine Follows.leads (i := 0) (k := k + 1) (ih later ?_ goals gs')
        (leads.atLeast (Nat.zero_le 1)) (.refl _)
      exact ⟨rfl, right, operators, output⟩
  | @right e f S c' cs cs' earlier idle rest ih =>
    obtain ⟨b', ops', out'⟩ := w'
    obtain ⟨left, rfl, operators, output⟩ := worlds
    cases idle with
    | @mk u clauses goals dead =>
      have before := earlier.trans before
      obtain ⟨b₁, restored, room, leads⟩ := leads_of_idle same.fair' f.rightSound before.right dead
      have later := before.before_stores before.left (restored.later f.rightSound) (Nat.le_refl _) room
      refine Follows.leads (k := k + 1) (ih later ?_ gs goals) (.refl _) leads
      exact ⟨left, rfl, operators, output⟩
  | @both e f S c c' cs cs' matched earlier alike rest ih =>
    obtain ⟨b, ops, out⟩ := w
    obtain ⟨b', ops', out'⟩ := w'
    have before := earlier.trans before
    have back := before.before_restore
    have worlds := worlds.restore before
    have ready {goals goals' : List Goal} (conts : Conts f.link S goals goals') :
        Ready o before.restore S S ⟨⟨b.undo f.left.mark, ops, out⟩, goals, cs⟩
          ⟨⟨b'.undo f.right.mark, ops', out'⟩, goals', cs'⟩ :=
      ⟨worlds, before.matched_restore matched, suffix_refl S, conts.mono back.kept,
        rest.later back⟩
    cases alike with
    | spent =>
      unfold resuming step
      simp only [if_true, retry_push]
      refine h.taking (Steps.fail (d := before.restore) (.refl _) ?_).takes
      exact ⟨worlds, S, rest.later back⟩
    | goal level alike goals =>
      unfold resuming step
      simp only [if_true, retry_push]
      refine h.taking (Steps.go (d := before.restore) (.refl _) ?_).takes
      exact (ready (.call level alike goals)).going
    | clauses alike goals live =>
      rw [resuming_clauses, resuming_clauses]
      refine h.tryClauses same.fair same.fair' (ready goals) (alike.mono back.kept) ?_
      have left := before.left.undo f.leftSound
      have right := before.right.undo f.rightSound
      exact (alive_restored left f.leftSound _ _).trans
        (live.trans (alive_restored right f.rightSound _ _).symm)

lemma Upto.succ : Upto p p' (k + 1) where
  runs {o d m m' failed} placed := by
    cases failed with
    | false => exact h.advance same placed
    | true =>
      obtain ⟨w, gs, cs⟩ := m
      obtain ⟨w', gs', cs'⟩ := m'
      obtain ⟨worlds, S, stack⟩ := placed
      exact h.retry same stack (.refl d) worlds gs gs'
  collects {o d m m' failed t t' ts ts'} placed template found n le := by
    cases n with
    | zero => exact .inl ⟨_, rfl⟩
    | succ n =>
      have le : n ≤ k := by omega
      rw [collect]
      rcases h.run placed le with ⟨m₁, spent⟩ | ⟨r', ⟨N, settled⟩, outcomes⟩
      · rw [spent]
        exact .inl ⟨_, rfl⟩
      have after {c c' : Except Halt (List Term) × World} {M : Nat}
          (eq : ∀ i, max M N ≤ i → collect p' (i + 1) failed t' m' ts' = c')
          (collected : Collections o c c') :
          ∃ c', Settles (fun n => collect p' n failed t' m' ts') c' ∧ Collections o c c' :=
        ⟨c', settles_of_succ ⟨max M N, eq⟩, collected⟩
      generalize Machine.run p n failed m = r at outcomes
      cases outcomes with
      | exhausted within before worlds =>
        have all := rel_reverse (Term.Alike.mono_all found within)
        refine .inr (after (M := 0) (fun i le => ?_) (.ok before worlds all))
        rw [collect, show Machine.run p' i failed m' = _ from settled i (by omega)]
      | raised within before worlds alike =>
        refine .inr (after (M := 0) (fun i le => ?_) (.raised before worlds alike))
        rw [collect, show Machine.run p' i failed m' = _ from settled i (by omega)]
      | @solution d₁ m₁ m₁' within going =>
        obtain ⟨S, T, ready⟩ := going
        simp only [ready.worlds.left]
        cases resolved : d₁.left.resolve? n t with
        | none => exact .inl ⟨_, rfl⟩
        | some u =>
          obtain ⟨u', alike, settled'⟩ :=
            ready.matched.resolve? (template.mono within) resolved
          have failing : Placed o d₁ true m₁ m₁' := ready.failing
          have found := Forall₂.cons alike (Term.Alike.mono_all found within)
          refine (h.collects failing (template.mono within) found n le).imp_right ?_
          rintro ⟨c', ⟨M, more⟩, collected⟩
          refine after (M := max M n) (fun i le => ?_) collected
          rw [collect, show Machine.run p' i failed m' = _ from settled i (by omega)]
          simp only [ready.worlds.right, settled' i (by omega)]
          exact more i (by omega)

end

lemma upto (same : p.SameClauses p') (k : Nat) : Upto p p' k := by
  induction k with
  | zero =>
    refine ⟨fun _ n lt => absurd lt (Nat.not_lt_zero n), fun _ _ _ n le => ?_⟩
    obtain rfl := Nat.le_zero.1 le
    exact .inl ⟨_, rfl⟩
  | succ k ih => exact ih.succ same

end Calls

end Step

end Duo

end Horn
