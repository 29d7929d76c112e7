import Horn.Proofs.MostGeneralUnifiers
import Horn.Proofs.SearchSteps

/-!
# Trying clauses

The machine tries clauses one after the other, as the search does, but it passes over those whose
first argument cannot match and leaves no choice behind for the last one that is tried.
-/

namespace Horn

open List Term Machine Subst

variable {c : CompiledClause} {s t x : Term} {b : Bindings} {j : Image}

namespace Bindings

lemma meet_of_not_mayUnify (h : t.mayUnify s = false) : meet s t = .clash := by
  cases s <;> cases t
  case atom.atom a b =>
    have other : a ≠ b := fun same => by simp [mayUnify, same] at h
    exact if_neg other
  case number.number x y =>
    have other : ¬x.same y := fun same => by
      have turned : y.same x := Number.same_symm same
      rw [show y.same x = false from h] at turned
      cases turned
    exact if_neg other
  case compound.compound f ss g ts =>
    have other : ¬(f = g && ss.length = ts.length) := by
      intro same
      simp only [Bool.and_eq_true, decide_eq_true_eq] at same
      simp [mayUnify, name?, arity, args, same] at h
    exact if_neg other
  all_goals simp_all [mayUnify, name?, arity, args, meet]

lemma meet_structures (hs : s.args ≠ []) (ht : t.args ≠ []) :
    meet s t = .clash ∨ meet s t = .reduce (s.args.zip t.args) := by
  cases s <;> cases t
  case compound.compound f ss g ts =>
    by_cases same : f = g && ss.length = ts.length
    · exact .inr (if_pos same)
    · exact .inl (if_neg same)
  case compound.cell | cell.compound => exact .inl rfl
  case cell.cell => exact .inr rfl
  all_goals simp_all [args]

end Bindings

namespace Search

open Subst (free moved unify?)

variable {σ : Subst} {n : Nat} {i : Image} {a u : Term}

lemma mayUnify_compound {f : String} {us ts : List Term}
    (length : us.length = ts.length) :
    a.mayUnify (.compound f us) = a.mayUnify (.compound f ts) ∧
      (compound f us).mayUnify a = (compound f ts).mayUnify a := by
  have arity : (compound f us).arity = (compound f ts).arity := length
  cases a with
  | compound | cell =>
    simp only [mayUnify, name?]
    rw [arity]
    exact ⟨rfl, rfl⟩
  | _ => exact ⟨rfl, rfl⟩

lemma mayUnify_mapVars {b : Term} (f : String → Nat → Term) (nonvar : b.isVar = false) :
    a.mayUnify (b.mapVars f) = a.mayUnify b := by
  cases b with
  | var name v => cases nonvar
  | atom | number => rfl
  | compound g args =>
    rw [mapVars, mapAllVars_eq]
    exact (mayUnify_compound (length_map _)).1
  | cell h t => cases a <;> rfl

lemma Image.Top.mayUnify (h : i.Top u t) (b : Term) :
    u.mayUnify b = t.mayUnify b := by
  cases h with
  | var | atom | number => rfl
  | compound f args => exact (mayUnify_compound args.length_eq).2
  | cell head tail => cases b <;> rfl

lemma unify?_of_meet {rest : List (Term × Term)} :
    (Bindings.meet (σ.apply s) (σ.apply t) = .clash →
        unify? (n + 1) ((s, t) :: rest) σ = some none) ∧
      ∀ ps, Bindings.meet (σ.apply s) (σ.apply t) = .reduce ps →
        unify? (n + 1) ((s, t) :: rest) σ = unify? n (ps ++ rest) σ := by
  rw [unify?]
  cases σ.apply s <;> cases σ.apply t <;> grind [Bindings.meet]

lemma isVar_mapVars (f : String → Nat → Term) (nonvar : t.isVar = false) :
    (t.mapVars f).isVar = false := by
  cases t with
  | var name v => cases nonvar
  | _ => rfl

lemma args_mapVars (f : String → Nat → Term) (nonvar : t.isVar = false) :
    (t.mapVars f).args = t.args.map (mapVars f) := by
  cases t with
  | var name v => cases nonvar
  | compound g args => rw [mapVars, mapAllVars_eq]; rfl
  | _ => rfl

lemma args_of_arg? (h : t.arg? 0 = some a) :
    ∃ rest, t.args = a :: rest ∧ t.isVar = false := by
  cases t with
  | compound f args =>
    cases args with
    | nil => cases h
    | cons b rest => cases h; exact ⟨rest, rfl, rfl⟩
  | cell x y => cases h; exact ⟨[y], rfl, rfl⟩
  | _ => cases h

lemma isVar_of_mayUnify (differ : a.mayUnify x = false) : x.isVar = false := by
  cases x with
  | var => cases a <;> cases differ
  | _ => rfl

lemma Image.Top.args (h : i.Top u t) :
    Forall₂ i.Shows u.args t.args := by
  cases h with
  | compound f args => exact args
  | cell head tail => exact .cons head (.cons tail .nil)
  | _ => exact .nil

lemma unify?_of_passed {head : Term} (shows : i.Shows u t) (first : u.arg? 0 = some a)
    (other : head.arg? 0 = some x) (differ : (i.store.walk a).mayUnify x = false) (base : Nat)
    (τ : Subst) : unify? n [(Bindings.rename base head, t)] i.state.subst ≠ some (some τ) := by
  obtain ⟨us, args, nonvar⟩ := args_of_arg? first
  obtain ⟨xs, args', nonvar'⟩ := args_of_arg? other
  have different := isVar_of_mayUnify differ
  have top := shows.top
  rw [Image.walk_of_nonvar nonvar] at top
  have parts := top.args
  rw [args] at parts
  generalize ets : (i.state.subst.apply t).args = ts at parts
  cases parts with
  | @cons _ y _ ys showsFirst _ =>
    have heads : (i.state.subst.apply (Bindings.rename base head)).args =
        i.state.subst.apply (Bindings.rename base x) ::
          xs.map fun x => i.state.subst.apply (Bindings.rename base x) := by
      have renamed : (Bindings.rename base head).isVar = false := isVar_mapVars _ nonvar'
      rw [apply, args_mapVars _ renamed, Bindings.rename, args_mapVars _ nonvar', args',
        map_cons, map_cons, map_map]
      rfl
    have clash (n : Nat) (rest : List (Term × Term)) : unify? (n + 1)
        ((i.state.subst.apply (Bindings.rename base x), y) :: rest) i.state.subst = some none := by
      have renamed : (Bindings.rename base x).isVar = false := isVar_mapVars _ different
      have applied : (i.state.subst.apply (Bindings.rename base x)).isVar = false :=
        isVar_mapVars _ renamed
      refine unify?_of_meet.1 (Bindings.meet_of_not_mayUnify ?_)
      rw [← showsFirst.top.mayUnify]
      calc (i.store.walk a).mayUnify
            (i.state.subst.apply (i.state.subst.apply (Bindings.rename base x)))
          = (i.store.walk a).mayUnify (i.state.subst.apply (Bindings.rename base x)) :=
            mayUnify_mapVars _ applied
        _ = (i.store.walk a).mayUnify (Bindings.rename base x) := mayUnify_mapVars _ renamed
        _ = (i.store.walk a).mayUnify x := mayUnify_mapVars _ different
        _ = false := differ
    have some : (i.state.subst.apply (Bindings.rename base head)).args ≠ [] := by
      rw [heads]
      exact cons_ne_nil _ _
    have some' : (i.state.subst.apply t).args ≠ [] := by
      rw [ets]
      exact cons_ne_nil _ _
    cases n with
    | zero => rintro ⟨⟩
    | succ n =>
      rcases Bindings.meet_structures some some' with failed | reduced
      · rw [unify?_of_meet.1 failed]
        rintro ⟨⟩
      · rw [unify?_of_meet.2 _ reduced, heads, ets]
        cases n with
        | zero => rintro ⟨⟩
        | succ n =>
          rw [zip_cons_cons, cons_append, clash]
          rintro ⟨⟩

def passedOver (b : Bindings) (u : Term) (c : CompiledClause) : Bool :=
  match u.arg? 0, c.clause.head.bind (·.arg? 0) with
  | some a, some x => !(b.walk a).mayUnify x
  | _, _ => false

lemma candidates_eq {p : Program} (selects : p.selects = mayUnify) (m : Machine) (u : Term)
    (cs : List CompiledClause) :
    candidates p m u cs = cs.dropWhile (passedOver m.world.bindings u) := by
  unfold candidates passedOver
  cases u.arg? 0 with
  | none =>
    cases cs with
    | nil => rfl
    | cons c cs => rw [dropWhile_cons_of_neg Bool.false_ne_true]
  | some a =>
    simp only [selects]
    congr 1
    funext c
    cases c.clause.head.bind (·.arg? 0) <;> rfl

lemma solveBy_of_passedOver (solve : Term → State → Answers) (n : Nat) (shows : i.Shows u t)
    (passed : passedOver i.store u c = true) :
    solveBy solve n t c.clause i.state = .stuck ∨ solveBy solve n t c.clause i.state = .failed := by
  unfold passedOver at passed
  split at passed
  · next a x first other =>
    obtain ⟨head, hasHead, firstOfHead⟩ := Option.bind_eq_some_iff.1 other
    have unmatched := unify?_of_passed (n := n) shows first firstOfHead (by simpa using passed)
      i.state.next
    simp only [solveBy, hasHead]
    cases result : i.state.subst.unify? n [(Bindings.rename i.state.next head, t)] with
    | none => exact .inl rfl
    | some result' =>
      cases result' with
      | none => exact .inr rfl
      | some τ => exact absurd result (unmatched τ)
  · cases passed

lemma solveByAny_dropWhile (solve : Term → State → Answers) (n : Nat) (shows : i.Shows u t)
    (cs : List CompiledClause) :
    solveByAny solve n t cs i.state = .stuck ∨
      solveByAny solve n t cs i.state =
        solveByAny solve n t (cs.dropWhile (passedOver i.store u)) i.state := by
  induction cs with
  | nil => exact .inr rfl
  | cons c cs ih =>
    cases passed : passedOver i.store u c with
    | false => rw [dropWhile_cons_of_neg (by simp [passed])]; exact .inr rfl
    | true =>
      rw [dropWhile_cons_of_pos passed, solveByAny]
      rcases solveBy_of_passedOver solve n shows passed with eq | eq <;> rw [eq]
      · exact .inl rfl
      · exact ih

lemma mem_ids_rename {base v : Nat} (h : v ∈ (Bindings.rename base t).ids) :
    ∃ w ∈ t.ids, v = base + w := by
  obtain ⟨w, hw, hv⟩ := mem_ids_apply.1 h
  exact ⟨w, hw, mem_ids_var.1 hv⟩

lemma Image.moved_rename (i : Image) (count : Nat) (t : Term) :
    Moved (i.reserve count).place (Bindings.rename i.store.values.size t)
      (Bindings.rename i.state.next t) := by
  have place (v : Nat) : i.reservePlace (i.state.next + v) = i.store.values.size + v := by
    rw [Image.reservePlace, if_neg (by omega)]
    omega
  change free.apply (apply (fun v => Bindings.varOf (i.store.values.size + v)) t) =
    (moved i.reservePlace).apply (apply (fun v => Bindings.varOf (i.state.next + v)) t)
  rw [apply_apply, apply_apply]
  exact apply_eq_apply.2 fun v _ => congrArg free (place v).symm

lemma Image.below_rename (i : Image) {c : Clause} (h : t ∈ c.head.toList ++ c.body) :
    ∀ v ∈ (Bindings.rename i.state.next t).ids, v < (i.reserve c.idBound).state.next := by
  intro v hv
  obtain ⟨w, hw, rfl⟩ := mem_ids_rename hv
  exact Nat.add_lt_add_left (lt_idBoundAllFrom (.inr ⟨t, h, hw⟩)) _

namespace Setting

variable {e : Setting} {pending : List Goal} {barrier : Nat} {below : List Choice} {x : Course}
  {solve : Term → State → Answers}

def Solves (e : Setting) (solve : Term → State → Answers) : Prop :=
  ∀ (i : Image) (u t : Term) (pending : List Goal) (barrier : Nat) (below : List Choice),
    i.Reads u t → barrier ≤ below.length →
      e.Follows pending barrier i (solve t i.state) false below
        (e.going i.store (.call u barrier :: pending) below)

lemma follows_one (before : i.Before j) (leads : LeadsTo x (e.going j.store pending below)) :
    e.Follows pending barrier i (.one j.state) false below x := by
  refine ⟨j, false, [], before, rfl, id, ?_, fun below' b goals _ later => ?_⟩
  · rw [append_nil]
    exact leads
  · rw [append_nil]
    exact ⟨rfl, b, goals, before.store.trans later, .refl _⟩

lemma fails_of_leadsTo {goals : List Goal} (leads : LeadsTo x (e.failing i.store goals below)) :
    e.Follows pending barrier i .failed false below x :=
  ⟨rfl, i.store, goals, i.sound.later, leads⟩

lemma Solves.all (h : e.Solves solve) {us ts : List Term} (goals : Forall₂ i.Reads us ts)
    (high : barrier ≤ below.length) :
    e.Follows pending barrier i (solveAll solve ts i.state) false below
      (e.going i.store (us.map (.call · barrier) ++ pending) below) := by
  induction us generalizing i ts below with
  | nil =>
    cases goals
    exact follows_one (.refl i) (.refl _)
  | cons u us ih =>
    cases goals with
    | cons first rest =>
      refine Follows.bind (h i u _ _ barrier below first high) high Bool.noConfusion ?_
      exact fun j choices before high' => ih (rest.imp fun _ _ reads => reads.mono before) high'

lemma Solves.enter (h : e.Solves solve) {c : Clause} (before : (i.reserve c.idBound).Before j)
    (next : j.state.next = i.state.next + c.idBound) (high : barrier ≤ below.length)
    (leads : LeadsTo x (e.going j.store
      (c.body.map (fun g => .call (Bindings.rename i.store.values.size g) barrier) ++ pending)
      below)) :
    e.Follows pending barrier i (solveAll solve
      (c.body.map fun g => bare (Bindings.rename i.state.next g))
      ⟨j.state.subst, i.state.next + c.idBound⟩) false below x := by
  have goals : Forall₂ j.Reads (c.body.map (Bindings.rename i.store.values.size))
      (c.body.map fun g => bare (Bindings.rename i.state.next g)) := by
    rw [forall₂_map_left_iff, forall₂_map_right_iff]
    refine forall₂_same.2 fun g hg => ?_
    have reads : (i.reserve c.idBound).Reads (Bindings.rename i.store.values.size g)
        (bare (Bindings.rename i.state.next g)) :=
      Image.reads_bare (i.below_rename (mem_append_right _ hg)) (i.moved_rename c.idBound g)
    exact reads.mono before
  have follows : e.Follows pending barrier j _ false below (e.going j.store _ below) :=
    h.all goals high
  rw [map_map] at follows
  rw [← next]
  exact (follows.leadsTo leads).before ((i.before_reserve c.idBound).trans before)

lemma unify_eq {m : Machine} {fuel : Nat} {k : Bool → Machine → Step} {result : Bool}
    (h : Bindings.unifyPairs fuel [(s, t)] m.world.bindings = (some result, b)) :
    act m (Action.unify fuel s t) k =
      k result ⟨⟨b, m.world.operators, m.world.output⟩, m.goals, m.choices⟩ := by
  have acted : Action.unify fuel s t m.world =
      .ok result ⟨b, m.world.operators, m.world.output⟩ := by
    simp only [Action.unify, bind, EStateM.bind, Action.onBindings, Bindings.unify, h]
    rfl
  rw [act, acted]

lemma Solves.resolveBy (h : e.Solves solve) (shows : i.Shows u t) {c : Clause}
    (high : barrier ≤ below.length)
    (begins : Begins e.program x fun n =>
      resolveBy n (e.machine i.store pending below) u c barrier) :
    e.Follows pending barrier i (solveBy solve n t c i.state) false below x := by
  unfold solveBy
  cases hasHead : c.head with
  | none =>
    refine h.enter (j := i.reserve c.idBound) (.refl _) rfl high
      (leadsTo_going begins (N := 0) fun m _ => ?_)
    simp only [Machine.resolveBy, hasHead]
    rfl
  | some head =>
    have pairs : (i.reserve c.idBound).ShowsPairs [(Bindings.rename i.store.values.size head, u)]
        [(Bindings.rename i.state.next head, t)] := by
      refine .cons ⟨Image.shows_moved (i.below_rename ?_) (i.moved_rename c.idBound head), ?_⟩ .nil
      · rw [hasHead]
        exact mem_cons_self
      · exact shows.mono (i.before_reserve c.idBound)
    have unifies := Image.unifies (n := n) pairs
    change Image.Unifies _ n _ (i.state.subst.unify? n _) at unifies
    have resolve (m : Nat) : Machine.resolveBy m (e.machine i.store pending below) u c barrier =
        act (e.machine (i.reserve c.idBound).store pending below)
          (Action.unify m (Bindings.rename i.store.values.size head) u) fun unified m =>
            if unified then .go (m.enter c i.store.values.size barrier) else .fail m := by
      simp only [Machine.resolveBy, hasHead]
      rfl
    cases result : i.state.subst.unify? n [(Bindings.rename i.state.next head, t)] with
    | none => simp only [result]; trivial
    | some result' =>
      cases result' with
      | none =>
        simp only [result]
        rw [result] at unifies
        obtain ⟨b, later, unified⟩ := unifies
        refine ⟨rfl, b, pending, (i.before_reserve _).store.trans later, ?_⟩
        refine leadsTo_failing begins (N := n) fun m le => ?_
        rw [resolve, unify_eq (unified m le)]
        rfl
      | some σ =>
        simp only [result]
        rw [result] at unifies
        obtain ⟨j, before, state, unified⟩ := unifies
        have next : j.state.next = i.state.next + c.idBound := by rw [state]; rfl
        have subst : σ = j.state.subst := by rw [state]
        rw [subst]
        refine h.enter before next high (leadsTo_going begins (N := n) fun m le => ?_)
        rw [resolve, unify_eq (unified m le)]
        rfl

def remaining (b : Bindings) (pending : List Goal) (u : Term) (rest : List CompiledClause) :
    List Choice :=
  match rest.dropWhile (passedOver b u) with
  | [] => []
  | c :: cs => [⟨b.mark, pending, .clauses u (c :: cs)⟩]

lemma tryClauses_cons (selects : e.program.selects = mayUnify) {cs rest : List CompiledClause}
    (tried : cs.dropWhile (passedOver b u) = c :: rest) (m : Nat) :
    tryClauses e.program m (e.machine b pending below) u cs =
      resolveBy m (e.machine b pending (below ++ remaining b pending u rest)) u c.clause
        below.length := by
  have kept (cs : List CompiledClause) :
      candidates e.program (e.machine b pending below) u cs =
        cs.dropWhile (passedOver b u) := candidates_eq selects _ _ _
  rw [tryClauses, kept, tried, remaining]
  cases more : rest.dropWhile (passedOver b u) with
  | nil =>
    simp only [kept, more, append_nil]
    rfl
  | cons c' rest' =>
    simp only [kept, more, ← pushChoice_machine]
    rfl

lemma Solves.tryClauses (h : e.Solves solve) (selects : e.program.selects = mayUnify)
    (cs : List CompiledClause) (shows : i.Shows u t)
    (begins : Begins e.program x fun n =>
      tryClauses e.program n (e.machine i.store pending below) u cs) :
    e.Follows pending below.length i (solveByAny solve n t cs i.state) false below x := by
  induction size : cs.length using Nat.strongRecOn generalizing i cs below x with
  | _ size ih =>
    subst size
    rcases solveByAny_dropWhile solve n shows cs with eq | eq <;> rw [eq]
    · trivial
    cases tried : cs.dropWhile (passedOver i.store u) with
    | nil =>
      have leads : LeadsTo x (e.failing i.store pending below) := by
        refine leadsTo_failing begins (N := 0) fun m _ => ?_
        rw [tryClauses, candidates_eq selects]
        change (match cs.dropWhile (passedOver i.store u) with | [] => _ | c :: rest => _) = _
        rw [tried]
      exact fails_of_leadsTo leads
    | cons c rest =>
      have shorter : rest.length < cs.length := by
        have suffix : cs.dropWhile (passedOver i.store u) <:+ cs := dropWhile_suffix _
        rw [tried] at suffix
        exact suffix.length_le
      simp only [tryClauses_cons selects tried] at begins
      refine Follows.append (h.resolveBy shows (by simp) begins) (.refl i) (Nat.le_refl _)
        Bool.noConfusion fun below' b goals length later => ?_
      rcases solveByAny_dropWhile solve n shows rest with eq | eq <;> rw [eq]
      · trivial
      rw [remaining]
      cases more : rest.dropWhile (passedOver i.store u) with
      | nil =>
        rw [append_nil]
        exact ⟨rfl, b, goals, later, .refl _⟩
      | cons c' rest' =>
        have suffix : rest.dropWhile (passedOver i.store u) <:+ rest := dropWhile_suffix _
        rw [more] at suffix
        have before := Image.before_restore later
        have again : e.Follows pending below'.length (i.restore b later) _ false below'
            (e.failing b goals (below' ++ [⟨i.store.mark, pending, .clauses u (c' :: rest')⟩])) :=
          ih _ (Nat.lt_of_le_of_lt suffix.length_le shorter) (c' :: rest') (shows.mono before)
            (failing_choice _) rfl
        rw [length] at again
        exact again.before before

end Setting

end Search

end Horn
