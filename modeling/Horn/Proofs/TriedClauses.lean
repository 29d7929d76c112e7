import Horn.Proofs.LinkedStores

/-!
# Clauses that are tried in vain

If a clause that cannot match is tried, unification fails at the first argument before anything is
bound, and all that remains is room for the variables of the clause.
-/

namespace Horn

open List Term Bindings Search
open Search (Course LeadsTo passedOver)

namespace Machine

variable {p : Program}

def gathered (p : Program) (n mark : Nat) (result : Term) (goals : List Goal)
    (choices : Array Choice) : Except Halt (List Term) × World → Outcome
  | (.error h, w) => .halted h ⟨⟨w.bindings.undo mark, w.operators, w.output⟩, goals, choices⟩
  | (.ok found, w) =>
    match unifyFound n found result ⟨w.bindings.undo mark, w.operators, w.output⟩ with
    | .error h w => .halted h ⟨w, goals, choices⟩
    | .ok unified w => run p n (!unified) ⟨w, goals, choices⟩

def proceed (p : Program) (n : Nat) : Step → Outcome
  | .go m => run p n false m
  | .fail m => run p n true m
  | .solution m => .solution m
  | .exhausted m => .exhausted m
  | .halt h m => .halted h m
  | .collect template goal result m =>
    gathered p n m.world.bindings.mark result m.goals m.choices
      (collect p n false template (start m.world (.compound "call" [goal])) [])

lemma run_succ (n : Nat) (failed : Bool) (m : Machine) :
    run p (n + 1) failed m = proceed p n (step p n failed m) := by
  rw [run]
  cases step p n failed m with
  | collect template goal result m =>
    obtain ⟨w, goals, choices⟩ := m
    simp only [proceed]
    rcases collect p n false template (start w (.compound "call" [goal])) [] with
      ⟨_ | found, b, ops, out⟩ <;> rfl
  | _ => rfl

def taking (p : Program) (s : Nat → Step) : Course := fun n => proceed p n (s n)

def resuming (p : Program) (failed : Bool) (m : Machine) : Course :=
  taking p fun n => step p n failed m

def Outcome.Spent (r : Outcome) : Prop := ∃ m, r = .halted .outOfFuel m

/-- After some steps, `j` at least, one course is the other, unless it runs out of fuel before. -/
structure Leads (j : Nat) (x y : Course) : Prop where
  onwards : LeadsTo x y
  either : ∀ n, (x n).Spent ∨ ∃ k, k + j ≤ n ∧ x n = y k

lemma Leads.refl (x : Course) : Leads 0 x x :=
  ⟨.refl x, fun n => .inr ⟨n, Nat.le_refl n, rfl⟩⟩

lemma Leads.trans {i j : Nat} {x y z : Course} (h : Leads i x y) (h' : Leads j y z) :
    Leads (i + j) x z := by
  refine ⟨h.onwards.trans h'.onwards, fun n => ?_⟩
  rcases h.either n with spent | ⟨k, le, eq⟩
  · exact .inl spent
  · rw [eq]
    rcases h'.either k with spent | ⟨l, le', eq'⟩
    · exact .inl spent
    · exact .inr ⟨l, by omega, eq'⟩

lemma Leads.atLeast {i j : Nat} {x y : Course} (h : Leads i x y) (le : j ≤ i) : Leads j x y :=
  ⟨h.onwards, fun n => (h.either n).imp_right fun ⟨k, le', eq⟩ => ⟨k, by omega, eq⟩⟩

lemma leads_of_fail {s : Nat → Step} {m : Machine} {N : Nat} (settled : ∀ n, N ≤ n → s n = .fail m)
    (either : ∀ n, (∃ m', s n = .halt .outOfFuel m') ∨ s n = .fail m) :
    Leads 1 (taking p s) (resuming p true m) := by
  refine ⟨⟨1, N, fun n le => ?_⟩, fun n => ?_⟩
  · rw [taking, settled (n + 1) (by omega)]
    exact run_succ n true m
  · rcases either n with ⟨m', spent⟩ | fails
    · exact .inl ⟨m', by rw [taking, spent]; rfl⟩
    · rw [taking, fails]
      cases n with
      | zero => exact .inl ⟨m, by rw [proceed, run]⟩
      | succ n => exact .inr ⟨n, Nat.le_refl _, run_succ n true m⟩

end Machine

namespace Bindings

variable {b : Bindings}

lemma unify_of_passed {u head a x : Term} (first : u.arg? 0 = some a) (other : head.arg? 0 = some x)
    (differ : (b.walk a).mayUnify x = false) (base n : Nat) :
    unify (n + 2) (rename base head) u b = (some false, b) ∧
      ((unify n (rename base head) u b).1 = none ∨
        unify n (rename base head) u b = (some false, b)) := by
  obtain ⟨us, args, nonvar⟩ := args_of_arg? first
  obtain ⟨xs, args', nonvar'⟩ := args_of_arg? other
  have different := isVar_of_mayUnify differ
  have walked : b.walk u = u := Image.walk_of_nonvar nonvar
  have walked' : b.walk (rename base head) = rename base head :=
    Image.walk_of_nonvar (isVar_mapVars _ nonvar')
  have walked'' : b.walk (rename base x) = rename base x :=
    Image.walk_of_nonvar (isVar_mapVars _ different)
  have heads : (rename base head).args = rename base x :: xs.map (rename base) := by
    rw [rename, args_mapVars _ nonvar', args']
    rfl
  have clash (n : Nat) (rest : List (Term × Term)) :
      unifyPairs (n + 1) ((rename base x, a) :: rest) b = (some false, b) := by
    rw [unifyPairs_cons, walked'', meet_of_not_mayUnify]
    exact (mayUnify_mapVars _ different).trans differ
  have tops := meet_structures (s := rename base head) (t := u) (by rw [heads]; exact cons_ne_nil _ _)
    (by rw [args]; exact cons_ne_nil _ _)
  have fails (n : Nat) : unify (n + 2) (rename base head) u b = (some false, b) := by
    rw [unify, unifyPairs_cons, walked, walked']
    rcases tops with eq | eq
    · rw [eq]
    · rw [eq, heads, args]
      exact clash n _
  refine ⟨fails n, ?_⟩
  rcases n with _ | _ | n
  · exact .inl rfl
  · rw [unify, unifyPairs_cons, walked, walked']
    rcases tops with eq | eq
    · rw [eq]
      exact .inr rfl
    · rw [eq]
      exact .inl rfl
  · exact .inr (fails n)

end Bindings

def Program.Fair (p : Program) : Prop :=
  ∀ a x : Term, a.mayUnify x = true → p.selects a x = true

namespace Machine

variable {p : Program} {b b' : Bindings} {u : Term} {cs : List CompiledClause}

def alive (b : Bindings) (u : Term) (cs : List CompiledClause) : List CompiledClause :=
  cs.filter (!passedOver b u ·)

lemma alive_restored (h : b.Restored b') (sound : b.Sound) (u : Term)
    (cs : List CompiledClause) : alive b' u cs = alive b u cs := by
  unfold alive passedOver
  simp only [h.walk sound]

lemma filter_dropWhile {α : Type} {f g : α → Bool} (h : ∀ a, f a = true → g a = false)
    (l : List α) : (l.dropWhile f).filter g = l.filter g := by
  induction l with
  | nil => rfl
  | cons a l ih =>
    cases dropped : f a with
    | true => rw [dropWhile_cons_of_pos dropped, ih, filter_cons_of_neg (by simp [h a dropped])]
    | false => rw [dropWhile_cons_of_neg (by simp [dropped])]

lemma alive_candidates (fair : p.Fair) (m : Machine) (u : Term) (cs : List CompiledClause) :
    alive m.world.bindings u (candidates p m u cs) = alive m.world.bindings u cs := by
  unfold candidates
  cases first : u.arg? 0 with
  | none => rfl
  | some a =>
    refine filter_dropWhile (fun c dropped => ?_) cs
    unfold passedOver
    rw [first]
    cases other : c.clause.head.bind (·.arg? 0) with
    | none => simp [other] at dropped
    | some x =>
      simp only [other, Bool.not_eq_eq_eq_not, Bool.not_true, Bool.not_not] at dropped ⊢
      rw [Bool.eq_false_iff]
      intro may
      rw [fair _ _ may] at dropped
      cases dropped

variable {ops : OperatorTable} {out : String} {goals : List Goal} {choices : Array Choice}

lemma retry_push (n : Nat) (c : Choice) :
    retry p n ⟨⟨b, ops, out⟩, goals, choices.push c⟩ =
      match c.alternative with
      | .spent => .fail ⟨⟨b.undo c.trail, ops, out⟩, c.goals, choices⟩
      | .goal t barrier => .go ⟨⟨b.undo c.trail, ops, out⟩, .call t barrier :: c.goals, choices⟩
      | .clauses u cs => tryClauses p n ⟨⟨b.undo c.trail, ops, out⟩, c.goals, choices⟩ u cs := by
  unfold retry
  simp only [Array.back?_push, Array.pop_push]
  rfl

lemma resuming_clauses (mark : Nat) (gs : List Goal) :
    resuming p true ⟨⟨b, ops, out⟩, goals, choices.push ⟨mark, gs, .clauses u cs⟩⟩ =
      taking p fun n => tryClauses p n ⟨⟨b.undo mark, ops, out⟩, gs, choices⟩ u cs := by
  unfold resuming step
  simp only [if_true, retry_push]

lemma resolveBy_of_passed (sound : b.Sound) {c : CompiledClause} (passed : passedOver b u c = true)
    (n barrier : Nat) :
    resolveBy (n + 2) ⟨⟨b, ops, out⟩, goals, choices⟩ u c.clause barrier =
        .fail ⟨⟨(b.reserve c.clause.idBound).2, ops, out⟩, goals, choices⟩ ∧
      ((∃ m, resolveBy n ⟨⟨b, ops, out⟩, goals, choices⟩ u c.clause barrier = .halt .outOfFuel m) ∨
        resolveBy n ⟨⟨b, ops, out⟩, goals, choices⟩ u c.clause barrier =
          .fail ⟨⟨(b.reserve c.clause.idBound).2, ops, out⟩, goals, choices⟩) := by
  unfold passedOver at passed
  split at passed
  · next a x first other =>
    obtain ⟨head, hasHead, firstOfHead⟩ := Option.bind_eq_some_iff.1 other
    have differ : ((b.reserve c.clause.idBound).2.walk a).mayUnify x = false := by
      rw [(b.restored_reserve _).walk sound]
      simpa using passed
    have resolve (k : Nat) : resolveBy k ⟨⟨b, ops, out⟩, goals, choices⟩ u c.clause barrier =
        act ⟨⟨(b.reserve c.clause.idBound).2, ops, out⟩, goals, choices⟩
          (Action.unify k (rename b.values.size head) u) fun unified m =>
            if unified then .go (m.enter c.clause b.values.size barrier) else .fail m := by
      simp only [resolveBy, hasHead]
      rfl
    obtain ⟨fails, either⟩ := unify_of_passed first firstOfHead differ b.values.size n
    simp only [resolve, act, Action.unify, Action.fueled_onBindings, fails]
    refine ⟨rfl, either.imp (fun spent => ?_) fun fails => ?_⟩
    · generalize unify n _ _ _ = r at spent
      obtain ⟨result, store⟩ := r
      cases spent
      exact ⟨_, rfl⟩
    · rw [fails]
      rfl
  · cases passed

inductive Leaves (b : Bindings) (goals : List Goal) (choices : Array Choice) (u : Term) :
    List CompiledClause → Array Choice → Prop where
  | nothing : Leaves b goals choices u [] choices
  | choice (rest : List CompiledClause) :
    Leaves b goals choices u (alive b u rest) (choices.push ⟨b.mark, goals, .clauses u rest⟩)

inductive Tries (p : Program) (b : Bindings) (ops : OperatorTable) (out : String)
    (goals : List Goal) (choices : Array Choice) (u : Term) (cs : List CompiledClause)
    (x : Course) : Prop where
  | none {b' : Bindings} (restored : b.Restored b') (dead : alive b u cs = [])
    (leads : Leads 1 x (resuming p true ⟨⟨b', ops, out⟩, goals, choices⟩))
  | first {b' : Bindings} {c : CompiledClause} {rest : List CompiledClause} {left : Array Choice}
    (restored : b.Restored b') (first : alive b u cs = c :: rest)
    (leaves : Leaves b goals choices u rest left)
    (leads : Leads 0 x (taking p fun n =>
      resolveBy n ⟨⟨b', ops, out⟩, goals, left⟩ u c.clause choices.size))

lemma Tries.leads {j : Nat} {x y : Course} (h : Tries p b ops out goals choices u cs y)
    (hx : Leads j x y) : Tries p b ops out goals choices u cs x := by
  cases h with
  | none restored dead leads =>
    exact .none restored dead ((hx.trans leads).atLeast (Nat.le_add_left 1 j))
  | first restored first leaves leads =>
    exact .first restored first leaves ((hx.trans leads).atLeast (Nat.zero_le _))

lemma Tries.restored {cs' : List CompiledClause} {x : Course}
    (h : Tries p b' ops out goals choices u cs' x) (back : b.Restored b') (sound : b.Sound)
    (same : alive b u cs = alive b u cs') : Tries p b ops out goals choices u cs x := by
  cases h with
  | none restored dead leads =>
    rw [alive_restored back sound] at dead
    exact .none (back.trans restored) (same.trans dead) leads
  | first restored first leaves leads =>
    rw [alive_restored back sound] at first
    refine .first (back.trans restored) (same.trans first) ?_ leads
    cases leaves with
    | nothing => exact .nothing
    | choice rest =>
      rw [alive_restored back sound, Bindings.mark, back.trail]
      exact .choice rest

lemma tries (fair : p.Fair) (sound : b.Sound) (cs : List CompiledClause) :
    Tries p b ops out goals choices u cs
      (taking p fun n => tryClauses p n ⟨⟨b, ops, out⟩, goals, choices⟩ u cs) := by
  induction size : cs.length using Nat.strong_induction_on generalizing b cs with
  | _ size ih =>
  subst size
  have kept (cs : List CompiledClause) :
      alive b u (candidates p ⟨⟨b, ops, out⟩, goals, choices⟩ u cs) = alive b u cs :=
    alive_candidates fair ⟨⟨b, ops, out⟩, goals, choices⟩ u cs
  have shorter (cs : List CompiledClause) :
      (candidates p ⟨⟨b, ops, out⟩, goals, choices⟩ u cs).length ≤ cs.length :=
    (candidates_sublist p ⟨⟨b, ops, out⟩, goals, choices⟩ u cs).length_le
  have kept_cs := kept cs
  have shorter_cs := shorter cs
  unfold tryClauses
  generalize candidates p ⟨⟨b, ops, out⟩, goals, choices⟩ u cs = cs' at kept_cs shorter_cs
  cases cs' with
  | nil =>
    refine .none (.refl b) kept_cs.symm ?_
    exact leads_of_fail (N := 0) (fun _ _ => rfl) fun _ => .inr rfl
  | cons c others =>
    have kept_others := kept others
    have shorter_others := shorter others
    dsimp only
    generalize candidates p ⟨⟨b, ops, out⟩, goals, choices⟩ u others = rest
      at kept_others shorter_others
    cases passed : passedOver b u c with
    | false =>
      have first : alive b u cs = c :: alive b u rest := by
        rw [kept_others, ← kept_cs, alive, alive, filter_cons_of_pos (by simp [passed])]
      cases rest with
      | nil => exact .first (.refl b) first .nothing (.refl _)
      | cons d rest => exact .first (.refl b) first (.choice (d :: rest)) (.refl _)
    | true =>
      have dead : alive b u cs = alive b u rest := by
        rw [kept_others, ← kept_cs, alive, alive, filter_cons_of_neg (by simp [passed])]
      have fails {choices : Array Choice} {barrier : Nat} :
          Leads 1
            (taking p fun n => resolveBy n ⟨⟨b, ops, out⟩, goals, choices⟩ u c.clause barrier)
            (resuming p true ⟨⟨(b.reserve c.clause.idBound).2, ops, out⟩, goals, choices⟩) := by
        refine leads_of_fail (N := 2) (fun n le => ?_) fun n => ?_
        · obtain ⟨n, rfl⟩ := Nat.exists_eq_add_of_le' le
          exact (resolveBy_of_passed sound passed n _).1
        · exact (resolveBy_of_passed sound passed n _).2
      have reserved := b.restored_reserve c.clause.idBound
      cases rest with
      | nil => exact .none reserved dead fails
      | cons d rest =>
        -- The machine comes back to the choice, with the clauses that are left.
        have back := (reserved.later sound).undo sound
        have next := ih (d :: rest).length (by simp at shorter_cs shorter_others ⊢; omega)
          (back.later sound).sound (d :: rest) rfl
        rw [← resuming_clauses] at next
        exact (next.restored back sound dead).leads fails

lemma leads_of_idle {b₀ : Bindings} {gs : List Goal} (fair : p.Fair) (sound : b.Sound)
    (later : b.Later b₀) (dead : alive b u cs = []) :
    ∃ b₁, b.Restored b₁ ∧ b₀.values.size ≤ b₁.values.size ∧
      Leads 1
        (resuming p true ⟨⟨b₀, ops, out⟩, goals, choices.push ⟨b.mark, gs, .clauses u cs⟩⟩)
        (resuming p true ⟨⟨b₁, ops, out⟩, gs, choices⟩) := by
  have back := later.undo sound
  rw [← alive_restored back sound] at dead
  have tried : Tries p (b₀.undo b.mark) ops out gs choices u cs _ :=
    tries fair (back.later sound).sound cs
  rw [resuming_clauses]
  cases tried with
  | none restored _ leads =>
    have room := restored.room
    rw [later.sound.size_undo] at room
    exact ⟨_, back.trans restored, room, leads⟩
  | first _ first => simp [dead] at first

end Machine

end Horn
