import Horn.Proofs.ObservedCalls

/-!
# Where the expansion of a goal ends

A goal is replaced in place until it settles, by a bounded number of rounds. Then the goals inside
are expanded, and each of them has all the rounds again.
-/

namespace Horn

open List EventLog EStateM

variable {σ α β : Type}

namespace Compiling

def Ended (r : EStateM.Result CompileError (Context × σ) α) : Prop := ∀ s, r ≠ .error .outOfFuel s

variable {x y : Compiling σ α} {f g : α → Compiling σ β} {a : α} {s s' : Context × σ}

lemma Ended.ok (a : α) (s : Context × σ) :
    Ended (.ok a s : Result CompileError (Context × σ) α) := by
  intro _ spent
  cases spent

lemma Ended.first (h : Ended ((x >>= f) s)) : Ended (x s) :=
  fun s' spent => h s' (bind_error spent)

lemma Ended.next (h : Ended ((x >>= f) s)) (ran : x s = .ok a s') : Ended (f a s') := by
  rwa [bind_ok ran] at h

lemma Ended.bind (hx : Ended (x s)) (hf : ∀ a s', x s = .ok a s' → Ended (f a s')) :
    Ended ((x >>= f) s) := by
  cases ran : x s with
  | ok a s' =>
    rw [bind_ok ran]
    exact hf a s' ran
  | error e s' =>
    rw [bind_error ran]
    rw [ran] at hx
    exact fun _ spent => hx s' (by cases spent; rfl)

lemma Ended.bind_eq (h : Ended ((x >>= f) s)) (first : Ended (x s) → y s = x s)
    (next : ∀ a s', x s = .ok a s' → Ended (f a s') → g a s' = f a s') :
    (y >>= g) s = (x >>= f) s := by
  have same := first h.first
  cases ran : x s with
  | ok a s' =>
    rw [bind_ok ran, bind_ok (same.trans ran)]
    exact next a s' ran (h.next ran)
  | error e s' => rw [bind_error ran, bind_error (same.trans ran)]

/-- What is run with more and more fuel and does not change once the fuel is enough. -/
def Stable (run : Nat → EStateM.Result CompileError (Context × σ) α) : Prop :=
  ∀ n, Ended (run n) → run (n + 1) = run n

namespace Stable

variable {run : Nat → Result CompileError (Context × σ) α} {n m : Nat}

lemma eq_of_le (h : Stable run) (ended : Ended (run n)) (le : n ≤ m) : run m = run n := by
  induction le with
  | refl => rfl
  | @step m _ ih => rw [h m (ih ▸ ended), ih]

lemma unique (h : Stable run) (ended : Ended (run n)) (ended' : Ended (run m)) :
    run n = run m := by
  rcases Nat.le_total n m with le | le
  · exact (h.eq_of_le ended le).symm
  · exact h.eq_of_le ended' le

end Stable

end Compiling

open Compiling (Ended Stable)

def Observer.GoalError (o : Observer σ) (e : CompileError) : Prop :=
  ∃ t x y, o.expandGoal t x = .error e y

def Observer.Returns (o : Observer σ) : Prop := ¬o.GoalError .outOfFuel

namespace Expansion

variable (o : Observer σ) (hooks : List Hook) (rounds : Nat)
  {e : CompileError} {n : Nat}

def argument (n : Nat) (goals : List Nat) (i : Nat) (a : Term) : Compiling σ Term :=
  if goals.contains i then goal o hooks rounds n a else pure a

lemma goalArgs_cons (n : Nat) (goals : List Nat) (i : Nat) (a : Term) (rest : List Term) :
    goalArgs o hooks rounds (n + 1) goals i (a :: rest) =
      argument o hooks rounds n goals i a >>= fun b =>
        goalArgs o hooks rounds n goals (i + 1) rest >>= fun more => pure (b :: more) := by
  rw [goalArgs, argument]
  split <;> rfl

def unsettledAt (t : Term) : CompileError := .source (.unsettled t rounds) t.text .unknown

lemma stable_expansion (n : Nat) :
    (∀ t s, Ended (goal o hooks rounds n t s) →
      goal o hooks rounds (n + 1) t s = goal o hooks rounds n t s) ∧
    (∀ goals i ts s, Ended (goalArgs o hooks rounds n goals i ts s) →
      goalArgs o hooks rounds (n + 1) goals i ts s = goalArgs o hooks rounds n goals i ts s) := by
  induction n with
  | zero => exact ⟨fun t s ended => absurd rfl (ended s), fun _ _ _ s ended => absurd rfl (ended s)⟩
  | succ n ih =>
    obtain ⟨one, all⟩ := ih
    constructor
    · intro t s ended
      refine Ended.bind_eq ended (fun _ => rfl) fun current s' _ ended => ?_
      cases current with
      | compound f args => exact ended.bind_eq (all _ _ _ _) fun _ _ _ _ => rfl
      | _ => rfl
    · intro goals i ts s ended
      cases ts with
      | nil => rfl
      | cons a rest =>
        rw [goalArgs_cons] at ended ⊢
        rw [goalArgs_cons]
        refine ended.bind_eq (fun ended => ?_) fun _ _ _ ended =>
          ended.bind_eq (all _ _ _ _) fun _ _ _ _ => rfl
        unfold argument at ended ⊢
        split
        · next isGoal =>
          rw [if_pos isGoal] at ended
          exact one a s ended
        · rfl

lemma stable_goal (t : Term) (s : Context × σ) :
    Stable fun n => goal o hooks rounds n t s :=
  fun n => (stable_expansion o hooks rounds n).1 t s

lemma stable_goalArgs (goals : List Nat) (i : Nat) (ts : List Term) (s : Context × σ) :
    Stable fun n => goalArgs o hooks rounds n goals i ts s :=
  fun n => (stable_expansion o hooks rounds n).2 goals i ts s

lemma stable_argument (goals : List Nat) (i : Nat) (a : Term) (s : Context × σ) :
    Stable fun n => argument o hooks rounds n goals i a s := by
  intro n
  unfold argument
  split
  · exact stable_goal o hooks rounds a s n
  · exact fun _ => rfl

inductive Passes (goals : List Nat) : Nat → List Term → Context × σ → Context × σ → Prop where
  | nil (i : Nat) (s : Context × σ) : Passes goals i [] s s
  | cons {i n : Nat} {a b : Term} {rest : List Term} {s s' s'' : Context × σ}
      (first : argument o hooks rounds n goals i a s = .ok b s')
      (others : Passes goals (i + 1) rest s' s'') : Passes goals i (a :: rest) s s''

/-- The goal of the first pair is inside what the goal of the second has become, and its turn comes
in the state of the first pair. -/
inductive Inner : Term × Context × σ → Term × Context × σ → Prop where
  | argument {t a : Term} {f : String} {before after : List Term} {s s' s'' : Context × σ}
      (settled : settle o hooks (unsettledAt rounds t) rounds t s =
        .ok (.compound f (before ++ a :: after)) s')
      (isGoal : before.length ∈ (Term.compound f (before ++ a :: after)).metaGoalArgs)
      (passes : Passes o hooks rounds (Term.compound f (before ++ a :: after)).metaGoalArgs 0 before
        s' s'') : Inner (a, s'') (t, s)

variable {o hooks rounds} {goals : List Nat} {s s' s'' : Context × σ} {before : List Term}
  {t : Term} {i : Nat}

lemma ended_argument {after : List Term} {a : Term}
    (passes : Passes o hooks rounds goals i before s s')
    (ended : Ended (goalArgs o hooks rounds n goals i (before ++ a :: after) s)) :
    ∃ m < n, Ended (argument o hooks rounds m goals (i + before.length) a s') := by
  induction passes generalizing n with
  | nil i s =>
    cases n with
    | zero => exact absurd rfl (ended s)
    | succ n =>
      rw [nil_append, goalArgs_cons] at ended
      exact ⟨n, Nat.lt_succ_self n, ended.first⟩
  | @cons i k b b' rest s s₁ s₂ first others ih =>
    cases n with
    | zero => exact absurd rfl (ended s)
    | succ n =>
      rw [cons_append, goalArgs_cons] at ended
      have ran : argument o hooks rounds n goals i b s = .ok b' s₁ :=
        ((stable_argument o hooks rounds goals i b s).unique ended.first
          (m := k) (first ▸ Ended.ok b' s₁)).trans first
      obtain ⟨m, lt, ended⟩ := ih (ended.next ran).first
      refine ⟨m, Nat.lt_succ_of_lt lt, ?_⟩
      rwa [length_cons, Nat.add_comm _ 1, ← Nat.add_assoc]

lemma acc_of_ended (n : Nat) : ∀ t (s : Context × σ), Ended (goal o hooks rounds n t s) →
    Acc (Inner o hooks rounds) (t, s) := by
  induction n using Nat.strongRecOn with
  | ind n ih =>
    intro t s ended
    refine ⟨_, ?_⟩
    rintro _ ⟨settled, isGoal, passes⟩
    cases n with
    | zero => exact absurd rfl (ended s)
    | succ n =>
      have inside := (ended.next settled).first
      obtain ⟨m, lt, ended⟩ := ended_argument passes inside
      rw [argument, Nat.zero_add, if_pos (contains_iff_mem.2 isGoal)] at ended
      exact ih m (Nat.lt_succ_of_lt lt) _ _ ended

lemma Passes.concat {a b : Term} (passes : Passes o hooks rounds goals i before s s')
    (last : argument o hooks rounds n goals (i + before.length) a s' = .ok b s'') :
    Passes o hooks rounds goals i (before ++ [a]) s s'' := by
  induction passes with
  | nil i s => exact .cons last (.nil _ _)
  | cons first others ih =>
    refine .cons first (ih ?_)
    rwa [length_cons, Nat.add_comm _ 1, ← Nat.add_assoc] at last

lemma ended_goalArgs {args : List Term}
    (each : ∀ before a after s', args = before ++ a :: after → before.length ∈ goals →
      Passes o hooks rounds goals 0 before s s' → ∃ n, Ended (goal o hooks rounds n a s'))
    (before rest : List Term) (split : args = before ++ rest)
    (passes : Passes o hooks rounds goals 0 before s s') :
    ∃ n, Ended (goalArgs o hooks rounds n goals before.length rest s') := by
  induction rest generalizing before s' with
  | nil => exact ⟨1, Ended.ok [] s'⟩
  | cons a rest ih =>
    have first : ∃ n, Ended (argument o hooks rounds n goals before.length a s') := by
      unfold argument
      split
      · next isGoal => exact each _ _ _ _ split (contains_iff_mem.1 isGoal) passes
      · exact ⟨0, Ended.ok a s'⟩
    obtain ⟨n, first⟩ := first
    cases ran : argument o hooks rounds n goals before.length a s' with
    | error e s₁ =>
      refine ⟨n + 1, ?_⟩
      rw [goalArgs_cons]
      exact first.bind fun _ _ ok => by rw [ran] at ok; cases ok
    | ok b s₁ =>
      have longer := ih (before ++ [a]) (by rw [split, append_assoc]; rfl)
        (passes.concat (by rwa [Nat.zero_add]))
      rw [length_append, length_singleton] at longer
      obtain ⟨m, others⟩ := longer
      -- Fuel for the argument and for the others.
      have enough := (stable_argument o hooks rounds goals before.length a s').eq_of_le first
        (Nat.le_max_left n m)
      have enough' := (stable_goalArgs o hooks rounds goals (before.length + 1) rest s₁).eq_of_le
        others (Nat.le_max_right n m)
      refine ⟨max n m + 1, ?_⟩
      rw [goalArgs_cons, bind_ok (enough.trans ran)]
      exact Ended.bind (enough' ▸ others) fun _ _ _ => Ended.ok _ _

lemma error_round (failed : round o hooks t s = .error e s') : o.GoalError e := by
  unfold round at failed
  rcases error_of_bind failed with failed | ⟨_, _, -, failed⟩
  · obtain ⟨x, asked, -⟩ := Compiling.error_of_ask failed
    exact ⟨_, _, x, asked⟩
  · cases failed

lemma error_settle {unsettled : CompileError}
    (failed : settle o hooks unsettled n t s = .error e s') : e = unsettled ∨ o.GoalError e := by
  induction n generalizing t s with
  | zero =>
    unfold settle at failed
    split at failed
    · cases failed
    · rcases error_of_bind failed with failed | ⟨⟨_, _ | _⟩, _, -, failed⟩
      · exact .inr (error_round failed)
      · cases failed
      · cases failed
        exact .inl rfl
  | succ n ih =>
    unfold settle at failed
    split at failed
    · cases failed
    · rcases error_of_bind failed with failed | ⟨⟨_, _ | _⟩, _, -, failed⟩
      · exact .inr (error_round failed)
      · cases failed
      · exact ih failed

lemma ended_settle (returns : o.Returns) (n : Nat) (t : Term) (s : Context × σ) :
    Ended (settle o hooks (unsettledAt rounds t) n t s) := by
  intro s' spent
  rcases error_settle spent with spent | spent
  · cases spent
  · exact returns spent

lemma ended_of_acc (returns : o.Returns) {p : Term × Context × σ}
    (acc : Acc (Inner o hooks rounds) p) : ∃ n, Ended (goal o hooks rounds n p.1 p.2) := by
  induction acc with
  | intro p _ ih =>
    obtain ⟨t, s⟩ := p
    have top : Ended (settle o hooks (unsettledAt rounds t) rounds t s) :=
      ended_settle returns rounds t s
    cases settled : settle o hooks (unsettledAt rounds t) rounds t s with
    | error e s' => exact ⟨1, top.bind fun _ _ ok => by rw [settled] at ok; cases ok⟩
    | ok current s' =>
      cases current with
      | compound f args =>
        have inside : ∃ n, Ended (goalArgs o hooks rounds n (Term.compound f args).metaGoalArgs 0
            args s') := by
          refine ended_goalArgs ?_ [] args rfl (.nil 0 s')
          rintro before a after s'' rfl isGoal passes
          exact ih (a, s'') (.argument settled isGoal passes)
        obtain ⟨n, inside⟩ := inside
        refine ⟨n + 1, top.bind fun _ _ ok => ?_⟩
        cases settled.symm.trans ok
        exact Ended.bind inside fun _ _ _ => Ended.ok _ _
      | _ =>
        refine ⟨1, top.bind fun _ _ ok => ?_⟩
        cases settled.symm.trans ok
        exact Ended.ok _ _

lemma error_goalArgs (before rest : List Term)
    (passes : Passes o hooks rounds goals 0 before s s')
    (failed : goalArgs o hooks rounds n goals before.length rest s' = .error e s'')
    (enough : e ≠ .outOfFuel) :
    ∃ m < n, ∃ done a after x, before ++ rest = done ++ a :: after ∧ done.length ∈ goals ∧
      Passes o hooks rounds goals 0 done s x ∧ goal o hooks rounds m a x = .error e s'' := by
  induction rest generalizing n before s' with
  | nil =>
    cases n with
    | zero =>
      cases failed
      exact absurd rfl enough
    | succ n => cases failed
  | cons a rest ih =>
    cases n with
    | zero =>
      cases failed
      exact absurd rfl enough
    | succ n =>
      rw [goalArgs_cons] at failed
      rcases error_of_bind failed with failed | ⟨b, s₁, first, failed⟩
      · unfold argument at failed
        split at failed
        · next isGoal =>
          exact ⟨n, Nat.lt_succ_self n, before, a, rest, s', rfl, contains_iff_mem.1 isGoal,
            passes, failed⟩
        · cases failed
      · rcases error_of_bind failed with failed | ⟨_, _, -, failed⟩
        · obtain ⟨m, lt, done, a', after, x, split, found⟩ := ih (before ++ [a])
            (passes.concat (by rwa [Nat.zero_add])) (by rwa [length_append])
          refine ⟨m, Nat.lt_succ_of_lt lt, done, a', after, x, ?_, found⟩
          rw [← split, append_assoc]
          rfl
        · cases failed

lemma error_goal (enough : e ≠ .outOfFuel) :
    ∀ t (s : Context × σ), goal o hooks rounds n t s = .error e s' →
      ∃ g x, Relation.ReflTransGen (Inner o hooks rounds) (g, x) (t, s) ∧
        settle o hooks (unsettledAt rounds g) rounds g x = .error e s' := by
  induction n using Nat.strongRecOn with
  | ind n ih =>
    intro t s failed
    cases n with
    | zero =>
      cases failed
      exact absurd rfl enough
    | succ n =>
      rcases error_of_bind failed with failed | ⟨current, s₁, settled, failed⟩
      · exact ⟨t, s, .refl, failed⟩
      · cases current with
        | compound f args =>
          rcases error_of_bind failed with failed | ⟨_, _, -, failed⟩
          · obtain ⟨m, lt, done, a, after, x, rfl, isGoal, passes, failed⟩ :=
              error_goalArgs [] args (.nil 0 s₁) failed enough
            obtain ⟨g, y, inside, failed⟩ := ih m (Nat.lt_succ_of_lt lt) a x failed
            exact ⟨g, y, inside.tail (.argument settled isGoal passes), failed⟩
          · cases failed
        | _ => cases failed

/-- A goal is expanded in the end, with whatever fuel from some amount on, exactly if there is no
endless chain of goals that starts with it and goes from each goal to one inside what that has
become. Where it is expanded, the only errors are those of goals whose top is not settled after all
rounds and those of the observer. -/
theorem goal_ends_iff (o : Observer σ) (hooks : List Hook) (rounds : Nat) (returns : o.Returns)
    (t : Term) (s : Context × σ) :
    ((∃ fuel, Ended (goal o hooks rounds fuel t s)) ↔
      ¬∃ chain : Nat → Term × Context × σ, chain 0 = (t, s) ∧
        ∀ i, Inner o hooks rounds (chain (i + 1)) (chain i)) ∧
    ∀ fuel, Ended (goal o hooks rounds fuel t s) →
      (∀ more, goal o hooks rounds (fuel + more) t s = goal o hooks rounds fuel t s) ∧
      ((∃ expanded s', goal o hooks rounds fuel t s = .ok expanded s') ∨
        ∃ e s' g x, goal o hooks rounds fuel t s = .error e s' ∧
          Relation.ReflTransGen (Inner o hooks rounds) (g, x) (t, s) ∧
          settle o hooks (unsettledAt rounds g) rounds g x = .error e s' ∧
          (e = unsettledAt rounds g ∨ o.GoalError e)) := by
  refine ⟨?_, fun fuel ended => ⟨fun more => ?_, ?_⟩⟩
  · rw [← not_acc_iff_exists_descending_chain, not_not]
    exact ⟨fun ⟨fuel, ended⟩ => acc_of_ended fuel t s ended, ended_of_acc returns⟩
  · exact (stable_goal o hooks rounds t s).eq_of_le ended (Nat.le_add_right fuel more)
  · cases ran : goal o hooks rounds fuel t s with
    | ok expanded s' => exact .inl ⟨expanded, s', rfl⟩
    | error e s' =>
      have enough : e ≠ .outOfFuel := by
        rintro rfl
        exact ended s' ran
      obtain ⟨g, x, inside, failed⟩ := error_goal enough t s ran
      exact .inr ⟨e, s', g, x, rfl, inside, failed, error_settle failed⟩

lemma eventLog_returns : observer.Returns := by
  rintro ⟨t, x, y, failed⟩
  cases failed

def nesting : Hook where
  name := "nesting"
  expandTerm _ := none
  expandGoal
    | .atom "a" => some (.compound "call" [.atom "a"])
    | .atom "b" => some (.atom "c")
    | _ => none

/-- `call(b)` holds no endless chain, and `call(c)` comes of it with every fuel from `4` on. -/
theorem goal_ends_iff_call :
    let s : Context × EventLog := (.new .standard .standard, .empty)
    EventLog.observer.Returns ∧
      (¬∃ chain : Nat → Term × Context × EventLog, chain 0 = (.compound "call" [.atom "b"], s) ∧
        ∀ i, Inner EventLog.observer [nesting] 64 (chain (i + 1)) (chain i)) ∧
      ∀ more, goal EventLog.observer [nesting] 64 (4 + more) (.compound "call" [.atom "b"]) s =
        .ok (.compound "call" [.atom "c"]) s := by
  intro s
  have ran : goal observer [nesting] 64 4 (.compound "call" [.atom "b"]) s =
      .ok (.compound "call" [.atom "c"]) s := rfl
  have ended : Ended (goal observer [nesting] 64 4 (.compound "call" [.atom "b"]) s) := by
    rw [ran]
    exact Ended.ok _ _
  obtain ⟨ends, settled⟩ := goal_ends_iff observer [nesting] 64
    eventLog_returns (.compound "call" [.atom "b"]) s
  exact ⟨eventLog_returns, ends.1 ⟨4, ended⟩, fun more => ((settled 4 ended).1 more).trans ran⟩

/-- The bound on the rounds does not stop a rule that puts a goal into a call of itself. No fuel is
enough for `a`. -/
theorem goal_nests_forever :
    let s : Context × EventLog := (.new .standard .standard, .empty)
    EventLog.observer.Returns ∧
      ∀ fuel, ∃ s', goal EventLog.observer [nesting] 64 fuel (.atom "a") s =
        .error .outOfFuel s' := by
  intro s
  refine ⟨eventLog_returns, fun fuel => ?_⟩
  have settled : settle observer [nesting] (unsettledAt 64 (.atom "a")) 64 (.atom "a") s =
      .ok (.compound "call" ([] ++ Term.atom "a" :: [])) s := rfl
  have again : Inner observer [nesting] 64 (.atom "a", s) (.atom "a", s) :=
    .argument settled (by decide) (.nil 0 s)
  by_contra unspent
  have acc := acc_of_ended fuel (.atom "a") s (not_exists.1 unspent)
  exact not_acc_iff_exists_descending_chain.2 ⟨fun _ => _, rfl, fun _ => again⟩ acc

end Expansion

end Horn
