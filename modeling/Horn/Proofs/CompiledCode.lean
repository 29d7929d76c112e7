import Horn.Proofs.GoalSetup

/-!
# The code of a clause says the clause

What a call forgets is not missed: a variable that occurs again after it has a slot that is still
live then.
-/

namespace Horn.CodeReading

open Bindings (varOf)
open State Lowering List Term BodyGoal Layout

inductive GoalRead (N : Names) : BodyGoal → ReadGoal → Prop where
  | cut : GoalRead N .cut .cut
  | user {f : Functor} {args xs : List Term} (reads : List.Forall₂ (Reads (Stands N [])) args xs) :
      GoalRead N (.user f args) (.user f xs)
  | builtin {b : Builtin} {goal : Term} {x : Nat → Option Term} {xs : List Term}
      (args : registers x goal.arity = some xs)
      (reads : List.Forall₂ (Reads (Stands N [])) goal.args xs) :
      GoalRead N (.builtin b goal) (.builtin b x)

variable {g : BodyGoal} {N : Names} {goals : List BodyGoal} {base : Nat} {l : Layout} {s : State}
  {r r' : Registers} {head : Term} {p : PreparedClause} {chainRule : Bool} {code : List Instruction}
  {α β ε : Type} {todo : List Nat}

lemma GoalRead.widen {N' : Names} {rg : ReadGoal} (h : GoalRead N g rg) (names : N.Sub N') :
    GoalRead N' g rg := by
  cases h with
  | cut => exact .cut
  | user reads => exact .user (readsAll_widen reads names fun _ ho => ho)
  | builtin args reads => exact .builtin args (readsAll_widen reads names fun _ ho => ho)

structure Part (base : Nat) (goals : List BodyGoal) (ms : List Mention) (c : Nat)
    (gs : List BodyGoal) : Prop where
  mentions : ∀ m ∈ (BodyGoal.placed c gs).flatMap BodyGoal.mentions, m ∈ ms
  cuts : ∀ d, (.cut, d) ∈ BodyGoal.placed c gs → (.cut, d) ∈ BodyGoal.placed 0 goals
  arity : ∀ f args, .user f args ∈ gs → f.arity = args.length
  fit : ∀ g ∈ gs, g.args.length ≤ base

lemma Part.tail {ms : List Mention} {c : Nat} {gs : List BodyGoal}
    (h : Part base goals ms c (g :: gs)) :
    Part base goals ms (if g.endsChunk then c + 1 else c) gs where
  mentions := fun m hm => h.mentions m (by
    rw [placed, flatMap_cons]
    exact mem_append_right _ hm)
  cuts := fun d hd => h.cuts d (mem_cons_of_mem _ hd)
  arity := fun f args hf => h.arity f args (mem_cons_of_mem _ hf)
  fit := fun g hg => h.fit g (mem_cons_of_mem _ hg)

/-- The state of a reading before the goals `gs`, which begin in chunk `c`. -/
structure Ready (l : Layout) (base : Nat) (ms : List Mention) (c : Nat) (gs : List BodyGoal)
    (r : Registers) (N : Names) (s : State) : Prop where
  inv : Inv l base r N [] (Term.occurrencesAll (gs.flatMap BodyGoal.terms)) s
  pending : s.pending = none
  unfinished : s.finished = false
  neck : c = 0 → s.atNeck = true
  level : .cut ∈ gs → ∀ y, l.slot? .cutLevel = some y → s.y y = some .level
  before : ∀ id ∈ r.seen, ∃ d, d ≤ c ∧ (id, d) ∈ ms

lemma Inv.forget {live : Nat} (h : Inv l base r N [] todo s)
    (kept : ∀ id ∈ r.seen, id ∈ todo → ∃ y, l.slot? (.var id) = some y ∧ y ≤ live) :
    Inv l base r N [] todo (s.forget live) := by
  refine { h with openHeld := ?_, held := ?_, proper := h.proper, frame := h.frame }
  · intro o ho
    cases ho
  · intro id hid ht reg hreg
    obtain ⟨y, hy, hle⟩ := kept id hid ht
    have held := h.held id hid ht reg hreg
    rw [home?, hy] at hreg
    cases hreg
    simpa [State.get, State.forget, hle] using held

lemma Inv.emit (h : Inv l base r N [] todo s) (g : ReadGoal) : Inv l base r N [] todo (s.emit g) :=
  { h with openHeld := h.openHeld, held := h.held, proper := h.proper, frame := h.frame }

section

variable {ms : List Mention} {c : Nat} {gs : List BodyGoal} {N' : Names} {s' : State} {tail : Bool}
  {args : List Term} {a : Nat}

lemma live_after (fits : l.Fits goals ms) (part : Part base goals ms (c + 1) gs)
    (before : ∀ id ∈ r.seen, ∃ d, d ≤ c ∧ (id, d) ∈ ms) :
    ∀ id ∈ r.seen, id ∈ occurrencesAll (gs.flatMap terms) →
      ∃ y, l.slot? (.var id) = some y ∧ y ≤ l.liveAfter c := by
  intro id hid ht
  obtain ⟨d, hd, hm⟩ := before id hid
  obtain ⟨e, he, hm'⟩ := mention_of_occurrence (k := c + 1) ht
  have hm' := part.mentions _ hm'
  cases hslot : l.slot? (.var id) with
  | none =>
    have := fits.alone hslot hm hm'
    omega
  | some y => exact ⟨y, rfl, fits.live hslot hm' (by omega)⟩

structure Loaded (l : Layout) (base : Nat) (ms : List Mention) (c : Nat) (args : List Term)
    (gs : List BodyGoal) (N : Names) (s : State) (r' : Registers) (N' : Names) (s' : State) :
    Prop where
  ready : Ready l base ms c gs r' N' s'
  names : N.Sub N'
  registers : ∃ xs, registers s'.x args.length = some xs ∧
    List.Forall₂ (Reads (Stands N' [])) args xs
  goals : s'.goals = s.goals
  args : s'.args = s.args
  frame : s'.frame = s.frame

lemma run_load (lastCall : Bool) (part : Part base goals ms c (g :: gs))
    (ready : Ready l base ms c (g :: gs) r N s) :
    ∃ N' s', run (putArgs l lastCall 1 g.args r).1 s = some s' ∧
      Loaded l base ms c g.args gs N s (putArgs l lastCall 1 g.args r).2 N' s' := by
  have inv : Inv l base r N []
      (occurrencesAll g.args ++ occurrencesAll (gs.flatMap terms)) s := by
    refine ready.inv.weaken fun id => ?_
    have := g.count_args_le id
    rw [flatMap_cons, occurrencesAll_append, count_append, count_append]
    omega
  have fit := part.fit g mem_cons_self
  obtain ⟨N', s', xs, hrun, pending, hxs, reads, inv', _, passes⟩ :=
    run_putArgs (a := 1) lastCall inv (by omega) ready.pending ready.unfinished
  refine ⟨N', s', hrun, ⟨⟨inv', pending, ?_, ?_, ?_, ?_⟩, passes.names, ⟨xs, ?_, reads⟩,
    passes.goals, passes.args, passes.frame⟩⟩
  · exact passes.finished.trans ready.unfinished
  · intro hc
    exact passes.atNeck.trans (ready.neck hc)
  · intro hcut y hy
    exact passes.level y hy (ready.level (mem_cons_of_mem _ hcut) y hy)
  · intro id hid
    rcases passes.seen id hid with hid | hid
    · exact ready.before id hid
    · refine ⟨c, Nat.le_refl c, part.mentions _ ?_⟩
      rw [placed, flatMap_cons]
      refine mem_append_left _ (mem_map_of_mem ?_)
      have := count_pos_iff.2 hid
      exact count_pos_iff.1 (Nat.lt_of_lt_of_le this (g.count_args_le id))
  · simpa [registers, Nat.add_comm] using hxs

lemma Ready.forget {g : ReadGoal} (fits : l.Fits goals ms) (part : Part base goals ms (c + 1) gs)
    (ready : Ready l base ms c gs r N s) :
    Ready l base ms (c + 1) gs r N ((s.emit g).forget (l.liveAfter c)) := by
  refine ⟨(ready.inv.emit g).forget (live_after fits part ready.before), ready.pending,
    ready.unfinished, (by omega), ?_, ?_⟩
  · intro hcut y hy
    obtain ⟨d, hd, hm⟩ := placed_of_mem (k := c + 1) hcut
    have live := fits.levelLive (d := c) hy (part.cuts d hm) (by omega)
    simpa [State.forget, State.emit, live] using ready.level hcut y hy
  · intro id hid
    obtain ⟨d, hd, hm⟩ := ready.before id hid
    exact ⟨d, by omega, hm⟩

lemma Ready.emit (ready : Ready l base ms c gs r N s) (rg : ReadGoal) :
    Ready l base ms c gs r N (s.emit rg) :=
  ⟨ready.inv.emit rg, ready.pending, ready.unfinished, ready.neck, ready.level, ready.before⟩

structure Advances (l : Layout) (base : Nat) (ms : List Mention) (c : Nat) (g : BodyGoal)
    (gs : List BodyGoal) (N : Names) (s : State) (r' : Registers) (N' : Names) (s' : State) :
    Prop where
  ready : Ready l base ms (if g.endsChunk then c + 1 else c) gs r' N' s'
  names : N.Sub N'
  goals : ∃ rg, s'.goals = s.goals ++ [rg] ∧ GoalRead N' g rg
  args : s'.args = s.args
  frame : s'.frame = s.frame

lemma Loaded.advances {rg : ReadGoal} (fits : l.Fits goals ms)
    (part : Part base goals ms c (g :: gs)) (h : Loaded l base ms c g.args gs N s r' N' s')
    (read : GoalRead N' g rg) :
    Advances l base ms c g gs N s r' N'
      (if g.endsChunk then (s'.emit rg).forget (l.liveAfter c) else s'.emit rg) := by
  have emitted : (s'.emit rg).goals = s.goals ++ [rg] := by
    rw [← h.goals]
    rfl
  have rest := part.tail
  split at rest
  · next ends =>
    rw [if_pos ends]
    refine ⟨?_, h.names, ⟨rg, emitted, read⟩, h.args, h.frame⟩
    rw [if_pos ends]
    exact h.ready.forget fits rest
  · next ends =>
    rw [if_neg ends]
    refine ⟨?_, h.names, ⟨rg, emitted, read⟩, h.args, h.frame⟩
    rw [if_neg ends]
    exact h.ready.emit rg

lemma run_goalCode (fits : l.Fits goals ms)
    (part : Part base goals ms c (g :: gs)) (ready : Ready l base ms c (g :: gs) r N s)
    (hcode : goalCode l g c r = (.ok code, r')) :
    ∃ N' s', run code s = some s' ∧ Advances l base ms c g gs N s r' N' s' := by
  cases g with
  | cut =>
    have rest : Ready l base ms c gs r N s :=
      ⟨ready.inv.weaken (fun _ => Nat.le_refl _), ready.pending, ready.unfinished, ready.neck,
        fun hcut => ready.level (mem_cons_of_mem _ hcut), ready.before⟩
    have emitted : Advances l base ms c .cut gs N s r N (s.emit .cut) :=
      ⟨rest.emit .cut, .refl N, ⟨.cut, rfl, .cut⟩, rfl, rfl⟩
    by_cases hc : c = 0
    · rw [goalCode, if_pos hc] at hcode
      cases hcode
      refine ⟨N, _, ?_, emitted⟩
      rw [run_one]
      simp [step, ready.unfinished, ready.pending, plain, ready.neck hc]
    · rw [goalCode, if_neg hc] at hcode
      cases hslot : l.slot? .cutLevel with
      | none =>
        rw [hslot] at hcode
        cases hcode
      | some y =>
        rw [hslot] at hcode
        cases hcode
        refine ⟨N, _, ?_, emitted⟩
        rw [run_one]
        simp [step, ready.unfinished, ready.pending, plain, ready.level mem_cons_self y hslot]
  | user f args =>
    cases hcode
    obtain ⟨N', s', hrun, loaded⟩ := run_load false part ready
    obtain ⟨xs, hxs, reads⟩ := loaded.registers
    have arity : f.arity = (user f args).args.length := part.arity f args mem_cons_self
    rw [← arity] at hxs
    refine ⟨N', _, (run_concat hrun _).trans ?_, loaded.advances fits part (.user reads)⟩
    simp [step, loaded.ready.unfinished, loaded.ready.pending, plain, hxs, endsChunk]
  | builtin b goal =>
    cases hcode
    obtain ⟨N', s', hrun, loaded⟩ := run_load false part ready
    obtain ⟨xs, hxs, reads⟩ := loaded.registers
    refine ⟨N', _, (run_concat hrun _).trans ?_, loaded.advances fits part (.builtin hxs reads)⟩
    change _ = some (if b.callsGoals then _ else _)
    simp [step, loaded.ready.unfinished, loaded.ready.pending, plain]

lemma bind_ok {σ : Type} {x : ExceptT ε (StateM σ) α} {f : α → ExceptT ε (StateM σ) β}
    {r r' : σ} {b : β} (h : (x >>= f) r = (.ok b, r')) :
    ∃ a r₁, x r = (.ok a, r₁) ∧ f a r₁ = (.ok b, r') := by
  change ExceptT.bindCont f (x r).1 (x r).2 = _ at h
  rcases hx : x r with ⟨e | a, r₁⟩
  · rw [hx] at h
    cases h
  · rw [hx] at h
    exact ⟨a, r₁, rfl, h⟩

variable {framed : Bool} {rest : List (BodyGoal × Nat)}

lemma bodyCode_eq (h : rest ≠ [] ∨ g.isUser = false) :
    bodyCode l tail framed ((g, c) :: rest) = (do
      let first ← goalCode l g c
      let more ← bodyCode l tail framed rest
      return first ++ more) := by
  cases rest with
  | cons p rest =>
    rw [bodyCode]
    simp
  | nil =>
    cases g with
    | cut | builtin => rfl
    | user f args => simp [isUser] at h

lemma bodyCode_cons (notLast : ¬ (tail = true ∧ rest = [] ∧ g.isUser = true))
    (h : bodyCode l tail framed ((g, c) :: rest) r = (.ok code, r')) :
    ∃ first more r₁, goalCode l g c r = (.ok first, r₁) ∧
      bodyCode l tail framed rest r₁ = (.ok more, r') ∧ code = first ++ more := by
  by_cases inner : rest ≠ [] ∨ g.isUser = false
  · rw [bodyCode_eq inner] at h
    obtain ⟨first, r₁, hfirst, h⟩ := bind_ok h
    obtain ⟨more, r₂, hmore, h⟩ := bind_ok h
    cases h
    exact ⟨first, more, r₁, hfirst, hmore, rfl⟩
  · obtain ⟨rfl, user⟩ : rest = [] ∧ g.isUser = true := by simpa using inner
    obtain rfl : tail = false := by simpa [user] using notLast
    cases g with
    | cut | builtin => cases user
    | user f args => exact ⟨code, [], r', h, rfl, (append_nil code).symm⟩

structure ReadsBody (gs : List BodyGoal) (N : Names) (s : State) (N' : Names) (s' : State) :
    Prop where
  names : N.Sub N'
  proper : Proper N' [] s'.next
  goals : ∃ rgs, s'.goals = s.goals ++ rgs ∧ List.Forall₂ (GoalRead N') gs rgs
  args : s'.args = s.args

lemma run_lastCall {f : Functor} (framed : Bool)
    (part : Part base goals ms c [.user f args]) (ready : Ready l base ms c [.user f args] r N s)
    (hframe : framed = true → s.frame.isSome = true) :
    ∃ N' s', run ((putArgs l framed 1 args r).1 ++ (if framed then [.deallocate] else []) ++
        [.execute f]) s = some s' ∧ ReadsBody [.user f args] N s N' s' ∧ s'.finished = true := by
  obtain ⟨N', s₁, hrun, loaded⟩ := run_load framed part ready
  obtain ⟨xs, hxs, reads⟩ := loaded.registers
  have arity : f.arity = (user f args).args.length := part.arity f args mem_cons_self
  rw [← arity] at hxs
  -- giving up the environment leaves the registers alone
  obtain ⟨frame, y, hrun₂⟩ : ∃ frame y, run ((putArgs l framed 1 args r).1 ++
      (if framed then [.deallocate] else [])) s = some { s₁ with frame, y } := by
    cases framed with
    | false => exact ⟨s₁.frame, s₁.y, (congrArg (run · s) (append_nil _)).trans hrun⟩
    | true =>
      have some := hframe rfl
      rw [← loaded.frame] at some
      refine ⟨none, fun _ => none, (run_concat hrun _).trans ?_⟩
      simp [step, loaded.ready.unfinished, loaded.ready.pending, plain, some]
  refine ⟨N', { emit { s₁ with frame, y } (.user f xs) with finished := true },
    (run_concat hrun₂ _).trans ?_, ⟨loaded.names, loaded.ready.inv.proper,
      ⟨[.user f xs], ?_, .cons (.user reads) .nil⟩, loaded.args⟩, rfl⟩
  · simp [step, loaded.ready.unfinished, loaded.ready.pending, plain, hxs]
  · rw [← loaded.goals]
    rfl

structure Continues (s s' : State) : Prop where
  unfinished : s'.finished = false
  pending : s'.pending = none
  frame : s'.frame = s.frame

lemma run_bodyCode (fits : l.Fits goals ms)
    (part : Part base goals ms c gs) (ready : Ready l base ms c gs r N s)
    (hframe : framed = true → s.frame.isSome = true)
    (hcode : bodyCode l tail framed (placed c gs) r = (.ok code, r')) :
    ∃ N' s', run code s = some s' ∧ ReadsBody gs N s N' s' ∧
      if tail && lastIsUser gs then s'.finished = true else Continues s s' := by
  induction gs generalizing c r N s code with
  | nil =>
    cases hcode
    refine ⟨N, s, rfl, ⟨.refl N, ready.inv.proper, ⟨[], (append_nil _).symm, .nil⟩, rfl⟩, ?_⟩
    rw [if_neg (by simp [lastIsUser])]
    exact ⟨ready.unfinished, ready.pending, rfl⟩
  | cons g gs ih =>
    by_cases last : tail = true ∧ gs = [] ∧ g.isUser = true
    · obtain ⟨rfl, rfl, hg⟩ := last
      cases g with
      | cut | builtin => cases hg
      | user f args =>
        cases hcode
        obtain ⟨N', s', hrun, reads, finished⟩ := run_lastCall framed part ready hframe
        refine ⟨N', s', hrun, reads, ?_⟩
        rw [if_pos (by simp [lastIsUser, isUser])]
        exact finished
    · have notEmpty : placed (if g.endsChunk then c + 1 else c) gs = [] ↔ gs = [] := by
        cases gs <;> simp [placed]
      obtain ⟨first, more, r₁, hfirst, hmore, rfl⟩ := bodyCode_cons (by rwa [notEmpty]) hcode
      obtain ⟨N₁, s₁, hrun₁, adv⟩ := run_goalCode fits part ready hfirst
      obtain ⟨N₂, s₂, hrun₂, body, ending⟩ :=
        ih part.tail adv.ready (by rw [adv.frame]; exact hframe) hmore
      obtain ⟨rg, hrg, read⟩ := adv.goals
      obtain ⟨rgs, hrgs, reads⟩ := body.goals
      refine ⟨N₂, s₂, ?_, ⟨adv.names.trans body.names, body.proper, ⟨rg :: rgs, ?_, ?_⟩,
        body.args.trans adv.args⟩, ?_⟩
      · rw [run_append, hrun₁]
        exact hrun₂
      · rw [hrgs, hrg, append_assoc, singleton_append]
      · exact .cons (read.widen body.names) reads
      · have same : (tail && lastIsUser (g :: gs)) = (tail && lastIsUser gs) := by
          cases gs with
          | nil => cases tail <;> simp_all [lastIsUser]
          | cons g' rest => simp [lastIsUser]
        rw [same]
        split at ending
        · next h => rw [if_pos h]; exact ending
        · next h =>
          rw [if_neg h]
          exact ⟨ending.unfinished, ending.pending, ending.frame.trans adv.frame⟩

lemma run_entry (needed : 0 < l.frameSize → framed = true) (arity : Nat) :
    ∃ slots, run (entry l framed) (.start arity) = some { start arity with
        frame := if framed then some l.frameSize else none
        y := slots } ∧
      ∀ y, l.slot? .cutLevel = some y → slots y = some .level := by
  let s₁ : State := { start arity with frame := if framed then some l.frameSize else none }
  have reserved : run (if framed then [.allocate l.frameSize] else []) (.start arity) = some s₁ := by
    cases framed <;> rfl
  cases hslot : l.slot? .cutLevel with
  | none =>
    refine ⟨s₁.y, ?_, nofun⟩
    rw [entry, hslot]
    simpa using reserved
  | some y =>
    obtain ⟨one, size⟩ := slot?_bounds hslot
    obtain rfl : framed = true := needed (by omega)
    have slot : s₁.hasSlot y = true := by
      simp [s₁, hasSlot, one, size]
    refine ⟨(s₁.setY y .level).y, ?_, ?_⟩
    · rw [entry, hslot]
      refine (run_concat reserved (.getLevel y)).trans ?_
      change (if (s₁.atNeck && s₁.hasSlot y) = true then some (s₁.setY y .level) else none) = _
      rw [slot]
      rfl
    · intro y' hy'
      cases hy'
      simp [setY]

lemma mem_openArgs {o : Open} (h : o ∈ Matching.openArgs a args) :
    o.var = o.reg - 1 ∧ a ≤ o.reg ∧ o.reg < a + args.length := by
  induction args generalizing a with
  | nil => cases h
  | cons t ts ih =>
    rcases mem_cons.1 h with rfl | h
    · exact ⟨rfl, Nat.le_refl a, by simp⟩
    · obtain ⟨hv, ha, hlt⟩ := ih h
      rw [length_cons]
      exact ⟨hv, by omega, by omega⟩

lemma openArgs_nodup (ha : 1 ≤ a) (args : List Term) :
    ((Matching.openArgs a args).map Open.var).Nodup := by
  induction args generalizing a with
  | nil => exact nodup_nil
  | cons t ts ih =>
    refine nodup_cons.2 ⟨?_, ih (by omega)⟩
    intro h
    obtain ⟨o, ho, he⟩ := mem_map.1 h
    have := mem_openArgs ho
    simp only at he
    omega

lemma reads_openArgs (ha : 1 ≤ a) {Q : List Open}
    (sub : ∀ o ∈ Matching.openArgs a args, o ∈ Q) :
    Forall₂ (Reads (Stands N Q)) args
      ((range args.length).map fun i => varOf (a - 1 + i)) := by
  induction args generalizing a with
  | nil => exact .nil
  | cons t ts ih =>
    rw [length_cons, range_varOf]
    refine .cons (.stands (.inl ⟨_, sub _ mem_cons_self, rfl, rfl⟩)) ?_
    have next : a - 1 + 1 = a + 1 - 1 := by omega
    rw [next]
    exact ih (by omega) fun o ho => sub o (mem_cons_of_mem _ ho)

lemma le_foldl_max {n : Nat} {ns : List Nat} (m : Nat) (h : n ∈ ns) : n ≤ ns.foldl max m := by
  have grows : ∀ (ns : List Nat) (m : Nat), m ≤ ns.foldl max m := by
    intro ns
    induction ns with
    | nil => exact fun m => Nat.le_refl m
    | cons k ns ih => exact fun m => Nat.le_trans (Nat.le_max_left m k) (ih _)
  induction ns generalizing m with
  | nil => cases h
  | cons k ns ih =>
    rcases mem_cons.1 h with rfl | h
    · exact Nat.le_trans (Nat.le_max_right m n) (grows ns _)
    · exact ih _ h

lemma matching_start {hargs : List Term} (fit : hargs.length ≤ base)
    (once : ∀ id ∈ l.singletons, (occurrencesAll hargs ++ todo).count id ≤ 1)
    (needed : 0 < l.frameSize → framed = true) (slots : Nat → Option Held) :
    Matching l base hargs ⟨[], base + 1, [], []⟩ ⟨[], fun _ => 0⟩ (Matching.openArgs 1 hargs)
      (occurrencesAll hargs ++ todo) { start hargs.length with
        frame := if framed then some l.frameSize else none
        y := slots } := by
  have held : ∀ o ∈ Matching.openArgs 1 hargs, o.var < hargs.length ∧ o.reg ≤ hargs.length ∧
      (start hargs.length).x o.reg = some (varOf o.var) := by
    intro o ho
    obtain ⟨hv, hreg, hlt⟩ := mem_openArgs ho
    have hle : o.reg ≤ hargs.length := by omega
    exact ⟨by omega, hle, by simp [State.start, hreg, hle, hv]⟩
  refine ⟨⟨⟨fun o ho => (held o ho).1, openArgs_nodup (Nat.le_refl 1) _, nofun, nofun, nofun⟩,
    fun o ho => ⟨?_, (held o ho).2.2⟩, nofun, nofun, nofun, nofun, Nat.lt_succ_self _,
    fun id hid => ⟨once id hid, nofun⟩, fun size => if_pos (needed size)⟩, ?_, rfl, rfl, rfl⟩
  · exact Nat.lt_succ_of_le (Nat.le_trans (held o ho).2.1 fit)
  · have := reads_openArgs (N := ⟨[], fun _ => 0⟩) (Nat.le_refl 1)
      fun (o : Open) (ho : o ∈ Matching.openArgs 1 hargs) => ho
    simpa [State.start] using this

end

lemma exists_renaming {next : Nat} (proper : Proper N [] next) :
    ∃ ρ : Nat → Nat, ρ.Injective ∧
      ∀ w t, Stands N [] w t → ∃ name id, t = .var name id ∧ w = ρ id := by
  refine ⟨fun id => if id ∈ N.known then N.var id else next + id, ?_, ?_⟩
  · intro i j hij
    by_cases hi : i ∈ N.known <;> by_cases hj : j ∈ N.known
    · simp only [hi, hj, if_true] at hij
      exact proper.namedOnce i hi j hj hij
    · have := proper.namedBelow i hi
      simp only [hi, hj, if_true, if_false] at hij
      omega
    · have := proper.namedBelow j hj
      simp only [hi, hj, if_true, if_false] at hij
      omega
    · simp only [hi, hj, if_false] at hij
      omega
  · rintro w t (⟨o, ho, _⟩ | ⟨name, id, rfl, hid, rfl⟩)
    · cases ho
    · exact ⟨name, id, rfl, by simp [hid]⟩

lemma reconstructs {ρ : Nat → Nat} {t : Term} {rg : ReadGoal}
    (named : ∀ w t, Stands N [] w t → ∃ name id, t = .var name id ∧ w = ρ id) (h : GoalRead N g rg)
    (lowered : ofTerm t = .ok g) : Reconstructs ρ t rg := by
  unfold ofTerm at lowered
  by_cases hcut : t.isAtom "!" = true
  · rw [if_pos hcut] at lowered
    cases lowered
    cases h
    cases t with
    | atom a =>
      obtain rfl : a = "!" := by simpa [isAtom] using hcut
      exact .cut
    | number | var | compound | cell => cases hcut
  · rw [if_neg hcut] at lowered
    split at lowered
    · next b inner marked =>
      cases lowered
      cases h with
      | builtin args reads =>
        rw [eq_rebuiltAll reads named] at args
        exact .builtin marked args
    · next f marked functor =>
      cases lowered
      cases h with
      | user reads =>
        rw [eq_rebuiltAll reads named]
        exact .user (eq_false_of_ne_true hcut) marked functor
    · cases lowered

lemma except_bind_ok {x : Except ε α} {f : α → Except ε β} {b : β}
    (h : (x >>= f) = .ok b) : ∃ a, x = .ok a ∧ f a = .ok b := by
  cases x with
  | error e => cases h
  | ok a => exact ⟨a, rfl, h⟩

lemma mapM_ok {f : α → Except ε β} {as : List α} {bs : List β}
    (h : as.mapM f = .ok bs) : Forall₂ (fun a b => f a = .ok b) as bs := by
  induction as generalizing bs with
  | nil =>
    cases h
    exact .nil
  | cons a as ih =>
    rw [mapM_cons] at h
    obtain ⟨b, ha, h⟩ := except_bind_ok h
    obtain ⟨bs', has, h⟩ := except_bind_ok h
    cases h
    exact .cons ha (ih has)

lemma arity_of_lowered {body : List Term}
    (lowered : Forall₂ (fun t g => ofTerm t = .ok g) body goals) :
    ∀ f args, .user f args ∈ goals → f.arity = args.length := by
  intro f args hf
  induction lowered with
  | nil => cases hf
  | cons h _ ih =>
    rcases mem_cons.1 hf with rfl | hf
    · unfold ofTerm at h
      split at h
      · cases h
      · split at h
        · cases h
        · next f marked functor =>
          cases h
          obtain ⟨name, _, he⟩ := Option.map_eq_some_iff.1 functor
          rw [← he]
          rfl
        · cases h
    · exact ih hf

section

variable {head : Option Term} {answers : List Nat}

lemma part_all (arity : ∀ f args, .user f args ∈ goals → f.arity = args.length) :
    Part (maxArity head goals) goals (mentions head goals answers) 0 goals where
  mentions := fun _ hm => mem_append_left _ (mem_append_right _ hm)
  cuts := fun _ hd => hd
  arity := arity
  fit := fun _ hg => le_foldl_max 0 (mem_append_right _ (mem_map_of_mem hg))

lemma singleton_once {id : Nat} (h : id ∈ (ofClause head goals answers).singletons) :
    (occurrencesAll head.toList ++ occurrencesAll (goals.flatMap terms)).count id
      ≤ 1 := by
  have single := (ofClause_fits head goals answers).single h
  rw [count_mentions] at single
  rw [count_append]
  omega

end

lemma clauseCode_ok
    (h : clauseCode head goals chainRule l r = (.ok code, r')) :
    ∃ body, bodyCode l true (needsFrame l goals chainRule) (goals.zip l.chunks)
        (getArgs l 1 head.args r).2 = (.ok body, r') ∧
      code = entry l (needsFrame l goals chainRule) ++ (getArgs l 1 head.args r).1 ++ body ++
        (if lastIsUser goals then []
         else (if needsFrame l goals chainRule then [.deallocate] else []) ++ [.proceed]) := by
  obtain ⟨_, _, matching, h⟩ := bind_ok h
  cases matching
  obtain ⟨body, r₁, hbody, h⟩ := bind_ok h
  cases h
  exact ⟨body, hbody, rfl⟩

variable {answers : List Nat} {key : SymbolKey} {f : Functor} {s' : State}

lemma Matching.ready {hargs : List Term} {N' : Names}
    (matched : Matching l base hargs r' N' [] (occurrencesAll (goals.flatMap terms)) s')
    (head : Option Term) (answers : List Nat)
    (onward : Onward l (occurrencesAll hargs) r N s r' N' s') (unseen : r.seen = [])
    (hargs : ∀ id ∈ occurrencesAll hargs, id ∈ occurrencesAll head.toList) (neck : s.atNeck = true)
    (level : ∀ y, l.slot? .cutLevel = some y → s.y y = some .level) :
    Ready l base (mentions head goals answers) 0 goals r' N' s' := by
  refine ⟨matched.inv, matched.pending, matched.unfinished, fun _ => onward.atNeck.trans neck,
    fun _ y hy => onward.level y hy (level y hy), ?_⟩
  intro id hid
  rcases onward.seen id hid with hid | hid
  · rw [unseen] at hid
    cases hid
  · exact ⟨0, Nat.le_refl 0,
      mem_append_left _ (mem_append_left _ (mem_map_of_mem (hargs id hid)))⟩

lemma run_return (framed : Bool) (continues : Continues s s')
    (frame : framed = true → s.frame.isSome = true) :
    ∃ frame y, run ((if framed then [.deallocate] else []) ++ [.proceed]) s' =
      some { s' with finished := true, frame, y } := by
  cases framed with
  | false =>
    refine ⟨s'.frame, s'.y, (run_one _ _).trans ?_⟩
    simp [step, continues.unfinished, continues.pending, plain]
  | true =>
    have some := frame rfl
    rw [← continues.frame] at some
    refine ⟨none, fun _ => none, ?_⟩
    simp [run_cons, run_nil, step, continues.unfinished, continues.pending, plain, some]

/-- The reading of a clause has come to its end: the head has these arguments, and these are the
goals. -/
def Completed (hargs : List Term) (goals : List BodyGoal) (s : State) : Prop :=
  s.finished = true ∧ ∃ N, Proper N [] s.next ∧ Forall₂ (Reads (Stands N [])) hargs s.args ∧
    Forall₂ (GoalRead N) goals s.goals

lemma run_sequence {head : Option Term} (hargs : List Term) {tail framed : Bool}
    {body : List Instruction} (hl : ofClause head goals answers = l)
    (arity : ∀ f args, .user f args ∈ goals → f.arity = args.length)
    (fit : hargs.length ≤ maxArity head goals)
    (fewer : ∀ id, (occurrencesAll hargs).count id ≤ (occurrencesAll head.toList).count id)
    (needed : 0 < l.frameSize → framed = true)
    (hbody : bodyCode l tail framed (goals.zip l.chunks)
      (getArgs l 1 hargs (start head goals)).2 = (.ok body, r'))
    (returns : Bool) (given : returns = true → framed = true) :
    ∃ s, run (entry l framed ++ (getArgs l 1 hargs (start head goals)).1 ++ body ++
        (if tail && lastIsUser goals then []
         else (if returns then [.deallocate] else []) ++ [.proceed])) (.start hargs.length) = some s ∧
      Completed hargs goals s := by
  have fits := hl ▸ ofClause_fits head goals answers
  have once : ∀ id ∈ l.singletons, (occurrencesAll hargs ++
      occurrencesAll (goals.flatMap terms)).count id ≤ 1 := by
    intro id hid
    refine Nat.le_trans ?_ (singleton_once (hl ▸ hid))
    rw [count_append, count_append]
    exact Nat.add_le_add_right (fewer id) _
  have occurs : ∀ id ∈ occurrencesAll hargs, id ∈ occurrencesAll head.toList := by
    intro id hid
    exact count_pos_iff.1 (Nat.lt_of_lt_of_le (count_pos_iff.2 hid) (fewer id))
  rw [fits.chunks] at hbody
  obtain ⟨slots, hrun₀, level⟩ := run_entry needed hargs.length
  have start : Matching l _ hargs (start head goals) _ _ _ _ :=
    matching_start fit once needed slots
  obtain ⟨N₁, s₁, hrun₁, matched, onward⟩ := start.run_getArgs
  have ready := matched.ready head answers onward rfl occurs rfl level
  have frame : framed = true → s₁.frame.isSome = true := by
    rintro rfl
    rw [onward.frame]
    rfl
  obtain ⟨N₂, s₂, hrun₂, reads, ending⟩ := run_bodyCode fits (part_all arity) ready frame hbody
  have hrun : run (entry l framed ++ (getArgs l 1 hargs (Lowering.start head goals)).1 ++ body)
      (.start hargs.length) = some s₂ := by
    rw [run_append, run_append, hrun₀]
    exact (congrArg (Option.bind · (run body)) hrun₁).trans hrun₂
  have args : Forall₂ (Reads (Stands N₂ [])) hargs s₂.args := by
    rw [reads.args]
    exact readsAll_widen matched.args reads.names fun _ ho => ho
  obtain ⟨rgs, hgoals, goalReads⟩ := reads.goals
  rw [matched.goals, nil_append] at hgoals
  rw [← hgoals] at goalReads
  by_cases last : (tail && lastIsUser goals) = true
  · rw [if_pos last, append_nil]
    rw [if_pos (by simpa using last)] at ending
    exact ⟨s₂, hrun, ending, N₂, reads.proper, args, goalReads⟩
  · rw [if_neg last]
    rw [if_neg (by simpa using last)] at ending
    obtain ⟨f, y, hrun₃⟩ := run_return returns ending fun h => frame (given h)
    refine ⟨{ s₂ with finished := true, frame := f, y }, ?_, rfl, N₂, reads.proper, args, goalReads⟩
    rw [run_append, hrun]
    exact hrun₃

lemma run_clauseCode
    (arity : ∀ f args, .user f args ∈ goals → f.arity = args.length)
    (hcode : clauseCode head goals chainRule (ofClause (some head) goals [])
      (start (some head) goals) = (.ok code, r')) :
    ∃ s, run code (.start head.arity) = some s ∧ Completed head.args goals s := by
  obtain ⟨body, hbody, rfl⟩ := clauseCode_ok hcode
  refine run_sequence head.args rfl arity
    (le_foldl_max 0 (mem_append_left _ (mem_singleton_self _))) (fun id => ?_)
    (fun size => by simp [needsFrame, size]) hbody _ id
  simpa [occurrencesAll] using head.count_args_le id

lemma run_queryCode (arity : ∀ f args, .user f args ∈ goals → f.arity = args.length)
    (hcode : queryCode goals (ofClause none goals answers) (start none goals) = (.ok code, r')) :
    ∃ s, run code (.start 0) = some s ∧ Completed [] goals s := by
  obtain ⟨body, r₁, hbody, hcode⟩ := bind_ok hcode
  cases hcode
  obtain ⟨s, hrun, completed⟩ := run_sequence [] rfl arity
    (Nat.zero_le _) (fun _ => Nat.le_refl _) (fun size => by simp [size]) hbody false (by simp)
  have nothing : (getArgs (ofClause none goals answers) 1 [] (start none goals)).1 =
      [] := rfl
  rw [nothing, append_nil] at hrun
  exact ⟨s, hrun, completed⟩

lemma compileClause_ok {c : CompiledClause}
    (h : p.compileClause chainRule = .ok c) :
    ∃ head f key goals r', p.clause.head = some head ∧ head.functor? = some f ∧
      p.key = some key ∧ p.clause.body.mapM ofTerm = .ok goals ∧
      c.permanentVars = (ofClause (some head) goals []).frameSize ∧
      clauseCode head goals chainRule (ofClause (some head) goals [])
        (start (some head) goals) = (.ok c.code, r') := by
  unfold PreparedClause.compileClause at h
  iterate 3
    split at h
    case h_2 => cases h
  obtain ⟨goals, hgoals, h⟩ := except_bind_ok h
  obtain ⟨code, hcode, h⟩ := except_bind_ok h
  cases h
  exact ⟨_, _, _, goals, _, ‹_›, ‹_›, ‹_›, hgoals, rfl, Prod.ext hcode rfl⟩

lemma compileQuery_ok {q : CompiledQuery} (h : p.compileQuery = .ok q) :
    ∃ goals r', p.clause.body.mapM ofTerm = .ok goals ∧
      queryCode goals (ofClause none goals (PreparedClause.answerIds p.names))
        (start none goals) = (.ok q.code, r') := by
  unfold PreparedClause.compileQuery at h
  split at h
  · cases h
  · obtain ⟨goals, hgoals, h⟩ := except_bind_ok h
    obtain ⟨code, hcode, h⟩ := except_bind_ok h
    cases h
    exact ⟨goals, _, hgoals, Prod.ext hcode rfl⟩

lemma reconstructs_all {ρ : Nat → Nat} {body : List Term} {rgs : List ReadGoal}
    (named : ∀ w t, Stands N [] w t → ∃ name id, t = .var name id ∧ w = ρ id)
    (lowered : Forall₂ (fun t g => ofTerm t = .ok g) body goals)
    (reads : Forall₂ (GoalRead N) goals rgs) : Forall₂ (Reconstructs ρ) body rgs := by
  induction lowered generalizing rgs with
  | nil =>
    cases reads
    exact .nil
  | cons h _ ih =>
    cases reads with
    | cons read rest => exact .cons (reconstructs named read h) (ih rest)

lemma run_bind {σ : Type} {x : ExceptT ε (StateM σ) α} {f : α → ExceptT ε (StateM σ) β}
    {r r' : σ} {a : α} (h : x r = (.ok a, r')) : (x >>= f) r = f a r' := by
  change ExceptT.bindCont f (x r).1 (x r).2 = _
  rw [h]
  rfl

lemma goalCode_isOk {c : Nat} (level : g = .cut → 0 < c → (l.slot? .cutLevel).isSome)
    (r : Registers) : ∃ code r', goalCode l g c r = (.ok code, r') := by
  cases g with
  | cut =>
    by_cases hc : c = 0
    · exact ⟨[.neckCut], r, by rw [goalCode, if_pos hc]; rfl⟩
    · obtain ⟨y, hy⟩ := Option.isSome_iff_exists.1 (level rfl (Nat.pos_of_ne_zero hc))
      exact ⟨[.cut y], r, by rw [goalCode, if_neg hc, hy]; rfl⟩
  | user | builtin => exact ⟨_, _, rfl⟩

lemma bodyCode_isOk {placed : List (BodyGoal × Nat)}
    (levels : ∀ c, (.cut, c) ∈ placed → 0 < c → (l.slot? .cutLevel).isSome) (tail framed : Bool)
    (r : Registers) : ∃ code r', bodyCode l tail framed placed r = (.ok code, r') := by
  induction placed generalizing r with
  | nil => exact ⟨[], r, rfl⟩
  | cons p rest ih =>
    obtain ⟨g, c⟩ := p
    by_cases inner : rest ≠ [] ∨ g.isUser = false
    · obtain ⟨first, r₁, hfirst⟩ := goalCode_isOk (l := l) (g := g) (c := c)
        (fun hg => levels c (hg ▸ mem_cons_self)) r
      obtain ⟨more, r₂, hmore⟩ := ih (fun c hc => levels c (mem_cons_of_mem _ hc)) r₁
      refine ⟨first ++ more, r₂, ?_⟩
      rw [bodyCode_eq inner, run_bind hfirst, run_bind hmore]
      rfl
    · obtain ⟨rfl, user⟩ : rest = [] ∧ g.isUser = true := by simpa using inner
      cases g with
      | cut | builtin => cases user
      | user f args => cases tail <;> exact ⟨_, _, rfl⟩

lemma compileClause_of_goals (hhead : p.clause.head = some head) (functor : head.functor? = some f)
    (hkey : p.key = some key) (hgoals : p.clause.body.mapM ofTerm = .ok goals) (chainRule : Bool)
    (hl : ofClause (some head) goals [] = l) :
    p.compileClause chainRule =
      (clauseCode head goals chainRule l (start (some head) goals)).1 >>= fun code =>
        pure ⟨f, key, p.clause, code, l.frameSize, references p.marks⟩ := by
  rw [PreparedClause.compileClause, hhead]
  simp only [functor, hkey, hgoals, ← hl]
  rfl

lemma compileClause_isOk (hhead : p.clause.head = some head) (functor : head.functor? = some f)
    (hkey : p.key = some key) (hgoals : p.clause.body.mapM ofTerm = .ok goals) (chainRule : Bool) :
    ∃ c, p.compileClause chainRule = .ok c := by
  have fits := ofClause_fits (some head) goals []
  generalize hl : ofClause (some head) goals [] = l at fits
  obtain ⟨body, r', hbody⟩ := bodyCode_isOk
    (fun c hc pos => fits.levelSlot (fits.chunks ▸ hc) pos) true (needsFrame l goals chainRule)
    (getArgs l 1 head.args (start (some head) goals)).2
  have hcode : clauseCode head goals chainRule l (start (some head) goals) = (.ok _, r') :=
    run_bind hbody
  rw [compileClause_of_goals hhead functor hkey hgoals chainRule hl, hcode]
  exact ⟨_, rfl⟩

/-- The code of a clause, read as if the clause were called with distinct variables, never asks for
a register or a slot of which nothing is known, and what is read is the head and then the goals of
the clause, with one renaming of its variables. The same holds for a query. -/
theorem compiled_code_reads_as_clause :
    (∀ (p : PreparedClause) (chainRule : Bool) (c : CompiledClause),
      p.compileClause chainRule = .ok c → ∃ head s ρ, p.clause.head = some head ∧
        run c.code (.start head.arity) = some s ∧ s.finished = true ∧ ρ.Injective ∧
        s.args = Term.rebuiltAll ρ head.args ∧
        List.Forall₂ (Reconstructs ρ) p.clause.body s.goals) ∧
    ∀ (p : PreparedClause) (q : CompiledQuery), p.compileQuery = .ok q →
      ∃ s ρ, run q.code (.start 0) = some s ∧ s.finished = true ∧ ρ.Injective ∧
        List.Forall₂ (Reconstructs ρ) p.clause.body s.goals := by
  constructor
  · intro p chainRule c h
    obtain ⟨head, f, key, goals, r', hhead, -, -, hgoals, -, hcode⟩ := compileClause_ok h
    have lowered := mapM_ok hgoals
    obtain ⟨s, hrun, finished, N, proper, args, reads⟩ :=
      run_clauseCode (arity_of_lowered lowered) hcode
    obtain ⟨ρ, injective, named⟩ := exists_renaming proper
    exact ⟨head, s, ρ, hhead, hrun, finished, injective, eq_rebuiltAll args named,
      reconstructs_all named lowered reads⟩
  · intro p q h
    obtain ⟨goals, r', hgoals, hcode⟩ := compileQuery_ok h
    have lowered := mapM_ok hgoals
    obtain ⟨s, hrun, finished, N, proper, -, reads⟩ :=
      run_queryCode (arity_of_lowered lowered) hcode
    obtain ⟨ρ, injective, named⟩ := exists_renaming proper
    exact ⟨s, ρ, hrun, finished, injective, reconstructs_all named lowered reads⟩

/-- A clause with a nested structure in its head, a void, a cut after a call and two slots. -/
theorem compiled_code_reads_as_clause_example :
    let head : Term := .compound "p" [.var "X" 0, .compound "f" [.var "X" 0,
      .cell (.var "Y" 1) (.compound "g" [.var "_" 2])]]
    let body : List Term := [.compound "q" [.var "X" 0, .compound "h" [.var "Y" 1, .var "W" 3]],
      .atom "!", .compound "r" [.var "W" 3, .compound "s" [.var "W" 3, .var "V" 4]]]
    let p : PreparedClause := ⟨⟨some head, body, .rule, ⟨1, 1⟩⟩, some ⟨0⟩, [], []⟩
    ∃ c, p.compileClause true = .ok c ∧ ∃ head s ρ, p.clause.head = some head ∧
      run c.code (.start head.arity) = some s ∧ s.finished = true ∧ ρ.Injective ∧
      s.args = rebuiltAll ρ head.args ∧ Forall₂ (Reconstructs ρ) body s.goals := by
  intro head body p
  obtain ⟨c, hc⟩ := compileClause_isOk (p := p) rfl rfl rfl rfl true
  exact ⟨c, hc, compiled_code_reads_as_clause.1 p true c hc⟩

end Horn.CodeReading
