import Horn.Proofs.VariableRoom

/-!
# Runs with a bound

Whatever the fuel, a machine takes back nothing but what it has bound itself, so it never goes back
behind the store that it was started in.
-/

namespace Horn

open List Machine Upkeep

namespace Bindings

variable {b b' : Bindings}

lemma Later.undo_of_le (h : b.Later b') {mark : Nat} (le : b.mark ≤ mark) :
    b.Later (b'.undo mark) := by
  obtain ⟨sound, later, values, size⟩ := h.sound.undoTimes (b'.trail.size - mark)
  change b.Later (undoTimes (b'.trail.size - mark) b')
  have short : b.trail.size ≤ b'.trail.size := h.trail.length_le
  have trail : b.trail.toList <+: (undoTimes (b'.trail.size - mark) b').trail.toList := by
    refine prefix_of_prefix_length_le h.trail later.trail ?_
    rw [Array.length_toList, Array.length_toList, size]
    rw [Bindings.mark] at le
    omega
  refine ⟨sound, trail, fun id hid => ?_, by rw [values]; exact h.room⟩
  rw [← h.kept id hid, later.kept id (trail.subset hid)]

end Bindings

def Upkeep.since (b₀ : Bindings) : Upkeep where
  Good b := b₀.Later b
  Var _ _ := True
  Text _ := True
  kind := Term.kind_true
  Back mark := b₀.mark ≤ mark
  value _ _ := ⟨fun _ _ => trivial, trivial⟩
  assign later meets _ _ := by
    obtain ⟨unbound, ends⟩ := Bindings.Ordered.assign ⟨_, later.sound⟩ meets
    exact ⟨later.trans (later.sound.bind unbound ends), fun _ _ => trivial⟩
  reserve count later := ⟨later.trans (later.sound.reserve count), fun _ _ => trivial, fun _ _ => trivial⟩
  undo later back := ⟨later.undo_of_le back, fun _ _ => trivial⟩
  mark later := later.trail.length_le

namespace Upkeep

variable {b₀ b : Bindings} {t : Term}

lemma since_fits : (since b₀).Fits b t := ⟨fun _ _ => trivial, trivial⟩

lemma free_kept (m : Machine) : free.Kept m :=
  ⟨trivial, fun _ _ _ _ => free_fits, fun _ _ =>
    ⟨trivial, fun _ _ _ _ => free_fits, fun _ _ => free_fits, fun _ _ _ _ => trivial⟩⟩

end Upkeep

namespace Bindings

variable {b : Bindings}

lemma Sound.unifyPairs (h : b.Sound) (n : Nat) (ps : List (Term × Term)) :
    b.Later (unifyPairs n ps b).2 := by
  have alike : Coupling.PairsAlike ((since b).coupling.Terms b) ps ps :=
    forall₂_same.2 fun _ _ => ⟨⟨rfl, since_fits⟩, rfl, since_fits⟩
  rcases Coupling.unifyPairs (C := (since b).coupling) ⟨rfl, rfl, h.later⟩ n alike with
    ⟨b₁, ran, later, -⟩ | ⟨_, r, b₁, b₁', ran, -, ⟨rfl, -, later⟩, -⟩
  · rw [ran]
    exact later
  · rw [ran]
    exact later

lemma Sound.copy (h : b.Sound) (fuel : Nat) (t : Term) : b.Later (b.copy fuel t).2 := by
  cases resolved : b.resolve? fuel t with
  | none =>
    rw [Bindings.copy, resolved]
    exact h.later
  | some r =>
    obtain ⟨u, b', eq, -, -, restored⟩ := copy_renamed resolved
    rw [eq]
    exact restored.later h

end Bindings

namespace Machine

variable {b b' store : Bindings} {choices : Array Choice} {m : Machine} {w : World}

structure Onward (b store : Bindings) (choices : Array Choice) : Prop where
  later : b.Later store
  choices : ∀ c ∈ choices, b.mark ≤ c.trail

lemma Onward.onto (h : Onward b store choices) {store' : Bindings} (later : store.Later store') :
    Onward b store' choices :=
  ⟨h.later.trans later, h.choices⟩

def Since (b : Bindings) (m : Machine) : Prop := Onward b m.world.bindings m.choices

lemma since_start (sound : w.bindings.Sound) (goal : Term) : (start w goal).Since w.bindings :=
  ⟨sound.later, nofun⟩

lemma kept_since : (since b).Kept m ↔ m.Since b :=
  ⟨fun h => ⟨h.store, fun c hc => (h.choices c hc).back⟩,
    fun h => ⟨h.later, fun _ _ _ _ => since_fits, fun c hc =>
      ⟨h.choices c hc, fun _ _ _ _ => since_fits, fun _ _ => since_fits, fun _ _ _ _ => trivial⟩⟩⟩

lemma ran_unifyFound (sound : w.bindings.Sound) (n : Nat) (found : List Term) (result : Term) :
    (since w.bindings).Ran w.bindings (fun _ => Eq) (unifyFound n found result w) :=
  (ran (acts_unifyFound (forall₂_fits fun _ _ => since_fits) ⟨rfl, since_fits⟩) sound.later n).1

lemma step_steady (p : Program) (n : Nat) (failed : Bool) (m : Machine) :
    (∃ m', step p n failed m = .halt .outOfFuel m') ∨
      step p (n + 1) failed m = step p n failed m :=
  ((free_kept m).step (fun _ _ _ _ _ _ _ => trivial) failed n).2.imp_right
    fun steady => steady (n + 1) (Nat.le_succ n)

variable {p : Program}

lemma gathered_succ {n mark : Nat} {result : Term} {goals : List Goal}
    (runs : ∀ failed m, (run p n failed m).Spent ∨ run p (n + 1) failed m = run p n failed m)
    (r : Except Halt (List Term) × World) :
    (gathered p n mark result goals choices r).Spent ∨
      gathered p (n + 1) mark result goals choices r = gathered p n mark result goals choices r := by
  obtain ⟨_ | found, w⟩ := r
  · exact .inr rfl
  · rw [gathered, gathered]
    have unify := acts_unifyFound (C := free.coupling) (d := w.bindings.undo mark)
      (forall₂_fits fun t (_ : t ∈ found) => free_fits) ⟨rfl, free_fits (t := result)⟩
    rcases (ran (w := ⟨w.bindings.undo mark, w.operators, w.output⟩) unify trivial n).2 with
      ⟨w', spent⟩ | steady
    · exact .inl ⟨_, by rw [spent]⟩
    · rw [steady (n + 1) (Nat.le_succ n)]
      split
      · exact .inr rfl
      · exact runs _ _

/-- A run or a collection that does not run out of fuel comes to the same with more. -/
lemma bounded_succ (p : Program) (n : Nat) :
    (∀ failed m, (run p n failed m).Spent ∨ run p (n + 1) failed m = run p n failed m) ∧
    ∀ failed template m found, (collect p n failed template m found).1 = .error .outOfFuel ∨
      collect p (n + 1) failed template m found = collect p n failed template m found := by
  induction n with
  | zero => exact ⟨fun _ m => .inl ⟨m, rfl⟩, fun _ _ _ _ => .inl rfl⟩
  | succ n ih =>
    obtain ⟨runs, collects⟩ := ih
    refine ⟨fun failed m => ?_, fun failed template m found => ?_⟩
    · rw [run_succ, run_succ]
      rcases step_steady p n failed m with ⟨m', spent⟩ | same
      · exact .inl ⟨m', by rw [spent]; rfl⟩
      · rw [same]
        cases step p n failed m with
        | go m' => exact runs false m'
        | fail m' => exact runs true m'
        | solution m' | exhausted m' | halt h m' => exact .inr rfl
        | collect template goal result m' =>
          rw [proceed, proceed]
          rcases collects false template (start m'.world (.compound "call" [goal])) [] with
            spent | same
          · refine .inl ?_
            rcases collected : collect p n false template (start m'.world (.compound "call" [goal])) []
              with ⟨found, w⟩
            rw [collected] at spent
            obtain rfl : found = .error .outOfFuel := spent
            exact ⟨_, rfl⟩
          · rw [same]
            exact gathered_succ runs _
    · rw [collect, collect]
      rcases runs failed m with ⟨m', spent⟩ | same
      · exact .inl (by rw [spent])
      · rw [same]
        cases run p n failed m with
        | exhausted m' | halted h m' => exact .inr rfl
        | solution m' =>
          dsimp only
          cases resolved : m'.world.bindings.resolve? n template with
          | none => exact .inl rfl
          | some t =>
            rw [Bindings.resolve?_of_le resolved (Nat.le_succ n)]
            exact collects true template m' (t :: found)

lemma run_of_le {n k : Nat} {failed : Bool} {r : Outcome} (ran : run p n failed m = r)
    (ended : ¬r.Spent) (le : n ≤ k) : run p k failed m = r := by
  induction le with
  | refl => exact ran
  | @step k _ ih => exact (((bounded_succ p k).1 failed m).resolve_left (ih ▸ ended)).trans ih

end Machine

namespace Computation

open Machine (Waiting Onward Since)

variable {p : Program} {c c' : Computation} {b store store' : Bindings} {choices : Array Choice}
  {ws : List Waiting}

/-- The innermost machine has gone on from the store in which the one around it began to wait, and
so on outwards. The outermost machine has gone on from `b`. -/
def Nested (b : Bindings) : Bindings → Array Choice → List Waiting → Prop
  | store, choices, [] => Onward b store choices
  | store, choices, s :: ws =>
    ∃ begun, begun.mark = s.mark ∧ Onward begun store choices ∧ Nested b begun s.choices ws

def Since (b : Bindings) (c : Computation) : Prop :=
  Nested b c.machine.world.bindings c.machine.choices c.waiting

lemma Nested.innermost {choices' : Array Choice}
    (h : Nested b store choices ws)
    (on : ∀ begun, Onward begun store choices → Onward begun store' choices') :
    Nested b store' choices' ws := by
  cases ws with
  | nil => exact on b h
  | cons s ws =>
    obtain ⟨begun, mark, onward, outer⟩ := h
    exact ⟨begun, mark, on begun onward, outer⟩

lemma Nested.sound (h : Nested b store choices ws) : store.Sound := by
  cases ws with
  | nil => exact h.later.sound
  | cons s ws =>
    obtain ⟨begun, -, onward, -⟩ := h
    exact onward.later.sound

lemma Nested.resume {s : Waiting} {w w' : World}
    (h : Nested b w.bindings choices (s :: ws))
    (after : (s.world w).bindings.Sound → (s.world w).bindings.Later w'.bindings) :
    Nested b w'.bindings s.choices ws := by
  obtain ⟨begun, mark, onward, outer⟩ := h
  have back : begun.Later (s.world w).bindings := onward.later.undo_of_le (Nat.le_of_eq mark)
  exact outer.innermost fun _ h => h.onto (back.trans (after back.sound))

lemma Next.since (next : Next p c c') (h : c.Since b) : c'.Since b := by
  have steps {n : Nat} {failed : Bool} {s : Step} {begun : Bindings}
      (step : c.machine.step p n failed = s)
      (on : Onward begun c.machine.world.bindings c.machine.choices) :
      (Upkeep.since begun).KeptStep s :=
    step ▸ ((kept_since.2 on).step (fun _ _ _ _ _ _ _ => trivial) failed n).1
  cases next with
  | go step | fail step | answer step | exhaust step | halt step =>
    exact h.innermost fun _ on => kept_since.1 (steps step on)
  | @collect _ _ _ m' ws _ _ _ step =>
    have outer : Nested b m'.world.bindings m'.choices ws :=
      h.innermost fun _ on => kept_since.1 (steps step on).1
    exact ⟨m'.world.bindings, rfl, since_start outer.sound _, outer⟩
  | more | found => exact h
  | @gathered n m s _ _ _ unify =>
    refine Nested.resume h fun sound => ?_
    have ran := ran_unifyFound (w := s.world m.world) sound n s.found.reverse s.result
    rw [unify] at ran
    cases ran
    assumption
  | @ungathered n m s _ _ _ unify =>
    refine Nested.resume h fun sound => ?_
    have ran := ran_unifyFound (w := s.world m.world) sound n s.found.reverse s.result
    rw [unify] at ran
    cases ran
    assumption
  | unwind => exact Nested.resume h fun sound => sound.later
  | outOfFuel => exact h

lemma Reaches.since (reaches : Reaches p c c') (h : c.Since b) : c'.Since b := by
  induction reaches with
  | refl => exact h
  | tail _ last ih => exact last.since ih

end Computation

namespace Machine

variable {p : Program} {b : Bindings} {m : Machine}

def Outcome.Since (b : Bindings) : Outcome → Prop
  | .solution m | .exhausted m | .halted _ m => m.Since b

lemma Since.run (h : m.Since b) (p : Program) (n : Nat) (failed : Bool) :
    (run p n failed m).Since b := by
  have reached := (Computation.reaches_bounded p n).1 failed m []
  have since := reached.since (b := b) h
  cases run : Machine.run p n failed m with
  | solution m' | exhausted m' | halted _ m' =>
    rw [run] at since
    exact since

end Machine

end Horn
