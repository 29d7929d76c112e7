import Horn.Proofs.HeadMatching

/-!
# Setting up the arguments of a goal

The structures in an argument are built innermost first, each in a register that was just given out,
so nothing that is still needed is overwritten.
-/

namespace Horn.CodeReading

open Bindings (varOf)
open Term (occurrences occurrencesAll occurrencesAll_append)
open State Lowering List Bool Layout

variable {l : Layout} {ids todo : List Nat} {base low a id : Nat} {r r' : Registers} {N N' : Names}
  {s s' : State} {arg t : Term} {b : Option Nat} {name : String} {items : List (Term × Option Nat)}
  {f : String} {reg : Reg}

structure Writable (r : Registers) (a : Nat) : Prop where
  below : a < r.nextTemp
  noHome : ∀ id x, r.temps.lookup id = some x → x ≠ a

lemma Writable.later (h : Writable r a) (passes : Passes l ids r N s r' N' s') :
    Writable r' a := by
  refine ⟨Nat.lt_of_lt_of_le h.below passes.next, ?_⟩
  intro id x hx
  rcases passes.temps id x hx with hx | hx
  · exact h.noHome id x hx
  · have := h.below
    omega

namespace Inv

section

variable (h : Inv l base r N [] todo s)

include h

lemma writable_arg (ha : a ≤ base) : Writable r a := by
  refine ⟨Nat.lt_of_le_of_lt ha h.above, ?_⟩
  intro id x hx he
  have := (h.temps id x hx).2.1
  omega

lemma alter (write : Writable r a) (x' : Nat → Option Term) (same : ∀ n, n ≠ a → x' n = s.x n) :
    Inv l base r N [] todo { s with x := x' } := by
  refine { h with openHeld := ?_, held := ?_ }
  · intro o ho
    cases ho
  · intro id hid ht reg hreg
    have held := h.held id hid ht reg hreg
    cases reg with
    | y n => exact held
    | x n =>
      have other : n ≠ a := by
        unfold home? at hreg
        split at hreg
        · cases hreg
        · obtain ⟨x, hx, he⟩ := Option.map_eq_some_iff.1 hreg
          cases he
          exact write.noHome id n hx
      exact (same n other).trans held

lemma setX (write : Writable r a) (t : Term) : Inv l base r N [] todo (s.setX a t) :=
  h.alter write _ fun n hn => by simp [hn]

lemma bump :
    Inv l base { r with nextTemp := r.nextTemp + 1 } N [] todo s ∧
      Writable { r with nextTemp := r.nextTemp + 1 } r.nextTemp := by
  refine ⟨{ h with openHeld := ?_, temps := ?_, above := Nat.lt_succ_of_lt h.above }, ?_⟩
  · intro o ho
    cases ho
  · intro id x hx
    obtain ⟨hid, hb, hlt⟩ := h.temps id x hx
    exact ⟨hid, hb, Nat.lt_succ_of_lt hlt⟩
  · refine ⟨Nat.lt_succ_self _, ?_⟩
    intro id x hx
    exact Nat.ne_of_lt (h.temps id x hx).2.2

end

end Inv

def plainArgs : List (Term × Option Nat) → List Term
  | [] => []
  | (t, none) :: rest => t :: plainArgs rest
  | (_, some _) :: rest => plainArgs rest

lemma occurrences_plainArgs (h : id ∈ occurrencesAll (plainArgs items)) :
    id ∈ occurrencesAll (items.map (·.1)) := by
  induction items with
  | nil => exact h
  | cons item rest ih =>
    obtain ⟨t, b⟩ := item
    cases b with
    | none =>
      rcases mem_append.1 h with h | h
      · exact mem_append_left _ h
      · exact mem_append_right _ (ih h)
    | some x => exact mem_append_right _ (ih h)

def Built (low : Nat) (r : Registers) (N : Names) (s : State) (arg : Term) : Option Nat → Prop
  | none => arg.isStructure = false
  | some x => arg.isStructure = true ∧ low ≤ x ∧ x < r.nextTemp ∧
    ∃ v, s.x x = some v ∧ Reads (Stands N []) arg v

lemma Built.later (h : Built low r N s arg b) (passes : Passes l ids r N s r' N' s')
    (kept : ∀ n, low ≤ n → n < r.nextTemp → s'.x n = s.x n) : Built low r' N' s' arg b := by
  cases b with
  | none => exact h
  | some x =>
    obtain ⟨structured, hlow, hx, v, hv, reads⟩ := h
    exact ⟨structured, hlow, Nat.lt_of_lt_of_le hx passes.next, v, (kept x hlow hx).trans hv,
      reads.widen passes.names fun _ ho => ho⟩

lemma Built.lower {low' : Nat} (h : Built low r N s arg b) (hle : low' ≤ low) :
    Built low' r N s arg b := by
  cases b with
  | none => exact h
  | some x => exact ⟨h.1, Nat.le_trans hle h.2.1, h.2.2⟩

lemma Passes.unbump (h : Passes l ids { r with nextTemp := r.nextTemp + 1 } N s r' N' s') :
    Passes l ids r N s r' N' s' where
  toKept := h.toKept
  names := h.names
  seen := h.seen
  args := h.args
  next := Nat.le_of_succ_le h.next
  temps := by
    intro id x hx
    rcases h.temps id x hx with hx | hx
    · exact .inl hx
    · exact .inr (Nat.le_of_succ_le hx)

namespace Inv

variable {Q : List Open} {p : Pending} {k : Nat}

lemma run_setArg (h : Inv l base r N Q (occurrencesAll (plainArgs [(arg, b)]) ++ todo) s)
    (built : Built low r N s arg b) (several : l.isSingleton arg = false)
    (awaits : s.Awaits p (k + 1)) (inGoal : p.target.inHead = false) :
    Adds l base todo p k [arg] [] [] (occurrencesAll (plainArgs [(arg, b)])) r N Q s
      (setArg l b arg r).1 (setArg l b arg r).2 := by
  have unfinished := awaits.unfinished
  cases b with
  | some x =>
    obtain ⟨_, _, _, v, hv, reads⟩ := built
    refine adds_known awaits _ h reads ?_
    simp [step, unfinished, inGoal, addValue, State.get, hv]
  | none =>
    cases arg with
    | atom a =>
      refine adds_known awaits _ h (.atom a) ?_
      by_cases ha : a = "[]"
      · subst ha
        simp [step, unfinished, inGoal, Term.nil]
      · simp [step, unfinished, inGoal, ha, Constant.term]
    | number n =>
      refine adds_known awaits _ h (.number n) ?_
      cases n <;>
        simp [step, unfinished, inGoal, Constant.ofNumber, Constant.term, Term.int, Term.float]
    | var name id =>
      have hm : id ∉ l.singletons := by simpa [isSingleton] using several
      obtain ⟨reg, first, r', eq, adds⟩ := adds_var awaits name h hm
      have code : setArg l none (.var name id) r =
          ([if first then .setVariable reg else .setValue reg], r') := by
        change ([if (occurrence l id r).1.2 then Instruction.setVariable (occurrence l id r).1.1
          else .setValue (occurrence l id r).1.1], (occurrence l id r).2) = _
        rw [eq]
      rw [code]
      exact adds _ (by cases first <;> simp [step, unfinished, inGoal])
    | compound | cell => cases built

lemma setArgs_cons (several : l.isSingleton arg = false) (n : Nat) (b : Option Nat)
    (rest : List (Term × Option Nat)) (r : Registers) :
    setArgs l n ((arg, b) :: rest) r =
      (let c := setArg l b arg r
       let m := setArgs l 0 rest c.2
       (setVoids n ++ c.1 ++ m.1, m.2)) := by
  rw [setArgs, several]
  rfl

lemma setArgs_void (single : l.isSingleton arg = true) (n : Nat) (b : Option Nat)
    (rest : List (Term × Option Nat)) :
    setArgs l n ((arg, b) :: rest) = setArgs l (n + 1) rest := by
  rw [setArgs, if_pos single]

lemma run_setArgs (vs : List Term)
    (h : Inv l base r N Q (occurrencesAll vs ++ (occurrencesAll (plainArgs items) ++ todo)) s)
    (built : ∀ i ∈ items, Built low r N s i.1 i.2) (voids : ∀ v ∈ vs, l.isSingleton v = true)
    (awaits : s.Awaits p (vs.length + items.length)) (inGoal : p.target.inHead = false) :
    Adds l base todo p 0 (vs ++ items.map (·.1)) [] [] (occurrencesAll (vs ++ plainArgs items)) r N Q
      s (setArgs l vs.length items r).1 (setArgs l vs.length items r).2 := by
  induction items generalizing vs r N Q s p todo with
  | nil =>
    rw [map_nil, plainArgs, append_nil]
    exact adds_voids _ h voids awaits (by simp [step, awaits.unfinished, inGoal])
  | cons item rest ih =>
    obtain ⟨arg, b⟩ := item
    obtain ⟨first, others⟩ := forall_mem_cons.1 built
    cases hsingle : l.isSingleton arg with
    | true =>
      have all : ∀ v ∈ vs ++ [arg], l.isSingleton v = true :=
        forall_mem_append.2 ⟨voids, forall_mem_singleton.2 hsingle⟩
      obtain rfl : b = none := by
        obtain ⟨name, id, rfl, -⟩ := isSingleton_iff.1 hsingle
        cases b with
        | none => rfl
        | some x => cases first.1
      have more := ih (vs ++ [arg])
        (by simpa [occurrencesAll_append, occurrencesAll, plainArgs] using h) others all
        (by simpa [Nat.add_comm, Nat.add_left_comm] using awaits) inGoal
      rw [setArgs_void hsingle]
      simpa [plainArgs] using more
    | false =>
      have split : plainArgs ((arg, b) :: rest) = plainArgs [(arg, b)] ++ plainArgs rest := by
        cases b <;> rfl
      rw [split, occurrencesAll_append] at h
      have adds := (adds_voids .setVoid h voids awaits
        (by simp [step, awaits.unfinished, inGoal])).trans todo fun awaits inv same passes =>
          (run_setArg (by simpa only [append_assoc] using inv.swap)
            (first.later passes fun n _ lt => same n lt) hsingle awaits inGoal).trans _
              fun awaits inv same' passes' => ih [] inv.swap
                (fun i hi => ((others i hi).later passes fun n _ lt => same n lt).later passes'
                  fun n _ lt => same' n lt) (forall_mem_nil _) (by simpa using awaits) inGoal
      rw [setArgs_cons hsingle, split]
      simpa [occurrencesAll_append, occurrencesAll, setVoids] using adds

end Inv

/-- Code that puts a term in register `a` and leaves the registers given out so far alone. -/
def Puts (l : Layout) (base a : Nat) (t : Term) (todo : List Nat) (r : Registers) (N : Names)
    (s : State) (code : List Instruction) (r' : Registers) : Prop :=
  ∃ N' s' x, run code s = some s' ∧ s'.pending = none ∧ s'.x a = some x ∧
    Reads (Stands N' []) t x ∧ Inv l base r' N' [] todo s' ∧
    (∀ n < r.nextTemp, n ≠ a → s'.x n = s.x n) ∧ Passes l t.occurrences r N s r' N' s'

def Builds (l : Layout) (base : Nat) (t : Term) : Prop :=
  ∀ {a : Nat} {todo : List Nat} {r : Registers} {N : Names} {s : State},
    Inv l base r N [] (t.occurrences ++ todo) s → s.pending = none → s.finished = false →
    Writable r a → Puts l base a t todo r N s (build l a t r).1 (build l a t r).2

lemma buildNested_cons (arg : Term) (rest : List Term) (r : Registers) :
    buildNested l (arg :: rest) r =
      if arg.isStructure then
        let c := build l r.nextTemp arg { r with nextTemp := r.nextTemp + 1 }
        let m := buildNested l rest c.2
        ((c.1 ++ m.1.1, some r.nextTemp :: m.1.2), m.2)
      else
        let m := buildNested l rest r
        ((m.1.1, none :: m.1.2), m.2) := by
  rw [buildNested]
  split <;> rfl

lemma run_buildNested {args : List Term}
    (nested : ∀ t ∈ args, t.isStructure = true → Builds l base t)
    (h : Inv l base r N [] (occurrencesAll args ++ todo) s) (pending : s.pending = none)
    (unfinished : s.finished = false) :
    ∃ N' s', run (buildNested l args r).1.1 s = some s' ∧ s'.pending = none ∧
      (buildNested l args r).1.2.length = args.length ∧
      (∀ i ∈ args.zip (buildNested l args r).1.2,
        Built r.nextTemp (buildNested l args r).2 N' s' i.1 i.2) ∧
      Inv l base (buildNested l args r).2 N' []
        (occurrencesAll (plainArgs (args.zip (buildNested l args r).1.2)) ++ todo) s' ∧
      (∀ n < r.nextTemp, s'.x n = s.x n) ∧
      Passes l (occurrencesAll args) r N s (buildNested l args r).2 N' s' := by
  induction args generalizing r N s todo with
  | nil =>
    exact ⟨N, s, rfl, pending, rfl, by simp, h, fun _ _ => rfl, .idle r N s _ _ _⟩
  | cons arg rest ih =>
    have nested' : ∀ t ∈ rest, t.isStructure = true → Builds l base t :=
      fun t ht => nested t (mem_cons_of_mem _ ht)
    rw [occurrencesAll, append_assoc] at h
    rw [buildNested_cons]
    by_cases structured : arg.isStructure = true
    · rw [if_pos structured]
      obtain ⟨inv₀, write⟩ := h.bump
      obtain ⟨N₁, s₁, v, hrun₁, pending₁, hv, reads, inv₁, low₁, passes₁⟩ :=
        nested arg mem_cons_self structured inv₀ pending unfinished write
      obtain ⟨N₂, s₂, hrun₂, pending₂, length, built, inv₂, low₂, passes₂⟩ :=
        ih nested' inv₁ pending₁ (passes₁.finished.trans unfinished)
      have next₁ : r.nextTemp < _ := passes₁.next
      refine ⟨N₂, s₂, ?_, pending₂, ?_, ?_, inv₂, ?_, ?_⟩
      · rw [run_append, hrun₁]
        exact hrun₂
      · simp [length]
      · intro i hi
        rcases mem_cons.1 hi with rfl | hi
        · exact ⟨structured, Nat.le_refl _, Nat.lt_of_lt_of_le next₁ passes₂.next, v,
            (low₂ _ next₁).trans hv, reads.widen passes₂.names fun _ ho => ho⟩
        · exact (built i hi).lower (Nat.le_of_lt next₁)
      · intro n hn
        rw [low₂ n (Nat.lt_trans hn next₁), low₁ n (Nat.lt_succ_of_lt hn) (Nat.ne_of_lt hn)]
      · exact passes₁.unbump.trans passes₂
    · rw [if_neg structured]
      obtain ⟨N₁, s₁, hrun, pending₁, length, built, inv, low, passes⟩ :=
        ih nested' h.swap pending unfinished
      refine ⟨N₁, s₁, hrun, pending₁, by simp [length], ?_, ?_, low, ?_⟩
      · intro i hi
        rcases mem_cons.1 hi with rfl | hi
        · simpa [Built] using structured
        · exact built i hi
      · refine inv.weaken fun id => ?_
        simp only [zip_cons_cons, plainArgs, occurrencesAll, count_append]
        omega
      · exact passes.weaken fun id hid => List.mem_append_right _ hid

lemma build_eq (structured : t.isStructure = true) (name : t.name? = some f) (a : Nat)
    (r : Registers) :
    build l a t r =
      (let b := buildNested l t.args r
       let c := setArgs l 0 (t.args.zip b.1.2) b.2
       (b.1.1 ++ putHeader f t.arity a :: c.1, c.2)) := by
  cases t with
  | compound g args =>
    cases name
    rw [build]
    rfl
  | cell hd tl =>
    cases name
    have nil : ∀ r, buildNested l [] r = (([], []), r) := fun _ => rfl
    by_cases hh : hd.isStructure = true <;> by_cases ht : tl.isStructure = true <;>
      simp only [build, Term.args, hh, ht, if_true, if_false, Bool.false_eq_true, buildNested_cons,
        nil, List.append_nil, List.append_assoc, pure_bind, List.nil_append] <;>
      rfl
  | atom | number | var => cases structured

lemma step_putHeader {arity : Nat} (pending : s.pending = none) (unfinished : s.finished = false) :
    step s (putHeader f arity a) = some (s.begin (.put a) f arity) := by
  unfold putHeader
  by_cases hl : isList f arity = true
  · obtain ⟨rfl, rfl⟩ : f = "." ∧ arity = 2 := by simpa [isList] using hl
    rw [if_pos hl]
    simp [step, unfinished, pending, plain]
  · rw [if_neg hl]
    simp [step, unfinished, pending, plain]

lemma builds_of_args (structured : t.isStructure = true)
    (nested : ∀ u ∈ t.args, u.isStructure = true → Builds l base u) : Builds l base t := by
  intro a todo r N s h pending unfinished write
  obtain ⟨f, name⟩ : ∃ f, t.name? = some f := by
    cases t <;> simp_all [Term.isStructure, Term.name?]
  rw [Term.occurrences_args structured] at h
  obtain ⟨N₁, s₁, hrun₁, pending₁, length, built₁, inv₁, low₁, passes₁⟩ :=
    run_buildNested nested h pending unfinished
  have write₁ := write.later passes₁
  have unfinished₁ : s₁.finished = false := passes₁.finished.trans unfinished
  -- the register is empty while the structure is built
  let s₂ : State := { s₁ with
    x := fun m => if m = a then none else s₁.x m
    pending := some ⟨.put a, f, [], t.arity⟩ }
  have inv₂ := (inv₁.alter write₁ s₂.x fun n hn => if_neg hn).withPending s₂.pending
  have passes₂ : Passes l [] _ N₁ s₁ _ N₁ s₂ := .idle (buildNested l t.args r).2 N₁ s₁ _ _ _
  have built₂ : ∀ i ∈ t.args.zip (buildNested l t.args r).1.2,
      Built r.nextTemp (buildNested l t.args r).2 N₁ s₂ i.1 i.2 := by
    intro i hi
    refine (built₁ i hi).later passes₂ fun n hn _ => if_neg ?_
    have := write.below
    omega
  obtain ⟨N₃, s₃, xs, new, hrun₃, ⟨hp₃, -, -⟩, reads, inv₃, bare, -, low₃, passes₃⟩ :=
    inv₂.run_setArgs [] built₂ (by simp) ⟨rfl, by simp [Term.arity, length], unfinished₁⟩ rfl
  obtain rfl := map_eq_nil_iff.1 bare
  have done : complete s₃ = { s₃ with pending := none }.setX a (.build f xs) := by
    simp [complete, hp₃]
  have value : Reads (Stands N₃ []) t (.build f xs) := by
    refine .structure structured name ?_
    rwa [nil_append, map_fst_zip (Nat.le_of_eq length.symm)] at reads
  rw [Puts, build_eq structured name]
  refine ⟨N₃, complete s₃, .build f xs, ?_, ?_, ?_, value, ?_, ?_, ?_⟩
  · rw [run_append, hrun₁]
    change run (putHeader f t.arity a :: _) s₁ = _
    rw [run_cons, step_putHeader pending₁ unfinished₁]
    exact hrun₃
  · rw [done]
    rfl
  · simp [done, setX]
  · rw [done]
    exact (inv₃.withPending none).setX (write₁.later passes₃) _
  · intro n hn hne
    rw [done]
    change (if n = a then _ else s₃.x n) = _
    rw [if_neg hne, low₃ n (Nat.lt_of_lt_of_le hn passes₁.next)]
    change (if n = a then _ else s₁.x n) = _
    rw [if_neg hne, low₁ n hn]
  · have passes := (passes₁.trans passes₂).trans passes₃
    have last : ∀ r, Passes l [] r N₃ s₃ r N₃ ({ s₃ with pending := none }.setX a (.build f xs)) :=
      fun r => .idle r N₃ s₃ _ _ none
    rw [done, Term.occurrences_args structured]
    refine (passes.trans (last _)).weaken fun id hid => ?_
    simp only [append_nil, nil_append, mem_append] at hid
    rcases hid with hid | hid
    · exact hid
    · have := occurrences_plainArgs hid
      rwa [map_fst_zip (Nat.le_of_eq length.symm)] at this

lemma builds (l : Layout) (base : Nat) (t : Term) (structured : t.isStructure = true) :
    Builds l base t := by
  induction t using Term.induct with
  | atom | number | var => cases structured
  | compound f args ih => exact builds_of_args (t := .compound f args) rfl ih
  | cell hd tl ihh iht =>
    refine builds_of_args rfl fun u hu => ?_
    rcases mem_cons.1 hu with rfl | hu
    · exact ihh
    · rw [mem_singleton.1 hu]
      exact iht

lemma puts_known {x : Term} {i : Instruction} (h : Inv l base r' N [] todo s) (ha : a ≤ base)
    (pending : s.pending = none) (reads : Reads (Stands N []) t x)
    (hstep : step s i = some (s.setX a x)) (passes : Passes l t.occurrences r N s r' N s) :
    Puts l base a t todo r N s [i] r' :=
  ⟨N, s.setX a x, x, (run_one i s).trans hstep, pending, by simp [setX], reads,
    h.setX (h.writable_arg ha) x, fun n _ hne => by simp [setX, hne], passes.reset _ _⟩

lemma Inv.withUnsafe (h : Inv l base r N [] todo s) (ids : List Nat) :
    Inv l base { r with unsafeVars := ids } N [] todo s :=
  { h with openHeld := h.openHeld, seen := h.seen, held := h.held, temps := h.temps }

lemma putArg_first (several : l.isSingleton (.var name id) = false)
    (eq : occurrence l id r = ((reg, true), r')) (lastCall : Bool) (a : Nat) :
    ∃ ids, putArg l lastCall a (.var name id) r =
      ([.putVariable reg a], { r' with unsafeVars := ids }) := by
  cases reg with
  | x n =>
    refine ⟨r'.unsafeVars, ?_⟩
    simp only [putArg, several, false_eq_true, if_false, Bind.bind, StateT.bind, eq]
    rfl
  | y n =>
    refine ⟨id :: r'.unsafeVars, ?_⟩
    simp only [putArg, several, false_eq_true, if_false, Bind.bind, StateT.bind, eq]
    rfl

lemma putArg_again (several : l.isSingleton (.var name id) = false)
    (eq : occurrence l id r = ((reg, false), r')) (lastCall : Bool) (a : Nat) :
    putArg l lastCall a (.var name id) r = ([.putValue reg a], r') ∨
      ∃ y, reg = .y y ∧ putArg l lastCall a (.var name id) r = ([.putUnsafeValue y a], r') := by
  cases reg with
  | x n =>
    refine .inl ?_
    simp only [putArg, several, false_eq_true, if_false, Bind.bind, StateT.bind, eq]
    rfl
  | y n =>
    have code : putArg l lastCall a (.var name id) r =
        (if lastCall && r'.unsafeVars.contains id then ([.putUnsafeValue n a], r')
         else ([.putValue (.y n) a], r')) := by
      simp only [putArg, several, false_eq_true, if_false, Bind.bind, StateT.bind, eq]
      change (if (lastCall && r'.unsafeVars.contains id) = true then pure _ else pure _ :
        Lowering (List Instruction)) r' = _
      split <;> rfl
    rw [code]
    by_cases hu : (lastCall && r'.unsafeVars.contains id) = true
    · rw [if_pos hu]
      exact .inr ⟨n, rfl, rfl⟩
    · rw [if_neg hu]
      exact .inl rfl

lemma puts_var (lastCall : Bool) (h : Inv l base r N [] (id :: todo) s) (ha : a ≤ base)
    (pending : s.pending = none) (unfinished : s.finished = false) :
    Puts l base a (.var name id) todo r N s (putArg l lastCall a (.var name id) r).1
      (putArg l lastCall a (.var name id) r).2 := by
  by_cases single : l.isSingleton (.var name id) = true
  · rw [putArg, if_pos single]
    obtain ⟨fresh, inv⟩ :=
      (h.more 1).nameOnce h.proper.free_next (by simpa [isSingleton] using single)
    obtain ⟨inv, write⟩ := inv.bump
    have inv := inv.setX write (varOf s.next)
    refine ⟨_, _, varOf s.next, ?_, ?_, ?_, ?_,
      inv.setX (inv.writable_arg ha) (varOf s.next), ?_, ?_⟩
    · change run [.putVariable (.x r.nextTemp) a] s = _
      rw [run_one]
      simp [step, unfinished, pending, plain, State.set]
    · exact pending
    · simp [setX]
    · exact .stands (.inr ⟨name, id, rfl, mem_cons_self, by simp [Names.add]⟩)
    · intro n hn hne
      simp [setX, hne, Nat.ne_of_lt hn]
    · exact ⟨⟨⟨rfl, rfl, rfl, rfl, fun _ _ hl => hl⟩, Names.sub_add fresh, fun _ hid => .inl hid⟩,
        rfl, Nat.le_succ _, fun _ _ hx => .inl hx⟩
  · have single : l.isSingleton (.var name id) = false := by simpa using single
    have several : id ∉ l.singletons := by simpa [isSingleton] using single
    by_cases hs : id ∈ r.seen
    · obtain ⟨reg, eq, known, get, inv, passes⟩ := h.again hs
      have reads : Reads (Stands N []) (.var name id) (varOf (N.var id)) :=
        .stands (.inr ⟨name, id, rfl, known, rfl⟩)
      rcases putArg_again single eq lastCall a with code | ⟨y, rfl, code⟩
      · rw [code]
        refine puts_known inv ha pending reads ?_ passes
        simp [step, unfinished, pending, plain, get]
      · rw [code]
        refine puts_known inv ha pending reads ?_ passes
        simp [step, unfinished, pending, plain, get]
    · obtain ⟨reg, s', r', eq, set, fresh, inv, low, passes, same, _⟩ :=
        (h.more 1).first h.proper.free_next hs several
      obtain ⟨ids, code⟩ := putArg_first single eq lastCall a
      rw [code]
      refine ⟨_, _, varOf s.next, ?_, ?_, ?_, ?_,
        (inv.setX (inv.writable_arg ha) (varOf s.next)).withUnsafe ids, ?_, ?_⟩
      · have hstep : step s (.putVariable reg a) = plain (.putVariable reg a) s := by
          simp [step, unfinished, pending]
        rw [run_one, hstep, plain, set]
        rfl
      · exact same.trans pending
      · simp [setX]
      · exact .stands (.inr ⟨name, id, rfl, mem_cons_self, by simp [Names.add]⟩)
      · intro n hn hne
        simpa [setX, hne] using low n hn
      · exact { passes.reset _ s'.pending with seen := passes.seen, temps := passes.temps }

lemma puts_arg (lastCall : Bool) (h : Inv l base r N [] (arg.occurrences ++ todo) s)
    (ha : a ≤ base) (pending : s.pending = none) (unfinished : s.finished = false) :
    Puts l base a arg todo r N s (putArg l lastCall a arg r).1 (putArg l lastCall a arg r).2 := by
  cases arg with
  | atom name =>
    refine puts_known h ha pending (.atom name) ?_ (.idle r N s _ _ _)
    by_cases hn : name = "[]"
    · subst hn
      simp [step, unfinished, pending, plain, Term.nil]
    · simp [step, unfinished, pending, plain, hn, Constant.term]
  | number n =>
    refine puts_known h ha pending (.number n) ?_ (.idle r N s _ _ _)
    cases n <;> simp [step, unfinished, pending, plain, Constant.ofNumber, Constant.term, Term.int,
      Term.float]
  | var name id => exact puts_var lastCall h ha pending unfinished
  | compound | cell => exact builds l base _ rfl h pending unfinished (h.writable_arg ha)

lemma mapM_range_succ {α : Type} {f : Nat → Option α} {n : Nat} {x : α} {xs : List α}
    (first : f 0 = some x) (rest : (range n).mapM (fun i => f (i + 1)) = some xs) :
    (range (n + 1)).mapM f = some (x :: xs) := by
  have shifted : ((range n).map Nat.succ).mapM f = some xs := by
    rw [mapM_map]
    exact rest
  rw [range_succ_eq_map, mapM_cons, first, shifted]
  rfl

lemma run_putArgs {args : List Term} (lastCall : Bool)
    (h : Inv l base r N [] (occurrencesAll args ++ todo) s) (ha : a + args.length ≤ base + 1)
    (pending : s.pending = none) (unfinished : s.finished = false) :
    ∃ N' s' xs, run (putArgs l lastCall a args r).1 s = some s' ∧ s'.pending = none ∧
      (range args.length).mapM (fun i => s'.x (a + i)) = some xs ∧
      Forall₂ (Reads (Stands N' [])) args xs ∧
      Inv l base (putArgs l lastCall a args r).2 N' [] todo s' ∧
      (∀ n < a, s'.x n = s.x n) ∧
      Passes l (occurrencesAll args) r N s (putArgs l lastCall a args r).2 N' s' := by
  induction args generalizing a r N s with
  | nil => exact ⟨N, s, [], rfl, pending, rfl, .nil, h, fun _ _ => rfl, .idle r N s _ _ _⟩
  | cons arg rest ih =>
    rw [occurrencesAll, append_assoc] at h
    rw [length_cons] at ha
    obtain ⟨N₁, s₁, x, hrun₁, pending₁, hx, reads, inv₁, low₁, passes₁⟩ :=
      puts_arg (a := a) lastCall h (by omega) pending unfinished
    obtain ⟨N₂, s₂, xs, hrun₂, pending₂, hxs, reads₂, inv₂, low₂, passes₂⟩ :=
      ih (a := a + 1) inv₁ (by omega) pending₁ (passes₁.finished.trans unfinished)
    refine ⟨N₂, s₂, x :: xs, ?_, pending₂, ?_, ?_, inv₂, ?_, passes₁.trans passes₂⟩
    · change run ((putArg l lastCall a arg r).1 ++ _) s = _
      rw [run_append, hrun₁]
      exact hrun₂
    · refine mapM_range_succ ((low₂ a (Nat.lt_succ_self a)).trans hx) ?_
      simpa [Nat.add_comm, Nat.add_left_comm] using hxs
    · exact .cons (reads.widen passes₂.names (forall_mem_nil (· ∈ ([] : List Open)))) reads₂
    · intro n hn
      have := h.above
      rw [low₂ n (by omega), low₁ n (by omega) (by omega)]

end Horn.CodeReading
