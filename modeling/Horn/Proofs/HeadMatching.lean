import Horn.Proofs.StructureReading

/-!
# Matching the head

Matching a structure closes the variable that stands for it and opens one for each structure in it,
so the queue of lowering and the open variables of the reading go together.
-/

namespace Horn.CodeReading

open Bindings (varOf)
open State Lowering List Term Layout

variable {l : Layout} {base : Nat} {hargs : List Term} {r r' : Registers} {N : Names}
  {Q Q' : List Open} {o : Open} {todo todo' : List Nat} {s : State} {xs args ts : List Term}
  {name f : String} {u : Term} {id : Nat}

lemma Reads.structure {m : Nat → Term → Prop} {t : Term} (structured : t.isStructure = true)
    (name : t.name? = some f) (args : Forall₂ (Reads m) t.args xs) : Reads m t (.build f xs) := by
  cases t with
  | compound g ts =>
    cases name
    exact .compound args
  | cell h t =>
    cases name
    cases args with
    | cons hx rest =>
      cases rest with
      | cons hy rest =>
        cases rest
        exact .cell hx hy
  | atom | number | var => cases structured

lemma get_bind (s : State) (v : Nat) (u : Term) (reg : Reg) :
    (s.bind v u).get reg = (s.get reg).map (substitute v u) := by
  cases reg with
  | x n => rfl
  | y n =>
    simp only [State.get, State.bind]
    cases s.y n with
    | none => rfl
    | some held => cases held <;> rfl

lemma kept_bind (l : Layout) (s : State) (v : Nat) (u : Term) : Kept l s (s.bind v u) := by
  refine ⟨rfl, rfl, rfl, rfl, ?_⟩
  intro y _ hl
  change (s.y y).map (Held.substitute v u) = _
  rw [hl]
  rfl

lemma readsAll_bind {next : Nat} (proper : Proper N (o :: Q) next)
    (value : Reads (Stands N Q) o.term u) (h : Forall₂ (Reads (Stands N (o :: Q))) ts xs) :
    Forall₂ (Reads (Stands N Q)) ts (xs.map (substitute o.var u)) := by
  have free := proper.free_head
  refine forall₂_of_mem h fun t _ x hx => hx.bind ?_ ?_
  · rintro v t' hv (⟨p, hp, rfl, rfl⟩ | named)
    · rcases mem_cons.1 hp with rfl | hp
      · exact absurd rfl hv
      · exact .inl ⟨p, hp, rfl, rfl⟩
    · exact .inr named
  · rintro t' (⟨p, hp, hv, rfl⟩ | ⟨name, id, rfl, hid, hv⟩)
    · rcases mem_cons.1 hp with rfl | hp
      · exact value
      · exact absurd hv (free.closed p hp)
    · exact absurd hv.symm (free.unnamed id hid)

namespace Inv

variable {p : Pending} {k : Nat}

lemma permQueue (h : Inv l base r N Q todo s) (hp : Q'.Perm Q) : Inv l base r N Q' todo s := by
  have mem : ∀ o, o ∈ Q' → o ∈ Q := fun _ ho => hp.mem_iff.1 ho
  refine { h with proper := ?_, openHeld := fun o ho => h.openHeld o (mem o ho) }
  exact { h.proper with
    openBelow := fun o ho => h.proper.openBelow o (mem o ho)
    openOnce := (hp.map Open.var).nodup_iff.2 h.proper.openOnce
    namedApart := fun id hid o ho => h.proper.namedApart id hid o (mem o ho) }

lemma push (h : Inv l base r N Q todo s) (t : Term) :
    Inv l base { r with nextTemp := r.nextTemp + 1 } N (Q ++ [⟨s.next, t, r.nextTemp⟩]) todo
      ({ s with next := s.next + 1 }.setX r.nextTemp (varOf s.next)) := by
  refine ⟨(h.proper.more 1).push h.proper.free_next t r.nextTemp, ?_, h.seen, ?_, h.unseen, ?_,
    Nat.lt_succ_of_lt h.above, h.once, h.frame⟩
  · intro o ho
    rcases mem_append.1 ho with ho | ho
    · obtain ⟨hlt, hx⟩ := h.openHeld o ho
      refine ⟨Nat.lt_succ_of_lt hlt, ?_⟩
      simpa [State.setX, Nat.ne_of_lt hlt] using hx
    · rw [mem_singleton.1 ho]
      exact ⟨Nat.lt_succ_self _, by simp [State.setX]⟩
  · intro id hid ht reg hreg
    have held := h.held id hid ht reg hreg
    cases reg with
    | y n => exact held
    | x n =>
      have : n < r.nextTemp := (h.home_bounds hreg).2
      simpa [State.get, State.setX, Nat.ne_of_lt this] using held
  · intro id x hx
    obtain ⟨hid, hb, hlt⟩ := h.temps id x hx
    exact ⟨hid, hb, Nat.lt_succ_of_lt hlt⟩

variable {arg : Term}

lemma step_unifyArg (h : Inv l base r N Q (arg.occurrences ++ todo) s)
    (several : l.isSingleton arg = false) (awaits : s.Awaits p (k + 1))
    (inHead : p.target.inHead = true) :
    Adds l base todo p k [arg] ([arg].filter isStructure) (unifyArg l arg r).1.2.toList
      arg.occurrences r N Q s [(unifyArg l arg r).1.1] (unifyArg l arg r).2 := by
  have unfinished := awaits.unfinished
  have nested (structured : arg.isStructure = true) : Adds l base todo p k [arg] [arg] [r.nextTemp]
      arg.occurrences r N Q s [.unifyVariable (.x r.nextTemp)]
      { r with nextTemp := r.nextTemp + 1 } := by
    refine adds_one awaits ({ s with next := s.next + 1 }.setX r.nextTemp (varOf s.next))
      [⟨s.next, arg, r.nextTemp⟩] ?_ rfl
      (.stands (.inl ⟨_, mem_singleton_self _, rfl, rfl⟩))
      (by simpa [occurrencesAll] using h.push arg)
      (fun n lt => by simp [setX, Nat.ne_of_lt lt]) ?_
    · simp [step, unfinished, addVariable, State.set, inHead]
    · exact ⟨⟨⟨rfl, rfl, rfl, rfl, fun _ _ hl => hl⟩, .refl N, fun _ hid => .inl hid⟩, rfl,
        Nat.le_succ _, fun _ _ hx => .inl hx⟩
  cases arg with
  | atom a =>
    refine adds_known awaits _ h (.atom a) ?_
    change step s (if a = "[]" then _ else _) = _
    by_cases ha : a = "[]"
    · subst ha
      simp [step, unfinished, inHead, Term.nil]
    · simp [step, unfinished, inHead, ha, Constant.term]
  | number n =>
    refine adds_known awaits _ h (.number n) ?_
    change step s (.unifyConstant (.ofNumber n)) = _
    cases n <;> simp [step, unfinished, inHead, Constant.ofNumber, Constant.term, int, float]
  | var name id =>
    have hm : id ∉ l.singletons := by simpa [isSingleton] using several
    obtain ⟨reg, first, r', eq, adds⟩ := adds_var awaits name h hm
    have unify : unifyArg l (.var name id) r =
        ((if first then .unifyVariable reg else .unifyValue reg, none), r') := by
      change ((if (occurrence l id r).1.2 then Instruction.unifyVariable (occurrence l id r).1.1
        else .unifyValue (occurrence l id r).1.1, none), (occurrence l id r).2) = _
      rw [eq]
    rw [unify]
    exact adds _ (by cases first <;> simp [step, unfinished, inHead])
  | compound | cell => exact nested rfl

lemma unifyArgs_cons (several : l.isSingleton arg = false) (n : Nat) (rest : List Term)
    (r : Registers) :
    unifyArgs l n (arg :: rest) r =
      (let a := unifyArg l arg r
       let b := unifyArgs l 0 rest a.2
       ((unifyVoids n ++ a.1.1 :: b.1.1, a.1.2.toList ++ b.1.2), b.2)) := by
  rw [unifyArgs, several]
  rfl

lemma unifyArgs_void (single : l.isSingleton arg = true) (n : Nat) (rest : List Term) :
    unifyArgs l n (arg :: rest) = unifyArgs l (n + 1) rest := by
  rw [unifyArgs, if_pos single]

lemma run_unifyArgs (vs : List Term)
    (h : Inv l base r N Q (occurrencesAll vs ++ (occurrencesAll args ++ todo)) s)
    (voids : ∀ v ∈ vs, l.isSingleton v = true) (awaits : s.Awaits p (vs.length + args.length))
    (inHead : p.target.inHead = true) :
    Adds l base todo p 0 (vs ++ args) (args.filter isStructure) (unifyArgs l vs.length args r).1.2
      (occurrencesAll (vs ++ args)) r N Q s (unifyArgs l vs.length args r).1.1
      (unifyArgs l vs.length args r).2 := by
  induction args generalizing vs r N Q s p todo with
  | nil =>
    rw [append_nil]
    exact adds_voids _ h voids awaits (by simp [step, awaits.unfinished, inHead])
  | cons arg rest ih =>
    cases hsingle : l.isSingleton arg with
    | true =>
      have all : ∀ v ∈ vs ++ [arg], l.isSingleton v = true :=
        forall_mem_append.2 ⟨voids, forall_mem_singleton.2 hsingle⟩
      have more := ih (vs ++ [arg]) (by simpa [occurrencesAll_append, occurrencesAll] using h) all
        (by simpa [Nat.add_comm, Nat.add_left_comm] using awaits) inHead
      obtain ⟨name, id, rfl, -⟩ := isSingleton_iff.1 hsingle
      rw [unifyArgs_void hsingle]
      simpa [isStructure] using more
    | false =>
      have adds := (adds_voids .unifyVoid h voids awaits
        (by simp [step, awaits.unfinished, inHead])).trans todo fun awaits inv _ _ =>
          (step_unifyArg (by simpa only [occurrencesAll, append_assoc] using inv.swap) hsingle awaits
            inHead).trans _ fun awaits inv _ _ =>
              ih [] inv.swap (forall_mem_nil _) (by simpa using awaits) inHead
      rw [← filter_append] at adds
      rw [unifyArgs_cons hsingle]
      simpa [occurrencesAll_append, occurrencesAll, unifyVoids] using adds

lemma bind (h : Inv l base r N (o :: Q) todo s) : Inv l base r N Q todo (s.bind o.var u) := by
  have free := h.proper.free_head
  refine { h.tail with proper := h.tail.proper, openHeld := ?_, held := ?_, frame := h.frame }
  · intro p hp
    obtain ⟨hlt, hx⟩ := h.tail.openHeld p hp
    refine ⟨hlt, ?_⟩
    change (s.x p.reg).map (substitute o.var u) = _
    rw [hx]
    change some (if p.var = o.var then u else varOf p.var) = _
    rw [if_neg (free.closed p hp)]
  · intro id hid ht reg hreg
    have held := h.held id hid ht reg hreg
    have other := free.unnamed id (h.seen id hid).1
    have named : substitute o.var u (varOf (N.var id)) = varOf (N.var id) := by
      change (if N.var id = o.var then u else varOf (N.var id)) = _
      rw [if_neg other]
    rw [get_bind, held, Option.map_some, named]

lemma open?_eq (h : Inv l base r N Q todo s) (goals : s.goals = []) (ho : o ∈ Q) :
    s.open? o.reg = some o.var := by
  rw [open?, goals, (h.openHeld o ho).2]
  rfl

end Inv

/-- The state of a reading between two instructions that match the head: its arguments are the
arguments `hargs` of the head as far as open variables stand for them. -/
structure Matching (l : Layout) (base : Nat) (hargs : List Term) (r : Registers) (N : Names)
    (Q : List Open) (todo : List Nat) (s : State) : Prop where
  inv : Inv l base r N Q todo s
  args : List.Forall₂ (Reads (Stands N Q)) hargs s.args
  pending : s.pending = none
  goals : s.goals = []
  unfinished : s.finished = false

namespace Matching

lemma rearrange (h : Matching l base hargs r N Q todo s) (queue : Q'.Perm Q)
    (fewer : ∀ id, todo'.count id ≤ todo.count id) :
    Matching l base hargs r N Q' todo' s :=
  { h with
    inv := (h.inv.permQueue queue).weaken fewer
    args := readsAll_widen h.args (.refl N) fun _ ho => queue.mem_iff.2 ho }

lemma run_getHeader (h : Matching l base hargs r N (o :: Q) todo s) (name : o.term.name? = some f) :
    run (getHeader o.term o.reg) s =
      some (complete { s with pending := some ⟨.bind o.var, f, [], o.term.arity⟩ }) := by
  have hopen := h.inv.open?_eq h.goals mem_cons_self
  have functor : o.term.functor? = some ⟨f, o.term.arity⟩ := by
    rw [functor?, name]
    rfl
  rw [getHeader, functor]
  change run [if isList f o.term.arity then .getList o.reg else .getStructure _ o.reg] s = _
  by_cases hl : isList f o.term.arity = true
  · obtain ⟨rfl, harity⟩ : f = "." ∧ o.term.arity = 2 := by simpa [isList] using hl
    rw [if_pos hl, harity]
    simp [run_cons, run_nil, step, h.unfinished, h.pending, plain, hopen, begin]
  · rw [if_neg hl]
    simp [run_cons, run_nil, step, h.unfinished, h.pending, plain, hopen, begin]

lemma run_structure
    (h : Matching l base hargs r N (o :: Q) (occurrencesAll o.term.args ++ todo) s)
    (structured : o.term.isStructure = true) :
    ∃ N' s' new, run (getHeader o.term o.reg ++ (unifyArgs l 0 o.term.args r).1.1) s = some s' ∧
      Matching l base hargs (unifyArgs l 0 o.term.args r).2 N' (Q ++ new)
        (occurrencesAll (new.map Open.term) ++ todo) s' ∧
      new.map Open.term = o.term.args.filter isStructure ∧
      new.map Open.reg = (unifyArgs l 0 o.term.args r).1.2 ∧
      Onward l (occurrencesAll o.term.args) r N s (unifyArgs l 0 o.term.args r).2 N' s' := by
  obtain ⟨f, name⟩ : ∃ f, o.term.name? = some f := by
    cases ht : o.term <;> simp_all [isStructure, name?]
  let q : Pending := ⟨.bind o.var, f, [], o.term.arity⟩
  obtain ⟨N', s', xs, new, hrun, ⟨hp, -, -⟩, reads, inv, terms, regs, -, passes⟩ :=
    (h.inv.withPending (some q)).run_unifyArgs [] (by simp) ⟨rfl, by simp [q, arity], h.unfinished⟩ rfl
  have inv : Inv l base _ N' (o :: (Q ++ new)) _ s' := inv
  have value : Reads (Stands N' (Q ++ new)) o.term (.build f xs) :=
    .structure structured name
      (readsAll_widen reads (.refl N') fun p hp => mem_append_right Q hp)
  have done : complete s' = { s' with pending := none }.bind o.var (.build f xs) := by
    simp [complete, hp, q]
  have args : Forall₂ (Reads (Stands N' (o :: (Q ++ new)))) hargs s'.args := by
    rw [passes.args]
    exact readsAll_widen h.args passes.names fun p hp => mem_append_left new hp
  refine ⟨N', complete s', new, ?_, ⟨?_, ?_, ?_, ?_, ?_⟩, terms, regs, ?_⟩
  · rw [run_append, h.run_getHeader name]
    exact hrun
  · rw [done]
    exact (inv.withPending none).bind
  · rw [done]
    exact readsAll_bind inv.proper value args
  · rw [done]
    rfl
  · rw [done]
    exact passes.goals.trans h.goals
  · rw [done]
    exact passes.finished.trans h.unfinished
  · have kept : Kept l s (complete s') := by
      rw [done]
      exact (passes.toKept.reset _ none).trans (kept_bind l _ o.var _)
    exact ⟨kept, passes.names, passes.seen⟩

lemma getStructures_cons (t : Term) (a : Nat) (rest : List (Term × Nat)) (r : Registers) :
    getStructures l ((t, a) :: rest) r =
      (let u := unifyArgs l 0 t.args r
       let m := getStructures l (rest ++ (t.args.filter isStructure).zip u.1.2) u.2
       (getHeader t a ++ u.1.1 ++ m.1, m.2)) := by
  rw [getStructures]
  rfl

def Closes (l : Layout) (base : Nat) (hargs : List Term) (Q : List Open) (todo ids : List Nat)
    (r : Registers) (N : Names) (s : State) (code : List Instruction × Registers) : Prop :=
  ∃ N' s', run code.1 s = some s' ∧ Matching l base hargs code.2 N' Q todo s' ∧
    Onward l ids r N s code.2 N' s'

lemma run_getStructures {queue : List Open} (h : Matching l base hargs r N (queue ++ Q)
      (occurrencesAll (queue.map Open.term) ++ todo) s)
    (structured : ∀ o ∈ queue, o.term.isStructure = true) :
    Closes l base hargs Q todo (occurrencesAll (queue.map Open.term)) r N s
      (getStructures l (queue.map fun o => (o.term, o.reg)) r) := by
  generalize hn : queueSize (queue.map fun o => (o.term, o.reg)) = n
  induction n using Nat.strongRecOn generalizing queue r N s with
  | ind n ih =>
    cases queue with
    | nil =>
      rw [map_nil, map_nil, getStructures]
      exact ⟨N, s, rfl, h, ⟨⟨rfl, rfl, rfl, rfl, fun _ _ hl => hl⟩, .refl N, fun _ hid => .inl hid⟩⟩
    | cons o queue =>
      have structured' : o.term.isStructure = true := structured o mem_cons_self
      have h' : Matching l base hargs r N (o :: (queue ++ Q)) (occurrencesAll o.term.args ++
          (occurrencesAll (queue.map Open.term) ++ todo)) s := by
        refine h.rearrange (.refl _) fun id => ?_
        rw [← occurrences_args structured']
        simp [occurrencesAll]
      obtain ⟨N₁, s₁, new, hrun₁, h₁, terms, regs, onward₁⟩ := h'.run_structure structured'
      have pairs : (queue ++ new).map (fun o => (o.term, o.reg)) =
          queue.map (fun o => (o.term, o.reg)) ++
            (o.term.args.filter isStructure).zip (unifyArgs l 0 o.term.args r).1.2 := by
        rw [map_append, ← terms, ← regs, zip_map']
      have smaller : queueSize ((queue ++ new).map fun o => (o.term, o.reg)) < n := by
        rw [pairs, ← hn]
        exact queueSize_args_lt o.term o.reg _ _
      have h₁ : Matching l base hargs (unifyArgs l 0 o.term.args r).2 N₁ ((queue ++ new) ++ Q)
          (occurrencesAll ((queue ++ new).map Open.term) ++ todo) s₁ := by
        refine h₁.rearrange ?_ fun id => ?_
        · rw [append_assoc, append_assoc]
          exact perm_append_comm.append_left queue
        · simp only [map_append, occurrencesAll_append, count_append]
          omega
      have structured₁ : ∀ o ∈ queue ++ new, o.term.isStructure = true := by
        intro p hp
        rcases mem_append.1 hp with hp | hp
        · exact structured p (mem_cons_of_mem _ hp)
        · have : p.term ∈ o.term.args.filter isStructure :=
            terms ▸ mem_map_of_mem hp
          exact (mem_filter.1 this).2
      obtain ⟨N₂, s₂, hrun₂, h₂, onward₂⟩ := ih _ smaller h₁ structured₁ rfl
      rw [pairs] at hrun₂ h₂ onward₂
      rw [map_cons, map_cons, getStructures_cons]
      refine ⟨N₂, s₂, ?_, h₂, ?_⟩
      · rw [run_append, hrun₁]
        exact hrun₂
      · refine (onward₁.trans onward₂).weaken fun id hid => ?_
        rw [map_append, occurrencesAll_append, terms] at hid
        rw [occurrencesAll, occurrences_args structured']
        simp only [mem_append, mem_occurrencesAll, mem_filter] at hid ⊢
        rcases hid with hid | hid | ⟨t, ⟨ht, _⟩, hid⟩
        · exact .inl hid
        · exact .inr hid
        · exact .inl ⟨t, ht, hid⟩

lemma readsAll_settle (h : Forall₂ (Reads (Stands N (o :: Q))) ts xs) (term : o.term = .var name id)
    (fresh : id ∉ N.known) : Forall₂ (Reads (Stands (N.add id o.var) Q)) ts xs := by
  refine h.imp fun t x hx => hx.imp fun w t' => ?_
  rintro (⟨p, hp, rfl, rfl⟩ | named)
  · rcases mem_cons.1 hp with rfl | hp
    · exact .inr ⟨name, id, term, mem_cons_self, by simp [Names.add]⟩
    · exact .inl ⟨p, hp, rfl, rfl⟩
  · exact Stands.imp (.inr named) (Names.sub_add fresh) (fun _ hp => hp)

lemma bind (h : Matching l base hargs r N (o :: Q) todo s) (inv : Inv l base r' N (o :: Q) todo' s)
    (value : Reads (Stands N Q) o.term u)
    (seen : ∀ id ∈ r'.seen, id ∈ r.seen ∨ id ∈ o.term.occurrences) :
    Matching l base hargs r' N Q todo' (s.bind o.var u) ∧
      Onward l o.term.occurrences r N s r' N (s.bind o.var u) :=
  ⟨⟨inv.bind, readsAll_bind inv.proper value h.args, h.pending, h.goals, h.unfinished⟩,
    ⟨kept_bind l s o.var u, .refl N, seen⟩⟩

lemma run_getConstant {i : Instruction} (h : Matching l base hargs r N (o :: Q) todo s)
    (reads : ∀ m, Reads m o.term o.term)
    (hstep : step s i = (s.open? o.reg).bind fun v => some (s.bind v o.term)) :
    Closes l base hargs Q todo o.term.occurrences r N s ([i], r) := by
  obtain ⟨matched, onward⟩ := h.bind h.inv (reads _) fun _ hid => .inl hid
  refine ⟨N, _, ?_, matched, onward⟩
  rw [run_cons, hstep, h.inv.open?_eq h.goals mem_cons_self]
  rfl

lemma getVar_code {i : Nat} {reg : Reg} {first : Bool}
    (eq : occurrence l id r = ((reg, first), r')) :
    (do let (reg, first) ← occurrence l id
        return [if first then Instruction.getVariable reg i else .getValue reg i] :
      Lowering (List Instruction)) r =
    ([if first then .getVariable reg i else .getValue reg i], r') := by
  change ([if (occurrence l id r).1.2 then Instruction.getVariable (occurrence l id r).1.1 i
    else .getValue (occurrence l id r).1.1 i], (occurrence l id r).2) = _
  rw [eq]

lemma run_getVar (h : Matching l base hargs r N (o :: Q) (id :: todo) s)
    (term : o.term = .var name id) :
    Closes l base hargs Q todo o.term.occurrences r N s (getArg l o.reg (.var name id) r) := by
  have free := h.inv.proper.free_head
  rw [getArg]
  by_cases single : l.isSingleton (.var name id) = true
  · rw [if_pos single]
    obtain ⟨fresh, inv⟩ := h.inv.tail.nameOnce free (by simpa [isSingleton] using single)
    refine ⟨N.add id o.var, s, rfl, ⟨inv, readsAll_settle h.args term fresh, h.pending, h.goals,
      h.unfinished⟩, ⟨⟨rfl, rfl, rfl, rfl, fun _ _ hl => hl⟩, Names.sub_add fresh,
      fun _ hid => .inl hid⟩⟩
  · have several : id ∉ l.singletons := by simpa [isSingleton] using single
    rw [if_neg single]
    by_cases hs : id ∈ r.seen
    · obtain ⟨reg, eq, known, get, inv, passes⟩ := h.inv.again hs
      have value : Reads (Stands N Q) o.term (varOf (N.var id)) := by
        rw [term]
        exact .stands (.inr ⟨name, id, rfl, known, rfl⟩)
      obtain ⟨matched, onward⟩ := h.bind inv value (by rw [term]; exact passes.seen)
      rw [getVar_code eq]
      refine ⟨N, _, ?_, matched, onward⟩
      simp [run_cons, run_nil, step, h.unfinished, h.pending, plain, get,
        h.inv.open?_eq h.goals mem_cons_self]
    · obtain ⟨reg, s', r', eq, set, fresh, inv, low, passes, same, _⟩ :=
        h.inv.tail.first free hs several
      rw [getVar_code eq]
      refine ⟨N.add id o.var, s', ?_, ⟨inv, ?_, ?_, ?_, ?_⟩, ?_⟩
      · simp [run_cons, run_nil, step, h.unfinished, h.pending, plain,
          (h.inv.openHeld o mem_cons_self).2, set]
      · rw [passes.args]
        exact readsAll_settle h.args term fresh
      · exact same.trans h.pending
      · exact passes.goals.trans h.goals
      · exact passes.finished.trans h.unfinished
      · rw [term]
        exact passes.toOnward

lemma run_getArg (h : Matching l base hargs r N (o :: Q) (o.term.occurrences ++ todo) s) :
    Closes l base hargs Q todo o.term.occurrences r N s (getArg l o.reg o.term r) := by
  obtain ⟨w, t, a⟩ := o
  have nested (structured : t.isStructure = true) :
      Closes l base hargs Q todo t.occurrences r N s (getStructures l [(t, a)] r) := by
    have h : Matching l base hargs r N ([⟨w, t, a⟩] ++ Q) (occurrencesAll [t] ++ todo) s := by
      simpa [occurrencesAll] using h
    simpa [occurrencesAll] using h.run_getStructures (by simpa using structured)
  cases t with
  | atom name =>
    refine h.run_getConstant (fun _ => .atom name) ?_
    by_cases hn : name = "[]"
    · subst hn
      simp [step, h.unfinished, h.pending, plain, Term.nil]
    · simp [step, h.unfinished, h.pending, plain, hn, Constant.term]
  | number n =>
    refine h.run_getConstant (fun _ => .number n) ?_
    cases n <;> simp [step, h.unfinished, h.pending, plain, Constant.ofNumber, Constant.term,
      int, float]
  | var name id => exact h.run_getVar rfl
  | compound | cell => exact nested rfl

def openArgs (a : Nat) : List Term → List Open
  | [] => []
  | t :: ts => ⟨a - 1, t, a⟩ :: openArgs (a + 1) ts

lemma run_getArgs {a : Nat}
    (h : Matching l base hargs r N (openArgs a args) (occurrencesAll args ++ todo) s) :
    Closes l base hargs [] todo (occurrencesAll args) r N s (getArgs l a args r) := by
  induction args generalizing a r N s with
  | nil =>
    exact ⟨N, s, rfl, h, ⟨⟨rfl, rfl, rfl, rfl, fun _ _ hl => hl⟩, .refl N, fun _ hid => .inl hid⟩⟩
  | cons arg rest ih =>
    have h : Matching l base hargs r N (⟨a - 1, arg, a⟩ :: openArgs (a + 1) rest)
        (arg.occurrences ++ (occurrencesAll rest ++ todo)) s := by
      simpa [occurrencesAll, openArgs] using h
    obtain ⟨N₁, s₁, hrun₁, h₁, onward₁⟩ := h.run_getArg
    obtain ⟨N₂, s₂, hrun₂, h₂, onward₂⟩ := ih h₁
    refine ⟨N₂, s₂, ?_, h₂, onward₁.trans onward₂⟩
    change run ((getArg l a arg r).1 ++ _) s = _
    rw [run_append, hrun₁]
    exact hrun₂

end Matching

end Horn.CodeReading
