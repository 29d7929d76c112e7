import Horn.Proofs.EnvironmentTrimming

/-!
# Frames of clauses

Whether a clause needs an environment is decided from its layout and the number of its calls, before
there is any code.
-/

namespace Horn

open List Bool BodyGoal

variable {i : Instruction} {middle : List Instruction}

namespace Instruction

def isFrame : Instruction → Bool
  | allocate _ | deallocate => true
  | _ => false

def isExit : Instruction → Bool
  | execute _ | proceed => true
  | _ => false

structure Inner (l : Layout) (i : Instruction) : Prop where
  frame : i.isFrame = false
  exit : i.isExit = false
  slots : ∀ y ∈ i.slots, ∃ use, l.slot? use = some y

lemma Sets.inner {l : Layout} {among : Nat → Prop} (h : i.Sets l among) :
    i.Inner l where
  frame := by
    have := h.data
    cases i <;> first | rfl | cases this
  exit := by
    have := h.data
    cases i <;> first | rfl | cases this
  slots y hy := (h.slots y hy).imp' _ fun _ slot => slot.2

end Instruction

namespace Lowering

variable {l : Layout} {r r' : Registers} {framed : Bool} {c : Nat} {g : BodyGoal}
  {goals gs : List BodyGoal} {code : List Instruction}

def final (goals : List BodyGoal) : Instruction :=
  match goals.getLast? with
  | some (.user f _) => .execute f
  | _ => .proceed

def leave (framed : Bool) (goals : List BodyGoal) : List Instruction :=
  (if framed then [.deallocate] else []) ++ [final goals]

structure Middle (l : Layout) (goals : List BodyGoal) (code : List Instruction) : Prop where
  inner : ∀ i ∈ code, i.Inner l
  calls : code.countP (·.endsChunk) + (if lastIsUser goals then 1 else 0) =
    goals.countP (·.endsChunk)

lemma slot?_eq_none (empty : l.frameSize = 0) (use : SlotUse) : l.slot? use = none := by
  cases slot : l.slot? use with
  | none => rfl
  | some y =>
    have := l.slot?_bounds slot
    omega

lemma putArg_frameless (empty : l.frameSize = 0) (last last' : Bool) (a : Nat) (arg : Term) :
    putArg l last a arg = putArg l last' a arg := by
  cases arg with
  | atom | number | compound | cell => rfl
  | var name id =>
    funext r
    by_cases single : l.isSingleton (.var name id) = true
    · rw [putArg, putArg, if_pos single, if_pos single]
    · obtain ⟨n, first, r', eq⟩ : ∃ n first r', occurrence l id r = ((.x n, first), r') := by
        rw [CodeReading.occurrence_eq, slot?_eq_none empty]
        cases r.temps.lookup id <;> exact ⟨_, _, _, rfl⟩
      simp only [putArg, single, false_eq_true, if_false, Bind.bind, StateT.bind, eq]
      cases first <;> rfl

lemma putArgs_frameless (empty : l.frameSize = 0) (last last' : Bool) (a : Nat)
    (args : List Term) : putArgs l last a args = putArgs l last' a args := by
  induction args generalizing a with
  | nil => rfl
  | cons arg rest ih => rw [putArgs, putArgs, putArg_frameless empty last last', ih]

lemma putArgs_middle (last : Bool) (args : List Term) :
    (∀ i ∈ (putArgs l last 1 args r).1, i.Inner l) ∧
      (putArgs l last 1 args r).1.countP (·.endsChunk) = 0 := by
  have sets := putArgs_sets (l := l) last 1 args r
  refine ⟨fun i hi => (sets i hi).inner, countP_eq_zero.2 fun i hi => ?_⟩
  rw [Instruction.endsChunk_of_live (sets i hi).quiet]
  exact false_ne_true

lemma goalCode_middle (h : goalCode l g c r = (.ok code, r')) :
    (∀ i ∈ code, i.Inner l) ∧ code.countP (·.endsChunk) = if g.endsChunk then 1 else 0 := by
  have call {args : List Term} {i : Instruction} (inner : i.Inner l) :
      (∀ j ∈ (putArgs l false 1 args r).1 ++ [i], j.Inner l) ∧
        ((putArgs l false 1 args r).1 ++ [i]).countP (·.endsChunk) =
          if i.endsChunk then 1 else 0 := by
    obtain ⟨setup, none⟩ := putArgs_middle (l := l) (r := r) false args
    refine ⟨fun j hj => (mem_append.1 hj).elim (setup j) fun hj => ?_, ?_⟩
    · rwa [mem_singleton.1 hj]
    · rw [countP_append, none, Nat.zero_add, countP_singleton]
  cases g with
  | cut =>
    by_cases neck : c = 0
    · rw [goalCode, if_pos neck] at h
      cases h
      exact ⟨forall_mem_singleton.2 ⟨rfl, rfl, fun _ hy => by cases hy⟩, rfl⟩
    · rw [goalCode, if_neg neck] at h
      cases slot : l.slot? .cutLevel with
      | none =>
        rw [slot] at h
        cases h
      | some level =>
        rw [slot] at h
        cases h
        refine ⟨forall_mem_singleton.2 ⟨rfl, rfl, fun y hy => ⟨.cutLevel, ?_⟩⟩, rfl⟩
        rw [mem_singleton.1 hy, slot]
  | user f args =>
    cases h
    exact call ⟨rfl, rfl, fun _ hy => by cases hy⟩
  | builtin b goal =>
    cases h
    exact call ⟨rfl, rfl, fun _ hy => by cases hy⟩

lemma last_cons (inner : gs ≠ [] ∨ g.isUser = false) :
    lastIsUser (g :: gs) = lastIsUser gs ∧ (lastIsUser gs → final (g :: gs) = final gs) := by
  cases gs with
  | nil => simp_all [lastIsUser]
  | cons g' rest => simp [lastIsUser, final]

lemma leave_eq (goals : List BodyGoal) (framed : Bool) :
    (if lastIsUser goals then leave framed goals else []) ++ (if lastIsUser goals then []
      else (if framed then [.deallocate] else []) ++ [.proceed]) = leave framed goals := by
  cases last : lastIsUser goals with
  | true => exact append_nil _
  | false =>
    have proceeds : final goals = .proceed := by
      rw [lastIsUser] at last
      rw [final]
      split
      · next f args user => simp [user, isUser] at last
      · rfl
    rw [leave, proceeds]
    rfl

lemma bodyCode_middle (h : bodyCode l true framed (placed c gs) r = (.ok code, r')) :
    ∃ middle, Middle l gs middle ∧ ∀ framed', l.frameSize = 0 ∨ framed' = framed →
      bodyCode l true framed' (placed c gs) r =
        (.ok (middle ++ if lastIsUser gs then leave framed' gs else []), r') := by
  induction gs generalizing c r code with
  | nil =>
    cases h
    exact ⟨[], ⟨by simp, rfl⟩, fun _ _ => rfl⟩
  | cons g gs ih =>
    by_cases inner : gs ≠ [] ∨ g.isUser = false
    · have inner' :
          placed (if g.endsChunk then c + 1 else c) gs ≠ [] ∨ g.isUser = false := by
        refine inner.imp_left fun more => ?_
        cases gs with
        | nil => exact absurd rfl more
        | cons g' rest => exact cons_ne_nil _ _
      have split (framed : Bool) : bodyCode l true framed (placed c (g :: gs)) = _ :=
        CodeReading.bodyCode_eq inner'
      rw [split] at h
      obtain ⟨first, r₁, hfirst, h⟩ := CodeReading.bind_ok h
      obtain ⟨more, r₂, hmore, h⟩ := CodeReading.bind_ok h
      cases h
      obtain ⟨middle, shape, again⟩ := ih hmore
      obtain ⟨calls, count⟩ := goalCode_middle hfirst
      obtain ⟨last, same⟩ := last_cons inner
      refine ⟨first ++ middle, ⟨fun i hi => ?_, ?_⟩, fun framed' small => ?_⟩
      · exact (mem_append.1 hi).elim (calls i) (shape.inner i)
      · rw [last, countP_append, count, countP_cons, ← shape.calls]
        omega
      · rw [split, CodeReading.run_bind hfirst, CodeReading.run_bind (again framed' small), last]
        cases user : lastIsUser gs with
        | false => simp only [false_eq_true, if_false, append_nil]; rfl
        | true =>
          rw [leave, leave, same user, ← append_assoc]
          rfl
    · obtain ⟨rfl, user⟩ : gs = [] ∧ g.isUser = true := by simpa using inner
      cases g with
      | cut | builtin => cases user
      | user f args =>
        obtain ⟨setup, none⟩ := putArgs_middle (l := l) (r := r) framed args
        refine ⟨_, ⟨setup, by rw [none]; rfl⟩, fun framed' small => ?_⟩
        have same : putArgs l framed' 1 args = putArgs l framed 1 args := by
          rcases small with empty | rfl
          · exact putArgs_frameless empty framed' framed 1 args
          · rfl
        cases h
        change ((.ok ((putArgs l framed' 1 args r).1 ++ (if framed' then [.deallocate] else []) ++
          [.execute f]), (putArgs l framed' 1 args r).2) : Except _ _ × _) = _
        rw [same, append_assoc]
        rfl

def framedCode (l : Layout) (framed : Bool) (goals : List BodyGoal) (middle : List Instruction) :
    List Instruction :=
  (if framed then [.allocate l.frameSize] else []) ++ middle ++ leave framed goals

lemma clauseCode_middle {head : Term} {chainRule : Bool}
    (chunks : goals.zip l.chunks = placed 0 goals)
    (h : clauseCode head goals chainRule l r = (.ok code, r')) :
    ∃ middle, Middle l goals middle ∧ ∀ chainRule', clauseCode head goals chainRule' l r =
      (.ok (framedCode l (needsFrame l goals chainRule') goals middle), r') := by
  obtain ⟨body, hbody, -⟩ := CodeReading.clauseCode_ok h
  rw [chunks] at hbody
  obtain ⟨middle, shape, again⟩ := bodyCode_middle hbody
  have level : ∀ i ∈ (l.slot? .cutLevel).toList.map Instruction.getLevel, i.Inner l ∧
      i.endsChunk = false := by
    intro i hi
    obtain ⟨y, slot, rfl⟩ := mem_map.1 hi
    refine ⟨⟨rfl, rfl, fun z hz => ⟨.cutLevel, ?_⟩⟩, rfl⟩
    rw [mem_singleton.1 hz, Option.mem_toList.1 slot]
  have matching := getArgs_sets (l := l) 1 head.args r
  refine ⟨(l.slot? .cutLevel).toList.map .getLevel ++ (getArgs l 1 head.args r).1 ++ middle,
    ⟨fun i hi => ?_, ?_⟩, fun chainRule' => ?_⟩
  · rcases mem_append.1 hi with hi | hi
    · exact (mem_append.1 hi).elim (fun hi => (level i hi).1) fun hi => (matching i hi).inner
    · exact shape.inner i hi
  · have start : ((l.slot? .cutLevel).toList.map Instruction.getLevel ++
        (getArgs l 1 head.args r).1).countP (·.endsChunk) = 0 := by
      refine countP_eq_zero.2 fun i hi => ?_
      have none : i.endsChunk = false := (mem_append.1 hi).elim (fun hi => (level i hi).2)
        fun hi => Instruction.endsChunk_of_live (matching i hi).quiet
      rw [none]
      exact false_ne_true
    rw [countP_append, start, Nat.zero_add, shape.calls]
  · have small : l.frameSize = 0 ∨
        needsFrame l goals chainRule' = needsFrame l goals chainRule := by
      rcases Nat.eq_zero_or_pos l.frameSize with empty | slots
      · exact .inl empty
      · exact .inr (by simp [needsFrame, slots])
    have made := again (needsFrame l goals chainRule') small
    rw [← chunks] at made
    have whole := leave_eq goals (needsFrame l goals chainRule')
    refine (CodeReading.run_bind made).trans (congrArg (fun code => (Except.ok code, r')) ?_)
    simp only [entry, framedCode, append_assoc, whole]

lemma framed_of_inner (shape : Middle l goals middle) (member : i ∈ middle)
    (uses : i.slots ≠ [] ∨ i.endsChunk = true) (chainRule : Bool) :
    needsFrame l goals chainRule = true := by
  rcases uses with slots | calls
  · obtain ⟨y, hy⟩ := exists_mem_of_ne_nil _ slots
    obtain ⟨use, slot⟩ := (shape.inner i member).slots y hy
    have size : 0 < l.frameSize := by
      have := l.slot?_bounds slot
      omega
    simp [needsFrame, size]
  · have some : 0 < middle.countP (·.endsChunk) := countP_pos_iff.2 ⟨i, member, calls⟩
    have count := shape.calls
    cases last : lastIsUser goals with
    | true =>
      have many : 1 < goals.countP (·.endsChunk) := by
        rw [last, if_pos rfl] at count
        omega
      simp [needsFrame, many]
    | false =>
      rw [last, if_neg Bool.false_ne_true] at count
      have one : 1 < goals.countP (·.endsChunk) ∨ goals.countP (·.endsChunk) = 1 := by omega
      rcases one with many | one
      · simp [needsFrame, many]
      · simp [needsFrame, one, last]

lemma final_bare (goals : List BodyGoal) : (final goals).isFrame = false ∧
    (final goals).slots = [] ∧ (final goals).endsChunk = false := by
  unfold final
  split <;> exact ⟨rfl, rfl, rfl⟩

lemma filter_framedCode (shape : Middle l goals middle) (framed : Bool) :
    (framedCode l framed goals middle).filter (!·.isFrame) = middle ++ [final goals] := by
  have kept : middle.filter (!·.isFrame) = middle :=
    filter_eq_self.2 fun i hi => by rw [(shape.inner i hi).frame]; rfl
  have last := (final_bare goals).1
  have frame : (Instruction.allocate l.frameSize).isFrame = true ∧
      Instruction.deallocate.isFrame = true := ⟨rfl, rfl⟩
  cases framed <;> simp [framedCode, leave, kept, last, frame]

lemma mem_framedCode (h : i ∈ framedCode l framed goals middle) :
    i ∈ middle ∨ i.slots = [] ∧ i.endsChunk = false := by
  rw [framedCode, leave] at h
  rcases mem_append.1 h with h | h
  · rcases mem_append.1 h with h | h
    · cases framed with
      | false => cases h
      | true =>
        rw [mem_singleton.1 h]
        exact .inr ⟨rfl, rfl⟩
    · exact .inl h
  · rcases mem_append.1 h with h | h
    · cases framed with
      | false => cases h
      | true =>
        rw [mem_singleton.1 h]
        exact .inr ⟨rfl, rfl⟩
    · rw [mem_singleton.1 h]
      exact .inr (final_bare goals).2

/-- The code of a clause is what its goals need, with an environment around it or not. If there is
one it has all slots of the clause, is reserved first of all and given up just before the last
instruction. There is one if the code refers to a slot or calls anything but the last goal. The
chain rule makes no other difference. -/
theorem code_framed {p : PreparedClause} {chainRule : Bool} {compiled : CompiledClause}
    (accepted : p.compileClause chainRule = .ok compiled) :
    ∃ goals framed middle, p.clause.body.mapM BodyGoal.ofTerm = .ok goals ∧
      compiled.code = (if framed then [.allocate compiled.permanentVars] else []) ++ middle ++
        (if framed then [.deallocate] else []) ++ [final goals] ∧
      (∀ i ∈ middle, i.isFrame = false ∧ i.isExit = false) ∧
      (∀ i ∈ compiled.code, i.slots ≠ [] ∨ i.endsChunk = true → framed = true) ∧
      (∀ i ∈ compiled.code, ∀ y ∈ i.slots, 1 ≤ y ∧ y ≤ compiled.permanentVars) ∧
      ∃ other, p.compileClause (!chainRule) = .ok other ∧
        other.code.filter (!·.isFrame) = compiled.code.filter (!·.isFrame) := by
  obtain ⟨head, f, key, goals, r', hhead, functor, hkey, hgoals, size, hcode⟩ :=
    CodeReading.compileClause_ok accepted
  have fits := Layout.ofClause_fits (some head) goals []
  generalize hl : Layout.ofClause (some head) goals [] = l at size hcode fits
  obtain ⟨middle, shape, codes⟩ := clauseCode_middle fits.chunks hcode
  have code : compiled.code = framedCode l (needsFrame l goals chainRule) goals middle :=
    Except.ok.inj (Prod.mk.inj (hcode.symm.trans (codes chainRule))).1
  refine ⟨goals, needsFrame l goals chainRule, middle, hgoals, ?_, ?_, ?_, ?_, ?_⟩
  · rw [code, size, framedCode, leave, ← append_assoc]
  · exact fun i hi => ⟨(shape.inner i hi).frame, (shape.inner i hi).exit⟩
  · intro i hi uses
    rcases mem_framedCode (code ▸ hi) with hi | ⟨slots, chunk⟩
    · exact framed_of_inner shape hi uses chainRule
    · simp [slots, chunk] at uses
  · intro i hi y hy
    rcases mem_framedCode (code ▸ hi) with hi | ⟨slots, -⟩
    · obtain ⟨use, slot⟩ := (shape.inner i hi).slots y hy
      rw [size]
      exact l.slot?_bounds slot
    · rw [slots] at hy
      cases hy
  · rw [CodeReading.compileClause_of_goals hhead functor hkey hgoals (!chainRule) hl,
      codes (!chainRule)]
    refine ⟨_, rfl, (filter_framedCode shape _).trans ?_⟩
    rw [code, filter_framedCode shape]

/-- `p(X) :- var(X), q, !, r` keeps the level of its cut in a slot. -/
theorem code_framed_cut :
    let p : PreparedClause := ⟨Clause.mark ⟨some (.compound "p" [.var "X" 0]), [.compound "var"
      [.var "X" 0], .atom "q", .atom "!", .atom "r"], .rule, ⟨1, 1⟩⟩, some ⟨0⟩, [], []⟩
    ∃ c, p.compileClause false = .ok c ∧
      c.code = [.allocate 1, .getLevel 1, .getVariable (.x 2) 1, .putValue (.x 2) 1,
        .callBuiltin .var 1, .call ⟨"q", 0⟩ 1, .cut 1, .deallocate, .execute ⟨"r", 0⟩] ∧
      (∀ i ∈ c.code, ∀ y ∈ i.slots, 1 ≤ y ∧ y ≤ 1) ∧
      ∃ other, p.compileClause true = .ok other ∧
        other.code.filter (!·.isFrame) = c.code.filter (!·.isFrame) := by
  intro p
  have accepted : p.compileClause false = .ok ⟨⟨"p", 1⟩, ⟨0⟩, p.clause,
      [.allocate 1, .getLevel 1, .getVariable (.x 2) 1, .putValue (.x 2) 1, .callBuiltin .var 1,
        .call ⟨"q", 0⟩ 1, .cut 1, .deallocate, .execute ⟨"r", 0⟩], 1, []⟩ := by decide +kernel
  obtain ⟨-, -, -, -, -, -, -, slots, other⟩ := code_framed accepted
  exact ⟨_, accepted, rfl, slots, other⟩

end Lowering

end Horn
