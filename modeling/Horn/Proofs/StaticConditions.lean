import Horn.Proofs.ReportedNames

/-!
# Conditions with and without a run

Each goal of a run has a value here, which may be an error, and from the values of the goals that
are pending and of those in the choices it follows how the run ends. The values do not depend on the
store, as every variable occurs in one place of the condition only.
-/

namespace Horn

open List Term Machine Bindings Array Horn.Action Builtin Int64 Engine Search Verdict

variable {c : Comparison} {holds : Bool}

namespace Conditional

/-- The conditions that can be decided without a run. -/
inductive Static : Term → Prop where
  | truth {a : String} (h : a ∈ ["true", "false", "fail"]) : Static (.atom a)
  | negation {g : Term} (inner : Static g) : Static (.compound "\\+" [g])
  | conjunction {a b : Term} (left : Static a) (right : Static b) : Static (.compound "," [a, b])
  | disjunction {a b : Term} (left : Static a) (right : Static b) : Static (.compound ";" [a, b])
  | identical (a b : Term) : Static (.compound "==" [a, b])
  | distinct (a b : Term) : Static (.compound "\\==" [a, b])
  | comparison {f : String} {c : Comparison} (h : (f, c) ∈ Comparison.table) (a b : Term) :
    Static (.compound f [a, b])
  | currentOp (p t n : Term) : Static (.compound "current_op" [p, t, n])

def both (u v : Option Bool) : Option Bool := u.bind fun holds => if holds then v else some false

def either (u v : Option Bool) : Option Bool := u.bind fun holds => if holds then some true else v

/-- The value of a goal; an error is `none`. Goals that are solved one after the other have no
variable in common. -/
inductive Weighs (ops : OperatorTable) : Term → Option Bool → Prop where
  | succeed : Weighs ops (.atom "true") (some true)
  | fail {a : String} (h : a ∈ ["false", "fail"]) : Weighs ops (.atom a) (some false)
  | negation {g : Term} {v : Option Bool} (inner : Weighs ops g v) :
    Weighs ops (.compound "\\+" [g]) (v.map (!·))
  | conjunction {a b : Term} {u v : Option Bool} (left : Weighs ops a u) (right : Weighs ops b v)
    (apart : a.ids.Disjoint b.ids) : Weighs ops (.compound "," [a, b]) (both u v)
  | disjunction {a b : Term} {u v : Option Bool} (left : Weighs ops a u) (right : Weighs ops b v) :
    Weighs ops (.compound ";" [a, b]) (either u v)
  | identical (a b : Term) : Weighs ops (.compound "==" [a, b]) (some (a.same b))
  | distinct (a b : Term) : Weighs ops (.compound "\\==" [a, b]) (some (!a.same b))
  | comparison {f : String} {c : Comparison} (h : (f, c) ∈ Comparison.table) (a b : Term) :
    Weighs ops (.compound f [a, b]) (c.test a b).toOption
  | equation (x : Term) {y : Term} (atomic : y.isAtomic = true) :
    Weighs ops (equation x y) (some (x.isVar || x.same y))
  | currentOp {p t n : Term} (once : (p.ids ++ t.ids ++ n.ids).Nodup) :
    Weighs ops (.compound "current_op" [p, t, n]) (some (hasOperator ops p t n))

section Values

variable {ops : OperatorTable}

lemma both_some (p q : Bool) : both (some p) (some q) = some (p && q) := by
  cases p <;> rfl

lemma either_some (p q : Bool) : either (some p) (some q) = some (p || q) := by
  cases p <;> rfl

lemma toOption_conjunction (a b : Term) :
    (evaluateStatic ops (.compound "," [a, b])).toOption =
      both (evaluateStatic ops a).toOption (evaluateStatic ops b).toOption := by
  simp only [evaluateStatic, if_true]
  cases evaluateStatic ops a with
  | error e => rfl
  | ok holds => cases holds <;> rfl

lemma toOption_disjunction (a b : Term) :
    (evaluateStatic ops (.compound ";" [a, b])).toOption =
      either (evaluateStatic ops a).toOption (evaluateStatic ops b).toOption := by
  have other : ¬(";" = ",") := by decide
  simp only [evaluateStatic, other, if_true, if_false]
  cases evaluateStatic ops a with
  | error e => rfl
  | ok holds => cases holds <;> rfl

lemma table_names : ∀ e ∈ Comparison.table, Comparison.ofName? e.1 = some e.2 ∧
    e.1 ≠ "," ∧ e.1 ≠ ";" ∧ e.1 ≠ "==" ∧ e.1 ≠ "\\==" := by
  decide

lemma toOption_comparison {f : String} (h : (f, c) ∈ Comparison.table) (a b : Term) :
    (evaluateStatic ops (.compound f [a, b])).toOption = (c.test a b).toOption := by
  obtain ⟨named, noComma, noBar, noIdentical, noDistinct⟩ := table_names (f, c) h
  simp only at named noComma noBar noIdentical noDistinct
  simp only [evaluateStatic, named, noComma, noBar, noIdentical, noDistinct, if_false]
  cases c.test a b <;> rfl

lemma Static.weighs {g : Term} (h : Static g) (once : g.ids.Nodup) :
    Weighs ops g (evaluateStatic ops g).toOption := by
  induction h with
  | truth h =>
    simp only [mem_cons, not_mem_nil, or_false] at h
    rcases h with rfl | rfl | rfl
    · exact .succeed
    · exact .fail (by simp)
    · exact .fail (by simp)
  | @negation g _ ih =>
    rw [ids_single] at once
    have value : (evaluateStatic ops (.compound "\\+" [g])).toOption =
        (evaluateStatic ops g).toOption.map (!·) := by
      simp only [evaluateStatic, if_true]
      cases evaluateStatic ops g <;> rfl
    rw [value]
    exact .negation (ih once)
  | @conjunction a b _ _ iha ihb =>
    rw [ids_pair, nodup_append'] at once
    rw [toOption_conjunction]
    exact .conjunction (iha once.1) (ihb once.2.1) once.2.2
  | @disjunction a b _ _ iha ihb =>
    rw [ids_pair, nodup_append'] at once
    rw [toOption_disjunction]
    exact .disjunction (iha once.1) (ihb once.2.1)
  | identical a b => exact .identical a b
  | distinct a b => exact .distinct a b
  | @comparison f c h a b =>
    rw [toOption_comparison h]
    exact .comparison h a b
  | currentOp p t n =>
    refine .currentOp ?_
    rw [ids_compound] at once
    simpa using once

end Values

inductive Stake where
  | call (value : Option Bool)
  | cutTo (height : Nat)

/-- How a run ends that goes on with some goals, from the values of these and of the goals in the
choices, the latest first. -/
def outcome : List Stake → List (List Stake) → Option Bool
  | [], _ => some true
  | .call none :: _, _ => none
  | .call (some true) :: rest, choices => outcome rest choices
  | .call (some false) :: _, [] => some false
  | .call (some false) :: _, choice :: choices => outcome choice choices
  | .cutTo height :: rest, choices => outcome rest (choices.drop (choices.length - height))
termination_by goals choices => (choices.length, goals.length)
decreasing_by
  · exact Prod.Lex.right _ (Nat.lt_succ_self _)
  · exact Prod.Lex.left _ _ (Nat.lt_succ_self _)
  · simp_wf
    rw [Prod.lex_def]
    omega

def setback : List (List Stake) → Option Bool
  | [] => some false
  | choice :: choices => outcome choice choices

section Outcomes

variable {goals : List Stake} {choices : List (List Stake)} {choice : List Stake}

lemma outcome_fail (goals : List Stake) (choices : List (List Stake)) :
    outcome (.call (some false) :: goals) choices = setback choices := by
  cases choices <;> simp [outcome, setback]

def CutsBelow : Nat → List Stake → Prop
  | _, [] => True
  | height, .call _ :: goals => CutsBelow height goals
  | height, .cutTo h :: goals => h ≤ height ∧ CutsBelow h goals

lemma outcome_push (low : CutsBelow choices.length goals) (choice : List Stake) :
    outcome goals (choice :: choices) = outcome goals choices ∨
      outcome goals (choice :: choices) = outcome choice choices ∧
        outcome goals choices = setback choices := by
  induction goals with
  | nil => exact .inl (by simp [outcome])
  | cons g goals ih =>
    match g with
    | .call none => exact .inl (by simp [outcome])
    | .call (some true) =>
      simp only [outcome]
      exact ih low
    | .call (some false) =>
      refine .inr ⟨?_, outcome_fail goals choices⟩
      rw [outcome]
    | .cutTo h =>
      refine .inl ?_
      obtain ⟨le, -⟩ := low
      have same : (choice :: choices).length - h = choices.length - h + 1 := by
        rw [length_cons]
        omega
      rw [outcome, outcome, same, drop_succ_cons]

lemma outcome_conjunction (u v : Option Bool) (goals : List Stake)
    (choices : List (List Stake)) :
    outcome (.call u :: .call v :: goals) choices = outcome (.call (both u v) :: goals) choices := by
  match u with
  | none => simp [outcome, both]
  | some true => rw [outcome]; rfl
  | some false =>
    rw [outcome_fail]
    exact (outcome_fail goals choices).symm

/-- A disjunction leaves a choice. If that one fails after all, the disjunction could as well have
failed, but an error in it may come into sight. -/
lemma outcome_disjunction (low : CutsBelow choices.length goals) (u v : Option Bool) :
    outcome (.call u :: goals) ((.call v :: goals) :: choices) =
        outcome (.call (either u v) :: goals) choices ∨
      outcome (.call u :: goals) ((.call v :: goals) :: choices) = none := by
  match u with
  | none => exact .inr (by simp [outcome])
  | some false =>
    refine .inl ?_
    rw [outcome_fail]
    rfl
  | some true =>
    have value : outcome (.call (either (some true) v) :: goals) choices =
      outcome goals choices := by
      change outcome (.call (some true) :: goals) choices = _
      rw [outcome]
    rw [outcome, value]
    rcases outcome_push low (.call v :: goals) with same | ⟨other, back⟩
    · exact .inl same
    · rw [other]
      match v with
      | none => exact .inr (by simp [outcome])
      | some true => exact .inl (by rw [outcome])
      | some false => exact .inl (by rw [outcome_fail, back])

lemma outcome_negation (v : Option Bool) (goals : List Stake) (choices : List (List Stake)) :
    outcome (.call v :: .cutTo choices.length :: .call (some false) :: goals)
        ((.call (some true) :: goals) :: choices) =
      outcome (.call (v.map (!·)) :: goals) choices := by
  match v with
  | none => simp [outcome]
  | some true =>
    have drop : ((.call (some true) :: goals) :: choices).drop
        (((.call (some true) :: goals) :: choices).length - choices.length) = choices := by
      rw [length_cons, Nat.add_sub_cancel_left]
      rfl
    rw [outcome, outcome, drop]
    rfl
  | some false =>
    rw [outcome_fail]
    rfl

end Outcomes

def pendingIds : List Goal → List Nat
  | [] => []
  | .call t _ :: goals => t.ids ++ pendingIds goals
  | .cutTo _ :: goals | .softCut _ :: goals => pendingIds goals

/-- Pending goals with their values. What is left after a cut refers to no choice that the cut
removes. -/
inductive Stakes (ops : OperatorTable) : Nat → List Goal → List Stake → Prop where
  | nil {height : Nat} : Stakes ops height [] []
  | call {height barrier : Nat} {t : Term} {v : Option Bool} {goals : List Goal} {s : List Stake}
    (weighs : Weighs ops t v) (apart : t.ids.Disjoint (pendingIds goals))
    (rest : Stakes ops height goals s) :
    Stakes ops height (.call t barrier :: goals) (.call v :: s)
  | cutTo {height h : Nat} {goals : List Goal} {s : List Stake} (low : h ≤ height)
    (rest : Stakes ops h goals s) : Stakes ops height (.cutTo h :: goals) (.cutTo h :: s)

def Free (b : Bindings) (goals : List Goal) : Prop := ∀ id ∈ pendingIds goals, b.value? id = none

/-- Choices with the values of their goals, the latest first. Each goes back to a store in which its
goals are free. -/
inductive Backed (ops : OperatorTable) : Bindings → Array Choice → List (List Stake) → Prop where
  | nil {b : Bindings} : Backed ops b #[] []
  | push {b b₀ : Bindings} {t : Term} {barrier : Nat} {goals : List Goal} {s : List Stake}
    {cs : Array Choice} {css : List (List Stake)} (sound : b₀.Sound) (later : b₀.Later b)
    (free : Free b₀ (.call t barrier :: goals))
    (stakes : Stakes ops cs.size (.call t barrier :: goals) s) (rest : Backed ops b₀ cs css) :
    Backed ops b (cs.push ⟨b₀.mark, goals, .goal t barrier⟩) (s :: css)

structure Poised (ops : OperatorTable) (w : World) (cs : Array Choice) (css : List (List Stake)) :
    Prop where
  operators : w.operators = ops
  sound : w.bindings.Sound
  backed : Backed ops w.bindings cs css

structure Going (ops : OperatorTable) (m : Machine) (s : List Stake) (css : List (List Stake)) :
    Prop extends poised : Poised ops m.world m.choices css where
  free : Free m.world.bindings m.goals
  stakes : Stakes ops m.choices.size m.goals s

inductive Leads (ops : OperatorTable) (v : Option Bool) : Machine.Step → Prop where
  | go {m : Machine} {s : List Stake} {css : List (List Stake)} (going : Going ops m s css)
    (same : outcome s css = v ∨ outcome s css = none) : Leads ops v (.go m)
  | fail {m : Machine} {css : List (List Stake)} (poised : Poised ops m.world m.choices css)
    (same : setback css = v) : Leads ops v (.fail m)
  | solution {m : Machine} (same : v = some true) : Leads ops v (.solution m)
  | exhausted {m : Machine} (same : v = some false) : Leads ops v (.exhausted m)
  | halt {h : Halt} {m : Machine} : Leads ops v (.halt h m)

section Runs

variable {ops : OperatorTable} {b b' : Bindings} {w : World} {goals : List Goal} {s : List Stake}
  {cs : Array Choice} {css : List (List Stake)} {height : Nat}

lemma Stakes.cutsBelow (h : Stakes ops height goals s) : CutsBelow height s := by
  induction h with
  | nil => trivial
  | call _ _ _ ih => exact ih
  | cutTo low _ ih => exact ⟨low, ih⟩

lemma Stakes.above {height' : Nat} (h : Stakes ops height goals s) (le : height ≤ height') :
    Stakes ops height' goals s := by
  induction h generalizing height' with
  | nil => exact .nil
  | call weighs apart _ ih => exact .call weighs apart (ih le)
  | cutTo low rest _ => exact .cutTo (Nat.le_trans low le) rest

lemma Backed.later (h : Backed ops b cs css) (later : b.Later b') : Backed ops b' cs css := by
  cases h with
  | nil => exact .nil
  | push sound earlier free stakes rest => exact .push sound (earlier.trans later) free stakes rest

lemma Backed.size (h : Backed ops b cs css) : css.length = cs.size := by
  induction h with
  | nil => rfl
  | push _ _ _ _ _ ih => simp [ih]

lemma Backed.cutTo (h : Backed ops b cs css) (le : height ≤ cs.size) :
    Backed ops b (cs.shrink height) (css.drop (css.length - height)) := by
  induction h with
  | nil =>
    obtain rfl : height = 0 := Nat.le_zero.1 le
    exact .nil
  | @push b b₀ t barrier goals s cs css sound later free stakes rest ih =>
    have size := rest.size
    rw [size_push] at le
    rcases Nat.lt_or_eq_of_le le with lt | rfl
    · have drop : (s :: css).length - height = css.length - height + 1 := by
        rw [length_cons]
        omega
      rw [shrink_push (Nat.le_of_lt_succ lt), drop]
      exact (ih (Nat.le_of_lt_succ lt)).later later
    · have whole : (s :: css).length - (cs.size + 1) = 0 := by
        rw [length_cons]
        omega
      have all : (cs.push ⟨b₀.mark, goals, .goal t barrier⟩).shrink (cs.size + 1) =
          cs.push ⟨b₀.mark, goals, .goal t barrier⟩ := by
        rw [← size_push, shrink_size]
      rw [whole, all]
      exact .push sound later free stakes rest

variable {t y x : Term} {barrier : Nat} {v : Option Bool} {u : Option Bool} {f : String} {n : Nat}

lemma free_call :
    Free b (.call t barrier :: goals) ↔ (∀ id ∈ t.ids, b.value? id = none) ∧ Free b goals := by
  simp only [Free, pendingIds, List.mem_append, or_imp, forall_and]

lemma resolve?_stays {r : Term} (free : ∀ id ∈ t.ids, b.value? id = none)
    (resolved : b.resolve? n t = some r) : r = t := by
  have stays {t : Term} (free : ∀ id ∈ t.ids, b.value? id = none) : b.walk t = t :=
    Image.walk_stays fun name v eq => free v (by simp [eq])
  refine (resolve?_induct
    (P := fun _ t r => (∀ id ∈ t.ids, b.value? id = none) → r = t)
    (Q := fun _ ts rs => (∀ t ∈ ts, ∀ id ∈ t.ids, b.value? id = none) → rs = ts)
    (fun walked _ free => walked.symm.trans (stays free)) ?_ ?_ (fun _ => rfl) ?_ n).1 resolved free
  · intro n t f args rs walked all free
    obtain rfl := (stays free).symm.trans walked
    rw [all fun a ha id hid => free id (mem_ids_compound.2 ⟨a, ha, hid⟩)]
  · intro n t x y u v walked one two free
    obtain rfl := (stays free).symm.trans walked
    rw [one fun id hid => free id (mem_ids_cell.2 (.inl hid)),
      two fun id hid => free id (mem_ids_cell.2 (.inr hid))]
  · intro n t r ts rs one all free
    obtain ⟨first, others⟩ := forall_mem_cons.1 free
    rw [one first, all others]

def Tests (v : Option Bool) (a : Action Verdict) (w : World) : Prop :=
  ∀ verdict w', a w = .ok verdict w' → w' = w ∧ ∃ holds, verdict = .ofBool holds ∧ v = some holds

lemma tests_resolved (test : Term → Term → Action Verdict) {a c : Term}
    (left : ∀ id ∈ a.ids, w.bindings.value? id = none)
    (right : ∀ id ∈ c.ids, w.bindings.value? id = none) (tests : Tests v (test a c) w) :
    Tests v (do test (← resolve n a) (← resolve n c)) w := by
  intro verdict w' ok
  simp only [bind_apply, resolve] at ok
  cases first : w.bindings.resolve? n a with
  | none =>
    rw [first] at ok
    cases ok
  | some a' =>
    cases second : w.bindings.resolve? n c with
    | none =>
      rw [first] at ok
      simp only [second] at ok
      cases ok
    | some c' =>
      rw [first] at ok
      simp only [second] at ok
      rw [resolve?_stays left first, resolve?_stays right second] at ok
      exact tests verdict w' ok

lemma tests_ofBool (holds : Bool) : Tests (some holds) (pure (.ofBool holds)) w := by
  intro verdict w' ok
  cases ok
  exact ⟨rfl, holds, rfl, rfl⟩

lemma tests_raising (r : Except ExecutionError Bool) :
    Tests r.toOption (do return .ofBool (← raising r)) w := by
  cases r with
  | ok holds => exact tests_ofBool holds
  | error e =>
    intro verdict w' ok
    cases ok

def proceed (barrier : Nat) (verdict : Verdict) (m : Machine) : Machine.Step :=
  match verdict with
  | .succeed => .go m
  | .fail => .fail m
  | .solve t => .go (m.push (.call t barrier))

lemma leads_act {a : Action Verdict}
    (ok : ∀ verdict w', a w = .ok verdict w' → Leads ops v (proceed barrier verdict ⟨w', goals, cs⟩)) :
    Leads ops v (act ⟨w, goals, cs⟩ a (proceed barrier)) := by
  simp only [act]
  cases ran : a w with
  | error e w' => exact .halt
  | ok verdict w' => exact ok verdict w' ran

structure Plain (t : Term) : Prop where
  nonvar : t.isVar = false
  unmarked : t.unmarked = t
  uncut : t.isAtom "!" = false
  branchless : ∀ m right barrier,
    disjunction m t right barrier = m.eitherOf t right barrier

lemma plain_atom {a : String} (h : a ≠ "!") : Plain (.atom a) where
  nonvar := rfl
  unmarked := rfl
  uncut := decide_eq_false h
  branchless _ _ _ := rfl

lemma plain_compound {args : List Term} (h : f ≠ markFunctor ∧ f ≠ "->" ∧ f ≠ "*->") :
    Plain (.compound f args) where
  nonvar := rfl
  unmarked := by
    rw [unmarked, Image.marked?_eq_none]
    intro eq
    exact h.1 (Functor.mk.inj (Option.some.inj eq)).1
  uncut := rfl
  branchless m right barrier := by
    unfold Machine.disjunction
    split
    · next eq =>
      cases eq
      rw [if_neg h.2.1, if_neg h.2.2]
    · rfl

lemma comparison_call (h : (f, c) ∈ Comparison.table) (x y : Term) :
    Plain (.compound f [x, y]) ∧ ∃ b, lookup? ⟨f, 2⟩ = some b ∧ ∀ n m barrier,
      callBuiltin n m b (.compound f [x, y]) barrier =
        m.act (runComparison n c x y) (proceed barrier) := by
  simp only [Comparison.table, mem_cons, Prod.mk.injEq, not_mem_nil, or_false] at h
  rcases h with ⟨rfl, rfl⟩ | ⟨rfl, rfl⟩ | ⟨rfl, rfl⟩ | ⟨rfl, rfl⟩ | ⟨rfl, rfl⟩ | ⟨rfl, rfl⟩
  all_goals exact ⟨plain_compound (by decide), _, rfl, fun _ _ _ => rfl⟩

lemma Weighs.plain (h : Weighs ops t v) : Plain t := by
  cases h with
  | succeed => exact plain_atom (by decide)
  | fail h =>
    simp only [mem_cons, not_mem_nil, or_false] at h
    rcases h with rfl | rfl <;> exact plain_atom (by decide)
  | comparison h x y => exact (comparison_call h x y).1
  | _ => exact plain_compound (by decide)

lemma Plain.call (h : Plain t) (f : Functor) (builtin : Builtin) (functor : t.functor? = some f)
    (found : lookup? f = some builtin) (p : Program) (n : Nat) (m : Machine)
    (barrier : Nat) : call p n m t barrier = callBuiltin n m builtin t barrier := by
  simp only [Machine.call, Search.Image.walk_of_nonvar h.nonvar, h.unmarked, h.uncut, functor,
    found, Bool.false_eq_true, if_false]

lemma Going.test {a : Action Verdict}
    (h : Going ops ⟨w, .call t barrier :: goals, cs⟩ (.call v :: s) css) (tests : Tests v a w) :
    Leads ops (outcome (.call v :: s) css)
      (act ⟨w, goals, cs⟩ a (proceed barrier)) := by
  obtain ⟨poised, free, _ | ⟨weighs, apart, rest⟩⟩ := h
  refine leads_act fun verdict w' ran => ?_
  obtain ⟨rfl, holds, rfl, rfl⟩ := tests verdict w' ran
  cases holds with
  | true =>
    refine .go ⟨poised, (free_call.1 free).2, rest⟩ (.inl ?_)
    rw [outcome]
  | false => exact .fail poised (outcome_fail s css).symm

lemma Going.conjunction
    (h : Going ops ⟨w, .call (.compound "," [x, y]) barrier :: goals, cs⟩ (.call (both u v) :: s) css)
    (left : Weighs ops x u) (right : Weighs ops y v) (between : x.ids.Disjoint y.ids) :
    Leads ops (outcome (.call (both u v) :: s) css)
      (.go ⟨w, .call x barrier :: .call y barrier :: goals, cs⟩) := by
  obtain ⟨poised, free, _ | ⟨weighs, apart, rest⟩⟩ := h
  rw [ids_pair, disjoint_append_left] at apart
  rw [free_call, Term.ids_pair, List.forall_mem_append] at free
  refine .go ⟨poised, free_call.2 ⟨free.1.1, free_call.2 ⟨free.1.2, free.2⟩⟩,
    .call left ?_ (.call right apart.2 rest)⟩ (.inl (outcome_conjunction u v s css))
  exact disjoint_append_right.2 ⟨between, apart.1⟩

lemma Poised.push (barrier : Nat) (h : Poised ops w cs css)
    (free : Free w.bindings (.call y barrier :: goals))
    (stakes : Stakes ops cs.size (.call y barrier :: goals) s) :
    let pushed := cs.push ⟨w.bindings.mark, goals, .goal y barrier⟩
    Poised ops w pushed (s :: css) ∧ cs.size ≤ pushed.size :=
  ⟨⟨h.operators, h.sound, .push h.sound h.sound.later free stakes h.backed⟩, by simp⟩

lemma Going.disjunction
    (h : Going ops ⟨w, .call (.compound ";" [x, y]) barrier :: goals, cs⟩ (.call (either u v) :: s) css)
    (left : Weighs ops x u) (right : Weighs ops y v) :
    Leads ops (outcome (.call (either u v) :: s) css)
      (.go (Machine.eitherOf ⟨w, goals, cs⟩ x y barrier)) := by
  obtain ⟨poised, free, _ | ⟨weighs, apart, rest⟩⟩ := h
  rw [ids_pair, disjoint_append_left] at apart
  rw [free_call, Term.ids_pair, List.forall_mem_append] at free
  obtain ⟨pushed, higher⟩ :=
    poised.push barrier (free_call.2 ⟨free.1.2, free.2⟩) (.call right apart.2 rest)
  refine .go ⟨pushed, free_call.2 ⟨free.1.1, free.2⟩, .call left apart.1 (rest.above higher)⟩
    (outcome_disjunction ?_ u v)
  rw [poised.backed.size]
  exact rest.cutsBelow

lemma Going.negation
    (h : Going ops ⟨w, .call (.compound "\\+" [x]) barrier :: goals, cs⟩ (.call (v.map (!·)) :: s)
      css) (inner : Weighs ops x v) :
    Leads ops (outcome (.call (v.map (!·)) :: s) css)
      (.go (ifThenElse ⟨w, goals, cs⟩ x (.atom "fail") (some (.atom "true")) barrier)) := by
  obtain ⟨poised, free, _ | ⟨weighs, apart, rest⟩⟩ := h
  rw [ids_single] at apart
  rw [free_call, ids_single] at free
  obtain ⟨pushed, higher⟩ :=
    poised.push barrier (free_call.2 ⟨by simp, free.2⟩) (.call .succeed (by simp) rest)
  have same := outcome_negation v s css
  rw [poised.backed.size] at same
  exact .go ⟨pushed, free_call.2 ⟨free.1, free.2⟩,
    .call inner apart (.cutTo higher (.call (.fail (by simp)) (by simp) rest))⟩ (.inl same)

lemma unify_atomic (n : Nat) (free : ∀ id ∈ x.ids, b.value? id = none) (atomic : y.isAtomic = true)
    (unified : b.unify n x y = (some holds, b')) :
    holds = (x.isVar || x.same y) ∧ (b' = b ∨ ∃ id ∈ x.ids, b' = b.bind id y) := by
  have stays : b.walk x = x := Image.walk_stays fun name v eq => free v (by simp [eq])
  have fixed : b.walk y = y := Image.walk_of_nonvar (by cases y <;> trivial)
  have settled {k : Nat} {c : Bindings} (h : unifyPairs k [] c = (some holds, b')) :
      holds = true ∧ b' = c := by
    cases k <;> cases h
    exact ⟨rfl, rfl⟩
  cases n with
  | zero => cases unified
  | succ n =>
    have tested {P : Prop} [Decidable P]
        (h : (if P then unifyPairs n [] b else (some false, b)) = (some holds, b')) :
        holds = decide P ∧ b' = b := by
      by_cases met : P
      · obtain ⟨rfl, rfl⟩ := settled ((if_pos met).symm.trans h)
        exact ⟨(decide_eq_true met).symm, rfl⟩
      · cases (if_neg met).symm.trans h
        exact ⟨(decide_eq_false met).symm, rfl⟩
    simp only [Bindings.unify, Bindings.unifyPairs, stays, fixed] at unified
    cases x with
    | var name id =>
      have bound : unifyPairs n [] (b.bind id y) = (some holds, b') := by
        cases y <;> trivial
      obtain ⟨rfl, rfl⟩ := settled bound
      exact ⟨rfl, .inr ⟨id, by simp, rfl⟩⟩
    | atom a =>
      cases y with
      | atom c =>
        obtain ⟨rfl, rfl⟩ := tested unified
        exact ⟨rfl, .inl rfl⟩
      | number => cases unified; exact ⟨rfl, .inl rfl⟩
      | _ => cases atomic
    | number m =>
      cases y with
      | number k =>
        obtain ⟨rfl, rfl⟩ := tested unified
        exact ⟨Bool.decide_eq_true, .inl rfl⟩
      | atom => cases unified; exact ⟨rfl, .inl rfl⟩
      | _ => cases atomic
    | compound | cell => cases y <;> cases atomic <;> cases unified <;> exact ⟨rfl, .inl rfl⟩

lemma Going.equation
    (h : Going ops ⟨w, .call (equation x y) barrier :: goals, cs⟩
      (.call (some (x.isVar || x.same y)) :: s) css)
    (atomic : y.isAtomic = true) :
    Leads ops (outcome (.call (some (x.isVar || x.same y)) :: s) css)
      (act ⟨w, goals, cs⟩ (unify.run n [x, y]) (proceed barrier)) := by
  obtain ⟨poised, free, _ | ⟨weighs, apart, rest⟩⟩ := h
  refine leads_act fun verdict w' ran => ?_
  have inside {id : Nat} (h : id ∈ x.ids) : id ∈ (Builtin.equation x y).ids :=
    Term.mem_ids_compound.2 ⟨x, by simp, h⟩
  rw [free_call] at free
  change (Action.unify n x y >>= fun holds => pure (Verdict.ofBool holds)) w = _ at ran
  rw [bind_apply, Action.unify, Action.fueled_onBindings] at ran
  rcases unified : w.bindings.unify n x y with ⟨_ | holds, b'⟩
  · rw [unified] at ran
    cases ran
  · rw [unified] at ran
    cases ran
    obtain ⟨rfl, store⟩ := unify_atomic n (fun id hid => free.1 id (inside hid)) atomic unified
    have later : w.bindings.Later b' := by
      rcases store with rfl | ⟨id, hid, rfl⟩
      · exact poised.sound.later
      · refine poised.sound.bind (free.1 id (inside hid)) fun name v eq => ?_
        rw [eq] at atomic
        cases atomic
    have still : Free b' goals := by
      rcases store with rfl | ⟨id, hid, rfl⟩
      · exact free.2
      · intro v hv
        rw [value?_bind, if_neg]
        · exact free.2 v hv
        · rintro rfl
          exact apart (inside hid) hv
    have poised' : Poised ops ⟨b', w.operators, w.output⟩ cs css :=
      ⟨poised.operators, later.sound, poised.backed.later later⟩
    cases x.isVar || x.same y with
    | true =>
      refine .go ⟨poised', still, rest⟩ (.inl ?_)
      rw [outcome]
    | false => exact .fail poised' (outcome_fail s css).symm

lemma same_atom (t : Term) (a : String) : t.same (.atom a) = t.isAtom a := by
  cases t <;> simp [same, isAtom]

lemma ids_equation (x : Term) (atomic : y.isAtomic = true) :
    (equation x y).ids = x.ids := by
  cases y with
  | atom | number => simp [equation, ids_compound]
  | _ => cases atomic

def fitting (p t n : Term) (op : Operator) : Term :=
  .conjoin [equation p (.int (ofNat op.priority)),
    equation t (.atom op.type.text), equation n (.atom op.name)]

lemma ids_fitting (p t n : Term) (op : Operator) :
    (fitting p t n op).ids = p.ids ++ (t.ids ++ n.ids) := by
  have number : (int (ofNat op.priority)).isAtomic = true := rfl
  have atom (a : String) : (atom a).isAtomic = true := rfl
  simp [fitting, conjoin, ids_compound, ids_equation _ number, ids_equation _ (atom _)]

lemma weighs_fitting {p n : Term} (once : (p.ids ++ t.ids ++ n.ids).Nodup) (op : Operator) :
    Weighs ops (fitting p t n op)
      (some ((p.isVar || p.same (.int (ofNat op.priority))) &&
        (t.isVar || t.isAtom op.type.text) && (n.isVar || n.isAtom op.name))) := by
  rw [List.append_assoc] at once
  obtain ⟨-, rest, apart⟩ := nodup_append'.1 once
  obtain ⟨-, -, apart'⟩ := nodup_append'.1 rest
  have atom (a : String) : (atom a).isAtomic = true := rfl
  have number : (int (ofNat op.priority)).isAtomic = true := rfl
  have others : Weighs ops _ _ := .conjunction (.equation t (atom op.type.text))
    (.equation n (atom op.name)) (by rwa [ids_equation _ (atom _), ids_equation _ (atom _)])
  have all : Weighs ops _ _ := .conjunction (.equation p number) others
    (by simpa [ids_compound, ids_equation _ (atom _), ids_equation _ number] using apart)
  rw [same_atom, same_atom, both_some, both_some, ← Bool.and_assoc] at all
  exact all

section Alternatives

variable {α : Type} {goal : α → Term}

lemma weighs_anyOf {value : α → Bool} (x : α) (xs : List α)
    (each : ∀ y, Weighs ops (goal y) (some (value y))) :
    Weighs ops (anyOf.go (goal x) (xs.map goal)) (some ((x :: xs).any value)) := by
  induction xs generalizing x with
  | nil => simpa [anyOf.go] using each x
  | cons y ys ih =>
    have all := Weighs.disjunction (each x) (ih y)
    rw [either_some, ← any_cons] at all
    exact all

lemma mem_ids_anyOf {id : Nat} (x : α) (xs : List α)
    (h : id ∈ (anyOf.go (goal x) (xs.map goal)).ids) : ∃ y, id ∈ (goal y).ids := by
  induction xs generalizing x with
  | nil => exact ⟨x, h⟩
  | cons y ys ih =>
    simp only [map_cons, anyOf.go, mem_ids_compound, mem_cons,
      not_mem_nil, or_false, exists_eq_or_imp, exists_eq_left] at h
    exact h.elim (fun h => ⟨x, h⟩) (ih y)

end Alternatives

lemma Going.currentOp {p n : Term} (k : Nat)
    (h : Going ops ⟨w, .call (.compound "current_op" [p, t, n]) barrier :: goals, cs⟩
      (.call (some (hasOperator ops p t n)) :: s) css) (once : (p.ids ++ t.ids ++ n.ids).Nodup) :
    Leads ops (outcome (.call (some (hasOperator ops p t n)) :: s) css)
      (Machine.act ⟨w, goals, cs⟩ (Builtin.currentOp.run k [p, t, n]) (proceed barrier)) := by
  obtain ⟨poised, free, _ | ⟨weighs, apart, rest⟩⟩ := h
  refine leads_act fun verdict w' ran => ?_
  have found : Builtin.currentOp.run k [p, t, n] w =
      .ok (.anyOf (w.operators.operators.map (fitting p t n))) w := rfl
  rw [found, poised.operators] at ran
  cases ran
  unfold hasOperator
  cases listed : ops.operators with
  | nil => exact .fail poised (outcome_fail s css).symm
  | cons op others =>
    have same {id : Nat} (h : id ∈ (anyOf.go (fitting p t n op)
        (others.map (fitting p t n))).ids) : id ∈ (compound "current_op" [p, t, n]).ids := by
      obtain ⟨op', h⟩ := mem_ids_anyOf op others h
      rw [ids_fitting] at h
      simpa [ids_compound] using h
    rw [free_call] at free
    exact .go ⟨poised, free_call.2 ⟨fun id hid => free.1 id (same hid), free.2⟩,
      .call (weighs_anyOf op others (weighs_fitting once)) (fun id hid => apart (same hid)) rest⟩
      (.inl rfl)

lemma Going.call (p : Program) (n : Nat) (h : Going ops ⟨w, .call t barrier :: goals, cs⟩ s css) :
    Leads ops (outcome s css) (call p n ⟨w, goals, cs⟩ t barrier) := by
  obtain ⟨poised, free, _ | ⟨weighs, apart, rest⟩⟩ := id h
  have plain := weighs.plain
  rw [free_call] at free
  -- A variable of an argument is a variable of the goal.
  have unbound {f : String} {args : List Term} (eq : t = .compound f args) :
      ∀ a ∈ args, ∀ id ∈ a.ids, w.bindings.value? id = none := by
    intro a ha id hid
    rw [eq] at free
    exact free.1 id (mem_ids_compound.2 ⟨a, ha, hid⟩)
  cases weighs with
  | succeed =>
    rw [plain.call ⟨"true", 0⟩ .succeed rfl (by decide)]
    exact h.test (tests_ofBool true)
  | fail name =>
    simp only [mem_cons, not_mem_nil, or_false] at name
    rcases name with rfl | rfl
    · rw [plain.call ⟨"false", 0⟩ .falsity rfl (by decide)]
      exact h.test (tests_ofBool false)
    · rw [plain.call ⟨"fail", 0⟩ .fail rfl (by decide)]
      exact h.test (tests_ofBool false)
  | negation inner =>
    rw [plain.call ⟨"\\+", 1⟩ .negation rfl (by decide)]
    exact h.negation inner
  | conjunction left right between =>
    rw [plain.call ⟨",", 2⟩ .conjunction rfl (by decide)]
    exact h.conjunction left right between
  | @disjunction x y u v left right =>
    rw [plain.call ⟨";", 2⟩ .disjunction rfl (by decide)]
    have taken : callBuiltin n ⟨w, goals, cs⟩ .disjunction (.compound ";" [x, y]) barrier =
        .go (eitherOf ⟨w, goals, cs⟩ x y barrier) := by
      change Machine.Step.go (Machine.disjunction _ (w.bindings.walk x).unmarked y barrier) = _
      rw [Image.walk_of_nonvar left.plain.nonvar, left.plain.unmarked, left.plain.branchless]
    rw [taken]
    exact h.disjunction left right
  | identical x y =>
    rw [plain.call ⟨"==", 2⟩ .identical rfl (by decide)]
    exact h.test (tests_resolved (fun x y => pure (.ofBool (x.same y)))
      (unbound rfl x (by simp)) (unbound rfl y (by simp)) (tests_ofBool _))
  | distinct x y =>
    rw [plain.call ⟨"\\==", 2⟩ .notIdentical rfl (by decide)]
    exact h.test (tests_resolved (fun x y => pure (.ofBool (!x.same y)))
      (unbound rfl x (by simp)) (unbound rfl y (by simp)) (tests_ofBool _))
  | @comparison f c named x y =>
    obtain ⟨-, builtin, found, run⟩ := comparison_call named x y
    rw [plain.call _ builtin rfl found, run]
    exact h.test (tests_resolved (fun x y => do return .ofBool (← raising (c.test x y)))
      (unbound rfl x (by simp)) (unbound rfl y (by simp)) (tests_raising _))
  | equation x atomic =>
    rw [plain.call ⟨"=", 2⟩ .unify rfl (by decide)]
    exact h.equation atomic
  | currentOp once =>
    rw [plain.call ⟨"current_op", 3⟩ .currentOp rfl (by decide)]
    exact h.currentOp n once

lemma Going.advance {m : Machine} (p : Program) (n : Nat) (h : Going ops m s css) :
    Leads ops (outcome s css) (advance p n m) := by
  obtain ⟨w, goals, cs⟩ := m
  obtain ⟨poised, free, stakes⟩ := id h
  cases stakes with
  | nil => exact .solution (by rw [outcome])
  | call weighs apart rest => exact h.call p n
  | @cutTo _ height goals s low rest =>
    have size : (cs.shrink height).size = height := by
      rw [size_shrink]
      exact Nat.min_eq_left low
    have left : Going ops ⟨w, goals, cs.shrink height⟩ s (css.drop (css.length - height)) :=
      ⟨⟨poised.operators, poised.sound, poised.backed.cutTo low⟩, free, by
        change Stakes ops (cs.shrink height).size goals s
        rwa [size]⟩
    exact .go left (.inl (by rw [outcome]))

lemma Poised.retry (p : Program) (n : Nat) (h : Poised ops w cs css) (goals : List Goal) :
    Leads ops (setback css) (retry p n ⟨w, goals, cs⟩) := by
  obtain ⟨operators, sound, backed⟩ := h
  cases backed with
  | nil => exact .exhausted rfl
  | @push _ b₀ t barrier kept s cs css sound₀ later free stakes rest =>
    have restored := later.undo sound₀
    have back : retry p n ⟨w, goals, cs.push ⟨b₀.mark, kept, .goal t barrier⟩⟩ =
        .go ⟨⟨w.bindings.undo b₀.mark, w.operators, w.output⟩, .call t barrier :: kept, cs⟩ := by
      simp only [retry, back?_push, pop_push]
      rfl
    rw [back]
    have later' := restored.later sound₀
    refine .go ⟨⟨operators, later'.sound, rest.later later'⟩, fun id hid => ?_, stakes⟩ (.inl rfl)
    exact (restored.value id).trans (free id hid)

def Ends (v : Option Bool) : Machine.Outcome → Prop
  | .solution _ => v = some true
  | .exhausted _ => v = some false
  | .halted _ _ => True

lemma Ends.of_none {o : Outcome} (h : Ends none o) : Ends v o := by
  cases o with
  | solution | exhausted => cases h
  | halted => trivial

lemma run_ends (p : Program) (n : Nat) :
    (∀ {m s css}, Going ops m s css → Ends (outcome s css) (run p n false m)) ∧
    (∀ {m css}, Poised ops m.world m.choices css →
      Ends (setback css) (run p n true m)) := by
  induction n with
  | zero => exact ⟨fun _ => trivial, fun _ => trivial⟩
  | succ n ih =>
    have next {failed : Bool} {m : Machine} {v : Option Bool}
        (leads : Leads ops v (step p n failed m)) :
        Ends v (run p (n + 1) failed m) := by
      unfold Machine.run
      generalize step p n failed m = step at leads
      cases leads with
      | go going same =>
        rcases same with rfl | unknown
        · exact ih.1 going
        · exact Ends.of_none (unknown ▸ ih.1 going)
      | fail poised same => exact same ▸ ih.2 poised
      | solution same | exhausted same => exact same
      | halt => trivial
    exact ⟨fun going => next (going.advance p n), fun poised => next (poised.retry p n _)⟩

lemma sound_start (count : Nat) : (Bindings.empty.reserve count).2.Sound ∧
    ∀ id, (Bindings.empty.reserve count).2.value? id = none := by
  have empty : Bindings.empty.Sound := ⟨by simp [Bindings.empty, Bindings.value?],
    by simp [Bindings.empty], by simp [Bindings.empty, Bindings.value?]⟩
  refine ⟨(empty.reserve count).sound, fun id => ?_⟩
  rw [Bindings.value?_reserve]
  simp [Bindings.empty, Bindings.value?]

end Runs

/-- A run for a condition has a solution exactly when it says that the condition holds. -/
lemma run_of_condition {goal : Term} {ops : OperatorTable} {engine : Engine} {fuel : Nat}
    {after : OperatorTable × Engine}
    (ran : (observer fuel).condition goal (ops, engine) = .ok holds after) :
    ∃ m, run engine.program fuel false (engine.machine ops goal.idBound goal) =
      if holds then .solution m else .exhausted m := by
  obtain ⟨found, s, solved, rest⟩ := ok_of_bind ran
  cases rest
  unfold watched solveOnce at solved
  cases ended : run engine.program fuel false (engine.machine ops goal.idBound goal) with
  | halted h m =>
    simp only [ended] at solved
    cases h <;> cases solved
  | exhausted m =>
    simp only [ended] at solved
    cases solved
    exact ⟨m, rfl⟩
  | solution m =>
    simp only [ended] at solved
    cases value : m.world.bindings.resolve? fuel goal with
    | none =>
      simp only [value] at solved
      cases solved
    | some t =>
      simp only [value] at solved
      cases solved
      exact ⟨m, rfl⟩

/-- A condition that a run answers, with whatever program, has the same answer without a run. -/
theorem evaluateStatic_eq_run {goal : Term} (static : Static goal) (once : goal.ids.Nodup)
    {ops : OperatorTable} {engine : Engine} {fuel : Nat} {holds : Bool}
    {after : OperatorTable × Engine}
    (ran : (Engine.observer fuel).condition goal (ops, engine) = .ok holds after) :
    evaluateStatic ops goal = .ok holds := by
  obtain ⟨sound, unbound⟩ := sound_start goal.idBound
  have start : Going ops (engine.machine ops goal.idBound goal)
      [.call (evaluateStatic ops goal).toOption] [] :=
    ⟨⟨rfl, sound, .nil⟩, fun id _ => unbound id, .call (static.weighs once) (by simp [pendingIds])
      .nil⟩
  have ends := (run_ends engine.program fuel).1 start
  have value (v : Option Bool) : outcome [.call v] [] = v := by
    rcases v with _ | _ | _ <;> simp [outcome]
  obtain ⟨m, ended⟩ := run_of_condition ran
  rw [value, ended] at ends
  have answer : (evaluateStatic ops goal).toOption = some holds := by
    cases holds <;> exact ends
  cases decided : evaluateStatic ops goal with
  | error e =>
    rw [decided] at answer
    cases answer
  | ok found =>
    rw [decided] at answer
    rw [Option.some.inj answer]

/-- A condition with a negation, a disjunction whose right side is an error, and an operator that
the run finds in its second try. -/
theorem evaluateStatic_eq_run_operators :
    let ops : OperatorTable := ⟨[], [⟨"==>", 800, .xfy⟩], []⟩
    let goal := compound "," [
      .compound "\\+" [.compound "current_op" [.var "P" 0, .atom "xfx", .atom "==>"]],
      .compound "," [.compound ";" [.compound "<" [.int 1, .int 2],
          .compound "=:=" [.int 1, .atom "a"]],
        .compound ";" [.compound "<" [.int 2, .int 1],
          .compound "current_op" [.int 800, .var "T" 1, .atom "==>"]]]]
    Static goal ∧ goal.ids.Nodup ∧
      (∃ after, (observer 60).condition goal (ops, .new .error) = .ok true after) ∧
      evaluateStatic ops goal = .ok true := by
  intro ops goal
  have static : Static goal := .conjunction (.negation (.currentOp _ _ _))
    (.conjunction (.disjunction (.comparison (c := .less) (by decide) _ _)
      (.comparison (c := .equal) (by decide) _ _))
      (.disjunction (.comparison (c := .less) (by decide) _ _) (.currentOp _ _ _)))
  have once : goal.ids.Nodup := by decide
  have answer : (match (observer 60).condition goal (ops, .new .error) with
      | .ok holds _ => some holds
      | .error _ _ => none) = some true := by decide +kernel
  have ran : ∃ after, (observer 60).condition goal (ops, .new .error) = .ok true after := by
    split at answer
    · next after ok =>
      cases answer
      exact ⟨after, ok⟩
    · cases answer
  obtain ⟨after, ok⟩ := id ran
  exact ⟨static, once, ran, evaluateStatic_eq_run static once ok⟩

end Conditional

end Horn
