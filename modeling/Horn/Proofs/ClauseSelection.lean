import Horn.Proofs.EngineAnswers
import Horn.Proofs.LinkedRuns

/-! # Passing over clauses -/

namespace Horn

open List Term Machine Bindings Option

def Program.tryingAll (p : Program) : Program := { p with selects := fun _ _ => true }

lemma Program.fair_ofDomain (domain : Domain) (unknown : Unknown) :
    (Program.ofDomain domain unknown).Fair := fun _ _ may => may

lemma Program.Fair.tryingAll {p : Program} (fair : p.Fair) : p.SameClauses p.tryingAll :=
  ⟨rfl, rfl, fair, fun _ _ _ => rfl⟩

lemma Program.SameClauses.symm {p p' : Program} (h : p.SameClauses p') : p'.SameClauses p :=
  ⟨h.domain.symm, h.unknown.symm, h.fair', h.fair⟩

def Solution.Alike (ρ : Link) (s s' : Solution) : Prop :=
  List.Forall₂ (fun a a' => a'.1 = a.1 ∧ a.2.Alike ρ a'.2) s.bindings s'.bindings

lemma Solution.Alike.mono {ρ τ : Link} {s s' : Solution} (h : s.Alike ρ s')
    (within : ρ.Within τ) : s.Alike τ s' :=
  h.imp fun _ _ alike => ⟨alike.1, alike.2.mono within⟩

inductive Halt.Alike (ρ : Link) : Option Halt → Option Halt → Prop where
  | none : Alike ρ none none
  | raised {x x' : ExecutionError} (h : x.Alike ρ x') : Alike ρ (some (.raised x)) (some (.raised x'))

namespace Engine

open Duo (Settles Placed Outcomes)

/-- The same answers, end, operators and text, up to linked variables. -/
structure AnswersAlike (ρ : Link) (r r' : List Solution × Option Halt × World) : Prop where
  solutions : List.Forall₂ (Solution.Alike ρ) r.1 r'.1
  halt : Halt.Alike ρ r.2.1 r'.2.1
  operators : r'.2.2.operators = r.2.2.operators
  output : Renamed ρ r.2.2.output r'.2.2.output

section Answers

variable {p p' : Program} {o d : Duo} {names : List (String × Term)}

lemma values?_alike (matched : d.Matched) (vars : ∀ a ∈ names, a.2.Alike d.link a.2) {n : Nat}
    {vs : List (String × Term)} (found : values? n d.left names = some vs) :
    ∃ vs', Solution.Alike d.link ⟨vs⟩ ⟨vs'⟩ ∧ ∀ k, n ≤ k → values? k d.right names = some vs' := by
  induction names generalizing vs with
  | nil =>
    cases found
    exact ⟨[], .nil, fun _ _ => rfl⟩
  | cons a names ih =>
    obtain ⟨name, v⟩ := a
    obtain ⟨var, vars⟩ := forall_mem_cons.1 vars
    obtain ⟨value, resolved, found⟩ := bind_eq_some_iff.1 found
    obtain ⟨more, rest, found⟩ := bind_eq_some_iff.1 found
    obtain ⟨value', alike, settled⟩ := matched.resolve? var resolved
    obtain ⟨more', all, settled'⟩ := ih vars rest
    have same : value'.same v = value.same v := Alike.same_eq d.ordered alike var
    have valued (k : Nat) (le : n ≤ k) : values? k d.right ((name, v) :: names) =
        some (if value.same v then more' else (name, value') :: more') := by
      rw [values?, settled k le, settled' k le]
      simp [same]
    cases found
    by_cases idle : value.same v = true
    · simp only [idle, if_true] at valued ⊢
      exact ⟨more', all, valued⟩
    · simp only [idle] at valued ⊢
      exact ⟨(name, value') :: more', .cons ⟨rfl, alike⟩ all, valued⟩

lemma answersFrom_alike (same : p.SameClauses p') {n limit : Nat} {failed : Bool} {m m' : Machine}
    (placed : Placed o d failed m m') (vars : ∀ a ∈ names, a.2.Alike d.link a.2)
    {found found' : List Solution} (alike : Forall₂ (Solution.Alike d.link) found found')
    (ended : (answersFrom p n names limit failed m found).2.1 ≠ some .outOfFuel) :
    ∃ r', Settles (fun n => answersFrom p' n names limit failed m' found') r' ∧
      ∃ e : Duo, o.Before e ∧
        AnswersAlike e.link (answersFrom p n names limit failed m found) r' := by
  induction limit generalizing d failed m m' found found' with
  | zero =>
    obtain ⟨start, worlds⟩ := placed.worlds
    exact ⟨_, Duo.settles_const _, d, start,
      rel_reverse alike, .none, worlds.operators, worlds.output⟩
  | succ limit ih =>
    rw [answersFrom] at ended ⊢
    rcases (Duo.upto same n).run placed (Nat.le_refl n) with ⟨m₁, spent⟩ | ⟨r', ⟨N, settled⟩, outcomes⟩
    · rw [spent] at ended
      exact absurd rfl ended
    have settled : ∀ k, N ≤ k → run p' k failed m' = r' := settled
    generalize run p n failed m = r at outcomes ended
    cases outcomes with
    | @exhausted e m₁ m₁' within before worlds =>
      have found := rel_reverse (alike.imp fun _ _ same => Solution.Alike.mono same within)
      refine ⟨(found'.reverse, none, m₁'.world), ⟨N, fun k le => ?_⟩, e, before,
        found, .none, worlds.operators, worlds.output⟩
      simp only [answersFrom, settled k le]
    | @raised e m₁ m₁' x x' within before worlds errors =>
      have found := rel_reverse (alike.imp fun _ _ same => Solution.Alike.mono same within)
      refine ⟨(found'.reverse, some (.raised x'), m₁'.world), ⟨N, fun k le => ?_⟩, e, before,
        found, .raised errors, worlds.operators, worlds.output⟩
      simp only [answersFrom, settled k le]
    | @solution e m₁ m₁' within going =>
      obtain ⟨S, T, ready⟩ := going
      simp only [ready.worlds.left] at ended ⊢
      cases valued : values? n e.left names with
      | none =>
        rw [valued] at ended
        exact absurd rfl ended
      | some vs =>
        rw [valued] at ended
        have vars (a : String × Term) (ha : a ∈ names) : a.2.Alike e.link a.2 :=
          (vars a ha).mono within
        obtain ⟨vs', solution, settled'⟩ := values?_alike ready.matched vars valued
        have failing : Placed o e true m₁ m₁' := ready.failing
        have all := Forall₂.cons solution
          (alike.imp fun _ _ same => Solution.Alike.mono same within)
        obtain ⟨r', settles, answers⟩ := ih failing vars all ended
        refine ⟨r', settles.after (n := max N n) fun k le => ?_, answers⟩
        rw [answersFrom, settled k (by omega)]
        simp only [ready.worlds.right, settled' k (by omega)]

end Answers

def startDuo (count : Nat) (known : Nat → Prop) : Duo where
  left := (Bindings.empty.reserve count).2
  right := (Bindings.empty.reserve count).2
  link i i' := i = i' ∧ i < count ∧ known i
  leftSound := (Search.Image.start.sound.reserve count).sound
  rightSound := (Search.Image.start.sound.reserve count).sound
  ordered := by
    rintro i _ j _ ⟨rfl, -⟩ ⟨rfl, -⟩
    rfl
  below := by
    rintro i _ ⟨rfl, lt, -⟩
    simpa [Bindings.reserve, Bindings.empty] using lt

lemma startDuo_matched (count : Nat) (known : Nat → Prop) : (startDuo count known).Matched where
  trail := .nil
  value {i i'} _ := by
    have unbound (v : Nat) : (empty.reserve count).2.value? v = none := by
      rw [value?_reserve]
      simp [empty, value?]
    change Rel _ ((empty.reserve count).2.value? i)
      ((empty.reserve count).2.value? i')
    rw [unbound, unbound]
    exact .none

lemma placed_start (e : Engine) (ops : OperatorTable) {count : Nat} {known : Nat → Prop}
    {goal : Term} (ids : ∀ v ∈ goal.ids, v < count ∧ known v) :
    Placed (startDuo count known) (startDuo count known) false (e.machine ops count goal)
      (e.machine ops count goal) :=
  ⟨[], [], ⟨rfl, rfl, rfl, .same _⟩, startDuo_matched count known, suffix_refl _,
    .call (suffix_refl _) (alike_self fun v hv => ⟨rfl, ids v hv⟩) .nil, .nil (.refl _)⟩

def answersBy (p : Program) (e : Engine) (ops : OperatorTable) (q : CompiledQuery)
    (limit fuel : Nat) : List Solution × Option Halt × World :=
  answersFrom p fuel (shownNames q.names) limit false (e.machine ops (roomFor q) q.goal) []

/-- Where the one search comes to an end, the other does with enough fuel, and they tell the same. The
numbers of variables may differ, but for the first `count`, and are in the same order. -/
def SameAnswers (count : Nat) (x y : Nat → List Solution × Option Halt × World) : Prop :=
  ∀ n, (x n).2.1 ≠ some .outOfFuel →
    ∃ r N, (∀ k, N ≤ k → y k = r) ∧
      ∃ ρ : Link, ρ.Ordered ∧ (∀ v < count, ρ v v) ∧ AnswersAlike ρ (x n) r

lemma sameAnswers_of_sameClauses {p p' : Program} (same : p.SameClauses p') (e : Engine)
    (ops : OperatorTable) {q : CompiledQuery}
    (vars : ∀ a ∈ shownNames q.names, ∃ name, ∃ v < roomFor q, a.2 = .var name v) (limit : Nat) :
    SameAnswers (roomFor q) (answersBy p e ops q limit) (answersBy p' e ops q limit) := by
  intro n ended
  let o := startDuo (roomFor q) fun _ => True
  have ids (v : Nat) (hv : v ∈ q.goal.ids) : v < roomFor q ∧ True :=
    ⟨Nat.lt_of_lt_of_le (lt_idBound hv) (Nat.le_max_left _ _), trivial⟩
  have names (a : String × Term) (ha : a ∈ shownNames q.names) : a.2.Alike o.link a.2 := by
    obtain ⟨name, v, lt, eq⟩ := vars a ha
    refine alike_self fun w hw => ?_
    rw [eq, mem_ids_var] at hw
    exact ⟨rfl, hw ▸ lt, trivial⟩
  obtain ⟨r, ⟨N, settled⟩, d, before, alike⟩ :=
    answersFrom_alike same (placed_start e ops ids) names .nil ended
  exact ⟨r, N, settled, d.link, d.ordered, fun v lt => before.kept ⟨rfl, lt, trivial⟩, alike⟩

/-- The engine, which passes over clauses, and one that tries every clause give the same answers to a
query, write the same and end with the same error, and where one comes to an end so does the other. -/
theorem clause_selection_transparent (e : Engine) (ops : OperatorTable) {q : CompiledQuery}
    (query : e.query = some q)
    (vars : ∀ a ∈ shownNames q.names, ∃ name, ∃ v < roomFor q, a.2 = .var name v) (limit : Nat) :
    (∀ fuel, answers fuel limit (ops, e) =
      match answersBy e.program e ops q limit fuel with
      | (found, halt, w) => .ok (found, halt) (e.after w)) ∧
    SameAnswers (roomFor q) (answersBy e.program e ops q limit)
      (answersBy e.program.tryingAll e ops q limit) ∧
    SameAnswers (roomFor q) (answersBy e.program.tryingAll e ops q limit)
      (answersBy e.program e ops q limit) := by
  have same : e.program.SameClauses e.program.tryingAll :=
    (Program.fair_ofDomain e.domain e.unknown).tryingAll
  refine ⟨fun fuel => ?_, sameAnswers_of_sameClauses same e ops vars limit,
    sameAnswers_of_sameClauses same.symm e ops vars limit⟩
  simp only [answers, query]
  rfl

/-- With `r(a, 1)`, `r(b, 2) :- !` and `r(a, 3)`, the query `r(a, X) *-> \+ r(c, X) ; X = 0` has two
answers, for the engine and for one that tries the second clause too. -/
theorem clause_selection_transparent_example :
    let x : Term := .var "X" 0
    let compiled (head : Term) (body : List Term) : CompiledClause :=
      ⟨⟨"r", 2⟩, ⟨0⟩, Clause.mark ⟨some head, body, .rule, ⟨1, 1⟩⟩, [], 0, []⟩
    let r : Predicate := ⟨⟨"r", 2⟩, [compiled (.compound "r" [.atom "a", .int 1]) [],
      compiled (.compound "r" [.atom "b", .int 2]) [.atom "!"],
      compiled (.compound "r" [.atom "a", .int 3]) []], false⟩
    let goal : Term := .compound ";" [.compound "*->" [.compound "r" [.atom "a", x],
      .compound "\\+" [.compound "r" [.atom "c", x]]], .compound "=" [x, .int 0]]
    let q : CompiledQuery := ⟨Clause.mark ⟨none, [goal], .query, ⟨1, 1⟩⟩, [("X", x)], [], 0⟩
    let e : Engine := ⟨.ofPredicates [r], .error, some q, ""⟩
    (answersBy e.program e .standard q 3 30).1 = [⟨[("X", .int 1)]⟩, ⟨[("X", .int 3)]⟩] ∧
      ∃ r N, (∀ k, N ≤ k → answersBy e.program.tryingAll e .standard q 3 k = r) ∧
        ∃ ρ : Link, ρ.Ordered ∧ (∀ v < roomFor q, ρ v v) ∧
          AnswersAlike ρ (answersBy e.program e .standard q 3 30) r := by
  intro x compiled r goal q e
  have vars : ∀ a ∈ shownNames q.names, ∃ name, ∃ v < roomFor q, a.2 = .var name v := by
    intro a ha
    obtain rfl : a = ("X", x) := mem_singleton.1 ha
    exact ⟨"X", 0, by decide, rfl⟩
  have result : ((answersBy e.program e .standard q 3 30).1,
      (answersBy e.program e .standard q 3 30).2.1) =
        ([⟨[("X", .int 1)]⟩, ⟨[("X", .int 3)]⟩], none) := by decide +kernel
  obtain ⟨found, ended⟩ := Prod.mk.inj result
  refine ⟨found, ?_⟩
  exact (clause_selection_transparent e .standard rfl vars 3).2.1 30 (by rw [ended]; rintro ⟨⟩)

/-- With `p(a) :- q(_)`, `p(b)` and `s :- write(_)`, the query `p(b), s` writes the number of a new
variable. It is another one if the first clause is tried. -/
theorem clause_selection_renumbers :
    let v : Term := .var "_" 0
    let compiled (f : Functor) (head : Term) (body : List Term) : CompiledClause :=
      ⟨f, ⟨0⟩, ⟨some head, body, .rule, ⟨1, 1⟩⟩, [], 0, []⟩
    let p : Predicate := ⟨⟨"p", 1⟩,
      [compiled ⟨"p", 1⟩ (.compound "p" [.atom "a"]) [.compound "q" [v]],
        compiled ⟨"p", 1⟩ (.compound "p" [.atom "b"]) []], false⟩
    let s : Predicate := ⟨⟨"s", 0⟩, [compiled ⟨"s", 0⟩ (.atom "s") [.compound "write" [v]]], false⟩
    let goal : Term := .compound "," [.compound "p" [.atom "b"], .atom "s"]
    let q : CompiledQuery := ⟨⟨none, [goal], .query, ⟨1, 1⟩⟩, [], [], 0⟩
    let e : Engine := ⟨.ofPredicates [p, s], .error, some q, ""⟩
    (answersBy e.program e .standard q 1 20).2.2.output = "_G0" ∧
      (answersBy e.program.tryingAll e .standard q 1 20).2.2.output = "_G1" := by
  intro v compiled p s goal q e
  constructor
  · decide +kernel
  · decide +kernel

end Engine

end Horn
