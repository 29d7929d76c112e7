import Horn.Proofs.EngineAnswers

/-! # Answers without variables -/

namespace Horn

open List Term Subst Bindings Builtin

variable {f : String} {args : List Term} {h : Term} {place : Nat → Nat}

def Term.Ground (t : Term) : Prop := t.ids = []

instance (t : Term) : Decidable t.Ground := inferInstanceAs (Decidable (t.ids = []))

namespace Term.Ground

variable {t : Term}

lemma isVar (h : t.Ground) : t.isVar = false := by
  cases t with
  | var name id => cases h
  | _ => rfl

lemma notMem (h : t.Ground) (v : Nat) : v ∉ t.ids := by
  rw [h]
  exact not_mem_nil

lemma compound : (compound f args).Ground ↔ ∀ a ∈ args, a.Ground := by
  simp only [Ground, eq_nil_iff_forall_not_mem, mem_ids_compound]
  grind

lemma cell : (cell h t).Ground ↔ h.Ground ∧ t.Ground := by
  simp only [Ground, eq_nil_iff_forall_not_mem, mem_ids_cell]
  grind

lemma list {ts : List Term} : (list ts).Ground ↔ ∀ t ∈ ts, t.Ground := by
  induction ts with
  | nil => exact ⟨nofun, fun _ => rfl⟩
  | cons t ts ih =>
    change (Term.cell t (Term.list ts)).Ground ↔ _
    rw [cell, ih, forall_mem_cons]

lemma apply (h : t.Ground) (σ : Subst) : σ.apply t = t := by
  induction t using induct with
  | atom | number => rfl
  | var name id => cases h
  | compound f args ih =>
    have each := compound.1 h
    have same : args.map σ.apply = args := by
      conv => rhs; rw [← map_id args]
      exact map_congr_left fun a ha => ih a ha (each a ha)
    rw [apply_compound, same]
  | cell x y ihx ihy =>
    have ⟨hx, hy⟩ := cell.1 h
    rw [apply_cell, ihx hx, ihy hy]

/-- Moving variables does not change a ground term. -/
lemma eq_of_moved (h : t.Ground) {u : Term} (moved : Search.Moved place u t) : u = t := by
  have value : free.apply u = t := moved.trans (h.apply _)
  have ground : u.Ground := by
    rw [Ground, eq_nil_iff_forall_not_mem]
    intro v hv
    rw [← mem_ids_free, value] at hv
    exact h.notMem v hv
  rw [← ground.apply free, value]

end Term.Ground

namespace Search

open Subst (free unify?)

namespace Answers

/-- These answers, and then the search fails. -/
def ofList : List State → Answers
  | [] => .failed
  | s :: rest => .answer s fun _ => ofList rest

lemma toList?_ofList (states : List State) : (ofList states).toList? = some states := by
  induction states with
  | nil => rfl
  | cons s rest ih => rw [ofList, toList?, ih, Option.map_some]

lemma append_ofList (states more : List State) :
    ((ofList states).append fun _ => ofList more) = ofList (states ++ more) := by
  induction states with
  | nil => rfl
  | cons s rest ih => rw [ofList, append, ih, cons_append, ofList]

lemma enclose_ofList (states : List State) : (ofList states).enclose = ofList states := by
  induction states with
  | nil => rfl
  | cons s rest ih => rw [ofList, enclose, ih]

lemma bind_one (a : Answers) : a.bind one = a := by
  induction a with
  | stuck | failed | cut => rfl
  | answer s rest ih =>
    have later : (fun _ : Unit => (rest ()).bind one) = rest := funext fun _ => ih ()
    rw [bind, later]
    rfl

lemma append_failed (a : Answers) : (a.append fun _ => failed) = a := by
  induction a with
  | stuck | failed | cut => rfl
  | answer s rest ih => rw [append, funext fun _ => ih ()]

lemma one_bind (s : State) (k : State → Answers) : (one s).bind k = k s := append_failed (k s)

end Answers

open Answers (ofList)

lemma bare_of_top {goal : Term} (top : bareTop goal = .compound f args)
    (plain : isControl ⟨f, args.length⟩ = false) : bare goal = .compound f args := by
  rw [bare]
  split
  · next f' args' eq =>
    cases top.symm.trans eq
    rw [if_neg (by rw [plain]; exact Bool.false_ne_true)]
  · next other => exact absurd top (other _ _)

lemma bare_user (user : lookup? ⟨f, args.length⟩ = none) (unmarked : f ≠ markFunctor) :
    bare (.compound f args) = .compound f args := by
  refine bare_of_top ?_ (by rw [isControl, user]; rfl)
  have none : (compound f args).marked? = none := Image.marked?_eq_none fun eq =>
    unmarked (congrArg Functor.name (Option.some.inj eq))
  rw [bareTop, Term.unmarked, none]
  rfl

section Unification

variable {σ : Subst} {s t u : Term} {x y : Nat} {rest qs : List (Term × Term)} {r : Option Subst}

/-- With enough fuel the unification ends with `r`. -/
def Unifies (σ : Subst) (ps : List (Term × Term)) (r : Option Subst) : Prop :=
  ∃ N, ∀ n, N ≤ n → unify? n ps σ = some r

namespace Unifies

lemma nil (σ : Subst) : Unifies σ [] (some σ) := by
  refine ⟨1, fun n le => ?_⟩
  obtain ⟨n, rfl⟩ := Nat.exists_eq_add_of_le' le
  rfl

lemma of_step {τ : Subst} (step : ∀ n, unify? (n + 1) ((s, t) :: rest) σ = unify? n qs τ)
    (h : Unifies τ qs r) : Unifies σ ((s, t) :: rest) r := by
  obtain ⟨N, run⟩ := h
  refine ⟨N + 1, fun n le => ?_⟩
  obtain ⟨n, rfl⟩ := Nat.exists_eq_add_of_le' (Nat.le_trans (Nat.le_add_left 1 N) le)
  rw [step, run n (Nat.le_of_succ_le_succ le)]

lemma assign_left (left : σ.apply s = free x) (right : σ.apply t = u) (nonvar : u.isVar = false)
    (acyclic : x ∉ u.ids) (h : Unifies (σ.assign x u) rest r) : Unifies σ ((s, t) :: rest) r := by
  refine of_step (fun n => ?_) h
  rw [unify?, left, right]
  cases u with
  | var name y => cases nonvar
  | _ => exact if_neg acyclic

lemma assign_right (left : σ.apply s = u) (right : σ.apply t = free y) (nonvar : u.isVar = false)
    (acyclic : y ∉ u.ids) (h : Unifies (σ.assign y u) rest r) : Unifies σ ((s, t) :: rest) r := by
  refine of_step (fun n => ?_) h
  rw [unify?, left, right]
  cases u with
  | var name y => cases nonvar
  | _ => exact if_neg acyclic

lemma vars (left : σ.apply s = free x) (right : σ.apply t = free y) (ne : x ≠ y)
    (h : Unifies (σ.assign x (free y)) rest r) : Unifies σ ((s, t) :: rest) r := by
  refine of_step (fun n => ?_) h
  rw [unify?, left, right]
  change unify? n rest (if x = y then σ else σ.assign x (free y)) = _
  rw [if_neg ne]

lemma atom {a : String} (left : σ.apply s = .atom a) (right : σ.apply t = .atom a)
    (h : Unifies σ rest r) : Unifies σ ((s, t) :: rest) r := by
  refine of_step (fun n => ?_) h
  rw [unify?, left, right]
  exact if_pos rfl

lemma cell {h' l l' : Term} (left : σ.apply s = .cell h l) (right : σ.apply t = .cell h' l')
    (parts : Unifies σ ((h, h') :: (l, l') :: rest) r) : Unifies σ ((s, t) :: rest) r :=
  of_step (fun n => by rw [unify?, left, right]) parts

lemma compound {ss ts : List Term} (length : ss.length = ts.length)
    (h : Unifies σ ((ss.map σ.apply).zip (ts.map σ.apply) ++ rest) r) :
    Unifies σ ((.compound f ss, .compound f ts) :: rest) r := by
  refine of_step (fun n => ?_) h
  rw [unify?, apply_compound, apply_compound]
  exact if_pos ⟨rfl, by rw [length_map, length_map, length]⟩

lemma clash {a : String} {l : Term}
    (apart : σ.apply s = .atom a ∧ σ.apply t = .cell h l ∨ σ.apply s = .cell h l ∧ σ.apply t = .atom a) :
    Unifies σ ((s, t) :: rest) none := by
  refine ⟨1, fun n le => ?_⟩
  obtain ⟨n, rfl⟩ := Nat.exists_eq_add_of_le' le
  rcases apart with ⟨left, right⟩ | ⟨left, right⟩ <;> rw [unify?, left, right]

end Unifies

end Unification

section Clauses

variable {solve : Nat → Term → State → Answers} {goal head : Term} {c : CompiledClause}
  {cs : List CompiledClause} {s : State} {τ : Subst} {states more : List State}

/-- With enough fuel the search for the goal ends after these answers. -/
def Solved (solve : Nat → Term → State → Answers) (goal : Term) (s : State) (states : List State) :
    Prop :=
  ∃ N, ∀ n, N ≤ n → solve n goal s = ofList states

def SolvedBy (solve : Nat → Term → State → Answers) (goal : Term) (cs : List CompiledClause)
    (s : State) (states : List State) : Prop :=
  ∃ N, ∀ n, N ≤ n → solveByAny (solve n) n goal cs s = ofList states

namespace SolvedBy

lemma nil (goal : Term) (s : State) : SolvedBy solve goal [] s [] := ⟨0, fun _ _ => rfl⟩

lemma cons {first : Nat → Answers} (run : ∃ N, ∀ n, N ≤ n → first n = ofList states)
    (eq : ∃ N, ∀ n, N ≤ n → solveBy (solve n) n goal c.clause s = first n)
    (rest : SolvedBy solve goal cs s more) : SolvedBy solve goal (c :: cs) s (states ++ more) := by
  obtain ⟨N₁, run⟩ := run
  obtain ⟨N₂, eq⟩ := eq
  obtain ⟨N₃, rest⟩ := rest
  refine ⟨N₁ + N₂ + N₃, fun n le => ?_⟩
  rw [solveByAny, eq n (by omega), run n (by omega), rest n (by omega), Answers.append_ofList]

section

variable (hasHead : c.clause.head = some head)

include hasHead

lemma skip (clash : Unifies s.subst [(rename s.next head, goal)] none)
    (rest : SolvedBy solve goal cs s states) : SolvedBy solve goal (c :: cs) s states := by
  change SolvedBy solve goal (c :: cs) s ([] ++ states)
  refine cons ⟨0, fun _ _ => rfl⟩ (clash.imp fun N run n le => ?_) rest
  simp only [solveBy, hasHead, run n le]
  rfl

lemma enter (unified : Unifies s.subst [(rename s.next head, goal)] (some τ))
    (body : ∃ N, ∀ n, N ≤ n →
      solveAll (solve n) (c.clause.body.map fun g => bare (rename s.next g))
        ⟨τ, s.next + c.clause.idBound⟩ = ofList states) (rest : SolvedBy solve goal cs s more) :
    SolvedBy solve goal (c :: cs) s (states ++ more) := by
  refine cons body (unified.imp fun N run n le => ?_) rest
  simp only [solveBy, hasHead, run n le]

lemma fact (noBody : c.clause.body = [])
    (unified : Unifies s.subst [(rename s.next head, goal)] (some τ))
    (rest : SolvedBy solve goal cs s more) :
    SolvedBy solve goal (c :: cs) s (⟨τ, s.next + c.clause.idBound⟩ :: more) := by
  change SolvedBy solve goal (c :: cs) s ([_] ++ more)
  refine enter hasHead unified ⟨0, fun n _ => ?_⟩ rest
  rw [noBody]
  rfl

lemma rule {g : Term} (hasBody : c.clause.body = [g])
    (unified : Unifies s.subst [(rename s.next head, goal)] (some τ))
    (body : Solved solve (bare (rename s.next g)) ⟨τ, s.next + c.clause.idBound⟩ states)
    (rest : SolvedBy solve goal cs s more) : SolvedBy solve goal (c :: cs) s (states ++ more) := by
  refine enter hasHead unified (body.imp fun N run n le => ?_) rest
  rw [hasBody, map_singleton, solveAll, run n le]
  exact Answers.bind_one _

end

end SolvedBy

lemma SolvedBy.solved {p : Program} {pred : Predicate}
    (calls : ∀ n, solve (n + 1) (.compound f args) s =
      solveUser p (solve n) n (.compound f args) ⟨f, args.length⟩ s)
    (found : p.domain.find? ⟨f, args.length⟩ = some pred)
    (h : SolvedBy solve (.compound f args) pred.clauses s states) :
    Solved solve (.compound f args) s states := by
  obtain ⟨N, run⟩ := h
  refine ⟨N + 1, fun n le => ?_⟩
  obtain ⟨n, rfl⟩ := Nat.exists_eq_add_of_le' (Nat.le_trans (Nat.le_add_left 1 N) le)
  simp only [calls, solveUser, found, run n (Nat.le_of_succ_le_succ le), Answers.enclose_ofList]

lemma dispatch_compound (args : List Term) {stop : Answers}
    {builtin : Builtin → List Term → Answers} {user : Term → Functor → Answers}
    (unmarked : f ≠ markFunctor) :
    dispatch s (.compound f args) stop builtin user =
      match lookup? ⟨f, args.length⟩ with
      | some b => builtin b args
      | none => user (.compound f args) ⟨f, args.length⟩ := by
  have functor : (compound f args).functor? = some ⟨f, args.length⟩ := rfl
  have other : (⟨f, args.length⟩ : Functor) ≠ ⟨markFunctor, 2⟩ := fun eq =>
    unmarked (congrArg Functor.name eq)
  simp only [dispatch, State.look, isAtom, Bool.false_eq_true, if_false, functor, if_neg other]
  rfl

/-- A goal that is not built in is solved by its clauses. -/
lemma solve_user {p : Program} (missing : lookup? ⟨f, args.length⟩ = none)
    (unmarked : f ≠ markFunctor) (n : Nat) :
    Search.solve p (n + 1) (.compound f args) s =
      solveUser p (Search.solve p n) n (.compound f args) ⟨f, args.length⟩ s := by
  rw [solve_succ, dispatch_compound args unmarked, missing]

end Clauses

end Search

namespace Engine

open Search

/-- A variable with a ground value is reported, as the value is another term. -/
lemma report_ground {names : List (String × Term)} {s : State}
    (vars : ∀ p ∈ names, ∃ name v, p.2 = .var name v)
    (ground : ∀ p ∈ names, (s.subst.apply p.2).Ground) :
    report names s = names.map fun p => (p.1, s.subst.apply p.2) := by
  rw [report, ← filterMap_eq_map]
  refine filterMap_congr fun p hp => ?_
  obtain ⟨name, v, eq⟩ := vars p hp
  have other : (s.subst.apply p.2).same p.2 = false := by
    rw [eq]
    exact same_var_of_nonvar (eq ▸ (ground p hp).isVar) name v
  simp [other]

lemma eq_of_reports {bindings values : List (String × Term)}
    (reports : Forall₂ (Reports place) bindings values) (ground : ∀ p ∈ values, p.2.Ground) :
    bindings = values := by
  induction reports with
  | nil => rfl
  | cons first _ ih =>
    obtain ⟨value, others⟩ := forall_mem_cons.1 ground
    rw [ih others, Prod.ext first.1 (value.eq_of_moved first.2)]

lemma eq_of_tells {count : Nat} {found : List Solution} {expected : List (List (String × Term))}
    (tells : Forall₂ (Tells count) found expected)
    (ground : ∀ values ∈ expected, ∀ p ∈ values, p.2.Ground) :
    found = expected.map Solution.mk := by
  induction tells with
  | nil => rfl
  | cons first _ ih =>
    obtain ⟨values, others⟩ := forall_mem_cons.1 ground
    obtain ⟨place, -, -, reports⟩ := first
    rw [map_cons, ← ih others, ← eq_of_reports reports values]

/-- If the search for the answers to a query ends and every name has a value without variables, the
engine answers with these values, in their order and as often as they come, and then it ends. -/
lemma answers_of_solve (e : Engine) (ops : OperatorTable) {q : CompiledQuery}
    (query : e.query = some q)
    (vars : ∀ p ∈ shownNames q.names, ∃ name, ∃ v < roomFor q, p.2 = .var name v)
    {solve : Nat → Term → State → Answers}
    (solves : ∀ n, Setting.Solves ⟨e.program, ops, e.output⟩ (solve n)) {states : List State}
    (solved : Solved solve (bare q.goal) ⟨free, roomFor q⟩ states)
    (ground : ∀ s ∈ states, ∀ p ∈ shownNames q.names, (s.subst.apply p.2).Ground) :
    ∃ N, ∀ fuel, N ≤ fuel → ∀ limit, answers fuel limit (ops, e) =
      .ok ((states.take limit).map fun s =>
        ⟨(shownNames q.names).map fun p => (p.1, s.subst.apply p.2)⟩, none) (ops, e) := by
  obtain ⟨n, run⟩ := solved
  have finite := (congrArg Answers.toList? (run n (Nat.le_refl n))).trans
    (Answers.toList?_ofList states)
  obtain ⟨N, answered⟩ := exists_answers e ops query vars (solves n) finite
  refine ⟨N, fun fuel le limit => ?_⟩
  obtain ⟨found, answered, tells⟩ := answered fuel le limit
  have reported : ∀ s ∈ states.take limit, report (shownNames q.names) s =
      (shownNames q.names).map fun p => (p.1, s.subst.apply p.2) := fun s hs =>
    report_ground (fun p hp => (vars p hp).imp fun _ ⟨v, _, eq⟩ => ⟨v, eq⟩)
      (ground s (mem_of_mem_take hs))
  rw [map_congr_left reported] at tells
  have same := eq_of_tells tells (forall_mem_map.2 fun s hs =>
    forall_mem_map.2 (ground s (mem_of_mem_take hs)))
  rw [map_map] at same
  rw [answered, same]
  rfl

end Engine

end Horn
