import Horn.Proofs.IntroducedVariables
import Horn.Proofs.MarkedRuns
import Horn.Proofs.NumberedVariables
import Horn.Proofs.StepLimits
import Horn.Proofs.VariableRoom

/-!
# Normal terms

A term is made by building it, or by giving other arguments to a term, as many as it has. Either way
it is normal if it is made of normal terms.
-/

namespace Horn

open List Term

variable {ts : List Term} {n : Nat}

namespace Grammar

variable {α β : Type} {P : α → Prop} {Q : β → Prop}

def Gives (P : α → Prop) (x : Threading α) : Prop := ∀ n a n', x n = .ok (a, n') → P a

lemma Gives.pure {a : α} (h : P a) : Gives P (Pure.pure a) := by
  rintro n _ _ ⟨⟩
  exact h

lemma Gives.throw {e : GrammarError} : Gives P (MonadExcept.throw e) := nofun

lemma Gives.bind {x : Threading α} {f : α → Threading β} (hx : Gives P x)
    (hf : ∀ a, P a → Gives Q (f a)) : Gives Q (x >>= f) := by
  intro n b n' ran
  change (x n >>= fun p => f p.1 p.2) = .ok (b, n') at ran
  cases first : x n with
  | error e =>
    rw [first] at ran
    cases ran
  | ok p =>
    rw [first] at ran
    exact hf p.1 (hx n p.1 p.2 first) p.2 b n' ran

lemma gives_freshVar : Gives Normal freshVar := by
  rintro n _ _ ⟨⟩
  exact kind_normal.var _ _

variable {t u before after : Term}

lemma normal_pair {f : String} (proper : f ≠ ".") (ht : t.Normal) (hu : u.Normal) :
    (compound f [t, u]).Normal :=
  kind_normal.compound nofun proper (forall_mem_cons.2 ⟨ht, forall_mem_singleton.2 hu⟩)

section

variable (hb : before.Normal) (ha : after.Normal)

include hb ha

lemma normal_unify : (unify before after).Normal := normal_pair (by decide) hb ha

lemma normal_extended (each : ∀ t ∈ ts, t.Normal) (f : String) :
    (build f (ts ++ [before, after])).Normal := by
  refine kind_normal.build f (forall_mem_append.2 ⟨each, ?_⟩)
  exact forall_mem_cons.2 ⟨hb, forall_mem_singleton.2 ha⟩

lemma normal_plain (f : String) : (plain f before after).Normal := by
  unfold plain
  split
  · exact normal_pair (by decide) (kind_normal.atom _) (normal_unify hb ha)
  · exact normal_extended hb ha (forall_mem_nil _) f

lemma gives_terminals (ht : t.Normal) : Gives Normal (terminals t before after) := by
  have members {t : Term} {items : List Term} (ht : t.Normal) (proper : t.items? = some items) :
      ∀ a ∈ items, a.Normal := by
    induction t using induct generalizing items with
    | cell x y _ ih =>
      obtain ⟨rest, found, rfl⟩ := Option.map_eq_some_iff.1 proper
      exact forall_mem_cons.2 ⟨(normal_cell.1 ht).1, ih (normal_cell.1 ht).2 found⟩
    | atom a => simp_all [items?]
    | _ => cases proper
  unfold terminals
  split
  · next proper => exact .pure (normal_unify hb (normal_listTo (members ht proper) ha))
  · exact .throw

end

lemma gives_bodyGoal (ht : t.Normal) (hb : before.Normal) (ha : after.Normal) :
    Gives Normal (bodyGoal t before after) := by
  induction t using induct generalizing before after with
  | var name id =>
    refine .pure (kind_normal.compound nofun (by decide) (forall_mem_cons.2 ⟨ht, ?_⟩))
    exact forall_mem_cons.2 ⟨hb, forall_mem_singleton.2 ha⟩
  | number n => exact .throw
  | cell x y => exact gives_terminals hb ha ht
  | atom a =>
    rw [bodyGoal]
    split
    · exact .pure (normal_unify hb ha)
    · exact .pure (normal_plain hb ha a)
  | compound f args ih =>
    have each := kind_normal.args ht
    rcases args with _ | ⟨a, _ | ⟨b, _ | ⟨c, rest⟩⟩⟩
    · exact .pure (normal_plain hb ha f)
    · have ha' := forall_mem_singleton.1 each
      rw [bodyGoal]
      split
      · refine gives_freshVar.bind fun x hx => (ih a mem_cons_self ha' hb hx).bind fun goal hg => ?_
        refine .pure (normal_pair (by decide) ?_ (normal_unify hb ha))
        exact kind_normal.compound nofun (by decide) (forall_mem_singleton.2 hg)
      split
      · exact .pure (normal_pair (by decide) ha' (normal_unify hb ha))
      · exact .pure (normal_extended hb ha each f)
    · obtain ⟨ha', rest⟩ := forall_mem_cons.1 each
      have hb' := forall_mem_singleton.1 rest
      have left {x y : Term} (hx : x.Normal) (hy : y.Normal) : Gives Normal (bodyGoal a x y) :=
        ih a mem_cons_self ha' hx hy
      have right {x y : Term} (hx : x.Normal) (hy : y.Normal) : Gives Normal (bodyGoal b x y) :=
        ih b (mem_cons_of_mem _ mem_cons_self) hb' hx hy
      rw [bodyGoal]
      split
      · refine gives_freshVar.bind fun x hx => (left hb hx).bind fun l hl => ?_
        exact (right hx ha).bind fun r hr => .pure (normal_pair (by decide) hl hr)
      split
      · refine (left hb ha).bind fun l hl => (right hb ha).bind fun r hr => ?_
        exact .pure (normal_pair (by decide) hl hr)
      split
      · refine gives_freshVar.bind fun x hx => (left hb hx).bind fun l hl => ?_
        refine (right hx ha).bind fun r hr => .pure (kind_normal.again ht rfl ?_)
        exact forall_mem_cons.2 ⟨hl, forall_mem_singleton.2 hr⟩
      · exact .pure (normal_extended hb ha each f)
    · exact .pure (normal_extended hb ha each f)

lemma normal_nonterminal (ht : t.Normal) (hb : before.Normal) (ha : after.Normal) {h : Term}
    (named : nonterminal? t before after = some h) : h.Normal := by
  cases t with
  | atom a =>
    cases named
    exact normal_extended hb ha (forall_mem_nil _) a
  | compound f args =>
    cases named
    exact normal_extended hb ha (kind_normal.args ht) f
  | _ => cases named

lemma gives_ruleClause {head body : Term} (hh : head.Normal) (hb : body.Normal) :
    Gives Normal (ruleClause head body) := by
  refine gives_freshVar.bind fun before hx => gives_freshVar.bind fun after hy => ?_
  have parts : (headParts head).1.Normal ∧ ∀ p ∈ (headParts head).2, p.Normal := by
    unfold headParts
    split
    · have each := kind_normal.args hh
      simp only [args, forall_mem_cons] at each
      split
      · exact ⟨each.1, fun p hp => Option.some.inj hp ▸ each.2.1⟩
      · exact ⟨hh, by rintro p ⟨⟩⟩
    · exact ⟨hh, by rintro p ⟨⟩⟩
  generalize headParts head = x at parts ⊢
  obtain ⟨start, pushback⟩ := x
  dsimp only
  split
  · exact .throw
  · next newHead named =>
    have head := normal_nonterminal parts.1 hx hy named
    split
    · exact (gives_bodyGoal hb hx hy).bind fun goal hg => .pure (normal_pair (by decide) head hg)
    · next list =>
      split
      · exact Gives.bind (P := fun _ => False) .throw fun _ h => h.elim
      · refine gives_freshVar.bind fun middle hz => (gives_bodyGoal hb hx hz).bind fun goal hg => ?_
        refine (gives_terminals hy hz (parts.2 list rfl)).bind fun pushed hp => .pure ?_
        exact normal_pair (by decide) head (normal_pair (by decide) hg hp)

lemma normal_toClause {rule : Term} (h : rule.Normal) (translated : toClause rule = .ok t) :
    t.Normal := by
  unfold toClause at translated
  split at translated
  · next f head body =>
    have each := kind_normal.args h
    simp only [args, forall_mem_cons] at each
    split at translated
    · cases ran : (ruleClause head body).run (compound f [head, body]).idBound with
      | error e =>
        rw [ran] at translated
        cases translated
      | ok r =>
        rw [ran] at translated
        cases translated
        exact gives_ruleClause each.1 each.2.1 _ _ _ ran
    · cases translated
  · cases translated

end Grammar

lemma Term.normal_mark {t : Term} (h : t.Normal) : t.mark.Normal := by
  have marked (b : Builtin) {goal : Term} (hg : goal.Normal) : (withMark b goal).Normal :=
    Grammar.normal_pair (by decide) (kind_normal.number _) hg
  induction t using induct with
  | var name id =>
    exact marked _ (kind_normal.compound nofun (by decide) (forall_mem_singleton.2 h))
  | atom a =>
    rw [mark]
    split
    · exact h
    · exact marked _ h
  | compound f args ih =>
    rw [mark]
    split
    · exact h
    split
    · exact h
    · refine marked _ ?_
      split
      · exact h
      · rw [markAll_eq]
        refine kind_normal.again h (length_map _) (forall_mem_map.2 fun a ha => ?_)
        exact ih a ha (kind_normal.args h a ha)
  | number | cell => exact h

def Clause.Normal (c : Clause) : Prop := ∀ t ∈ c.head.toList ++ c.body, t.Normal

def Hook.Normal (h : Hook) : Prop := ∀ t, t.Normal → ∀ u ∈ h.expandGoal t, u.Normal

def Observer.Normal {σ : Type} (o : Observer σ) (J : OperatorTable × σ → Prop) : Prop :=
  ∀ t x, t.Normal → J x → match o.expandGoal t x with
    | .ok answer y => J y ∧ ∀ u ∈ answer, u.Normal
    | .error _ y => J y

namespace Expansion

open Compiling (seen)

lemma normal_renameIntroduced (before t : Term) (n : Nat) (h : t.Normal) :
    (renameIntroduced before t n).1.Normal := by
  change (Trace.renamed ⟨before, t, [], n⟩).1.Normal
  rw [(Trace.numbers ⟨before, t, [], n⟩).2.1]
  refine kind_normal.mapVars (fun name v => ?_) h
  unfold given
  split
  · exact kind_normal.var _ _
  · split <;> exact kind_normal.var _ _

variable {σ : Type} {o : Observer σ} {J : OperatorTable × σ → Prop}

def normalLimits (J : OperatorTable × σ → Prop) : Limits σ σ where
  view := id
  invariant s := J (seen s) ∧ ∀ h ∈ s.1.hooks, h.Normal
  change _ _ := True
  error _ _ := True
  refl _ := trivial
  trans _ _ := trivial
  located _ _ := trivial

lemma expanding_normal (answers : o.Normal J) : (normalLimits J).Expanding Term.Normal o o where
  kind := kind_normal
  hooks _ start := start.2
  goals t ht s start := by
    change Limits.Within _ _ _ (Compiling.ask (o.expandGoal t) s) _
    have answer := answers t (seen s) ht start.1
    cases asked : o.expandGoal t (seen s) with
    | ok u x =>
      rw [asked] at answer
      rw [Compiling.ask_of_ok asked]
      exact .ok ⟨answer.1, start.2⟩ trivial answer.2
    | error e x =>
      rw [asked] at answer
      rw [Compiling.ask_of_error asked]
      exact .error ⟨answer, start.2⟩ trivial trivial
  renames := normal_renameIntroduced
  source _ _ _ _ := trivial
  spent _ := trivial

lemma normal_clause (answers : o.Normal J) {s s' : Context × σ} (start : J (seen s))
    (hooks : ∀ h ∈ s.1.hooks, h.Normal) {fuel : Nat} {c c' : Clause} (h : c.Normal)
    (run : clause o fuel c s = .ok c' s') : c'.Normal := by
  obtain ⟨head, body⟩ := forall_mem_append.1 h
  obtain ⟨-, -, same, each⟩ :=
    (ensures_clause (expanding_normal answers) fuel body).of_ok ⟨start, hooks⟩ run
  exact forall_mem_append.2 ⟨same ▸ head, each⟩

end Expansion

namespace Bindings

def Normal (b : Bindings) : Prop := ∀ i v, b.value? i = some v → v.Normal

end Bindings

def Upkeep.normal : Upkeep where
  Good b := b.Normal
  Var _ _ := True
  Text := Term.Normal
  kind := kind_normal
  Back _ := True
  value good bound := ⟨fun _ _ => trivial, good _ _ bound⟩
  assign {b s t i u} good _ _ fits := by
    refine ⟨fun j v bound => ?_, fun _ _ => trivial⟩
    rw [Bindings.value?_bind] at bound
    split at bound
    · cases bound
      exact fits.2
    · exact good j v bound
  reserve {b} count good := by
    refine ⟨fun i v bound => ?_, fun _ _ => trivial, fun _ _ => trivial⟩
    rw [Bindings.value?_reserve] at bound
    exact good i v bound
  undo {b mark} good _ :=
    ⟨fun i v bound => good i v ((b.undo_values mark).2 bound), fun _ _ => trivial⟩
  mark _ := trivial

def Program.Normal (p : Program) : Prop :=
  ∀ f predicate, p.domain.find? f = some predicate → ∀ c ∈ predicate.clauses, c.clause.Normal

namespace Computation

/-- The values of variables are normal, and so are all terms of the machine and of those around it:
those of goals, choices and clauses that are left, and what a machine is to collect. -/
def Normal (c : Computation) : Prop := Upkeep.normal.KeptAll c

lemma Normal.reaches {p : Program} {c c' : Computation} (h : c.Normal) (hp : p.Normal)
    (reaches : Reaches p c c') : c'.Normal := by
  induction reaches with
  | refl => exact h
  | tail _ next ih => exact Upkeep.KeptAll.next ih hp (fun _ _ => trivial) next

end Computation

section Actions

variable {b : Bindings} {t r : Term}

lemma Bindings.Normal.resolve (h : b.Normal) (ht : t.Normal) (run : b.resolve? n t = some r) :
    r.Normal :=
  (Upkeep.fits_resolve (U := .normal) h ⟨fun _ _ => trivial, ht⟩ run).2

lemma Bindings.Normal.copy (h : b.Normal) (ht : t.Normal) {b' : Bindings}
    (run : b.copy n t = (some r, b')) : r.Normal ∧ b'.Normal := by
  rcases Coupling.copy (C := Upkeep.normal.coupling) ⟨rfl, rfl, h⟩ n ⟨rfl, fun _ _ => trivial, ht⟩
    with none | ⟨_, _, _, _, _, copied, -, ⟨rfl, -, good⟩, ⟨-, fits⟩, -⟩
  · rw [run] at none
    cases none
  · rw [run] at copied
    cases copied
    exact ⟨fits.2, good⟩

lemma Bindings.Normal.builtin {w w' : World} (h : w.bindings.Normal) {as : List Term}
    (each : ∀ a ∈ as, a.Normal) {builtin : Builtin} {verdict : Verdict}
    (run : builtin.run n as w = .ok verdict w') :
    w'.bindings.Normal ∧ ∀ g, verdict = .solve g → g.Normal := by
  have ran := (Upkeep.ran (U := .normal) (Builtin.acts_run builtin (Upkeep.forall₂_fits
    fun a ha => ⟨fun _ _ => trivial, each a ha⟩)) h n).1
  rw [run] at ran
  cases ran with
  | ok good _ related =>
    refine ⟨good, ?_⟩
    rintro g rfl
    cases related with
    | solve h => exact h.2.2

lemma Machine.normal_addArgs (ht : t.Normal) (each : ∀ a ∈ ts, a.Normal)
    (run : addArgs t ts = .ok r) : r.Normal := by
  have same (a : Term) (h : a.Normal) : a = a ∧ (∀ id ∈ a.ids, True) ∧ a.Normal :=
    ⟨rfl, fun _ _ => trivial, h⟩
  rcases addArgs_alike (kind_normal.likeness fun _ => True) (same t ht)
    (forall₂_same.2 fun a ha => same a (each a ha)) with ⟨_, _, ran, -, -, -, h⟩ | ⟨x, ran, -⟩
  · rw [run] at ran
    cases ran
    exact h
  · rw [run] at ran
    cases ran

end Actions

open Compiling (seen) in
open Horn.Computation (Reaches) in
/-- The terms that are read are normal, and normal terms stay normal: those of a grammar rule that is
translated, of goals and clauses that are expanded by hooks and an observer that answer with normal
terms, of a goal that is marked, and terms that are renamed, resolved or copied; what a built-in binds
variables to and calls, a goal that gets more arguments, and all terms of a computation with a normal
program, however far it runs. A normal term is the one that is built from its name and arguments, so
a list cell has one form. -/
theorem terms_stay_normal {σ : Type} :
    (∀ mode r r' read, Reader.readTerm mode r = .ok (some read) r' ∨
      Reader.readSingle mode r = .ok read r' → read.term.Normal) ∧
    (∀ rule t, rule.Normal → Grammar.toClause rule = .ok t → t.Normal) ∧
    (∀ (o : Observer σ) J s, o.Normal J → J (seen s) → (∀ h ∈ s.1.hooks, h.Normal) →
      (∀ rounds n t u s', t.Normal → Expansion.goal o s.1.hooks rounds n t s = .ok u s' →
        u.Normal) ∧
      ∀ n c c' s', c.Normal → Expansion.clause o n c s = .ok c' s' → c'.Normal) ∧
    (∀ t : Term, t.Normal → t.mark.Normal ∧ ∀ base, (Bindings.rename base t).Normal) ∧
    (∀ (b : Bindings) t, b.Normal → t.Normal → ∀ n,
      (∀ r, b.resolve? n t = some r → r.Normal) ∧
      ∀ r b', b.copy n t = (some r, b') → r.Normal ∧ b'.Normal) ∧
    (∀ (f : Builtin) as w, (∀ a ∈ as, a.Normal) → w.bindings.Normal → ∀ n verdict w',
      f.run n as w = .ok verdict w' →
        w'.bindings.Normal ∧ ∀ goal, verdict = .solve goal → goal.Normal) ∧
    (∀ goal extra, goal.Normal → (∀ a ∈ extra, a.Normal) →
      ∀ r, Machine.addArgs goal extra = .ok r → r.Normal) ∧
    (∀ p c, p.Normal → c.Normal → ∀ c', Reaches p c c' → c'.Normal) ∧
    ∀ (t : Term) f, t.Normal → t.name? = some f → t = build f t.args := by
  refine ⟨fun mode r r' read h => ?_, fun rule t h => Grammar.normal_toClause h,
    fun o J s answers start hooks => ⟨fun rounds n t u s' h run => ?_,
      fun n c c' s' => Expansion.normal_clause answers start hooks⟩,
    fun t h => ⟨normal_mark h, fun base => kind_normal.mapVars (fun _ _ => kind_normal.var _ _) h⟩,
    fun b t hb h n => ⟨fun r => hb.resolve h, fun r b' => hb.copy h⟩,
    fun f as w each h n verdict w' => h.builtin each,
    fun goal extra h each r => Machine.normal_addArgs h each,
    fun p c hp h c' => h.reaches hp, fun t f h named => ?_⟩
  · obtain ⟨ts, vs, -, counted, -⟩ := Reader.read_of_run h
    exact counted.1
  · have ensures := (Expansion.ensures_goal (Expansion.expanding_normal answers) hooks rounds n).1 t h
    exact (ensures.of_ok ⟨start, hooks⟩ run).2.2
  · cases t with
    | compound g args =>
      cases named
      obtain ⟨some, proper⟩ := (normal_compound.1 h).1
      exact (build_eq_compound some proper).symm
    | var | number => cases named
    | atom | cell =>
      cases named
      rfl

/-- A hook expands `fill` to `(p(L), X =.. ['.', L, Y])`, where `p('.'(1))` is a clause. -/
theorem terms_stay_normal_run :
    let l : Term := .var "L" 0
    let x : Term := .var "X" 1
    let one : Term := .compound "." [.int 1]
    let goal : Term := .compound "," [.compound "p" [l],
      .compound "=.." [x, .list [.atom ".", l, .var "Y" 2]]]
    let hook : Hook := ⟨"fill", fun _ => none, fun t => if t = .atom "fill" then some goal else none⟩
    let s : Context × EventLog := ((Context.new .standard .standard).addHook hook, .empty)
    let fact : Clause := ⟨some (.compound "p" [one]), [], .fact, ⟨1, 1⟩⟩
    let p : Program := .ofDomain
      (.ofPredicates [⟨⟨"p", 1⟩, [⟨⟨"p", 1⟩, ⟨0⟩, fact, [], 0, []⟩], false⟩]) .error
    let m : Machine := ⟨⟨(Bindings.empty.reserve 3).2, .standard, ""⟩, [.call goal 0], #[]⟩
    let c := Computation.after [] (Machine.run p 9 false m)
    Expansion.goal EventLog.observer s.1.hooks 9 9 (.atom "fill") s = .ok goal s ∧ goal.Normal ∧
    c.machine.world.bindings.resolve? 9 x = some (.cell one (.var "Y" 2)) ∧ c.Normal := by
  intro l x one goal hook s fact p m c
  obtain ⟨-, -, expands, -, -, -, -, runs, -⟩ := terms_stay_normal (σ := EventLog)
  have answers : EventLog.observer.Normal fun _ => True := fun _ _ _ _ => ⟨trivial, nofun⟩
  have hooks : ∀ h ∈ s.1.hooks, h.Normal := by
    refine forall_mem_singleton.2 fun t _ u answer => ?_
    simp only [hook] at answer
    split at answer
    · cases answer
      decide
    · cases answer
  have expanded : Expansion.goal EventLog.observer s.1.hooks 9 9 (.atom "fill") s = .ok goal s := by
    rfl
  have program : p.Normal := by
    intro f predicate found
    obtain ⟨i, -, placed⟩ := Option.bind_eq_some_iff.1 found
    cases mem_singleton.1 (Array.mem_toList_iff.2 (Array.mem_of_getElem? placed))
    exact forall_mem_singleton.2 (forall_mem_singleton.2 (by decide))
  have start : Computation.Normal ⟨.running false, m, []⟩ := by
    refine ⟨⟨fun i v bound => ?_, forall_mem_singleton.2 (forall_mem_singleton.2 ?_), nofun⟩, nofun⟩
    · rw [Bindings.value?_reserve] at bound
      cases bound
    · exact ⟨fun _ _ => trivial, show goal.Normal by decide⟩
  refine ⟨expanded, ?_, by decide +kernel, ?_⟩
  · exact (expands _ _ s answers trivial hooks).1 9 9 (.atom "fill") goal s (by decide) expanded
  · exact runs p _ program start c ((Computation.reaches_bounded p 9).1 false m [])

end Horn
