import Horn.Proofs.PairedStores
import Horn.Token.CharStream

/-!
# Actions done on two sides

An action is done in two worlds whose stores have something in common, to alike terms. It comes to
alike results and leaves the stores so, or to errors whose texts differ in the names of variables
only.
-/

namespace Horn

open List Horn.Action
open Term (Alike)

variable {ρ : Link} {R : Term → Term → Prop} {ts ts' : List Term}

lemma Action.fueled_onBindings {α : Type} (f : Bindings → Option α × Bindings) (w : World) :
    (onBindings f >>= fueled) w = match f w.bindings with
      | (none, b) => .error .outOfFuel ⟨b, w.operators, w.output⟩
      | (some r, b) => .ok r ⟨b, w.operators, w.output⟩ := by
  obtain ⟨b, ops, out⟩ := w
  simp only [bind_apply, onBindings]
  rcases f b with ⟨_ | r, b⟩ <;> rfl

/-- The same verdict, and related goals where one is to be solved. -/
inductive Verdict.Alike (R : Term → Term → Prop) : Verdict → Verdict → Prop where
  | succeed : Alike R .succeed .succeed
  | fail : Alike R .fail .fail
  | solve {t t' : Term} (h : R t t') : Alike R (.solve t) (.solve t')

lemma Verdict.Alike.ofBool (holds : Bool) : Verdict.Alike R (.ofBool holds) (.ofBool holds) := by
  cases holds with
  | true => exact .succeed
  | false => exact .fail

lemma Verdict.Alike.anyOf (like : Term.Likeness ρ R) (h : Forall₂ R ts ts') :
    Verdict.Alike R (.anyOf ts) (.anyOf ts') := by
  have go {ts ts' : List Term} (h : Forall₂ R ts ts') {t t' : Term} (first : R t t') :
      R (Verdict.anyOf.go t ts) (Verdict.anyOf.go t' ts') := by
    induction h generalizing t t' with
    | nil => exact first
    | cons next _ ih => exact like.pair (by decide) first (ih next)
  cases h with
  | nil => exact .fail
  | cons first rest => exact .solve (go rest first)

lemma Builtin.notUnify_apply (n : Nat) (s t : Term) (w : World) :
    run n .notUnify [s, t] w =
      match w.bindings.unify n s t with
      | (none, b) => .error .outOfFuel ⟨b, w.operators, w.output⟩
      | (some r, b) => .ok (.ofBool (!r)) ⟨b.undo w.bindings.mark, w.operators, w.output⟩ := by
  change (Action.mark >>= fun mark => Action.unify n s t >>= fun unified =>
    undo mark >>= fun _ => pure (Verdict.ofBool (!unified))) w = _
  rw [bind_apply]
  simp only [mark]
  rw [bind_apply, Action.unify, Action.fueled_onBindings]
  rcases w.bindings.unify n s t with ⟨_ | r, b⟩ <;> rfl

namespace Coupling

variable {ι α β : Type} {C : Coupling ι} {R : ι → α → α → Prop} {S : ι → β → β → Prop} {d e : ι}

def Verdicts (C : Coupling ι) (d : ι) : Verdict → Verdict → Prop := Verdict.Alike (C.Terms d)

/-- The stores are coupled, the operators the same and the texts equal up to linked variables. -/
structure Worlds (C : Coupling ι) (d : ι) (w w' : World) : Prop where
  stores : C.Stores d w.bindings w'.bindings
  operators : w'.operators = w.operators
  output : Renamed (C.link d) w.output w'.output

lemma Worlds.before {w w' : World} (h : C.Worlds d w w') (before : C.Before d e) {b b' : Bindings}
    (stores : C.Stores e b b') :
    C.Worlds e ⟨b, w.operators, w.output⟩ ⟨b', w'.operators, w'.output⟩ :=
  ⟨stores, h.operators, h.output.mono (C.kept before)⟩

/-- Both succeed or both raise alike errors, later than at `d`. -/
inductive Results (C : Coupling ι) (d : ι) (R : ι → α → α → Prop) :
    EStateM.Result Halt World α → EStateM.Result Halt World α → Prop where
  | ok {e : ι} {w w' : World} {a a' : α} (before : C.Before d e) (worlds : C.Worlds e w w')
    (related : R e a a') : Results C d R (.ok a w) (.ok a' w')
  | raised {e : ι} {w w' : World} {x x' : ExecutionError} (before : C.Before d e)
    (worlds : C.Worlds e w w') (alike : x.Alike (C.link e) x') :
    Results C d R (.error (.raised x) w) (.error (.raised x') w')

/-- Where the first action does not run out of fuel, the second comes to the same with any more. -/
def Acts (C : Coupling ι) (d : ι) (R : ι → α → α → Prop) (x x' : Nat → Action α) : Prop :=
  ∀ w w', C.Worlds d w w' → ∀ n, (∃ w₁, x n w = .error .outOfFuel w₁ ∧ C.Spent d w₁.bindings) ∨
    ∃ r', C.Results d R (x n w) r' ∧ ∀ m, n ≤ m → x' m w' = r'

lemma Results.before {r r' : EStateM.Result Halt World α} (h : C.Results e R r r')
    (before : C.Before d e) : C.Results d R r r' := by
  cases h with
  | ok later worlds related => exact .ok (C.trans before later) worlds related
  | raised later worlds alike => exact .raised (C.trans before later) worlds alike

namespace Acts

lemma pure {a a' : α} (h : R d a a') :
    C.Acts d R (fun _ => Pure.pure a) (fun _ => Pure.pure a') :=
  fun _ _ worlds _ => .inr ⟨_, .ok (C.refl d) worlds h, fun _ _ => rfl⟩

lemma raise {x x' : ExecutionError} (h : x.Alike (C.link d) x') :
    C.Acts d R (fun _ => raise x) (fun _ => raise x') :=
  fun _ _ worlds _ => .inr ⟨_, .raised (C.refl d) worlds h, fun _ _ => rfl⟩

lemma bind {x x' : Nat → Action α} {f f' : Nat → α → Action β} (hx : C.Acts d R x x')
    (hf : ∀ {e a a'}, C.Before d e → R e a a' →
      C.Acts e S (fun n => f n a) (fun n => f' n a')) :
    C.Acts d S (fun n => x n >>= f n) (fun n => x' n >>= f' n) := by
  intro w w' worlds n
  rcases hx w w' worlds n with ⟨w₁, ran, spent⟩ | ⟨r', results, settled⟩
  · refine .inl ⟨w₁, ?_, spent⟩
    change (x n >>= f n) w = _
    rw [bind_apply, ran]
  · change (∃ w₁, (x n >>= f n) w = _ ∧ _) ∨
      ∃ r', C.Results d S ((x n >>= f n) w) r' ∧ ∀ m, n ≤ m → (x' m >>= f' m) w' = r'
    simp only [bind_apply]
    generalize x n w = r at results
    cases results with
    | raised before worlds alike =>
      exact .inr ⟨_, .raised before worlds alike, fun m le => by rw [settled m le]⟩
    | @ok e w₁ w₁' a a' before worlds related =>
      rcases hf before related w₁ w₁' worlds n with ⟨w₂, ran, spent⟩ | ⟨r', results, settled'⟩
      · exact .inl ⟨w₂, ran, C.spent_before before spent⟩
      · exact .inr ⟨r', results.before before, fun m le => by rw [settled m le]; exact settled' m le⟩

/-- An action may depend on the operators but not on the rest of the world. -/
lemma get {f f' : Nat → World → Action β}
    (hf : ∀ {w w' : World}, w'.operators = w.operators →
      C.Acts d S (fun n => f n w) (fun n => f' n w')) :
    C.Acts d S (fun n => MonadState.get >>= f n) (fun n => MonadState.get >>= f' n) :=
  fun w w' worlds n => hf worlds.operators w w' worlds n

lemma mapM {x x' : Nat → Term → Action Term}
    (hx : ∀ {d t t'}, C.Terms d t t' → C.Acts d C.Terms (fun n => x n t) (fun n => x' n t'))
    (h : Forall₂ (C.Terms d) ts ts') :
    C.Acts d (fun e => Forall₂ (C.Terms e)) (fun n => ts.mapM (x n))
      (fun n => ts'.mapM (x' n)) := by
  induction ts generalizing d ts' with
  | nil =>
    cases h
    exact .pure .nil
  | cons t ts ih =>
    cases h with
    | cons first rest =>
      simp only [mapM_cons]
      refine (hx first).bind fun before one => ?_
      refine (ih (rest.imp fun _ _ => C.later before)).bind fun before all => ?_
      exact .pure (.cons (C.later before one) all)

variable {s s' t t' : Term}

lemma walk {f f' : Nat → Term → Action β} (h : C.Terms d t t')
    (hf : ∀ {t t'}, C.Terms d t t' → C.Acts d S (fun n => f n t) (fun n => f' n t')) :
    C.Acts d S (fun n => Action.walk t >>= f n) (fun n => Action.walk t' >>= f' n) :=
  fun w w' worlds n => hf (C.walk worlds.stores h) w w' worlds n

/-- Resolving may run out of fuel, and then so does the whole. -/
lemma resolve {f f' : Nat → Term → Action β} (h : C.Terms d t t')
    (hf : ∀ {t t'}, C.Terms d t t' → C.Acts d S (fun n => f n t) (fun n => f' n t')) :
    C.Acts d S (fun n => Action.resolve n t >>= f n) (fun n => Action.resolve n t' >>= f' n) := by
  intro w w' worlds n
  simp only [bind_apply, Action.resolve]
  cases resolved : w.bindings.resolve? n t with
  | none => exact .inl ⟨w, rfl, C.spent worlds.stores⟩
  | some r =>
    obtain ⟨r', alike, settled⟩ := resolve? worlds.stores h resolved
    refine (hf alike w w' worlds n).imp_right fun ⟨s, results, more⟩ => ⟨s, results, fun m le => ?_⟩
    rw [settled m le]
    exact more m le

lemma unify (hs : C.Terms d s s') (ht : C.Terms d t t') :
    C.Acts d (fun _ => Eq) (fun n => Action.unify n s t) (fun n => Action.unify n s' t') := by
  intro w w' worlds n
  simp only [Action.unify, Action.fueled_onBindings, Bindings.unify]
  have pairs : PairsAlike (C.Terms d) [(s, t)] [(s', t')] := .cons ⟨hs, ht⟩ .nil
  rcases unifyPairs worlds.stores n pairs with
    ⟨b₁, ran, spent⟩ | ⟨e, r, b₁, b₁', ran, before, stores, settled⟩
  · rw [ran]
    exact .inl ⟨_, rfl, spent⟩
  · rw [ran]
    refine .inr ⟨_, .ok before (worlds.before before stores) rfl, fun m le => ?_⟩
    rw [settled m le]

lemma notUnify (hs : C.Terms d s s') (ht : C.Terms d t t') :
    C.Acts d C.Verdicts (fun n => Builtin.run n .notUnify [s, t])
      (fun n => Builtin.run n .notUnify [s', t']) := by
  intro w w' worlds n
  simp only [Builtin.notUnify_apply, Bindings.unify]
  have pairs : PairsAlike (C.Terms d) [(s, t)] [(s', t')] := .cons ⟨hs, ht⟩ .nil
  rcases unifyPairs worlds.stores n pairs with
    ⟨b₁, ran, spent⟩ | ⟨e, r, b₁, b₁', ran, before, stores, settled⟩
  · rw [ran]
    exact .inl ⟨_, rfl, spent⟩
  · obtain ⟨f, back, stores⟩ := C.undo worlds.stores before stores
    rw [ran]
    refine .inr ⟨_, .ok back (worlds.before back stores) (.ofBool _), fun m le => ?_⟩
    rw [settled m le]

lemma copy (h : C.Terms d t t') :
    C.Acts d C.Terms (fun n => Action.copy n t) (fun n => Action.copy n t') := by
  intro w w' worlds n
  simp only [Action.copy, Action.fueled_onBindings]
  rcases Coupling.copy worlds.stores n h with
    ran | ⟨e, r, r', b₁, b₁', ran, before, stores, alike, settled⟩
  · rw [ran]
    exact .inl ⟨_, rfl, C.spent worlds.stores⟩
  · rw [ran]
    refine .inr ⟨_, .ok before (worlds.before before stores) alike, fun m le => ?_⟩
    rw [settled m le]

lemma reserve (count : Nat) :
    C.Acts d (fun e base base' => ∀ v < count, C.link e (base + v) (base' + v))
      (fun _ => onBindings (·.reserve count))
      (fun _ => onBindings (·.reserve count)) := by
  intro w w' worlds n
  obtain ⟨e, before, stores, new⟩ := C.reserve count worlds.stores
  exact .inr ⟨_, .ok before (worlds.before before stores) new, fun _ _ => rfl⟩

lemma fresh : C.Acts d C.Terms (fun _ => fresh) (fun _ => fresh) :=
  (reserve 1).bind (f := fun _ id => Pure.pure (Bindings.varOf id)) fun _ new =>
    .pure ((C.like _).fresh (new 0 Nat.one_pos))

lemma write {s s' : String} (h : Renamed (C.link d) s s') :
    C.Acts d (fun _ _ _ => True) (fun _ => write s) (fun _ => write s') := by
  intro w w' worlds n
  have after : C.Worlds d ⟨w.bindings, w.operators, w.output ++ s⟩
      ⟨w'.bindings, w'.operators, w'.output ++ s'⟩ :=
    ⟨worlds.stores, worlds.operators, worlds.output.append h⟩
  exact .inr ⟨_, .ok (C.refl d) after trivial, fun _ _ => rfl⟩

lemma setOperators (ops : OperatorTable) :
    C.Acts d (fun _ _ _ => True) (fun _ => modify fun w => { w with operators := ops })
      (fun _ => modify fun w => { w with operators := ops }) := by
  intro w w' worlds n
  have after : C.Worlds d ⟨w.bindings, ops, w.output⟩ ⟨w'.bindings, ops, w'.output⟩ :=
    ⟨worlds.stores, rfl, worlds.output⟩
  exact .inr ⟨_, .ok (C.refl d) after trivial, fun _ _ => rfl⟩

end Acts

end Coupling

namespace Builtin

open Coupling (Acts)

variable {ι : Type} {C : Coupling ι} {d : ι} {t t' u u' v v' : Term}

lemma nameAndArity_alike (h : C.Terms d t t') :
    C.Terms d (nameAndArity t).1 (nameAndArity t').1 ∧ (nameAndArity t').2 = (nameAndArity t).2 := by
  have alike := C.alike h
  unfold nameAndArity
  rw [alike.isStructure_eq, alike.name?_eq, alike.arity_eq]
  split
  · exact ⟨(C.like d).atom _, rfl⟩
  · exact ⟨h, rfl⟩

lemma equation_alike (ht : C.Terms d t t') (hu : C.Terms d u u') :
    C.Terms d (equation t u) (equation t' u') :=
  (C.like d).pair (by decide) ht hu

lemma forall₂_zipIdx {α β : Type} {P : α → α → Prop} {Q : β → β → Prop} {xs xs' : List α}
    (h : Forall₂ P xs xs') (k : Nat) {f f' : α × Nat → β}
    (each : ∀ x x' i, P x x' → Q (f (x, i)) (f' (x', i))) :
    Forall₂ Q ((xs.zipIdx k).map f) ((xs'.zipIdx k).map f') := by
  induction h generalizing k with
  | nil => exact .nil
  | cons first _ ih => exact .cons (each _ _ _ first) (ih (k + 1))

lemma acts_givenArity (h : C.Terms d t t') :
    C.Acts d (fun _ => Eq) (fun _ => givenArity t) (fun _ => givenArity t') := by
  have alike := C.alike h
  have whole := alike
  cases alike with
  | number x =>
    cases x with
    | int i =>
      simp only [givenArity]
      split
      · exact .pure rfl
      · exact .raise (.same _)
    | float x => exact .raise (.notA .integer whole)
  | var linked names => exact .raise (.same _)
  | _ => exact .raise (.notA .integer whole)

lemma acts_ofParts (h : Forall₂ (C.Terms d) ts ts') :
    C.Acts d C.Terms (fun _ => ofParts ts) (fun _ => ofParts ts') := by
  cases h with
  | nil => exact .raise (.same _)
  | cons first rest =>
    have alike := C.alike first
    have whole := alike
    cases alike with
    | number x =>
      cases rest with
      | nil => exact .pure first
      | cons _ _ => exact .raise (.notA .atom whole)
    | atom f => exact .pure ((C.like d).build f rest)
    | var linked names => exact .raise (.same _)
    | _ => exact .raise (.notA .atom whole)

lemma acts_raising {α : Type} (x : Except ExecutionError α) :
    C.Acts d (fun _ => Eq) (fun _ => raising x) (fun _ => raising x) := by
  cases x with
  | ok a => exact .pure rfl
  | error e => exact .raise (.same e)

lemma acts_freshArgs (k : Nat) :
    C.Acts d (fun e => Forall₂ (C.Terms e)) (fun _ => freshArgs k) (fun _ => freshArgs k) := by
  induction k generalizing d with
  | zero => exact .pure .nil
  | succ k ih =>
    refine Acts.fresh.bind fun _ first => ih.bind fun before rest => ?_
    exact .pure (.cons (C.later before first) rest)

section

variable (ht : C.Terms d t t') (hu : C.Terms d u u')
  (hv : C.Terms d v v')

include ht

lemma acts_test {p : Term → Bool} (same : ∀ {ρ : Link} {t t' : Term}, Alike ρ t t' → p t' = p t) :
    C.Acts d C.Verdicts (fun _ => testWalked p t) (fun _ => testWalked p t') :=
  Acts.walk ht fun alike => .pure (same (C.alike alike) ▸ .ofBool _)

lemma acts_written :
    C.Acts d (fun e => Renamed (C.link e)) (fun n => written n t) (fun n => written n t') := by
  refine Acts.resolve ht fun {t t'} ht => Acts.get fun same => ?_
  rw [same]
  exact .pure ((C.alike ht).write _)

include hu

lemma acts_unify :
    C.Acts d C.Verdicts (fun n => do return Verdict.ofBool (← Action.unify n t u))
      (fun n => do return Verdict.ofBool (← Action.unify n t' u')) :=
  (Acts.unify ht hu).bind fun _ eq => eq ▸ .pure (.ofBool _)

lemma acts_univ : C.Acts d C.Verdicts (fun n => runUniv n t u) (fun n => runUniv n t' u') := by
  refine Acts.walk ht fun {t t'} ht => ?_
  rw [(C.alike ht).isVar_eq]
  cases t.isVar with
  | false =>
    exact acts_unify hu ((C.like d).list (.cons (nameAndArity_alike ht).1 ((C.like d).args ht)))
  | true =>
    refine Acts.resolve hu fun {u u'} hu => ?_
    have items := (C.like d).items? hu
    generalize u.items? = x, u'.items? = x' at items
    cases items with
    | none => exact .raise (.same _)
    | some alike =>
      refine (acts_ofParts alike).bind fun before parts => ?_
      exact acts_unify (C.later before ht) parts

lemma acts_same (p : Bool → Bool) :
    C.Acts d C.Verdicts
      (fun n => do return Verdict.ofBool (p ((← resolve n t).same (← resolve n u))))
      (fun n => do
        return Verdict.ofBool (p ((← resolve n t').same (← resolve n u')))) := by
  refine Acts.resolve ht fun ht => Acts.resolve hu fun hu => ?_
  rw [Alike.same_eq (C.ordered d) (C.alike ht) (C.alike hu)]
  exact .pure (.ofBool _)

/-- Linked variables are in the same order, so terms are too. -/
lemma acts_order :
    C.Acts d (fun _ => Eq) (fun n => standardOrder n t u) (fun n => standardOrder n t' u') :=
  Acts.resolve ht fun ht => Acts.resolve hu fun hu =>
    .pure (Alike.order_eq (C.ordered d) (C.alike ht) (C.alike hu)).symm

lemma acts_ordered (p : Ordering → Bool) :
    C.Acts d C.Verdicts (fun n => do return Verdict.ofBool (p (← standardOrder n t u)))
      (fun n => do return Verdict.ofBool (p (← standardOrder n t' u'))) :=
  (acts_order ht hu).bind fun _ eq => eq ▸ .pure (.ofBool _)

lemma acts_comparison (c : Comparison) :
    C.Acts d C.Verdicts (fun n => runComparison n c t u) (fun n => runComparison n c t' u') := by
  refine Acts.resolve ht fun {t t'} ht => Acts.resolve hu fun {u u'} hu => ?_
  have same : c.test t' u' = c.test t u := by
    unfold Comparison.test Arithmetic.order
    rw [(C.alike ht).evaluate_eq, (C.alike hu).evaluate_eq]
  rw [same]
  exact (acts_raising _).bind fun _ eq => eq ▸ .pure (.ofBool _)

include hv

lemma acts_functor :
    C.Acts d C.Verdicts (fun n => runFunctor n t u v) (fun n => runFunctor n t' u' v') := by
  refine Acts.walk ht fun {t t'} ht => ?_
  rw [(C.alike ht).isVar_eq]
  cases t.isVar with
  | false =>
    obtain ⟨name, arity⟩ := nameAndArity_alike ht
    generalize nameAndArity t = na, nameAndArity t' = na' at name arity
    obtain ⟨name₁, k⟩ := na
    obtain ⟨name₁', k'⟩ := na'
    cases arity
    refine (Acts.unify hu name).bind fun {e r r'} before eq => ?_
    subst eq
    cases r with
    | false => exact .pure .fail
    | true => exact acts_unify (C.later before hv) ((C.like e).number _)
  | true =>
    refine Acts.walk hu fun {u u'} hu => Acts.walk hv fun {v v'} hv => ?_
    refine (acts_givenArity hv).bind fun {e k k'} before eq => ?_
    subst eq
    have ht := C.later before ht
    have hu := C.later before hu
    have whole := C.alike hu
    rw [whole.isVar_eq, whole.isAtomic_eq]
    split
    · exact .raise (.same _)
    split
    · exact acts_unify ht hu
    · have alike := whole
      cases alike with
      | atom f =>
        refine (acts_freshArgs k).bind fun before args => ?_
        exact acts_unify (C.later before ht) ((C.like _).build f args)
      | _ => exact .raise (.notA .atom whole)

lemma acts_arg :
    C.Acts d C.Verdicts (fun n => runArg n t u v) (fun n => runArg n t' u' v') := by
  refine Acts.walk hu fun {u u'} hu => ?_
  rw [(C.alike hu).isVar_eq, (C.alike hu).isStructure_eq]
  split
  · exact .raise (.same _)
  split
  · exact .raise (.notA .compound (C.alike hu))
  have args := (C.like d).args hu
  refine Acts.walk ht fun {k k'} hk => ?_
  have alike := C.alike hk
  have whole := alike
  cases alike with
  | number x =>
    cases x with
    | int i =>
      have found : Option.Rel (C.Terms d) (nthArg? u.args i) (nthArg? u'.args i) := by
        unfold nthArg?
        split
        · exact Term.rel_getElem? args _
        · exact .none
      simp only
      generalize nthArg? u.args i = r, nthArg? u'.args i = r' at found
      cases found with
      | none => exact .pure .fail
      | some alike => exact acts_unify hv alike
    | float x => exact .raise (.notA .integer whole)
  | var linked names =>
    refine .pure (.anyOf (C.like d) (forall₂_zipIdx args 0 fun a a' i ha => ?_))
    exact (C.like d).pair (by decide) (equation_alike ht ((C.like d).number _))
      (equation_alike hv ha)
  | _ => exact .raise (.notA .integer whole)

lemma acts_currentOp :
    C.Acts d C.Verdicts (fun _ => runCurrentOp t u v) (fun _ => runCurrentOp t' u' v') := by
  have like := C.like d
  refine Acts.get fun {w w'} same => .pure (.anyOf like ?_)
  rw [same, forall₂_map_left_iff, forall₂_map_right_iff, forall₂_same]
  intro op _
  exact like.conjoin (.cons (equation_alike ht (like.number _))
    (.cons (equation_alike hu (like.atom _)) (.cons (equation_alike hv (like.atom _)) .nil)))

lemma acts_op : C.Acts d C.Verdicts (fun n => runOp n t u v) (fun n => runOp n t' u' v') := by
  refine Acts.resolve ht fun {t t'} ht => Acts.resolve hu fun {u u'} hu => ?_
  refine Acts.resolve hv fun {v v'} hv => Acts.get fun {w w'} same => ?_
  have declared := OperatorTable.declareTerms_agree (C.alike ht) (C.alike hu) (C.alike hv)
    w.operators
  rw [same]
  generalize w.operators.declareTerms t u v = x, w.operators.declareTerms t' u' v' = x' at declared
  obtain ⟨result, ops⟩ := x
  obtain ⟨result', ops'⟩ := x'
  obtain ⟨agree, rfl⟩ := declared
  refine (Acts.setOperators _).bind fun before _ => ?_
  cases agree with
  | ok => exact .pure .succeed
  | error alike => exact .raise ((ExecutionError.Alike.operator alike).mono (C.kept before))

end

/-- Every built-in predicate does the same on related arguments. -/
lemma acts_run (b : Builtin) {as as' : List Term} (h : Forall₂ (C.Terms d) as as') :
    C.Acts d C.Verdicts (fun n => b.run n as) (fun n => b.run n as') := by
  have arg (i : Nat) : C.Terms d (as[i]?.getD .nil) (as'[i]?.getD .nil) := by
    have given := Term.rel_getElem? h i
    generalize as[i]? = x, as'[i]? = x' at given
    cases given with
    | none => exact (C.like d).atom _
    | some alike => exact alike
  cases b with
  | succeed => exact .pure .succeed
  | fail | falsity => exact .pure .fail
  | unify => exact acts_unify (arg 0) (arg 1)
  | notUnify => exact Acts.notUnify (arg 0) (arg 1)
  | identical => exact acts_same (arg 0) (arg 1) fun same => same
  | notIdentical => exact acts_same (arg 0) (arg 1) fun same => !same
  | termLess => exact acts_ordered (arg 0) (arg 1) (· = .lt)
  | termGreater => exact acts_ordered (arg 0) (arg 1) (· = .gt)
  | termLessEq => exact acts_ordered (arg 0) (arg 1) (· ≠ .gt)
  | termGreaterEq => exact acts_ordered (arg 0) (arg 1) (· ≠ .lt)
  | compare =>
    refine (acts_order (arg 1) (arg 2)).bind fun before same => ?_
    exact same ▸ acts_unify (C.later before (arg 0)) ((C.like _).atom _)
  | is =>
    refine Acts.resolve (arg 1) fun alike => ?_
    rw [(C.alike alike).evaluate_eq]
    refine (acts_raising _).bind fun before eq => ?_
    exact eq ▸ acts_unify (C.later before (arg 0)) ((C.like _).number _)
  | arithEqual | arithNotEqual | less | greater | lessEq | greaterEq =>
    exact acts_comparison (arg 0) (arg 1) _
  | var => exact acts_test (arg 0) Alike.isVar_eq
  | nonvar => exact acts_test (arg 0) fun h => by rw [h.isVar_eq]
  | atom | number | integer | float =>
    exact acts_test (arg 0) fun h => by cases h <;> rfl
  | atomic => exact acts_test (arg 0) Alike.isAtomic_eq
  | compound => exact acts_test (arg 0) Alike.isStructure_eq
  | callable => exact acts_test (arg 0) Alike.isCallable_eq
  | isList =>
    refine Acts.resolve (arg 0) fun {t t'} alike => ?_
    have items := (C.like d).items? alike
    generalize t.items? = x, t'.items? = x' at items
    cases items <;> exact .pure (.ofBool _)
  | functor => exact acts_functor (arg 0) (arg 1) (arg 2)
  | arg => exact acts_arg (arg 0) (arg 1) (arg 2)
  | univ => exact acts_univ (arg 0) (arg 1)
  | copyTerm =>
    refine (Acts.copy (arg 0)).bind fun before copy => ?_
    exact acts_unify (C.later before (arg 1)) copy
  | op => exact acts_op (arg 0) (arg 1) (arg 2)
  | currentOp => exact acts_currentOp (arg 0) (arg 1) (arg 2)
  | write =>
    refine (acts_written (arg 0)).bind fun _ text => ?_
    exact (Acts.write text).bind fun _ _ => .pure .succeed
  | writeln =>
    refine (acts_written (arg 0)).bind fun _ text => ?_
    exact (Acts.write (text.append (.same _))).bind fun _ _ => .pure .succeed
  | nl => exact (Acts.write (.same _)).bind fun _ _ => .pure .succeed
  | conjunction | disjunction | ifThen | softIfThen | negation | call | findall =>
    exact .raise (.same _)

end Builtin

lemma Clause.alike_rename (c : Clause) {base base' : Nat}
    (linked : ∀ v < c.idBound, ρ (base + v) (base' + v)) {g : Term}
    (part : g ∈ c.head.toList ++ c.body) :
    Alike ρ (Bindings.rename base g) (Bindings.rename base' g) :=
  Term.alike_rename fun v hv => linked v (Term.lt_idBoundAllFrom (.inr ⟨g, part, hv⟩))

namespace Machine

lemma addArgs_alike (like : Term.Likeness ρ R) {t t' : Term} (ht : R t t')
    (extra : Forall₂ R ts ts') :
    (∃ r r', addArgs t ts = .ok r ∧ addArgs t' ts' = .ok r' ∧ R r r') ∨
      ∃ x, addArgs t ts = .error x ∧ addArgs t' ts' = .error x := by
  have alike := like.alike ht
  have ok (callable : ∀ ts, addArgs t ts = if ts.isEmpty then .ok t else
        .ok (.build (t.name?.getD "") (t.args ++ ts)))
      (callable' : ∀ ts, addArgs t' ts = if ts.isEmpty then .ok t' else
        .ok (.build (t'.name?.getD "") (t'.args ++ ts))) :
      ∃ r r', addArgs t ts = .ok r ∧ addArgs t' ts' = .ok r' ∧ R r r' := by
    rw [callable, callable', alike.name?_eq]
    cases extra with
    | nil => exact ⟨t, t', rfl, rfl, ht⟩
    | cons first rest =>
      exact ⟨_, _, rfl, rfl, like.build _ (rel_append (like.args ht) (.cons first rest))⟩
  cases alike with
  | var | number => exact .inr ⟨_, rfl, rfl⟩
  | _ => exact .inl (ok (fun _ => rfl) fun _ => rfl)

lemma acts_unifyFound {ι : Type} {C : Coupling ι} {d : ι} {t t' : Term}
    (found : Forall₂ (C.Terms d) ts ts') (h : C.Terms d t t') :
    C.Acts d (fun _ => Eq) (fun n => unifyFound n ts t) (fun n => unifyFound n ts' t') := by
  refine (Coupling.Acts.mapM .copy found).bind fun before copies => ?_
  exact .unify (C.later before h) ((C.like _).list copies)

end Machine

end Horn
