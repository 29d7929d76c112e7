import Horn.Proofs.ClauseSearch

/-!
# Terms that differ in their variables

A link says which variable of the one stands for which of the other, and terms are alike under a
link if they differ in linked variables only.
-/

namespace Horn

open List Term Bindings Option WriteStyle Arithmetic Search

/-- Which variables of one run stand for which of another. -/
abbrev Link := Nat → Nat → Prop

variable {ρ : Link} {t : Term}

namespace Link

variable {τ : Link}

def Ordered (ρ : Link) : Prop := ∀ ⦃i i' j j'⦄, ρ i i' → ρ j j' → (i < j ↔ i' < j')

lemma Ordered.eq_iff (h : ρ.Ordered) {i i' j j' : Nat} (hi : ρ i i') (hj : ρ j j') :
    i = j ↔ i' = j' := by
  have up := h hi hj
  have down := h hj hi
  omega

def Within (ρ τ : Link) : Prop := ∀ ⦃i i'⦄, ρ i i' → τ i i'

lemma Within.refl (ρ : Link) : ρ.Within ρ := fun _ _ h => h

lemma Within.trans {υ : Link} (h : ρ.Within τ) (h' : τ.Within υ) : ρ.Within υ :=
  fun _ _ linked => h' (h linked)

end Link

/-- Texts that differ in the names of linked variables only. -/
inductive Renamed (ρ : Link) : String → String → Prop where
  | same (s : String) : Renamed ρ s s
  | name {i i' : Nat} (linked : ρ i i') : Renamed ρ ("_G" ++ toString i) ("_G" ++ toString i')
  | append {s s' t t' : String} (left : Renamed ρ s s') (right : Renamed ρ t t') :
    Renamed ρ (s ++ t) (s' ++ t')

lemma Renamed.mono {τ : Link} {s s' : String} (h : Renamed ρ s s') (within : ρ.Within τ) :
    Renamed τ s s' := by
  induction h with
  | same s => exact .same s
  | name linked => exact .name (within linked)
  | append _ _ left right => exact .append left right

namespace Term

/-- Terms that differ in linked variables only. Linked variables are the same, or each has the name
that the store gives to it. -/
inductive Alike (ρ : Link) : Term → Term → Prop where
  | atom (a : String) : Alike ρ (.atom a) (.atom a)
  | number (n : Number) : Alike ρ (.number n) (.number n)
  | var {name name' : String} {i i' : Nat} (linked : ρ i i')
    (names : name = name' ∧ i = i' ∨ name = "_G" ++ toString i ∧ name' = "_G" ++ toString i') :
    Alike ρ (.var name i) (.var name' i')
  | compound (f : String) {as as' : List Term} (args : List.Forall₂ (Alike ρ) as as') :
    Alike ρ (.compound f as) (.compound f as')
  | cell {h h' t t' : Term} (head : Alike ρ h h') (tail : Alike ρ t t') :
    Alike ρ (.cell h t) (.cell h' t')

lemma alike_mapVars {f g : String → Nat → Term} (t : Term)
    (h : ∀ v ∈ t.namedVars, Alike ρ (f v.1 v.2) (g v.1 v.2)) :
    Alike ρ (t.mapVars f) (t.mapVars g) := by
  induction t using induct with
  | atom a => exact .atom a
  | number n => exact .number n
  | var name id => exact h (name, id) (mem_namedVars.2 (self_mem_subterms _))
  | compound f args ih =>
    rw [mapVars, mapVars, mapAllVars_eq, mapAllVars_eq]
    refine .compound f (forall₂_map_left_iff.2 (forall₂_map_right_iff.2 ?_))
    exact forall₂_same.2 fun a ha =>
      ih a ha fun v hv => h v (namedVars_sub (subterms_arg ha) hv)
  | cell x y ihx ihy =>
    exact .cell (ihx fun v hv => h v (namedVars_sub subterms_head hv))
      (ihy fun v hv => h v (namedVars_sub subterms_tail hv))

lemma alike_self (h : ∀ v ∈ t.ids, ρ v v) : Alike ρ t t := by
  have self : Alike ρ (t.mapVars .var) (t.mapVars .var) :=
    alike_mapVars t fun v hv => .var (h v.2 (mem_map_of_mem hv)) (.inl ⟨rfl, rfl⟩)
  rwa [mapVars_var] at self

lemma alike_rename {base base' : Nat} (h : ∀ v ∈ t.ids, ρ (base + v) (base' + v)) :
    Alike ρ (rename base t) (rename base' t) :=
  alike_mapVars t fun v hv => .var (h v.2 (mem_map_of_mem hv)) (.inr ⟨rfl, rfl⟩)

lemma rel_getElem? {R : Term → Term → Prop} {ts ts' : List Term} (h : Forall₂ R ts ts') (i : Nat) :
    Rel R ts[i]? ts'[i]? := by
  induction h generalizing i with
  | nil => exact .none
  | cons first _ ih =>
    cases i with
    | zero => exact .some first
    | succ i => simpa using ih i

namespace Alike

variable {τ : Link} {t' u u' : Term} {ts ts' us us' : List Term}

@[elab_as_elim]
protected lemma induct {motive : ∀ t t', Alike ρ t t' → Prop} (atom : ∀ a, motive _ _ (.atom a))
    (number : ∀ n, motive _ _ (.number n))
    (var : ∀ {name name' i i'} (linked names), motive _ _ (@var ρ name name' i i' linked names))
    (compound : ∀ f {ts ts'} (args : Forall₂ (Alike ρ) ts ts'),
      Forall₂ (fun t t' => ∃ h, motive t t' h) ts ts' → motive _ _ (.compound f args))
    (cell : ∀ {t t' u u'} (head : Alike ρ t t') (tail : Alike ρ u u'), motive _ _ head →
      motive _ _ tail → motive _ _ (.cell head tail)) (h : Alike ρ t t') : motive t t' h := by
  induction t using Term.induct generalizing t' with
  | atom a => cases h; exact atom a
  | number n => cases h; exact number n
  | var =>
    cases h with
    | var linked names => exact var linked names
  | compound f as ih =>
    cases h with
    | compound f args =>
      have each : ∀ a ∈ as, ∀ a', Alike ρ a a' → ∃ h, motive a a' h :=
        fun a ha a' h => ⟨h, ih a ha h⟩
      exact compound f args (((forall₂_and_left _ _).2 ⟨each, args⟩).imp fun a a' h => h.1 a' h.2)
  | cell x y ihx ihy =>
    cases h with
    | cell head tail => exact cell _ _ (ihx head) (ihy tail)

lemma mono (h : Alike ρ t t') (within : ρ.Within τ) : Alike τ t t' := by
  induction h using Alike.induct with
  | atom a => exact .atom a
  | number n => exact .number n
  | var linked names => exact .var (within linked) names
  | compound f _ ih => exact .compound f (ih.imp fun _ _ h => h.snd)
  | cell _ _ ihx ihy => exact .cell ihx ihy

lemma mono_all (h : Forall₂ (Alike ρ) ts ts') (within : ρ.Within τ) : Forall₂ (Alike τ) ts ts' :=
  h.imp fun _ _ alike => alike.mono within

lemma fresh {i i' : Nat} (linked : ρ i i') : Alike ρ (varOf i) (varOf i') :=
  .var linked (.inr ⟨rfl, rfl⟩)

section Tops

variable (h : Alike ρ t t')

include h

lemma isVar_eq : t'.isVar = t.isVar := by cases h <;> rfl

lemma isAtom_eq (a : String) : t'.isAtom a = t.isAtom a := by cases h <;> rfl

lemma isNil_eq : t'.isNil = t.isNil := h.isAtom_eq _

lemma isCallable_eq : t'.isCallable = t.isCallable := by cases h <;> rfl

lemma isAtomic_eq : t'.isAtomic = t.isAtomic := by cases h <;> rfl

lemma isStructure_eq : t'.isStructure = t.isStructure := by cases h <;> rfl

lemma name?_eq : t'.name? = t.name? := by cases h <;> rfl

lemma args : Forall₂ (Alike ρ) t.args t'.args := by
  cases h with
  | compound f args => exact args
  | cell head tail => exact .cons head (.cons tail .nil)
  | _ => exact .nil

lemma arity_eq : t'.arity = t.arity := h.args.length_eq.symm

lemma functor?_eq : t'.functor? = t.functor? := by
  rw [functor?, functor?, h.name?_eq, h.arity_eq]

lemma arg? (i : Nat) : Rel (Alike ρ) (t.arg? i) (t'.arg? i) :=
  rel_getElem? h.args i

lemma mayUnify_eq (x : Term) : t'.mayUnify x = t.mayUnify x := by
  cases h with
  | compound f args => exact (mayUnify_compound args.length_eq.symm).2
  | _ => cases x <;> rfl

end Tops

lemma build (f : String) (h : Forall₂ (Alike ρ) ts ts') : Alike ρ (build f ts) (build f ts') := by
  rcases h with _ | ⟨ha, _ | ⟨hb, _ | ⟨hc, more⟩⟩⟩
  · exact .atom f
  · exact .compound f (.cons ha .nil)
  · simp only [build]
    split
    · exact .cell ha hb
    · exact .compound f (.cons ha (.cons hb .nil))
  · exact .compound f (.cons ha (.cons hb (.cons hc more)))

section Compared

variable (ordered : ρ.Ordered)
include ordered

lemma same_eq (ht : Alike ρ t t') (hu : Alike ρ u u') : t'.same u' = t.same u := by
  have all {ts ts' us us' : List Term} (ih : Forall₂ (fun t t' => ∃ _ : Alike ρ t t',
      ∀ {u u'}, Alike ρ u u' → t'.same u' = t.same u) ts ts')
      (h : Forall₂ (Alike ρ) us us') : sameAll ts' us' = sameAll ts us := by
    induction ih generalizing us us' with
    | nil => cases h <;> rfl
    | cons first _ ih =>
      cases h with
      | nil => rfl
      | cons alike rest => rw [sameAll, sameAll, first.snd alike, ih rest]
  induction ht using Alike.induct generalizing u u' with
  | var linked =>
    cases hu with
    | var linked' => simp only [same, ordered.eq_iff linked linked']
    | _ => rfl
  | compound f _ ih =>
    cases hu with
    | compound g args => rw [same, same, all ih args]
    | _ => rfl
  | cell _ _ ihx ihy =>
    cases hu with
    | cell head tail => rw [same, same, ihx head, ihy tail]
    | _ => rfl
  | _ => cases hu <;> rfl

lemma order_eq (ht : Alike ρ t t') (hu : Alike ρ u u') : t'.order u' = t.order u := by
  have all {ts ts' us us' : List Term} (ih : Forall₂ (fun t t' => ∃ _ : Alike ρ t t',
      ∀ {u u'}, Alike ρ u u' → t'.order u' = t.order u) ts ts')
      (h : Forall₂ (Alike ρ) us us') : orderAll ts' us' = orderAll ts us := by
    induction ih generalizing us us' with
    | nil => cases h <;> rfl
    | cons first _ ih =>
      cases h with
      | nil => rfl
      | cons alike rest => rw [orderAll, orderAll, first.snd alike, ih rest]
  induction ht using Alike.induct generalizing u u' with
  | var linked =>
    cases hu with
    | var linked' =>
      have up := ordered linked linked'
      have down := ordered linked' linked
      simp only [order, Nat.compare_eq_ite_lt, up, down]
    | _ => rfl
  | compound f args ih =>
    cases hu with
    | compound g args' => rw [order, order, all ih args', args.length_eq, args'.length_eq]
    | cell head tail =>
      rcases ih with _ | ⟨⟨_, ha⟩, _ | ⟨⟨_, hb⟩, _ | ⟨_, more⟩⟩⟩
      case cons.cons.nil => simp only [order, ha head, hb tail]; rfl
      case cons.cons.cons => simp only [order, length_cons, more.length_eq]
      all_goals rfl
    | _ => rfl
  | cell _ _ ihx ihy =>
    cases hu with
    | cell head tail => rw [order, order, ihx head, ihy tail]
    | compound g args =>
      rcases args with _ | ⟨ha, _ | ⟨hb, _ | ⟨_, more⟩⟩⟩
      case cons.cons.nil => simp only [order, ihx ha, ihy hb]; rfl
      case cons.cons.cons => simp only [order, length_cons, more.length_eq]
      all_goals rfl
    | _ => rfl
  | _ => cases hu <;> rfl

end Compared

lemma evaluate_eq (h : Alike ρ t t') : evaluate t' = evaluate t := by
  induction h using Alike.induct with
  | compound f _ ih =>
    rcases ih with _ | ⟨⟨_, ha⟩, _ | ⟨⟨_, hb⟩, _ | ⟨_, more⟩⟩⟩
    case cons.nil => simp only [evaluate, ha]
    case cons.cons.nil => simp only [evaluate, ha, hb]
    case cons.cons.cons => simp only [evaluate, length_cons, more.length_eq]
    rfl
  | cell _ tail ih => simp only [evaluate, tail.isNil_eq, ih]
  | _ => rfl

section Text

open WriteStyle OperatorTable

lemma varText (h : Alike ρ t t') {name name' : String} {i i' : Nat} (top : t = .var name i)
    (top' : t' = .var name' i') : Renamed ρ (varText name i) (varText name' i') := by
  subst top top'
  cases h with
  | var linked names =>
    rcases names with ⟨rfl, rfl⟩ | ⟨rfl, rfl⟩
    · exact .same _
    · have shown (k : Nat) : varText ("_G" ++ toString k) k = "_G" ++ toString k := by
        unfold varText
        exact ite_id _
      rw [shown, shown]
      exact .name linked

lemma parenthesized {s s' : String} (wrap : Bool) (h : Renamed ρ s s') :
    Renamed ρ (parenthesized wrap s) (parenthesized wrap s') := by
  unfold WriteStyle.parenthesized
  split
  · exact .append (.append (.same _) h) (.same _)
  · exact h

lemma compoundText {style : WriteStyle} (f : String) (h : Forall₂ (fun t t' => ∀ max,
      Renamed ρ (termText style max t) (termText style max t')) ts ts') (max : Nat) :
    Renamed ρ (compoundText style max f ts) (compoundText style max f ts') := by
  have further {ts ts' : List Term} (h : Forall₂ (fun t t' => ∀ max,
      Renamed ρ (termText style max t) (termText style max t')) ts ts') :
      Renamed ρ (furtherText style ts) (furtherText style ts') := by
    induction h with
    | nil => exact .same _
    | cons text _ ih =>
      rw [furtherText, furtherText]
      exact .append (.append (.same _) (text _)) ih
  rcases h with _ | ⟨text, _ | ⟨right, _ | ⟨third, more⟩⟩⟩
  · exact .same _
  · rw [WriteStyle.compoundText, WriteStyle.compoundText]
    split
    · exact .append (.append (.same _) (text _)) (.same _)
    split
    · refine parenthesized _ ?_
      split
      · exact .append (.same _) (text _)
      · exact .append (.append (text _) (.same _)) (.same _)
    · exact .append (.append (.same _) (text _)) (.same _)
  · rw [WriteStyle.compoundText, WriteStyle.compoundText]
    split
    · exact parenthesized _ (.append (.append (text _) (.same _)) (right _))
    · exact .append (.append (.append (.append (.same _) (text _)) (.same _)) (right _)) (.same _)
  · have rest := further (.cons right (.cons third more))
    simp only [WriteStyle.compoundText]
    exact .append (.append (.append (.same _) (text _)) rest) (.same _)

lemma termText (h : Alike ρ t t') (style : WriteStyle) :
    (∀ max, Renamed ρ (termText style max t) (termText style max t')) ∧
      Renamed ρ (tailText style t) (tailText style t') := by
  induction h using Alike.induct with
  | atom | number => exact ⟨fun _ => .same _, .same _⟩
  | var linked names =>
    have text := (var linked names).varText rfl rfl
    simp only [tailText]
    exact ⟨fun _ => text, .append (.same _) text⟩
  | compound f _ ih =>
    have text := compoundText f (ih.imp fun _ _ h => h.snd.1)
    simp only [tailText]
    exact ⟨text, .append (.same _) (text _)⟩
  | cell _ _ ihx ihy =>
    simp only [tailText]
    exact ⟨fun _ => .append (.append (.append (.same _) (ihx.1 _)) ihy.2) (.same _),
      .append (.append (.same _) (ihx.1 _)) ihy.2⟩

lemma write (h : Alike ρ t t') (style : WriteStyle) :
    Renamed ρ (style.write t) (style.write t') :=
  (h.termText style).1 _

lemma text (h : Alike ρ t t') : Renamed ρ t.text t'.text := h.write _

end Text

end Alike

/-- Alike terms of which more may be known. It is known of their arguments too, and of what is built
from such terms. -/
structure Likeness (ρ : Link) (R : Term → Term → Prop) : Prop where
  alike : ∀ {t t'}, R t t' → Alike ρ t t'
  atom : ∀ a, R (.atom a) (.atom a)
  number : ∀ n, R (.number n) (.number n)
  fresh : ∀ {i i'}, ρ i i' → R (varOf i) (varOf i')
  args : ∀ {t t'}, R t t' → Forall₂ R t.args t'.args
  build : ∀ f {ts ts'}, Forall₂ R ts ts' → R (build f ts) (build f ts')
  again : ∀ {f as as' bs bs'}, R (.compound f as) (.compound f as') → bs.length = as.length →
    Forall₂ R bs bs' → R (.compound f bs) (.compound f bs')

lemma Alike.likeness (ρ : Link) : Likeness ρ (Alike ρ) where
  alike h := h
  atom := .atom
  number := .number
  fresh := .fresh
  args h := h.args
  build f _ _ h := .build f h
  again _ _ := .compound _

lemma Kind.likeness {T : Term → Prop} (kind : Kind T) (V : Nat → Prop) :
    Likeness (fun i i' => i' = i ∧ V i) fun t t' => t' = t ∧ (∀ id ∈ t.ids, V id) ∧ T t := by
  have same {ts ts' : List Term} (h : Forall₂ (fun t t' => t' = t ∧ (∀ id ∈ t.ids, V id) ∧ T t) ts ts') :
      ts' = ts ∧ (∀ t ∈ ts, ∀ id ∈ t.ids, V id) ∧ ∀ t ∈ ts, T t := by
    induction h with
    | nil => exact ⟨rfl, nofun, nofun⟩
    | cons first _ ih =>
      obtain ⟨rfl, vars, first⟩ := first
      obtain ⟨rfl, vars', rest⟩ := ih
      exact ⟨rfl, forall_mem_cons.2 ⟨vars, vars'⟩, forall_mem_cons.2 ⟨first, rest⟩⟩
  constructor
  case alike =>
    rintro _ t ⟨rfl, vars, -⟩
    exact alike_self fun v hv => ⟨rfl, vars v hv⟩
  case atom => exact fun a => ⟨rfl, nofun, kind.atom a⟩
  case number => exact fun n => ⟨rfl, nofun, kind.number n⟩
  case fresh =>
    rintro _ i ⟨rfl, var⟩
    exact ⟨rfl, fun id hid => mem_ids_var.1 hid ▸ var, kind.var _ _⟩
  case args =>
    rintro _ t ⟨rfl, vars, ht⟩
    refine forall₂_same.2 fun a ha => ⟨rfl, fun id hid => vars id ?_, kind.args ht a ha⟩
    cases t with
    | compound f as => exact mem_ids_compound.2 ⟨a, ha, hid⟩
    | cell x y =>
      rcases mem_pair.1 ha with rfl | rfl
      · exact mem_ids_cell.2 (.inl hid)
      · exact mem_ids_cell.2 (.inr hid)
    | _ => cases ha
  case build =>
    intro f ts ts' h
    obtain ⟨rfl, vars, each⟩ := same h
    refine ⟨rfl, fun id hid => ?_, kind.build f each⟩
    obtain ⟨a, ha, hid⟩ := mem_ids_build.1 hid
    exact vars a ha id hid
  case again =>
    rintro f as _ bs bs' ⟨-, -, ht⟩ length h
    obtain ⟨rfl, vars, each⟩ := same h
    refine ⟨rfl, fun id hid => ?_, kind.again ht length each⟩
    obtain ⟨a, ha, hid⟩ := mem_ids_compound.1 hid
    exact vars a ha id hid

namespace Likeness

variable {R : Term → Term → Prop} {t' u u' : Term} {ts ts' : List Term} (like : Likeness ρ R)

include like

lemma cell (ht : R t t') (hu : R u u') : R (.cell t u) (.cell t' u') :=
  like.build "." (.cons ht (.cons hu .nil))

lemma pair {f : String} (proper : f ≠ ".") (ht : R t t') (hu : R u u') :
    R (.compound f [t, u]) (.compound f [t', u']) := by
  have built := like.build f (.cons ht (.cons hu .nil))
  simpa only [Term.build, if_neg proper] using built

lemma unmarked (h : R t t') : R t.unmarked t'.unmarked := by
  have alike := like.alike h
  unfold Term.unmarked
  cases alike with
  | compound f args =>
    rcases args with _ | ⟨first, _ | ⟨_, _ | _⟩⟩
    case cons.cons.nil =>
      cases first with
      | number n =>
        rcases n with id | x
        · rcases like.args h with _ | ⟨-, _ | ⟨inner, -⟩⟩
          simp only [marked?]
          cases decide (f = markFunctor) && decide (0 ≤ id.toInt) with
          | false => exact h
          | true =>
            cases Builtin.ofId? id.toInt.toNat with
            | none => exact h
            | some b => exact inner
        · exact h
      | _ => exact h
    all_goals simpa [marked?] using h
  | _ => exact h

lemma list (h : Forall₂ R ts ts') : R (list ts) (list ts') := by
  induction h with
  | nil => exact like.atom _
  | cons first _ ih => exact like.cell first ih

lemma conjoin (h : Forall₂ R ts ts') : R (conjoin ts) (conjoin ts') := by
  induction h with
  | nil => exact like.atom _
  | cons first rest ih =>
    cases rest with
    | nil => exact first
    | cons => exact like.pair (by decide) first ih

lemma items? (h : R t t') : Rel (Forall₂ R) t.items? t'.items? := by
  induction t using induct generalizing t' with
  | cell x y _ ihy =>
    have alike := like.alike h
    cases alike with
    | @cell _ x' _ y' _ _ =>
      rcases like.args h with _ | ⟨head, _ | ⟨tail, -⟩⟩
      have rest := ihy tail
      simp only [Term.items?]
      generalize y.items? = r, y'.items? = r' at rest
      cases rest with
      | none => exact .none
      | some rest => exact .some (.cons head rest)
  | atom a =>
    cases like.alike h
    simp only [Term.items?]
    split
    · exact .some .nil
    · exact .none
  | _ => cases like.alike h; exact .none

end Likeness

end Term

inductive Except.Agree {ε α : Type} (E : ε → ε → Prop) : Except ε α → Except ε α → Prop where
  | ok (a : α) : Agree E (.ok a) (.ok a)
  | error {e e' : ε} (h : E e e') : Agree E (.error e) (.error e')

inductive OperatorError.Alike (ρ : Link) : OperatorError → OperatorError → Prop where
  | same (e : OperatorError) : Alike ρ e e
  | unknownType {s s' : String} (h : Renamed ρ s s') : Alike ρ (.unknownType s) (.unknownType s')
  | malformed {s s' : String} (h : Renamed ρ s s') : Alike ρ (.malformed s) (.malformed s')

namespace OperatorTable

variable {t' : Term}

lemma declaredPriority_agree (h : t.Alike ρ t') :
    Except.Agree (OperatorError.Alike ρ) (declaredPriority t) (declaredPriority t') := by
  have whole := h
  cases h with
  | number n =>
    cases declaredPriority (.number n) with
    | ok p => exact .ok p
    | error e => exact .error (.same e)
  | _ => exact .error (.malformed (.append (.same _) whole.text))

lemma declaredType_agree (h : t.Alike ρ t') :
    Except.Agree (OperatorError.Alike ρ) (declaredType t) (declaredType t') := by
  have whole := h
  cases h with
  | atom a =>
    cases declaredType (.atom a) with
    | ok type => exact .ok type
    | error e => exact .error (.same e)
  | _ => exact .error (.unknownType whole.text)

lemma declaredNames_alike (h : t.Alike ρ t') :
    Forall₂ (Alike ρ) (declaredNames t) (declaredNames t') := by
  have members {r r' : Option (List Term)} (h : Rel (Forall₂ (Alike ρ)) r r')
      {ts ts' : List Term} (other : Forall₂ (Alike ρ) ts ts') :
      Forall₂ (Alike ρ) (r.getD ts) (r'.getD ts') := by
    cases h with
    | none => exact other
    | some items => exact items
  have whole := h
  cases h with
  | cell head tail => exact members ((Alike.likeness ρ).items? whole) (.cons whole .nil)
  | _ => exact .cons whole .nil

lemma declareNames_agree {ts ts' : List Term} (h : Forall₂ (Alike ρ) ts ts')
    (table : OperatorTable) (priority : Nat) (type : OpType) :
    Except.Agree (OperatorError.Alike ρ) (table.declareNames priority type ts).1
        (table.declareNames priority type ts').1 ∧
      (table.declareNames priority type ts').2 = (table.declareNames priority type ts).2 := by
  induction h generalizing table with
  | nil => exact ⟨.ok (), rfl⟩
  | @cons a a' _ _ first _ ih =>
    have other {a a' : Term} (h : a.Alike ρ a') : Except.Agree (OperatorError.Alike ρ)
        (.error (.malformed ("operator name " ++ a.text)) : Except OperatorError Unit)
        (.error (.malformed ("operator name " ++ a'.text))) :=
      .error (.malformed (.append (.same _) h.text))
    cases first with
    | atom name =>
      rw [declareNames, declareNames]
      cases table.declare priority type name with
      | ok result => exact ih result.2
      | error e => exact ⟨.error (.same e), rfl⟩
    | number n => exact ⟨other (.number n), rfl⟩
    | var linked names => exact ⟨other (.var linked names), rfl⟩
    | compound f args => exact ⟨other (.compound f args), rfl⟩
    | cell head tail => exact ⟨other (.cell head tail), rfl⟩

lemma declareTerms_agree {p p' names names' : Term} (hp : p.Alike ρ p') (ht : t.Alike ρ t')
    (hn : names.Alike ρ names') (table : OperatorTable) :
    Except.Agree (OperatorError.Alike ρ) (table.declareTerms p t names).1
        (table.declareTerms p' t' names').1 ∧
      (table.declareTerms p' t' names').2 = (table.declareTerms p t names).2 := by
  have priorities := declaredPriority_agree hp
  have types := declaredType_agree ht
  unfold declareTerms
  generalize declaredPriority p = x, declaredPriority p' = x' at priorities
  cases priorities with
  | error e => exact ⟨.error e, rfl⟩
  | ok priority =>
    generalize declaredType t = y, declaredType t' = y' at types
    cases types with
    | error e => exact ⟨.error e, rfl⟩
    | ok type => exact declareNames_agree (declaredNames_alike hn) table priority type

end OperatorTable

namespace ExecutionError

inductive Alike (ρ : Link) : ExecutionError → ExecutionError → Prop where
  | same (e : ExecutionError) : Alike ρ e e
  | type (expected : Expected) {s s' : String} (h : Renamed ρ s s') :
    Alike ρ (.type expected s) (.type expected s')
  | operator {e e' : OperatorError} (h : e.Alike ρ e') :
    Alike ρ (.domain (.operator e)) (.domain (.operator e'))

variable {τ : Link} {e e' : ExecutionError}

lemma Alike.notA (expected : Expected) {t' : Term} (h : t.Alike ρ t') :
    Alike ρ (ExecutionError.notA expected t) (ExecutionError.notA expected t') :=
  .type expected h.text

lemma Alike.mono (h : Alike ρ e e') (within : ρ.Within τ) : Alike τ e e' := by
  cases h with
  | same e => exact .same e
  | type expected h => exact .type expected (h.mono within)
  | operator h =>
    cases h with
    | same e => exact .same _
    | unknownType h => exact .operator (.unknownType (h.mono within))
    | malformed h => exact .operator (.malformed (h.mono within))

end ExecutionError

end Horn
