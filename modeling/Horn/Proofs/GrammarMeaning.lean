import Horn.Proofs.Substitutions
import Mathlib.Logic.Function.Basic

/-!
# What a grammar rule says of texts

A grammar body says of two texts that the first is some parse followed by the second. Predicates may
stand for any relations, but `=`, `,` and `;` are equality, conjunction and disjunction.
-/

namespace Horn

open List Term

variable {args : List Term} {f : String} {t : Term} {v : Nat}

universe u

/-- Values for terms and relations for goals. -/
structure Interpretation (D : Type u) where
  atom : String → D
  number : Number → D
  compound : String → List D → D
  cell : D → D → D
  holds : String → List D → Prop
  called : D → Prop

namespace Interpretation

variable {D : Type u} (I : Interpretation D)

mutual

def value (ρ : Nat → D) : Term → D
  | .atom a => I.atom a
  | .number n => I.number n
  | .var _ id => ρ id
  | .compound f args => I.compound f (values ρ args)
  | .cell h t => I.cell (value ρ h) (value ρ t)

def values (ρ : Nat → D) : List Term → List D
  | [] => []
  | t :: ts => value ρ t :: values ρ ts

end

def applies (f : String) : List D → Prop
  | [x, y] =>
    if f = "," then I.called x ∧ I.called y
    else if f = ";" then I.called x ∨ I.called y
    else if f = "=" then x = y
    else I.holds f [x, y]
  | xs => I.holds f xs

def truth (ρ : Nat → D) : Term → Prop
  | .compound f args =>
    match args with
    | [a, b] =>
      if f = "," then truth ρ a ∧ truth ρ b
      else if f = ";" then truth ρ a ∨ truth ρ b
      else I.applies f [I.value ρ a, I.value ρ b]
    | args => I.applies f (I.values ρ args)
  | .cell h t => I.applies "." [I.value ρ h, I.value ρ t]
  | .atom a => I.applies a []
  | .number n => I.called (I.number n)
  | .var _ id => I.called (ρ id)

def text (items : List D) (rest : D) : D := items.foldr I.cell rest

/-- Whether a grammar body leads from a text to what is left of it. -/
def consumes (ρ : Nat → D) : Term → D → D → Prop
  | .var _ id, x, y => I.applies "phrase" [ρ id, x, y]
  | .number _, _, _ => False
  | .cell h t, x, y =>
    match (Term.cell h t).items? with
    | some items => x = I.text (I.values ρ items) y
    | none => False
  | .atom a, x, y => if a = "[]" then x = y else I.applies a [x, y]
  | .compound f args, x, y =>
    match args with
    | [a, b] =>
      if f = "," then ∃ z, consumes ρ a x z ∧ consumes ρ b z y
      else if f = ";" ∨ f = "|" then consumes ρ a x y ∨ consumes ρ b x y
      else I.applies f [I.value ρ a, I.value ρ b, x, y]
    | [g] =>
      if f = "\x7b\x7d" then I.truth ρ g ∧ x = y
      else I.applies f [I.value ρ g, x, y]
    | args => I.applies f (I.values ρ args ++ [x, y])

/-- A rule with a pushback puts it in front of what its body leaves. -/
def consumesRule (ρ : Nat → D) (body : Term) : Option (List Term) → D → D → Prop
  | none, x, y => I.consumes ρ body x y
  | some items, x, y => ∃ z, I.consumes ρ body x z ∧ y = I.text (I.values ρ items) z

variable {I} {ρ ρ' : Nat → D}

lemma values_eq_map (ts : List Term) : I.values ρ ts = ts.map (I.value ρ) := by
  induction ts with
  | nil => rfl
  | cons t ts ih => rw [values, ih, map_cons]

lemma value_congr (same : ∀ v ∈ t.ids, ρ v = ρ' v) : I.value ρ t = I.value ρ' t := by
  induction t using induct with
  | atom | number => rfl
  | var name id => exact same id (by simp)
  | compound f args ih =>
    rw [value, value, values_eq_map, values_eq_map]
    congr 1
    exact map_congr_left fun a ha =>
      ih a ha fun v hv => same v (mem_ids_compound.2 ⟨a, ha, hv⟩)
  | cell h t ihh iht =>
    rw [value, value, ihh fun v hv => same v (mem_ids_cell.2 (.inl hv)),
      iht fun v hv => same v (mem_ids_cell.2 (.inr hv))]

lemma values_congr {ts : List Term} (same : ∀ t ∈ ts, ∀ v ∈ t.ids, ρ v = ρ' v) :
    I.values ρ ts = I.values ρ' ts := by
  rw [values_eq_map, values_eq_map]
  exact map_congr_left fun t ht => value_congr (same t ht)

lemma value_listTo (items : List Term) (t : Term) :
    I.value ρ (.listTo items t) = I.text (I.values ρ items) (I.value ρ t) := by
  induction items with
  | nil => rfl
  | cons a items ih => exact congrArg (I.cell (I.value ρ a)) ih

lemma truth_congr (same : ∀ v ∈ t.ids, ρ v = ρ' v) : I.truth ρ t ↔ I.truth ρ' t := by
  induction t using induct with
  | atom | number => rfl
  | var name id => rw [truth, truth, same id (by simp)]
  | cell h t _ _ =>
    rw [truth, truth, value_congr fun v hv => same v (mem_ids_cell.2 (.inl hv)),
      value_congr fun v hv => same v (mem_ids_cell.2 (.inr hv))]
  | compound f args ih =>
    have each (a : Term) (ha : a ∈ args) (v : Nat) (hv : v ∈ a.ids) :=
      same v (mem_ids_compound.2 ⟨a, ha, hv⟩)
    unfold truth
    split
    · next a b =>
      have first := ih a (by simp) (each a (by simp))
      have second := ih b (by simp) (each b (by simp))
      have value := value_congr (I := I) (each a (by simp))
      have value' := value_congr (I := I) (each b (by simp))
      rw [first, second, value, value']
    · rw [values_congr each]

end Interpretation

namespace Term

variable {items : List Term}

lemma mem_ids_listTo {rest : Term} :
    v ∈ (listTo items rest).ids ↔ (∃ a ∈ items, v ∈ a.ids) ∨ v ∈ rest.ids := by
  induction items with
  | nil => simp [listTo]
  | cons a items ih =>
    change v ∈ (cell a (listTo items rest)).ids ↔ _
    rw [mem_ids_cell, ih]
    simp [or_assoc]

lemma items?_atom {a : String} (h : (atom a).items? = some items) : a = "[]" ∧ items = [] := by
  simp only [items?] at h
  split at h
  · next isNil => exact ⟨by simpa [Term.isNil, isAtom] using isNil, (Option.some.inj h).symm⟩
  · cases h

lemma eq_listTo_of_items? (h : t.items? = some items) : t = listTo items nil := by
  induction t using induct generalizing items with
  | cell x y _ ih =>
    obtain ⟨rest, found, rfl⟩ := Option.map_eq_some_iff.1 h
    exact congrArg (cell x) (ih found)
  | atom a =>
    obtain ⟨rfl, rfl⟩ := items?_atom h
    rfl
  | number | var | compound => cases h

lemma mem_ids_of_items? (h : t.items? = some items) : v ∈ t.ids ↔ ∃ a ∈ items, v ∈ a.ids := by
  rw [eq_listTo_of_items? h, mem_ids_listTo, nil, ids_atom]
  simp

end Term

namespace Grammar

def isReserved (f : String) : List Term → Bool
  | [] => f = "!"
  | [_] => f = "\x7b\x7d" || f = "\\+"
  | [_, _] => f = "," || f = ";" || f = "|" || f = "->" || f = "*->"
  | _ => false

variable {items : List Term}

lemma ne_comma_of_bar (bar : f = ";" ∨ f = "|") : f ≠ "," := by
  rcases bar with rfl | rfl <;> decide

/-- A nonterminal with its name and arguments. A goal `call` with some arguments is one too. -/
inductive Nonterminal : Term → String → List Term → Prop where
  | atom {a : String} (empty : a ≠ "[]") (free : isReserved a [] = false) :
      Nonterminal (.atom a) a []
  | compound {f : String} {args : List Term} (free : isReserved f args = false) :
      Nonterminal (.compound f args) f args

/-- A grammar body without cuts, conditions and negations. -/
inductive Body : Term → Prop where
  | var (name : String) (id : Nat) : Body (.var name id)
  | terminals {t : Term} {items : List Term} (proper : t.items? = some items) : Body t
  | sequence {a b : Term} (left : Body a) (right : Body b) : Body (.compound "," [a, b])
  | either {f : String} {a b : Term} (bar : f = ";" ∨ f = "|") (left : Body a) (right : Body b) :
      Body (.compound f [a, b])
  | braces (g : Term) : Body (.compound "\x7b\x7d" [g])
  | nonterminal {t : Term} {f : String} {args : List Term} (named : Nonterminal t f args) : Body t

def textVar (id : Nat) : Term := .var ("_S" ++ toString id) id

/-- The goal for a body between the texts `i` and `j`; the texts in between are numbered from `n` up
to `m`. -/
inductive Threads : Term → Nat → Nat → Nat → Term → Nat → Prop where
  | var (name : String) (id i j n : Nat) :
      Threads (.var name id) i j n (.compound "phrase" [.var name id, textVar i, textVar j]) n
  | terminals {t : Term} {items : List Term} (proper : t.items? = some items) (i j n : Nat) :
      Threads t i j n (unify (textVar i) (.listTo items (textVar j))) n
  | sequence {a b left right : Term} {i j n k m : Nat} (first : Threads a i n (n + 1) left k)
      (second : Threads b n j k right m) :
      Threads (.compound "," [a, b]) i j n (conj left right) m
  | either {f : String} {a b left right : Term} {i j n k m : Nat} (bar : f = ";" ∨ f = "|")
      (first : Threads a i j n left k) (second : Threads b i j k right m) :
      Threads (.compound f [a, b]) i j n (.compound ";" [left, right]) m
  | braces (g : Term) (i j n : Nat) :
      Threads (.compound "\x7b\x7d" [g]) i j n (conj g (unify (textVar i) (textVar j))) n
  | nonterminal {t : Term} {f : String} {args : List Term} (named : Nonterminal t f args)
      (i j n : Nat) : Threads t i j n (.build f (args ++ [textVar i, textVar j])) n

lemma run_bind {α β : Type} {x : Threading α} {f : α → Threading β} {n k : Nat} {a : α}
    (h : x n = .ok (a, k)) : (x >>= f) n = f a k := by
  change (x n >>= fun r => f r.1 r.2) = _
  rw [h]
  rfl

lemma freshVar_run (n : Nat) : freshVar n = .ok (textVar n, n + 1) := rfl

lemma bodyGoal_terminals (proper : t.items? = some items) (before after : Term) (n : Nat) :
    bodyGoal t before after n = .ok (unify before (.listTo items after), n) := by
  cases t with
  | cell x y =>
    rw [bodyGoal, terminals, proper]
    rfl
  | atom a =>
    obtain ⟨rfl, rfl⟩ := items?_atom proper
    rfl
  | _ => cases proper

lemma bodyGoal_nonterminal (named : Nonterminal t f args) (before after : Term) (n : Nat) :
    bodyGoal t before after n = .ok (.build f (args ++ [before, after]), n) := by
  cases named with
  | atom empty free =>
    have cut : f ≠ "!" := by simpa [isReserved] using free
    rw [bodyGoal, if_neg empty, plain, if_neg cut]
    rfl
  | compound free =>
    match args, free with
    | [], free =>
      have cut : f ≠ "!" := by simpa [isReserved] using free
      rw [bodyGoal, plain, if_neg cut]
      rfl
    | [g], free =>
      have other : f ≠ "\x7b\x7d" ∧ f ≠ "\\+" := by simpa [isReserved] using free
      simp only [bodyGoal, other.1, other.2, if_false]
      rfl
    | [a, b], free =>
      have other : (((f ≠ "," ∧ f ≠ ";") ∧ f ≠ "|") ∧ f ≠ "->") ∧ f ≠ "*->" := by
        simpa [isReserved] using free
      obtain ⟨⟨⟨⟨sequence, either⟩, bar⟩, condition⟩, soft⟩ := other
      simp only [bodyGoal, sequence, either, bar, condition, soft, decide_false, Bool.or_self,
        Bool.false_eq_true, if_false]
      rfl
    | a :: b :: c :: rest, _ => rfl

lemma Body.threads (h : Body t) (i j n : Nat) :
    ∃ goal m, bodyGoal t (textVar i) (textVar j) n = .ok (goal, m) ∧ Threads t i j n goal m := by
  induction h generalizing i j n with
  | var name id => exact ⟨_, _, rfl, .var name id i j n⟩
  | terminals proper => exact ⟨_, _, bodyGoal_terminals proper _ _ n, .terminals proper i j n⟩
  | @sequence a b _ _ ihl ihr =>
    obtain ⟨left, k, first, threads⟩ := ihl i n (n + 1)
    obtain ⟨right, m, second, threads'⟩ := ihr n j k
    refine ⟨_, _, ?_, .sequence threads threads'⟩
    rw [bodyGoal, if_pos rfl, run_bind (freshVar_run n), run_bind first, run_bind second]
    rfl
  | @either f a b bar _ _ ihl ihr =>
    obtain ⟨left, k, first, threads⟩ := ihl i j n
    obtain ⟨right, m, second, threads'⟩ := ihr i j k
    refine ⟨_, _, ?_, .either bar threads threads'⟩
    have isBar : (f = ";" || f = "|") = true := by simpa using bar
    rw [bodyGoal, if_neg (ne_comma_of_bar bar), if_pos isBar, run_bind first, run_bind second]
    rfl
  | braces g => exact ⟨_, _, rfl, .braces g i j n⟩
  | nonterminal named =>
    exact ⟨_, _, bodyGoal_nonterminal named _ _ n, .nonterminal named i j n⟩

def joints : Term → Nat
  | .compound f args =>
    match args with
    | [a, b] =>
      if f = "," then 1 + joints a + joints b
      else if f = ";" ∨ f = "|" then joints a + joints b
      else 0
    | _ => 0
  | _ => 0

lemma joints_terminals (proper : t.items? = some items) : joints t = 0 := by
  cases t with
  | compound f args => cases proper
  | _ => rfl

lemma joints_nonterminal (named : Nonterminal t f args) : joints t = 0 := by
  cases named with
  | atom => rfl
  | compound free =>
    unfold joints
    split
    · simp only [isReserved, Bool.or_eq_false_iff, decide_eq_false_iff_not] at free
      simp [free]
    · rfl

lemma mem_ids_textVar {i : Nat} : v ∈ (textVar i).ids ↔ v = i := mem_ids_var

lemma mem_ids_unify {a b : Term} : v ∈ (unify a b).ids ↔ v ∈ a.ids ∨ v ∈ b.ids := by
  simp [unify]

lemma mem_ids_conj {a b : Term} : v ∈ (conj a b).ids ↔ v ∈ a.ids ∨ v ∈ b.ids := by
  simp [conj]

lemma mem_ids_nonterminal (named : Nonterminal t f args) : v ∈ t.ids ↔ ∃ a ∈ args, v ∈ a.ids := by
  cases named with
  | atom | compound => simp

namespace Threads

variable {goal : Term} {i j n m : Nat}

lemma next_eq (h : Threads t i j n goal m) : m = n + joints t := by
  induction h with
  | var => rfl
  | terminals proper => rw [joints_terminals proper, Nat.add_zero]
  | sequence _ _ ihl ihr =>
    rw [joints, if_pos rfl]
    omega
  | either bar _ _ ihl ihr =>
    rw [joints, if_neg (ne_comma_of_bar bar), if_pos bar]
    omega
  | braces => rfl
  | nonterminal named => rw [joints_nonterminal named, Nat.add_zero]

lemma mem_ids (h : Threads t i j n goal m) :
    v ∈ goal.ids ↔ v ∈ t.ids ∨ v = i ∨ v = j ∨ n ≤ v ∧ v < m := by
  induction h with
  | var name id i j n =>
    simp only [Term.mem_ids_compound, List.mem_cons, List.not_mem_nil, or_false, exists_eq_or_imp,
      exists_eq_left, mem_ids_textVar]
    grind
  | terminals proper i j n =>
    rw [mem_ids_unify, Term.mem_ids_listTo, ← Term.mem_ids_of_items? proper, mem_ids_textVar,
      mem_ids_textVar]
    grind
  | sequence first second ihl ihr =>
    have := first.next_eq
    have := second.next_eq
    rw [mem_ids_conj, ihl, ihr, Term.ids_pair, List.mem_append]
    grind
  | either _ first second ihl ihr =>
    have := first.next_eq
    have := second.next_eq
    rw [Term.ids_pair, Term.ids_pair, List.mem_append, List.mem_append, ihl, ihr]
    grind
  | braces g i j n =>
    rw [mem_ids_conj, mem_ids_unify, Term.ids_single, mem_ids_textVar, mem_ids_textVar]
    grind
  | nonterminal named i j n =>
    rw [Term.mem_ids_build, mem_ids_nonterminal named]
    simp only [List.mem_append, List.mem_cons, List.not_mem_nil, or_false, or_and_right, exists_or,
      exists_eq_left, mem_ids_textVar]
    grind

lemma isBody (h : Threads t i j n goal m) : Body t := by
  induction h with
  | var name id i j n => exact .var name id
  | terminals proper i j n => exact .terminals proper
  | sequence _ _ ihl ihr => exact .sequence ihl ihr
  | either bar _ _ ihl ihr => exact .either bar ihl ihr
  | braces g i j n => exact .braces g
  | nonterminal named i j n => exact .nonterminal named

end Threads

end Grammar

namespace Interpretation

open Grammar

variable {D : Type u} {I : Interpretation D} {ρ ρ' : Nat → D} {x y : D} {a b : Term} {i j m n : Nat}
  {goal : Term}

lemma truth_conj : I.truth ρ (conj a b) ↔ I.truth ρ a ∧ I.truth ρ b := by
  simp [conj, truth]

lemma truth_either : I.truth ρ (.compound ";" [a, b]) ↔ I.truth ρ a ∨ I.truth ρ b := by
  simp [truth]

lemma truth_unify : I.truth ρ (unify a b) ↔ I.value ρ a = I.value ρ b := by
  simp [unify, truth, applies]

lemma truth_build (f : String) (args : List Term) (i j : Nat) :
    I.truth ρ (.build f (args ++ [textVar i, textVar j])) ↔
      I.applies f (I.values ρ args ++ [ρ i, ρ j]) := by
  match args with
  | [] =>
    rw [nil_append, build]
    split
    · next dot =>
      subst dot
      rfl
    · rw [truth]
      simp only [textVar, truth, value, values, nil_append, applies]
      split
      · rfl
      · split <;> rfl
  | [a] => simp [build, truth, values, value, textVar]
  | [a, b] => simp [build, truth, values, value, textVar]
  | a :: b :: c :: rest => simp [build, truth, values_eq_map, value, textVar]

lemma consumes_terminals {items : List Term} (proper : t.items? = some items) :
    I.consumes ρ t x y ↔ x = I.text (I.values ρ items) y := by
  cases t with
  | cell h t => rw [consumes, proper]
  | atom a =>
    obtain ⟨rfl, rfl⟩ := items?_atom proper
    rfl
  | _ => cases proper

lemma consumes_sequence :
    I.consumes ρ (.compound "," [a, b]) x y ↔ ∃ z, I.consumes ρ a x z ∧ I.consumes ρ b z y := by
  rw [consumes, if_pos rfl]

lemma consumes_either (bar : f = ";" ∨ f = "|") :
    I.consumes ρ (.compound f [a, b]) x y ↔ I.consumes ρ a x y ∨ I.consumes ρ b x y := by
  rw [consumes, if_neg (ne_comma_of_bar bar), if_pos bar]

lemma consumes_braces {g : Term} :
    I.consumes ρ (.compound "\x7b\x7d" [g]) x y ↔ I.truth ρ g ∧ x = y := by
  rw [consumes, if_pos rfl]

lemma consumes_nonterminal (named : Nonterminal t f args) :
    I.consumes ρ t x y ↔ I.applies f (I.values ρ args ++ [x, y]) := by
  cases named with
  | atom empty free =>
    rw [consumes, if_neg empty]
    rfl
  | compound free =>
    unfold consumes
    split
    · simp only [isReserved, Bool.or_eq_false_iff, decide_eq_false_iff_not] at free
      obtain ⟨⟨⟨⟨sequence, either⟩, bar⟩, -⟩, -⟩ := free
      rw [if_neg sequence, if_neg (not_or.2 ⟨either, bar⟩)]
      rfl
    · simp only [isReserved, Bool.or_eq_false_iff, decide_eq_false_iff_not] at free
      rw [if_neg free.1]
      rfl
    · rfl

lemma consumes_congr (body : Body t) (same : ∀ v ∈ t.ids, ρ v = ρ' v) :
    I.consumes ρ t x y ↔ I.consumes ρ' t x y := by
  induction body generalizing x y with
  | var name id => rw [consumes, consumes, same id (by simp)]
  | terminals proper =>
    rw [consumes_terminals proper, consumes_terminals proper, values_congr fun a ha v hv =>
      same v ((mem_ids_of_items? proper).2 ⟨a, ha, hv⟩)]
  | sequence _ _ ihl ihr =>
    rw [ids_pair] at same
    simp only [consumes_sequence, ihl fun v hv => same v (mem_append_left _ hv),
      ihr fun v hv => same v (mem_append_right _ hv)]
  | either bar _ _ ihl ihr =>
    rw [ids_pair] at same
    rw [consumes_either bar, consumes_either bar, ihl fun v hv => same v (mem_append_left _ hv),
      ihr fun v hv => same v (mem_append_right _ hv)]
  | braces g =>
    rw [ids_single] at same
    rw [consumes_braces, consumes_braces, truth_congr same]
  | nonterminal named =>
    rw [consumes_nonterminal named, consumes_nonterminal named, values_congr fun a ha v hv =>
      same v ((mem_ids_nonterminal named).2 ⟨a, ha, hv⟩)]

lemma consumes_of_truth (h : Threads t i j n goal m)
    (holds : I.truth ρ goal) : I.consumes ρ t (ρ i) (ρ j) := by
  induction h with
  | var name id i j n => exact holds
  | terminals proper i j n =>
    rw [truth_unify, value_listTo] at holds
    exact (consumes_terminals proper).2 holds
  | @sequence _ _ _ _ _ _ n _ _ _ _ ihl ihr =>
    obtain ⟨left, right⟩ := truth_conj.1 holds
    exact consumes_sequence.2 ⟨ρ n, ihl left, ihr right⟩
  | either bar _ _ ihl ihr => exact (consumes_either bar).2 ((truth_either.1 holds).imp ihl ihr)
  | braces g i j n =>
    obtain ⟨left, right⟩ := truth_conj.1 holds
    exact consumes_braces.2 ⟨left, truth_unify.1 right⟩
  | nonterminal named i j n =>
    exact (consumes_nonterminal named).2 ((truth_build _ _ i j).1 holds)

lemma truth_of_consumes (h : Threads t i j n goal m)
    (below : ∀ v ∈ t.ids, v < n) (hi : i < n) (hj : j < n) (takes : I.consumes ρ t (ρ i) (ρ j)) :
    ∃ ρ', (∀ v < n, ρ' v = ρ v) ∧ I.truth ρ' goal := by
  induction h generalizing ρ with
  | var name id i j n => exact ⟨ρ, fun _ _ => rfl, takes⟩
  | terminals proper i j n =>
    refine ⟨ρ, fun _ _ => rfl, truth_unify.2 ?_⟩
    rw [value_listTo]
    exact (consumes_terminals proper).1 takes
  | @sequence a b left right i j n k m first second ihl ihr =>
    rw [ids_pair] at below
    have belowA (v : Nat) (hv : v ∈ a.ids) : v < n := below v (mem_append_left _ hv)
    have belowB (v : Nat) (hv : v ∈ b.ids) : v < n := below v (mem_append_right _ hv)
    have le : n + 1 ≤ k := first.next_eq ▸ Nat.le_add_right _ _
    obtain ⟨z, takesA, takesB⟩ := consumes_sequence.1 takes
    -- The text in between gets the value `z`, which nothing but the two parts depends on.
    have old (v : Nat) (hv : v < n) : Function.update ρ n z v = ρ v :=
      Function.update_of_ne (Nat.ne_of_lt hv) z ρ
    obtain ⟨ρ₁, same₁, true₁⟩ := ihl (ρ := Function.update ρ n z)
      (fun v hv => Nat.lt_succ_of_lt (belowA v hv)) (Nat.lt_succ_of_lt hi) (Nat.lt_succ_self n) (by
        rw [old i hi, Function.update_self]
        exact (consumes_congr first.isBody fun v hv => old v (belowA v hv)).2 takesA)
    have old₁ (v : Nat) (hv : v < n) : ρ₁ v = ρ v :=
      (same₁ v (Nat.lt_succ_of_lt hv)).trans (old v hv)
    obtain ⟨ρ₂, same₂, true₂⟩ := ihr (ρ := ρ₁) (fun v hv => Nat.lt_trans (belowB v hv) le)
      le (Nat.lt_trans hj le) (by
        rw [same₁ n (Nat.lt_succ_self n), Function.update_self, old₁ j hj]
        exact (consumes_congr second.isBody fun v hv => old₁ v (belowB v hv)).2 takesB)
    refine ⟨ρ₂, fun v hv => (same₂ v (Nat.lt_trans hv le)).trans (old₁ v hv), truth_conj.2 ⟨?_, true₂⟩⟩
    refine (truth_congr fun v hv => same₂ v ?_).2 true₁
    rcases first.mem_ids.1 hv with hv | rfl | rfl | hv
    · exact Nat.lt_trans (belowA v hv) le
    · exact Nat.lt_trans hi le
    · exact le
    · exact hv.2
  | @either _ _ _ _ _ _ _ n k _ bar first second ihl ihr =>
    rw [ids_pair] at below
    have le : n ≤ k := first.next_eq ▸ Nat.le_add_right _ _
    rcases (consumes_either bar).1 takes with takes | takes
    · obtain ⟨ρ₁, same, holds⟩ := ihl (fun v hv => below v (mem_append_left _ hv)) hi hj takes
      exact ⟨ρ₁, same, truth_either.2 (.inl holds)⟩
    · obtain ⟨ρ₁, same, holds⟩ := ihr
        (fun v hv => Nat.lt_of_lt_of_le (below v (mem_append_right _ hv)) le)
        (Nat.lt_of_lt_of_le hi le) (Nat.lt_of_lt_of_le hj le) takes
      exact ⟨ρ₁, fun v hv => same v (Nat.lt_of_lt_of_le hv le), truth_either.2 (.inr holds)⟩
  | braces g i j n =>
    obtain ⟨holds, same⟩ := consumes_braces.1 takes
    exact ⟨ρ, fun _ _ => rfl, truth_conj.2 ⟨holds, truth_unify.2 same⟩⟩
  | nonterminal named i j n =>
    exact ⟨ρ, fun _ _ => rfl, (truth_build _ _ i j).2 ((consumes_nonterminal named).1 takes)⟩

lemma exists_truth_iff (h : Threads t i j n goal m)
    (below : ∀ v ∈ t.ids, v < n) (hi : i < n) (hj : j < n) :
    (∃ ρ', (∀ v < n, ρ' v = ρ v) ∧ I.truth ρ' goal) ↔ I.consumes ρ t (ρ i) (ρ j) := by
  constructor
  · rintro ⟨ρ', same, holds⟩
    have takes := consumes_of_truth h holds
    rw [same i hi, same j hj] at takes
    exact (consumes_congr h.isBody fun v hv => same v (below v hv)).1 takes
  · exact truth_of_consumes h below hi hj

end Interpretation

namespace Grammar

def isNamed : Term → Bool
  | .atom _ | .compound _ _ => true
  | _ => false

/-- The head of a grammar rule: its nonterminal and, if it has one, its pushback. -/
inductive RuleHead : Term → Term → Option (List Term) → Prop where
  | plain {start : Term} (named : isNamed start = true)
      (alone : ∀ a b, start ≠ .compound "," [a, b]) : RuleHead start start none
  | pushback {start list : Term} {items : List Term} (named : isNamed start = true)
      (proper : list.items? = some items) :
      RuleHead (.compound "," [start, list]) start (some items)

inductive RuleGoal (body : Term) (n : Nat) : Option (List Term) → Term → Prop where
  | plain {goal : Term} {m : Nat} (threads : Threads body n (n + 1) (n + 2) goal m) :
      RuleGoal body n none goal
  | pushback {goal : Term} {m : Nat} (items : List Term)
      (threads : Threads body n (n + 2) (n + 3) goal m) :
      RuleGoal body n (some items)
        (conj goal (unify (textVar (n + 1)) (.listTo items (textVar (n + 2)))))

/-- The number of texts in the clause for a rule: two of the rule, one more before a pushback, and
those in the body. -/
def textCount (body : Term) (pushback : Option (List Term)) : Nat :=
  2 + joints body + if pushback.isSome then 1 else 0

variable {start : Term}
  {pushback : Option (List Term)} {head : Term}

lemma nonterminal?_named (named : isNamed start = true) (before after : Term) :
    ∃ newHead, nonterminal? start before after = some newHead ∧
      ∀ v, v ∈ newHead.ids ↔ v ∈ start.ids ∨ v ∈ before.ids ∨ v ∈ after.ids := by
  cases start with
  | atom a => exact ⟨_, rfl, fun v => by simp [mem_ids_build]⟩
  | compound f args =>
    refine ⟨_, rfl, fun v => ?_⟩
    rw [mem_ids_build, mem_ids_compound]
    simp [or_and_right, exists_or]
  | _ => cases named

lemma headParts_alone (alone : ∀ a b, start ≠ .compound "," [a, b]) :
    headParts start = (start, none) := by
  unfold headParts
  split
  · split
    · next comma =>
      subst comma
      exact absurd rfl (alone _ _)
    · rfl
  · rfl

lemma ruleClause_run {newHead body : Term} {n : Nat}
    (isHead : RuleHead head start pushback) (isBody : Body body)
    (extended : nonterminal? start (textVar n) (textVar (n + 1)) = some newHead) :
    ∃ newBody m, ruleClause head body n = .ok (.compound ":-" [newHead, newBody], m) ∧
      RuleGoal body n pushback newBody := by
  unfold ruleClause
  rw [run_bind (freshVar_run n), run_bind (freshVar_run (n + 1))]
  cases isHead with
  | plain named alone =>
    obtain ⟨goal, m, run, threads⟩ := isBody.threads n (n + 1) (n + 2)
    refine ⟨goal, m, ?_, .plain threads⟩
    simp only [headParts_alone alone, extended]
    rw [run_bind run]
    rfl
  | @pushback _ list items named proper =>
    obtain ⟨goal, m, run, threads⟩ := isBody.threads n (n + 2) (n + 3)
    refine ⟨_, m, ?_, .pushback items threads⟩
    have pushed : terminals list (textVar (n + 1)) (textVar (n + 2)) m =
        .ok (unify (textVar (n + 1)) (.listTo items (textVar (n + 2))), m) := by
      rw [terminals, proper]
      rfl
    simp only [headParts, if_pos, extended, proper, Option.isNone_some, Bool.false_eq_true, if_false]
    rw [run_bind (freshVar_run (n + 2)), run_bind run, run_bind pushed]
    rfl

section RuleGoal

variable {body newBody : Term} {n : Nat}

lemma RuleGoal.mem_ids (h : RuleGoal body n pushback newBody) :
    v ∈ newBody.ids ∨ v = n ∨ v = n + 1 ↔
      v ∈ body.ids ∨ (∃ items ∈ pushback, ∃ a ∈ items, v ∈ a.ids) ∨
        n ≤ v ∧ v < n + textCount body pushback := by
  cases h with
  | plain threads =>
    have := threads.next_eq
    have count : textCount body none = 2 + joints body := rfl
    rw [threads.mem_ids, count]
    grind
  | pushback items threads =>
    have := threads.next_eq
    have count : textCount body (some items) = 2 + joints body + 1 := rfl
    rw [mem_ids_conj, mem_ids_unify, mem_ids_listTo, threads.mem_ids, mem_ids_textVar,
      mem_ids_textVar, count]
    grind

lemma RuleGoal.exists_truth_iff {D : Type u} {I : Interpretation D} {ρ : Nat → D}
    (h : RuleGoal body n pushback newBody) (isBody : Body body) (below : ∀ v ∈ body.ids, v < n)
    (belowItems : ∀ items ∈ pushback, ∀ a ∈ items, ∀ v ∈ a.ids, v < n) :
    (∃ ρ', (∀ v < n + 2, ρ' v = ρ v) ∧ I.truth ρ' newBody) ↔
      I.consumesRule ρ body pushback (ρ n) (ρ (n + 1)) := by
  cases h with
  | plain threads =>
    exact Interpretation.exists_truth_iff threads (fun v hv => by have := below v hv; omega)
      (by omega) (by omega)
  | pushback items threads =>
    have values {ρ' : Nat → D} (same : ∀ v < n + 2, ρ' v = ρ v) :
        I.values ρ' items = I.values ρ items :=
      Interpretation.values_congr fun a ha v hv =>
        same v (Nat.lt_add_right 2 (belowItems items rfl a ha v hv))
    have takes {ρ' : Nat → D} {x z : D} (same : ∀ v < n + 2, ρ' v = ρ v) :
        I.consumes ρ' body x z ↔ I.consumes ρ body x z :=
      Interpretation.consumes_congr isBody fun v hv => same v (Nat.lt_add_right 2 (below v hv))
    constructor
    · rintro ⟨ρ', same, holds⟩
      obtain ⟨parsed, pushed⟩ := Interpretation.truth_conj.1 holds
      rw [Interpretation.truth_unify, Interpretation.value_listTo, values same] at pushed
      have parses := (takes same).1 (Interpretation.consumes_of_truth threads parsed)
      rw [same n (by omega)] at parses
      exact ⟨ρ' (n + 2), parses, (same (n + 1) (by omega)).symm.trans pushed⟩
    · rintro ⟨z, parses, pushed⟩
      have old (v : Nat) (hv : v < n + 2) : Function.update ρ (n + 2) z v = ρ v :=
        Function.update_of_ne (Nat.ne_of_lt hv) z ρ
      obtain ⟨ρ', same, holds⟩ := Interpretation.truth_of_consumes (I := I) threads
        (ρ := Function.update ρ (n + 2) z) (fun v hv => Nat.lt_add_right 3 (below v hv)) (by omega)
        (by omega) (by
          rw [old n (by omega), Function.update_self]
          exact (takes old).2 parses)
      have still (v : Nat) (hv : v < n + 2) : ρ' v = ρ v :=
        (same v (Nat.lt_succ_of_lt hv)).trans (old v hv)
      have last : ρ' (n + 2) = z := by rw [same (n + 2) (by omega), Function.update_self]
      refine ⟨ρ', still, Interpretation.truth_conj.2 ⟨holds, Interpretation.truth_unify.2 ?_⟩⟩
      rw [Interpretation.value_listTo, values still]
      change ρ' (n + 1) = I.text _ (ρ' (n + 2))
      rw [still (n + 1) (by omega), last, pushed]

end RuleGoal

lemma RuleHead.mem_ids (isHead : RuleHead head start pushback) :
    v ∈ head.ids ↔ v ∈ start.ids ∨ ∃ items ∈ pushback, ∃ a ∈ items, v ∈ a.ids := by
  cases isHead with
  | plain => simp
  | pushback named proper =>
    rw [ids_pair, mem_append, mem_ids_of_items? proper]
    simp

lemma RuleHead.isNamed
    (isHead : RuleHead head start pushback) : isNamed start = true := by
  cases isHead with
  | plain named | pushback named => exact named

/-- A grammar rule has a clause. It has the rule's variables and new ones above them, as many as
there are texts. For some values of the texts inside, the body of the clause says of the texts before
and after it what the rule says. -/
theorem toClause_keeps_meaning {head start body : Term} {pushback : Option (List Term)}
    (isHead : RuleHead head start pushback) (isBody : Body body) :
    let rule := Term.compound "-->" [head, body]
    ∃ newHead newBody, toClause rule = .ok (.compound ":-" [newHead, newBody]) ∧
      nonterminal? start (textVar rule.idBound) (textVar (rule.idBound + 1)) = some newHead ∧
      (∀ v ∈ rule.ids, v < rule.idBound) ∧
      (∀ v, v ∈ (Term.compound ":-" [newHead, newBody]).ids ↔
        v ∈ rule.ids ∨ rule.idBound ≤ v ∧ v < rule.idBound + textCount body pushback) ∧
      ∀ {D : Type u} (I : Interpretation D) (ρ : Nat → D),
        (∃ ρ', (∀ v < rule.idBound + 2, ρ' v = ρ v) ∧ I.truth ρ' newBody) ↔
          I.consumesRule ρ body pushback (ρ rule.idBound) (ρ (rule.idBound + 1)) := by
  intro rule
  have bounded (v : Nat) (hv : v ∈ rule.ids) : v < rule.idBound := Term.lt_idBound hv
  have parts (v : Nat) : v ∈ rule.ids ↔
      v ∈ start.ids ∨ (∃ items ∈ pushback, ∃ a ∈ items, v ∈ a.ids) ∨ v ∈ body.ids := by
    rw [Term.ids_pair, List.mem_append, isHead.mem_ids, or_assoc]
  obtain ⟨newHead, extended, headIds⟩ := nonterminal?_named isHead.isNamed
    (textVar rule.idBound) (textVar (rule.idBound + 1))
  obtain ⟨newBody, m, run, goal⟩ := ruleClause_run isHead isBody extended
  refine ⟨newHead, newBody, ?_, extended, bounded, fun v => ?_, fun I ρ => ?_⟩
  · change (·.1) <$> ruleClause head body rule.idBound = _
    rw [run]
    rfl
  · have bodyIds := goal.mem_ids (v := v)
    rw [Term.ids_pair, List.mem_append, headIds, parts, mem_ids_textVar, mem_ids_textVar]
    grind
  · refine goal.exists_truth_iff isBody (fun v hv => ?_) fun items hi a ha v hv => ?_
    · exact bounded v ((parts v).2 (.inr (.inr hv)))
    · exact bounded v ((parts v).2 (.inr (.inl ⟨items, hi, a, ha, hv⟩)))

/-- `digit(D), [X] --> ([D] | call(rest, X)), {D >= 48}, b` -/
theorem toClause_keeps_meaning_digit :
    let d : Term := .var "D" 0
    let x : Term := .var "X" 1
    let start : Term := .compound "digit" [d]
    let head : Term := .compound "," [start, .list [x]]
    let goal : Term := .compound ">=" [d, .int 48]
    let body : Term := .compound "," [.compound "|" [.list [d], .compound "call" [.atom "rest", x]],
      .compound "," [.compound "\x7b\x7d" [goal], .atom "b"]]
    let newBody : Term :=
      conj (conj (.compound ";" [unify (textVar 2) (.cell d (textVar 5)),
          .compound "call" [.atom "rest", x, textVar 2, textVar 5]])
        (conj (conj goal (unify (textVar 5) (textVar 6))) (.compound "b" [textVar 6, textVar 4])))
      (unify (textVar 3) (.cell x (textVar 4)))
    RuleHead head start (some [x]) ∧ Body body ∧
      toClause (.compound "-->" [head, body]) =
        .ok (.compound ":-" [.compound "digit" [d, textVar 2, textVar 3], newBody]) ∧
      ∀ {D : Type} (I : Interpretation D) (ρ : Nat → D),
        (∃ ρ', (∀ v < 4, ρ' v = ρ v) ∧ I.truth ρ' newBody) ↔
          I.consumesRule ρ body (some [x]) (ρ 2) (ρ 3) := by
  intro d x start head goal body newBody
  have isHead : RuleHead head start (some [x]) := .pushback rfl rfl
  have isBody : Body body :=
    .sequence (.either (.inr rfl) (.terminals rfl) (.nonterminal (.compound rfl)))
      (.sequence (.braces goal) (.nonterminal (.atom (by decide) rfl)))
  have clause : toClause (.compound "-->" [head, body]) =
      .ok (.compound ":-" [.compound "digit" [d, textVar 2, textVar 3], newBody]) := by rfl
  obtain ⟨_, _, made, -, -, -, meaning⟩ := toClause_keeps_meaning isHead isBody
  cases clause.symm.trans made
  exact ⟨isHead, isBody, clause, meaning⟩

end Grammar

end Horn
