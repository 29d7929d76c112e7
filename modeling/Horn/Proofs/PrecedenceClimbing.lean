import Horn.Proofs.TermReading

/-!
# Climbing priorities

An operand is extended by one operator after another as long as the ceiling and the priority of what
is on the left allow it. This finds an allowed tree if there is one: an allowed tree can be turned
into one in which no operator could have gone to an operand on its left.
-/

namespace Horn

open List OperatorTable

inductive InfixTree where
  | leaf (x : Term)
  | node (left : InfixTree) (op : Operator) (right : InfixTree)

namespace InfixTree

variable {L R T U : InfixTree} {op : Operator} {max : Nat}

def priority : InfixTree → Nat
  | leaf _ => 0
  | node _ op _ => op.priority

def first : InfixTree → Term
  | leaf x => x
  | node left _ _ => left.first

def rest : InfixTree → List (Operator × Term)
  | leaf _ => []
  | node left op right => left.rest ++ (op, right.first) :: right.rest

def Allowed : InfixTree → Prop
  | leaf _ => True
  | node left op right =>
    left.Allowed ∧ right.Allowed ∧ left.priority ≤ op.leftMax ∧ right.priority ≤ op.rightMax

instance decidableAllowed : (T : InfixTree) → Decidable T.Allowed
  | leaf _ => isTrue trivial
  | node left _ right =>
    have := decidableAllowed left
    have := decidableAllowed right
    inferInstanceAs (Decidable (_ ∧ _ ∧ _ ∧ _))

def term : InfixTree → Term
  | leaf x => x
  | node left op right => .build op.name [left.term, right.term]

/-- An operator of no higher priority after the expression could go to its last operand. -/
def ceiling : InfixTree → Nat
  | leaf _ => 0
  | node _ op _ => op.rightMax

/-- No operator could have gone to the last operand on its left. -/
def Canonical : InfixTree → Prop
  | leaf _ => True
  | node left op right => left.Canonical ∧ right.Canonical ∧ left.ceiling < op.priority

lemma ceiling_le (T : InfixTree) : T.ceiling ≤ T.priority := by
  cases T with
  | leaf x => exact Nat.le_refl 0
  | node left op right => exact op.rightMax_le

def Halts (max : Nat) (rest : List (Operator × Term)) : Prop :=
  ∀ op x more, rest = (op, x) :: more → max < op.priority

/-- What extends the expression `left` by what follows it, up to the ceiling, comes to this
expression and leaves this. -/
inductive Climbs : Nat → InfixTree → List (Operator × Term) → InfixTree →
    List (Operator × Term) → Prop where
  | stop {max : Nat} {left : InfixTree} {rest : List (Operator × Term)}
      (refused : ∀ op x more, rest = (op, x) :: more →
        max < op.priority ∨ op.leftMax < left.priority) :
      Climbs max left rest left rest
  | step {max : Nat} {left right T : InfixTree} {op : Operator} {x : Term}
      {rest more after : List (Operator × Term)}
      (low : op.priority ≤ max) (fits : left.priority ≤ op.leftMax)
      (operand : Climbs op.rightMax (leaf x) rest right more)
      (further : Climbs max (node left op right) more T after) :
      Climbs max left ((op, x) :: rest) T after

variable {rest more after : List (Operator × Term)}

lemma Halts.climbs (h : Halts max rest) (T : InfixTree) : Climbs max T rest T rest :=
  .stop fun op x more eq => .inl (h op x more eq)

lemma Climbs.length_le (h : Climbs max L rest T after) : after.length ≤ rest.length := by
  induction h with
  | stop => exact Nat.le_refl _
  | step _ _ _ _ ih ih' =>
    rw [length_cons]
    omega

lemma exists_climbs (max : Nat) (L : InfixTree) (rest : List (Operator × Term)) :
    ∃ T after, Climbs max L rest T after := by
  induction len : rest.length using Nat.strongRecOn generalizing max L rest with
  | ind n ih =>
    match rest with
    | [] => exact ⟨L, [], .stop nofun⟩
    | (op, x) :: rest =>
      rw [length_cons] at len
      by_cases taken : op.priority ≤ max ∧ L.priority ≤ op.leftMax
      · obtain ⟨R, more, operand⟩ := ih rest.length (by omega) op.rightMax (leaf x) rest rfl
        have shorter := operand.length_le
        obtain ⟨T, after, further⟩ := ih more.length (by omega) max (node L op R) more rfl
        exact ⟨T, after, .step taken.1 taken.2 operand further⟩
      · refine ⟨L, _, .stop fun op' x' more eq => ?_⟩
        cases eq
        omega

lemma Climbs.unique {T' : InfixTree} {after' : List (Operator × Term)}
    (h : Climbs max L rest T after) (h' : Climbs max L rest T' after') :
    T = T' ∧ after = after' := by
  induction h generalizing T' after' with
  | stop refused =>
    cases h' with
    | stop => exact ⟨rfl, rfl⟩
    | step low fits _ _ =>
      have := refused _ _ _ rfl
      omega
  | step low fits _ _ ih ih' =>
    cases h' with
    | stop refused =>
      have := refused _ _ _ rfl
      omega
    | step _ _ operand further =>
      obtain ⟨rfl, rfl⟩ := ih operand
      exact ih' further

lemma Climbs.sound (h : Climbs max L rest T after) (allowed : L.Allowed)
    (le : L.priority ≤ max) :
    T.Allowed ∧ T.priority ≤ max ∧ T.first = L.first ∧ L.rest ++ rest = T.rest ++ after := by
  induction h with
  | stop => exact ⟨allowed, le, rfl, rfl⟩
  | step low fits _ _ ih ih' =>
    obtain ⟨right, right_le, first, taken⟩ := ih trivial (Nat.zero_le _)
    obtain ⟨whole, whole_le, first', taken'⟩ := ih' ⟨allowed, right, fits, right_le⟩ low
    refine ⟨whole, whole_le, first', ?_⟩
    rw [← taken', InfixTree.rest, append_assoc, cons_append, ← taken, first]
    rfl

lemma Canonical.climbs (canonical : T.Canonical) (allowed : T.Allowed) (le : T.priority ≤ max)
    (halts : Halts T.ceiling more) (further : Climbs max T more U after) :
    Climbs max (leaf T.first) (T.rest ++ more) U after := by
  induction T generalizing max more U after with
  | leaf x => exact further
  | node L op R ihL ihR =>
    obtain ⟨canonicalL, canonicalR, above⟩ := canonical
    obtain ⟨allowedL, allowedR, left_le, right_le⟩ := allowed
    have le : op.priority ≤ max := le
    have halts : Halts op.rightMax more := halts
    have operand : Climbs op.rightMax (leaf R.first) (R.rest ++ more) R more := by
      refine ihR canonicalR allowedR right_le ?_ (halts.climbs R)
      intro op' x' more' eq
      have lower := halts op' x' more' eq
      have := R.ceiling_le
      omega
    rw [InfixTree.rest, append_assoc, cons_append]
    refine ihL canonicalL allowedL ?_ ?_ (.step le left_le operand further)
    · have := op.leftMax_le
      omega
    · intro op' x' more' eq
      cases eq
      exact above

def join : InfixTree → Operator → InfixTree → InfixTree
  | leaf x, op, R => node (leaf x) op R
  | node left op' right, op, R =>
    if op.priority ≤ op'.rightMax then node left op' (join right op R)
    else node (node left op' right) op R

lemma join_first (L : InfixTree) (op : Operator) (R : InfixTree) :
    (join L op R).first = L.first := by
  cases L with
  | leaf x => rfl
  | node left op' right =>
    rw [join]
    split <;> rfl

lemma join_rest (L : InfixTree) (op : Operator) (R : InfixTree) :
    (join L op R).rest = L.rest ++ (op, R.first) :: R.rest := by
  induction L with
  | leaf x => rfl
  | node left op' right _ ih =>
    rw [join]
    split
    · simp only [InfixTree.rest, join_first, ih, append_assoc, cons_append]
    · rfl

lemma join_allowed (left : L.Allowed) (right : R.Allowed) (left_le : L.priority ≤ op.leftMax)
    (right_le : R.priority ≤ op.rightMax) :
    (join L op R).Allowed ∧ (join L op R).priority = op.priority := by
  induction L with
  | leaf x => exact ⟨⟨left, right, left_le, right_le⟩, rfl⟩
  | node L' op' R' _ ih =>
    rw [join]
    split
    · next turned =>
      obtain ⟨allowedL, allowedR, leftL, leftR⟩ := left
      have left_le : op'.priority ≤ op.leftMax := left_le
      have := op.leftMax_le
      have := op'.rightMax_le
      obtain ⟨joined, priority⟩ := ih allowedR (by omega)
      refine ⟨⟨allowedL, joined, leftL, by omega⟩, ?_⟩
      change op'.priority = op.priority
      omega
    · exact ⟨⟨left, right, left_le, right_le⟩, rfl⟩

lemma join_canonical (left : L.Canonical) (right : R.Canonical) (positive : 0 < op.priority) :
    (join L op R).Canonical := by
  induction L with
  | leaf x => exact ⟨left, right, positive⟩
  | node L' op' R' _ ih =>
    rw [join]
    split
    · exact ⟨left.1, ih left.2.1, left.2.2⟩
    · next above => exact ⟨left, right, Nat.lt_of_not_le above⟩

def canon : InfixTree → InfixTree
  | leaf x => leaf x
  | node left op right => join left.canon op right.canon

lemma canon_first (T : InfixTree) : T.canon.first = T.first := by
  induction T with
  | leaf x => rfl
  | node L op R ihL _ => rw [canon, join_first, ihL, first]

lemma canon_rest (T : InfixTree) : T.canon.rest = T.rest := by
  induction T with
  | leaf x => rfl
  | node L op R ihL ihR => rw [canon, join_rest, ihL, ihR, canon_first, InfixTree.rest]

lemma Allowed.canon (allowed : T.Allowed) :
    T.canon.Allowed ∧ T.canon.priority = T.priority := by
  induction T with
  | leaf x => exact ⟨trivial, rfl⟩
  | node L op R ihL ihR =>
    obtain ⟨allowedL, allowedR, left_le, right_le⟩ := allowed
    obtain ⟨left, eq⟩ := ihL allowedL
    obtain ⟨right, eq'⟩ := ihR allowedR
    exact join_allowed left right (by omega) (by omega)

def AllInfix (rest : List (Operator × Term)) : Prop :=
  ∀ p ∈ rest, p.1.fixity = .infixOp ∧ 0 < p.1.priority ∧ p.1.priority ≤ OperatorTable.maxPriority

lemma AllInfix.left (h : AllInfix (node L op R).rest) : AllInfix L.rest :=
  fun p hp => h p (mem_append_left _ hp)

lemma mem_rest_root : (op, R.first) ∈ (node L op R).rest :=
  mem_append_right _ mem_cons_self

lemma AllInfix.root (h : AllInfix (node L op R).rest) :
    op.fixity = .infixOp ∧ 0 < op.priority ∧ op.priority ≤ maxPriority :=
  h (op, R.first) mem_rest_root

lemma AllInfix.right (h : AllInfix (node L op R).rest) : AllInfix R.rest :=
  fun p hp => h p (mem_append_right _ (mem_cons_of_mem _ hp))

lemma AllInfix.canon_canonical (h : AllInfix T.rest) : T.canon.Canonical := by
  induction T with
  | leaf x => trivial
  | node L op R ihL ihR =>
    exact join_canonical (ihL h.left) (ihR h.right) h.root.2.1

lemma AllInfix.priority_le (h : AllInfix T.rest) : T.priority ≤ maxPriority := by
  cases T with
  | leaf x => exact Nat.zero_le _
  | node L op R => exact h.root.2.2

lemma Canonical.climbs_whole (canonical : T.Canonical) (allowed : T.Allowed)
    (infixes : AllInfix T.rest) :
    Climbs maxPriority (leaf T.first) T.rest T [] := by
  have halts : Halts T.ceiling [] := nofun
  have done : Climbs maxPriority T [] T [] := .stop nofun
  have climbs := canonical.climbs allowed infixes.priority_le halts done
  rwa [append_nil] at climbs

lemma climbs_whole_iff {x : Term} (infixes : AllInfix rest) :
    (∃ T, Climbs maxPriority (leaf x) rest T []) ↔
      ∃ T : InfixTree, T.Allowed ∧ T.first = x ∧ T.rest = rest := by
  constructor
  · rintro ⟨T, climbs⟩
    obtain ⟨allowed, -, first, taken⟩ := climbs.sound trivial (Nat.zero_le _)
    exact ⟨T, allowed, first, by simpa [InfixTree.rest] using taken.symm⟩
  · rintro ⟨T, allowed, rfl, rfl⟩
    refine ⟨T.canon, ?_⟩
    rw [← canon_first, ← canon_rest]
    refine infixes.canon_canonical.climbs_whole allowed.canon.1 ?_
    rwa [canon_rest]

/-- Of the operators of one priority, there are not both `xfy` and `yfx` operators. -/
def Unmixed (rest : List (Operator × Term)) : Prop :=
  ∀ p ∈ rest, ∀ q ∈ rest, p.1.type = .xfy → q.1.type = .yfx → p.1.priority ≠ q.1.priority

lemma type_of_max (fixity : op.fixity = .infixOp) (positive : 0 < op.priority) :
    (op.priority ≤ op.rightMax → op.type = .xfy) ∧ (op.priority ≤ op.leftMax → op.type = .yfx) := by
  obtain ⟨name, priority, type⟩ := op
  have less : ¬priority ≤ priority - 1 := Nat.not_le.2 (Nat.sub_lt positive Nat.one_pos)
  cases type
  case xfy => exact ⟨fun _ => rfl, fun h => absurd h less⟩
  case yfx => exact ⟨fun h => absurd h less, fun _ => rfl⟩
  case fy | yf => cases fixity
  all_goals exact ⟨fun h => absurd h less, fun h => absurd h less⟩

lemma Allowed.canonical (allowed : T.Allowed) (infixes : AllInfix T.rest)
    (unmixed : Unmixed T.rest) : T.Canonical := by
  induction T with
  | leaf x => trivial
  | node L op R ihL ihR =>
    obtain ⟨allowedL, allowedR, left_le, -⟩ := allowed
    refine ⟨ihL allowedL infixes.left ?_, ihR allowedR infixes.right ?_, ?_⟩
    · exact fun p hp q hq =>
        unmixed p (mem_append_left _ hp) q (mem_append_left _ hq)
    · exact fun p hp q hq => unmixed p (mem_append_right _ (mem_cons_of_mem _ hp))
        q (mem_append_right _ (mem_cons_of_mem _ hq))
    · obtain ⟨fixity, positive, -⟩ := infixes.root
      cases L with
      | leaf x => exact positive
      | node L' op' R' =>
        apply Nat.lt_of_not_le
        intro turned
        have inside : (op', R'.first) ∈ (node (node L' op' R') op R).rest :=
          mem_append_left _ mem_rest_root
        obtain ⟨fixity', positive', -⟩ := infixes.left.root
        -- The two priorities are between each other, so both are the same.
        have turned : op.priority ≤ op'.rightMax := turned
        have left_le : op'.priority ≤ op.leftMax := left_le
        have := op.leftMax_le
        have := op'.rightMax_le
        have xfy := (type_of_max fixity' positive').1 (by omega)
        have yfx := (type_of_max fixity positive).2 (by omega)
        exact unmixed _ inside _ mem_rest_root xfy yfx (show op'.priority = op.priority by omega)

end InfixTree

end Horn
