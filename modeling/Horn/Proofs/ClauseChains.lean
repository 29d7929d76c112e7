import Horn.Predicate
import Mathlib.Tactic.Lemma

/-! # Chains of clauses -/

namespace Horn.Instruction

open List

variable {codes : List (List Instruction)}

def blockStart (codes : List (List Instruction)) (i : Nat) : Nat :=
  (codes.take i).flatten.length + i

def choiceAt (codes : List (List Instruction)) (i : Nat) : Instruction :=
  if i + 1 = codes.length then .trustMe
  else if i = 0 then .tryMeElse (blockStart codes (i + 1))
  else .retryMeElse (blockStart codes (i + 1))

/-- The places that are reached from a place by going from each choice to its alternative. -/
inductive Alternatives (code : List Instruction) : Nat → List Nat → Prop where
  | last {i : Nat} (choice : code[i]? = some .trustMe) : Alternatives code i [i]
  | next {i j : Nat} {js : List Nat} (choice : code[i]?.bind target? = some j)
      (more : Alternatives code j js) : Alternatives code i (i :: js)

def blocksOf (g : Nat → Instruction) (codes : List (List Instruction)) : List (List Instruction) :=
  codes.zipIdx.map fun (code, i) => g i :: code

structure Chained (codes : List (List Instruction)) (code : List Instruction) : Prop where
  blocks : code = (blocksOf (choiceAt codes) codes).flatten
  starts : ∀ i < codes.length, code[blockStart codes i]? = some (choiceAt codes i)
  visits : Alternatives code 0 ((List.range codes.length).map (blockStart codes))
  plain : code.filter (!·.isChoice) = codes.flatten

lemma resolve_plain {i : Instruction} (plain : i.isChoice = false) (labels : List (Nat × Nat)) :
    resolve labels i = i := by
  cases i <;> first | rfl | cases plain

section Blocks

variable (g : Nat → Instruction) (codes)

lemma length_blocks (k i : Nat) (inside : i ≤ codes.length) :
    (((codes.zipIdx k).map fun (c, j) => g j :: c).take i).flatten.length = blockStart codes i := by
  induction codes generalizing k i with
  | nil => simp_all [blockStart]
  | cons c codes ih =>
    cases i with
    | zero => rfl
    | succ i =>
      have rest := ih (k + 1) i (by simpa using inside)
      simp only [blockStart, zipIdx_cons, map_cons, take_succ_cons,
        flatten_cons, length_append, length_cons] at rest ⊢
      omega

lemma getElem?_blocks {i : Nat} (inside : i < codes.length) :
    (blocksOf g codes).flatten[blockStart codes i]? = some (g i) := by
  have block : (blocksOf g codes)[i]? = some (g i :: codes[i]) := by
    simp [blocksOf, getElem?_eq_getElem inside]
  have before : ((blocksOf g codes).take i).flatten.length = blockStart codes i :=
    length_blocks codes g 0 i (Nat.le_of_lt inside)
  generalize blocksOf g codes = blocks at block before ⊢
  obtain ⟨bound, eq⟩ := List.getElem?_eq_some_iff.1 block
  have whole : blocks.flatten = (blocks.take i).flatten ++ (g i :: (codes[i] ++
      (blocks.drop (i + 1)).flatten)) := by
    conv => lhs; rw [← take_append_drop i blocks, drop_eq_getElem_cons bound, eq]
    simp
  rw [whole, getElem?_append_right (Nat.le_of_eq before), before, Nat.sub_self]
  rfl

end Blocks

/-- The choice instruction before clause `i` of `n`, with the label `i`. -/
def choice (n i : Nat) : Instruction :=
  if i + 1 = n then .trustMe else if i = 0 then .tryMeElse i else .retryMeElse i

/-- The linker is through with the clauses `done`. A label that is still pending is taken as placed. -/
structure Linked (codes done : List (List Instruction)) (l : Linker) : Prop where
  instructions : l.placeLabel.instructions = (blocksOf (choice codes.length) done).flatten
  counter : l.placeLabel.labelCounter = min done.length (codes.length - 1)
  labels : ∀ j, l.placeLabel.labels.lookup j =
    if j < done.length ∧ j + 1 < codes.length then some (blockStart codes (j + 1)) else none
  ended : done.length = codes.length → l.placeLabel = l

namespace Linked

variable {done rest : List (List Instruction)} {code : List Instruction} {l : Linker}

lemma addClause (h : Linked codes done l) (split : codes = done ++ code :: rest)
    (several : 2 ≤ codes.length) :
    Linked codes (done ++ [code]) (l.addClause codes.length code done.length) := by
  have clear : l.placeLabel.pending = none := by
    unfold Linker.placeLabel
    split <;> simp_all
  have count : done.length + 1 ≤ codes.length := by simp [split]
  have blocks : (blocksOf (choice codes.length) (done ++ [code])).flatten =
      (blocksOf (choice codes.length) done).flatten ++ choice codes.length done.length :: code := by
    simp [blocksOf, zipIdx_append]
  have place := length_blocks (done ++ [code]) (choice codes.length) 0 (done.length + 1) (by simp)
  have same : blockStart (done ++ [code]) (done.length + 1) = blockStart codes (done.length + 1) := by
    simp [blockStart, split, take_append]
  rw [take_of_length_le (by simp), same] at place
  change (blocksOf _ (done ++ [code])).flatten.length = _ at place
  obtain ⟨instructions, counter, labels, -⟩ := h
  unfold Linker.addClause Linker.choose
  generalize l.placeLabel = m at clear instructions counter labels ⊢
  rw [if_neg (by omega)]
  by_cases more : done.length + 1 < codes.length
  · -- the label of the choice stands after the code
    have label : m.labelCounter = done.length := by omega
    have emitted : m.instructions ++ (if done.length = 0 then tryMeElse m.labelCounter
        else retryMeElse m.labelCounter) :: code =
          (blocksOf (choice codes.length) (done ++ [code])).flatten := by
      rw [blocks, instructions, label, choice, if_neg (Nat.ne_of_lt more)]
    rw [if_pos more]
    refine ⟨?_, ?_, fun j => ?_, ?_⟩
    · simpa [Linker.placeLabel, Linker.emit] using emitted
    · simp [Linker.placeLabel, Linker.emit, label]
      omega
    · rw [← emitted, length_append, length_cons] at place
      simp only [Linker.placeLabel, Linker.emit, lookup_append, labels, label]
      by_cases last : j = done.length
      · simp [last, more, place]
      · have : (j == done.length) = false := by simpa using last
        simp only [lookup_cons, this, length_append, length_singleton]
        grind
    · simp
      omega
  · have last : done.length + 1 = codes.length := by omega
    rw [if_neg more]
    refine ⟨?_, ?_, fun j => ?_, ?_⟩
    · simp [Linker.placeLabel, Linker.emit, instructions, blocks, choice, last, clear]
    · simp [Linker.placeLabel, Linker.emit, clear, counter]
      omega
    · simp only [Linker.placeLabel, Linker.emit, clear, labels, length_append, length_singleton]
      grind
    · simp [Linker.placeLabel, Linker.emit, clear]

lemma addAll (h : Linked codes done l) (split : codes = done ++ rest) (several : 2 ≤ codes.length) :
    Linked codes codes ((rest.zipIdx done.length).foldl
      (fun l (code, i) => l.addClause codes.length code i) l) := by
  induction rest generalizing done l with
  | nil => simpa [split] using h
  | cons code rest ih =>
    have next := h.addClause split several
    simpa using ih next (by simp [split])

end Linked

lemma resolve_choice {labels : List (Nat × Nat)} {i : Nat}
    (next : i + 1 ≠ codes.length → labels.lookup i = some (blockStart codes (i + 1))) :
    resolve labels (choice codes.length i) = choiceAt codes i := by
  unfold choice choiceAt
  split
  · rfl
  · next more => split <;> simp only [resolve, next more, Option.getD_some]

lemma link_of_le_one (few : codes.length ≤ 1) : link codes = codes.flatten := by
  have bare : resolve [] = id := funext fun i => by cases i <;> rfl
  rcases codes with _ | ⟨code, _ | _⟩
  · rfl
  · simp [link, Linker.addClause, Linker.placeLabel, Linker.choose, Linker.emit, Linker.empty, bare]
  · simp at few

lemma link_eq_blocks (several : 2 ≤ codes.length)
    (plain : ∀ code ∈ codes, ∀ i ∈ code, i.isChoice = false) :
    link codes = (blocksOf (choiceAt codes) codes).flatten := by
  have start : Linked codes [] .empty :=
    ⟨rfl, (Nat.zero_min _).symm, fun j => by simp [Linker.placeLabel, Linker.empty], fun _ => rfl⟩
  have linked : Linked codes codes (codes.zipIdx.foldl
      (fun l (code, i) => l.addClause codes.length code i) .empty) := start.addAll rfl several
  rw [link]
  generalize codes.zipIdx.foldl _ Linker.empty = l at linked ⊢
  obtain ⟨instructions, -, next, ended⟩ := linked
  rw [ended rfl] at instructions next
  rw [instructions, map_flatten, blocksOf, blocksOf, map_map]
  refine congrArg flatten (map_congr_left ?_)
  rintro ⟨code, i⟩ member
  have bare : code.map (resolve l.labels) = code := by
    conv => rhs; rw [← map_id code]
    refine map_congr_left fun j hj => resolve_plain (plain code ?_ j hj) l.labels
    exact fst_mem_of_mem_zipIdx member
  have inside : i < codes.length := snd_lt_of_mem_zipIdx member
  rw [Function.comp_apply, map_cons, bare, resolve_choice fun more => ?_]
  rw [next i, if_pos ⟨inside, by omega⟩]

lemma target?_choiceAt {i : Nat} (more : i + 1 ≠ codes.length) :
    (choiceAt codes i).target? = some (blockStart codes (i + 1)) := by
  rw [choiceAt, if_neg more]
  split <;> rfl

lemma alternatives_from {code : List Instruction}
    (starts : ∀ i < codes.length, code[blockStart codes i]? = some (choiceAt codes i)) (n k : Nat)
    (all : k + (n + 1) = codes.length) :
    Alternatives code (blockStart codes k) ((range' k (n + 1)).map (blockStart codes)) := by
  induction n generalizing k with
  | zero =>
    refine .last ?_
    rw [starts k (by omega), choiceAt, if_pos (by omega)]
  | succ n ih =>
    rw [range'_succ, map_cons]
    refine .next ?_ (ih (k + 1) (by omega))
    rw [starts k (by omega)]
    exact target?_choiceAt (by omega)

lemma isChoice_choiceAt (codes : List (List Instruction)) (i : Nat) :
    (choiceAt codes i).isChoice = true := by
  unfold choiceAt
  split
  · rfl
  · split <;> rfl

/-- The linked code of several clauses without choices is a chain of blocks, one for each clause. At
most one clause is linked to its own code. -/
theorem link_chains (codes : List (List Instruction))
    (plain : ∀ code ∈ codes, ∀ i ∈ code, i.isChoice = false) :
    (codes.length ≤ 1 → link codes = codes.flatten) ∧
      (2 ≤ codes.length → Chained codes (link codes)) := by
  refine ⟨link_of_le_one, fun several => ?_⟩
  have blocks := link_eq_blocks several plain
  have starts (i : Nat) (inside : i < codes.length) :
      (link codes)[blockStart codes i]? = some (choiceAt codes i) := by
    rw [blocks]
    exact getElem?_blocks codes (choiceAt codes) inside
  refine ⟨blocks, starts, ?_, ?_⟩
  · obtain ⟨n, count⟩ := Nat.exists_eq_add_of_le several
    have chain := alternatives_from starts (n + 1) 0 (by omega)
    rw [range_eq_range', count, Nat.add_comm]
    exact chain
  · rw [blocks, filter_flatten, blocksOf, map_map]
    have kept : codes.zipIdx.map (filter (!·.isChoice) ∘ fun (c, i) => choiceAt codes i :: c) =
        codes.zipIdx.map Prod.fst := by
      refine map_congr_left ?_
      rintro ⟨code, i⟩ member
      simp only [Function.comp_apply]
      rw [filter_cons_of_neg (by simp [isChoice_choiceAt])]
      refine filter_eq_self.2 fun j hj => ?_
      rw [plain code (fst_mem_of_mem_zipIdx member) j hj]
      rfl
    rw [kept, zipIdx_map_fst]

/-- Three clauses, the second without code: it is visited all the same. -/
theorem link_chains_three :
    let codes : List (List Instruction) := [[.getNil 1, .proceed], [], [.proceed]]
    Chained codes (link codes) ∧
      link codes = [.tryMeElse 3, .getNil 1, .proceed, .retryMeElse 4, .trustMe, .proceed] ∧
      Alternatives (link codes) 0 [0, 3, 4] := by
  intro codes
  have chained := (link_chains codes (by decide)).2 (by decide)
  exact ⟨chained, by decide, chained.visits⟩

end Horn.Instruction
