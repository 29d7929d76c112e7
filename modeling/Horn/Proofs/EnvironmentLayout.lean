import Horn.Layout
import Mathlib.Tactic.Lemma

/-!
# What the layout of a clause guarantees

A survey notes each occurrence of a variable with its chunk. From the notes alone follows what
lowering relies on: a variable without a slot stays in one chunk, and a slot is live up to the last
chunk that mentions it.
-/

namespace Horn

open List Term Bool Option BodyGoal Prod Survey

variable {chunk c y : Nat} {f : Occurrence → Occurrence} {use : SlotUse} {l : Layout} {g : BodyGoal}
  {slot : Slot} {id i : Nat}

namespace Term

lemma occurrencesAll_append (as bs : List Term) :
    occurrencesAll (as ++ bs) = occurrencesAll as ++ occurrencesAll bs := by
  induction as with
  | nil => rfl
  | cons a as ih => simp [occurrencesAll, ih]

lemma mem_occurrencesAll {ts : List Term} :
    id ∈ occurrencesAll ts ↔ ∃ t ∈ ts, id ∈ t.occurrences := by
  induction ts with
  | nil => simp [occurrencesAll]
  | cons t ts ih => simp [occurrencesAll, ih]

lemma occurrences_args {t : Term} (h : t.isStructure = true) :
    t.occurrences = occurrencesAll t.args := by
  cases t with
  | compound f args => rfl
  | cell hd tl => simp [occurrences, occurrencesAll, args]
  | atom | number | var => cases h

lemma count_args_le (t : Term) (id : Nat) :
    (occurrencesAll t.args).count id ≤ t.occurrences.count id := by
  cases hs : t.isStructure with
  | true => exact Nat.le_of_eq (by rw [occurrences_args hs])
  | false => cases t <;> simp_all [args, occurrencesAll, isStructure]

end Term

/-- Each goal with its chunk, from the chunk `k` on. -/
def BodyGoal.placed (k : Nat) : List BodyGoal → List (BodyGoal × Nat)
  | [] => []
  | g :: rest => (g, k) :: placed (if g.endsChunk then k + 1 else k) rest

def BodyGoal.lastChunk (k : Nat) : List BodyGoal → Nat
  | [] => k
  | g :: rest => lastChunk (if g.endsChunk then k + 1 else k) rest

/-- A variable and a chunk that it is mentioned in. -/
abbrev Mention := Nat × Nat

def BodyGoal.mentions (p : BodyGoal × Nat) : List Mention :=
  (occurrencesAll p.1.terms).map fun id => (id, p.2)

namespace VarTable

variable {t : VarTable} {k : Nat} {ms : List Mention}

lemma mem_update {o : Occurrence} :
    (i, o) ∈ t.update id chunk f ↔
      (i ≠ id ∧ (i, o) ∈ t) ∨ (i = id ∧ ((∃ o', (id, o') ∈ t ∧ o = f o') ∨
        ((∀ o', (id, o') ∉ t) ∧ o = f ⟨0, chunk, chunk, t.length⟩))) := by
  unfold update
  split
  · next h =>
    obtain ⟨⟨j, o₁⟩, hmem, hj⟩ := any_eq_true.1 h
    have hj : j = id := by simpa using hj
    subst hj
    rw [List.mem_map]
    constructor
    · rintro ⟨⟨k, o₂⟩, hk, he⟩
      by_cases hkj : k = j
      · subst hkj
        simp only [↓reduceIte, Prod.mk.injEq] at he
        exact .inr ⟨he.1.symm, .inl ⟨o₂, hk, he.2.symm⟩⟩
      · simp only [hkj, ↓reduceIte, Prod.mk.injEq] at he
        obtain ⟨rfl, rfl⟩ := he
        exact .inl ⟨hkj, hk⟩
    · rintro (⟨hne, hi⟩ | ⟨rfl, ⟨o', ho', rfl⟩ | ⟨none, _⟩⟩)
      · exact ⟨(i, o), hi, by simp [hne]⟩
      · exact ⟨(i, o'), ho', by simp⟩
      · exact absurd hmem (none o₁)
  · next h =>
    have absent : ∀ o', (id, o') ∉ t := by
      intro o' ho'
      exact h (any_eq_true.2 ⟨(id, o'), ho', by simp⟩)
    rw [List.mem_append, List.mem_singleton, Prod.mk.injEq]
    constructor
    · rintro (hi | ⟨rfl, rfl⟩)
      · exact .inl ⟨fun he => absent o (he ▸ hi), hi⟩
      · exact .inr ⟨rfl, .inr ⟨absent, rfl⟩⟩
    · rintro (⟨_, hi⟩ | ⟨rfl, ⟨o', ho', _⟩ | ⟨_, rfl⟩⟩)
      · exact .inl hi
      · exact absurd ho' (absent o')
      · exact .inr ⟨rfl, rfl⟩

/-- The place of a variable's first mention. -/
def rank (ms : List Mention) (id : Nat) : Nat := ms.findIdx (·.1 = id)

lemma rank_append (h : (id, c) ∈ ms) (m : Mention) :
    rank (ms ++ [m]) id = rank ms id ∧ rank ms id < ms.length := by
  have found : rank ms id < ms.length := findIdx_lt_length_of_exists ⟨_, h, by simp⟩
  exact ⟨by rw [rank, findIdx_append]; exact if_pos found, found⟩

/-- The table `t` has been made from these mentions, none of them in a chunk after `k`, with an entry
for each variable in the order of their first mentions. -/
structure Notes (answers : List Nat) (t : VarTable) (ms : List Mention) (k : Nat) : Prop where
  ranked : t.Pairwise fun x y => x.2.order < y.2.order ∧ rank ms x.1 < rank ms y.1
  bounded : ∀ x ∈ t, x.2.order < t.length
  entered : ∀ m ∈ ms, ∃ o, (m.1, o) ∈ t
  counted : ∀ i o, (i, o) ∈ t → o.count = ms.countP (·.1 = i)
  spans : ∀ i o, (i, o) ∈ t → ∀ c, (i, c) ∈ ms → o.first ≤ c ∧ c ≤ o.last
  reached : ∀ i o, (i, o) ∈ t → (i, o.last) ∈ ms
  opened : ∀ i o, (i, o) ∈ t → (i, o.first) ∈ ms ∨ i ∈ answers
  begun : ∀ i o, (i, o) ∈ t → o.first ≤ k

lemma Notes.nil (answers : List Nat) (k : Nat) : Notes answers [] [] k := by
  constructor <;> simp

section

variable {answers : List Nat} (h : Notes answers t ms k)

include h

lemma Notes.later {k' : Nat} (hk : k ≤ k') : Notes answers t ms k' :=
  { h with begun := fun i o ho => Nat.le_trans (h.begun i o ho) hk }

lemma Notes.countP_eq_zero (absent : ∀ o, (id, o) ∉ t) : ms.countP (·.1 = id) = 0 := by
  rw [List.countP_eq_zero]
  intro m hm he
  obtain ⟨o, ho⟩ := h.entered m hm
  exact absent o (by simpa [← of_decide_eq_true he] using ho)

lemma Notes.update_ranked (id c : Nat) (order : ∀ o, (f o).order = o.order) :
    ((t.update id k f).Pairwise fun x y => x.2.order < y.2.order ∧
      rank (ms ++ [(id, c)]) x.1 < rank (ms ++ [(id, c)]) y.1) ∧
    ∀ x ∈ t.update id k f, x.2.order < (t.update id k f).length := by
  have kept (x) (hx : x ∈ t) := rank_append (h.reached x.1 x.2 hx) (id, c)
  unfold update
  split
  · have same (x : Nat × Occurrence) : (if x.1 = id then (x.1, f x.2) else x).1 = x.1 ∧
        (if x.1 = id then (x.1, f x.2) else x).2.order = x.2.order := by
      split
      · exact ⟨rfl, order _⟩
      · exact ⟨rfl, rfl⟩
    refine ⟨pairwise_map.2 (h.ranked.imp_of_mem fun {x y} hx hy less => ?_), ?_⟩
    · dsimp only
      rw [(same x).1, (same y).1, (same x).2, (same y).2, (kept x hx).1, (kept y hy).1]
      exact less
    · rw [List.forall_mem_map, length_map]
      intro x hx
      rw [(same x).2]
      exact h.bounded x hx
  · next absent =>
    have last : rank (ms ++ [(id, c)]) id = ms.length := by
      have none : ¬ rank ms id < ms.length := by
        intro found
        obtain ⟨o, ho⟩ := h.entered _ (getElem_mem found)
        have named := findIdx_getElem (w := found)
        exact absent (any_eq_true.2 ⟨_, ho, named⟩)
      rw [rank, findIdx_append]
      refine (if_neg none).trans ?_
      simp
    refine ⟨pairwise_append.2 ⟨h.ranked.imp_of_mem fun {x y} hx hy less => ?_,
      pairwise_singleton _ _, fun x hx y hy => ?_⟩, fun x hx => ?_⟩
    · rw [(kept x hx).1, (kept y hy).1]
      exact less
    · rw [mem_singleton.1 hy, order, last, (kept x hx).1]
      exact ⟨h.bounded x hx, (kept x hx).2⟩
    · rw [length_append]
      rcases mem_append.1 hx with hx | hx
      · exact Nat.lt_add_right _ (h.bounded x hx)
      · rw [mem_singleton.1 hx, order]
        exact Nat.lt_succ_self _

/-- A mention in chunk `c` that changes the last chunk of an entry by `g`. -/
lemma Notes.mention {g : Nat → Nat} (hk : k ≤ c) (opens : c = k ∨ id ∈ answers)
    (last : ∀ n, (n ≤ g n ∨ ∀ d, (id, d) ∈ ms → d ≤ g n) ∧ c ≤ g n ∧ (g n = n ∨ g n = c)) :
    Notes answers (t.update id k fun o => { o with count := o.count + 1, last := g o.last })
      (ms ++ [(id, c)]) k := by
  obtain ⟨ranked, bounded⟩ := h.update_ranked id c
    (f := fun o => { o with count := o.count + 1, last := g o.last }) fun _ => rfl
  refine ⟨ranked, bounded, ?_, ?_, ?_, ?_, ?_, ?_⟩
  · intro m hm
    by_cases hid : m.1 = id
    · by_cases present : ∃ o, (id, o) ∈ t
      · obtain ⟨o, ho⟩ := present
        exact ⟨_, mem_update.2 (.inr ⟨hid, .inl ⟨o, ho, rfl⟩⟩)⟩
      · have absent : ∀ o, (id, o) ∉ t := fun o ho => present ⟨o, ho⟩
        exact ⟨_, mem_update.2 (.inr ⟨hid, .inr ⟨absent, rfl⟩⟩)⟩
    · rcases mem_append.1 hm with hm | hm
      · obtain ⟨o, ho⟩ := h.entered m hm
        exact ⟨o, mem_update.2 (.inl ⟨hid, ho⟩)⟩
      · rw [mem_singleton.1 hm] at hid
        exact absurd rfl hid
  all_goals
    intro i o ho
    rcases mem_update.1 ho with ⟨hne, ho⟩ | ⟨rfl, ⟨o', ho', rfl⟩ | ⟨absent, rfl⟩⟩
  · rw [countP_append, countP_singleton, h.counted i o ho]
    simp [Ne.symm hne]
  · rw [countP_append, countP_singleton, h.counted i o' ho']
    simp
  · rw [countP_append, countP_singleton, h.countP_eq_zero absent]
    simp
  · intro d hd
    rcases mem_append.1 hd with hd | hd
    · exact h.spans i o ho d hd
    · exact absurd (congrArg fst (mem_singleton.1 hd)) hne
  · intro d hd
    rcases mem_append.1 hd with hd | hd
    · have old := h.spans i o' ho' d hd
      rcases (last o'.last).1 with hl | hl
      · exact ⟨old.1, Nat.le_trans old.2 hl⟩
      · exact ⟨old.1, hl d hd⟩
    · obtain rfl : d = c := congrArg snd (mem_singleton.1 hd)
      exact ⟨Nat.le_trans (h.begun i o' ho') hk, (last _).2.1⟩
  · intro d hd
    rcases mem_append.1 hd with hd | hd
    · obtain ⟨o', ho'⟩ := h.entered (i, d) hd
      exact absurd ho' (absent o')
    · obtain rfl : d = c := congrArg snd (mem_singleton.1 hd)
      exact ⟨hk, (last _).2.1⟩
  · exact mem_append_left _ (h.reached i o ho)
  · rcases (last o'.last).2.2 with same | new <;> dsimp only
    · rw [same]
      exact mem_append_left _ (h.reached i o' ho')
    · rw [new]
      exact mem_append_right _ mem_cons_self
  · have new : g k = c := by
      have := last k
      omega
    dsimp only
    rw [new]
    exact mem_append_right _ mem_cons_self
  · exact (h.opened i o ho).imp_left (mem_append_left _)
  · exact (h.opened i o' ho').imp_left (mem_append_left _)
  · exact opens.imp_left fun same => mem_append_right _ (by rw [same]; exact mem_cons_self)
  · exact h.begun i o ho
  · exact h.begun i o' ho'
  · exact Nat.le_refl k

lemma Notes.note : Notes answers (t.note k id) (ms ++ [(id, k)]) k :=
  h.mention (g := (max · k)) (Nat.le_refl k) (.inl rfl) fun n => by omega

lemma Notes.notes (ids : List Nat) :
    Notes answers (ids.foldl (VarTable.note k) t) (ms ++ ids.map fun id => (id, k)) k := by
  induction ids generalizing t ms with
  | nil => simpa using h
  | cons id ids ih => simpa using ih h.note

lemma Notes.noteAnswer (old : ∀ m ∈ ms, m.2 ≤ k + 1) (asked : id ∈ answers) :
    Notes answers (t.noteAnswer k id) (ms ++ [(id, k + 1)]) k :=
  h.mention (g := fun _ => k + 1) (Nat.le_succ k) (.inr asked) fun _ =>
    ⟨.inr fun _ hd => old _ hd, Nat.le_refl _, .inr rfl⟩

end

end VarTable

namespace BodyGoal

lemma le_lastChunk (k : Nat) (goals : List BodyGoal) : k ≤ lastChunk k goals := by
  induction goals generalizing k with
  | nil => exact Nat.le_refl k
  | cons g rest ih =>
    refine Nat.le_trans ?_ (ih _)
    split <;> omega

variable {goals : List BodyGoal} {k : Nat}

lemma chunk_le_lastChunk (h : (g, c) ∈ placed k goals) : c ≤ lastChunk k goals := by
  induction goals generalizing k with
  | nil => cases h
  | cons g' rest ih =>
    rcases mem_cons.1 h with h | h
    · obtain ⟨rfl, rfl⟩ := mk.inj h
      exact le_lastChunk c (g :: rest)
    · exact ih h

lemma mention_le_lastChunk {m : Mention} (h : m ∈ (placed k goals).flatMap mentions) :
    m.2 ≤ lastChunk k goals := by
  obtain ⟨⟨g, c⟩, hg, hm⟩ := mem_flatMap.1 h
  obtain ⟨id, _, rfl⟩ := mem_map.1 hm
  exact chunk_le_lastChunk hg

lemma placed_of_mem (h : g ∈ goals) : ∃ c, k ≤ c ∧ (g, c) ∈ placed k goals := by
  induction goals generalizing k with
  | nil => cases h
  | cons g' rest ih =>
    rcases mem_cons.1 h with rfl | h
    · exact ⟨k, Nat.le_refl k, mem_cons_self⟩
    · obtain ⟨c, hc, hm⟩ := ih (k := if g'.endsChunk then k + 1 else k) h
      refine ⟨c, Nat.le_trans ?_ hc, mem_cons_of_mem _ hm⟩
      split <;> omega

lemma mention_of_occurrence (h : id ∈ occurrencesAll (goals.flatMap terms)) :
    ∃ c, k ≤ c ∧ (id, c) ∈ (placed k goals).flatMap mentions := by
  obtain ⟨t, ht, hid⟩ := mem_occurrencesAll.1 h
  obtain ⟨g, hg, ht⟩ := mem_flatMap.1 ht
  obtain ⟨c, hc, hm⟩ := placed_of_mem (k := k) hg
  refine ⟨c, hc, mem_flatMap.2 ⟨(g, c), hm, ?_⟩⟩
  exact mem_map_of_mem (mem_occurrencesAll.2 ⟨t, ht, hid⟩)

lemma count_args_le (g : BodyGoal) (id : Nat) :
    (occurrencesAll g.args).count id ≤ (occurrencesAll g.terms).count id := by
  cases g with
  | cut | user => exact Nat.le_refl _
  | builtin b goal =>
    rw [terms, occurrencesAll, occurrencesAll, append_nil]
    exact goal.count_args_le id

lemma map_mentions (k : Nat) (goals : List BodyGoal) :
    ((placed k goals).flatMap mentions).map (·.1) = occurrencesAll (goals.flatMap terms) := by
  induction goals generalizing k with
  | nil => rfl
  | cons g rest ih =>
    rw [placed, flatMap_cons, map_append, ih, flatMap_cons,
      Term.occurrencesAll_append, mentions, List.map_map]
    exact congrArg (· ++ _) (map_id _)

lemma zip_placed (k : Nat) (goals : List BodyGoal) :
    goals.zip ((placed k goals).map (·.2)) = placed k goals := by
  induction goals generalizing k with
  | nil => rfl
  | cons g rest ih => simp [placed, ih]

end BodyGoal

namespace Survey

lemma chunk_le_goal (s : Survey) (g : BodyGoal) : s.chunk ≤ (s.goal g).chunk := by
  simp only [goal]
  split <;> omega

variable {s : Survey}

lemma cutBefore_goal (bound : ∀ c, s.lastCut = some c → c ≤ s.chunk) (g : BodyGoal) :
    ∀ c, (s.goal g).lastCut = some c → c ≤ (s.goal g).chunk := by
  intro c hc
  have step := chunk_le_goal s g
  simp only [goal] at hc
  split at hc
  · cases hc
    exact step
  · exact Nat.le_trans (bound c hc) step

/-- The survey has come across these mentions. -/
structure Met (answers : List Nat) (s : Survey) (ms : List Mention) : Prop where
  notes : s.vars.Notes answers ms s.chunk
  cutBefore : ∀ c, s.lastCut = some c → c ≤ s.chunk

variable {ms : List Mention} {asked : List Nat}

lemma Met.goal (h : s.Met asked ms) (g : BodyGoal) :
    (s.goal g).Met asked (ms ++ mentions (g, s.chunk)) :=
  ⟨(h.notes.notes _).later (chunk_le_goal s g), cutBefore_goal h.cutBefore g⟩

lemma Met.goals (h : s.Met asked ms) (goals : List BodyGoal) :
    (goals.foldl Survey.goal s).Met asked
      (ms ++ (placed s.chunk goals).flatMap mentions) := by
  induction goals generalizing s ms with
  | nil => simpa [placed] using h
  | cons g rest ih => simpa [BodyGoal.placed, Survey.goal] using ih (h.goal g)

lemma goals_chunk (s : Survey) (goals : List BodyGoal) :
    (goals.foldl goal s).chunk = lastChunk s.chunk goals := by
  induction goals generalizing s with
  | nil => rfl
  | cons g rest ih => exact ih (s.goal g)

lemma goals_chunks (s : Survey) (goals : List BodyGoal) :
    (goals.foldl goal s).chunks =
      s.chunks ++ (placed s.chunk goals).map (·.2) := by
  induction goals generalizing s with
  | nil => simp [placed]
  | cons g rest ih =>
    have := ih (s.goal g)
    simpa [placed, goal] using this

lemma lastCut_mono (goals : List BodyGoal) (bound : ∀ c, s.lastCut = some c → c ≤ s.chunk)
    (h : s.lastCut = some c) : ∃ d, (goals.foldl goal s).lastCut = some d ∧ c ≤ d := by
  induction goals generalizing s c with
  | nil => exact ⟨c, h, Nat.le_refl c⟩
  | cons g rest ih =>
    have hc := bound c h
    have bound' := cutBefore_goal bound g
    by_cases hcut : (g = .cut && 0 < s.chunk) = true
    · have hl : (s.goal g).lastCut = some s.chunk := by simp [goal, hcut]
      obtain ⟨d, hd, hle⟩ := ih bound' hl
      exact ⟨d, hd, Nat.le_trans hc hle⟩
    · have hl : (s.goal g).lastCut = some c := by simp [goal, hcut, h]
      exact ih bound' hl

lemma cut_noted {goals : List BodyGoal} (bound : ∀ c, s.lastCut = some c → c ≤ s.chunk)
    (h : (.cut, c) ∈ placed s.chunk goals) (hc : 0 < c) :
    ∃ d, (goals.foldl goal s).lastCut = some d ∧ c ≤ d := by
  induction goals generalizing s with
  | nil => cases h
  | cons g rest ih =>
    have bound' := cutBefore_goal bound g
    rcases mem_cons.1 h with h | h
    · obtain ⟨rfl, rfl⟩ := Prod.mk.inj h
      refine lastCut_mono (s := s.goal .cut) rest bound' ?_
      simp [goal, hc]
    · exact ih bound' h

lemma Met.answers (h : s.Met asked ms) (old : ∀ m ∈ ms, m.2 ≤ s.chunk + 1) {ids : List Nat}
    (all : ids ⊆ asked) :
    (ids.foldl answer s).Met asked (ms ++ ids.map fun id => (id, s.chunk + 1)) := by
  induction ids generalizing s ms with
  | nil => simpa using h
  | cons id ids ih =>
    obtain ⟨first, others⟩ := cons_subset.1 all
    have next : (s.answer id).Met asked (ms ++ [(id, s.chunk + 1)]) :=
      ⟨h.notes.noteAnswer old first, h.cutBefore⟩
    have old' : ∀ m ∈ ms ++ [(id, s.chunk + 1)], m.2 ≤ (s.answer id).chunk + 1 := by
      intro m hm
      rcases mem_append.1 hm with hm | hm
      · exact old m hm
      · rw [mem_singleton.1 hm]
        exact Nat.le_refl _
    simpa [answer] using ih next old' others

lemma answers_frame (s : Survey) (ids : List Nat) :
    (ids.foldl answer s).chunks = s.chunks ∧ (ids.foldl answer s).lastCut = s.lastCut ∧
      (ids.foldl answer s).chunk = s.chunk := by
  induction ids generalizing s with
  | nil => exact ⟨rfl, rfl, rfl⟩
  | cons id ids ih => exact ih (s.answer id)

end Survey

def Layout.mentions (head : Option Term) (goals : List BodyGoal) (answers : List Nat) :
    List Mention :=
  (occurrencesAll head.toList).map (fun id => (id, 0)) ++
    (BodyGoal.placed 0 goals).flatMap BodyGoal.mentions ++
    answers.map fun id => (id, lastChunk 0 goals + 1)

lemma Layout.count_mentions (head : Option Term) (goals : List BodyGoal) (answers : List Nat)
    (id : Nat) :
    (Layout.mentions head goals answers).countP (·.1 = id) =
      (occurrencesAll head.toList).count id +
        (Term.occurrencesAll (goals.flatMap BodyGoal.terms)).count id + answers.count id := by
  have count : ∀ ms : List Mention, ms.countP (·.1 = id) = (ms.map (·.1)).count id := by
    intro ms
    rw [count, countP_map]
    refine congrArg (countP · ms) (funext fun m => ?_)
    simp [BEq.beq]
  rw [count, Layout.mentions, map_append, map_append, map_mentions,
    List.count_append, List.count_append, List.map_map, List.map_map]
  simp [Function.comp_def]

lemma Survey.met_ofClause (head : Option Term) (goals : List BodyGoal) (answers : List Nat) :
    (Survey.ofClause head goals answers).Met answers (Layout.mentions head goals answers) := by
  have start : (ofHead head).Met answers
      ((occurrencesAll head.toList).map fun id => (id, 0)) := by
    refine ⟨?_, fun c hc => by cases hc⟩
    simpa [ofHead] using (VarTable.Notes.nil answers 0).notes (occurrencesAll head.toList)
  have body : (goals.foldl goal (ofHead head)).Met answers
      (_ ++ (BodyGoal.placed 0 goals).flatMap BodyGoal.mentions) := start.goals goals
  have chunk : (goals.foldl goal (ofHead head)).chunk = lastChunk 0 goals :=
    goals_chunk _ goals
  have all := body.answers (fun m hm => ?_) (Subset.refl answers)
  · simpa [ofClause, Layout.mentions, chunk] using all
  · rw [chunk]
    rcases mem_append.1 hm with hm | hm
    · obtain ⟨id, _, rfl⟩ := mem_map.1 hm
      exact Nat.zero_le _
    · exact Nat.le_succ_of_le (mention_le_lastChunk hm)

namespace Slot

lemma before_trans (a b c : Slot) (h : a.before b) (h' : b.before c) : a.before c := by
  unfold before at *
  unfold orderedBefore at *
  cases ha : a.order <;> cases hb : b.order <;> cases hc : c.order <;> simp_all <;> omega

lemma before_total (a b : Slot) : a.before b || b.before a := by
  unfold before orderedBefore
  cases ha : a.order <;> cases hb : b.order <;> simp <;> omega

lemma last_le_of_before {a b : Slot} (h : a.before b) : b.last ≤ a.last := by
  simp only [before, or_eq_true, and_eq_true, decide_eq_true_eq] at h
  omega

end Slot

lemma lt_countP_iff {α : Type} {p : α → Bool} {xs : List α} (h : xs.Pairwise fun a b => p b → p a)
    {a : α} (ha : xs[i]? = some a) : i < xs.countP p ↔ p a := by
  induction xs generalizing i with
  | nil => cases ha
  | cons x xs ih =>
    obtain ⟨hx, hxs⟩ := pairwise_cons.1 h
    cases hp : p x with
    | true =>
      rw [countP_cons_of_pos hp]
      cases i with
      | zero =>
        cases ha
        simp [hp]
      | succ i => exact Nat.succ_lt_succ_iff.trans (ih hxs ha)
    | false =>
      have none : ∀ b ∈ x :: xs, ¬ p b := by
        rw [forall_mem_cons, hp]
        exact ⟨nofun, fun b hb hpb => nomatch hp.symm.trans (hx b hb hpb)⟩
      rw [countP_eq_zero.2 none]
      exact iff_of_false (Nat.not_lt_zero i) (none a (mem_of_getElem? ha))

namespace Layout

lemma slotsOf_sorted (vars : VarTable) (lastCut : Option Nat) :
    (slotsOf vars lastCut).Pairwise fun a b => b.last ≤ a.last :=
  (pairwise_mergeSort Slot.before_trans Slot.before_total _).imp Slot.last_le_of_before

lemma slot_of_slot? (h : l.slot? use = some y) :
    ∃ i slot, y = i + 1 ∧ l.slots[i]? = some slot ∧ slot.use = use := by
  obtain ⟨i, hi, rfl⟩ := map_eq_some_iff.1 h
  obtain ⟨hlt, huse, _⟩ := findIdx?_eq_some_iff_getElem.1 hi
  exact ⟨i, _, rfl, getElem?_eq_getElem hlt, of_decide_eq_true huse⟩

/-- A slot is live after a chunk as long as the last use of it is still to come. -/
lemma le_liveAfter_iff {s : Survey} (h : (ofSurvey s).slot? use = some y) :
    ∃ slot ∈ (ofSurvey s).slots, slot.use = use ∧
      ∀ chunk, y ≤ (ofSurvey s).liveAfter chunk ↔ chunk < slot.last := by
  obtain ⟨i, slot, rfl, hi, huse⟩ := slot_of_slot? h
  refine ⟨slot, mem_of_getElem? hi, huse, fun chunk => ?_⟩
  rw [← decide_eq_true_iff (p := chunk < slot.last)]
  refine lt_countP_iff ?_ hi
  refine (slotsOf_sorted s.vars s.lastCut).imp ?_
  intro a b hab hb
  simp only [decide_eq_true_eq] at hb ⊢
  omega

lemma mem_slotsOf {vars : VarTable} {lastCut : Option Nat} :
    slot ∈ slotsOf vars lastCut ↔
      (∃ id o, (id, o) ∈ vars ∧ o.first ≠ o.last ∧ slot = ⟨.var id, o.last, some o.order⟩) ∨
        ∃ last, lastCut = some last ∧ slot = ⟨.cutLevel, last, none⟩ := by
  simp only [slotsOf, mem_mergeSort, mem_append, List.mem_map, mem_filter,
    Option.mem_toList, Prod.exists, decide_eq_true_eq]
  constructor
  · rintro (⟨id, o, ⟨ho, hne⟩, rfl⟩ | ⟨last, hl, rfl⟩)
    · exact .inl ⟨id, o, ho, hne, rfl⟩
    · exact .inr ⟨last, hl, rfl⟩
  · rintro (⟨id, o, ho, hne, rfl⟩ | ⟨last, hl, rfl⟩)
    · exact .inl ⟨id, o, ⟨ho, hne⟩, rfl⟩
    · exact .inr ⟨last, hl, rfl⟩

lemma slot?_isSome (h : slot ∈ l.slots) : ∃ y, l.slot? slot.use = some y := by
  rw [← isSome_iff_exists, slot?, isSome_map, findIdx?_isSome]
  exact any_eq_true.2 ⟨slot, h, by simp⟩

lemma slot?_bounds (h : l.slot? use = some y) : 1 ≤ y ∧ y ≤ l.frameSize := by
  obtain ⟨i, slot, rfl, hi, _⟩ := slot_of_slot? h
  obtain ⟨hlt, _⟩ := List.getElem?_eq_some_iff.1 hi
  exact ⟨by omega, hlt⟩

lemma slot?_inj {use' : SlotUse} (h : l.slot? use = some y) (h' : l.slot? use' = some y) :
    use = use' := by
  obtain ⟨i, slot, rfl, hi, rfl⟩ := slot_of_slot? h
  obtain ⟨j, slot', eq, hj, rfl⟩ := slot_of_slot? h'
  cases eq
  cases hi.symm.trans hj
  rfl

/-- What lowering relies on in the layout of these goals with these mentions. -/
structure Fits (l : Layout) (goals : List BodyGoal) (ms : List Mention) : Prop where
  chunks : goals.zip l.chunks = placed 0 goals
  alone : ∀ {id c d}, l.slot? (.var id) = none → (id, c) ∈ ms → (id, d) ∈ ms → c = d
  live : ∀ {id y c d}, l.slot? (.var id) = some y → (id, c) ∈ ms → d < c → y ≤ l.liveAfter d
  levelLive : ∀ {y c d}, l.slot? .cutLevel = some y → (.cut, c) ∈ placed 0 goals →
    d < c → y ≤ l.liveAfter d
  levelSlot : ∀ {c}, (.cut, c) ∈ placed 0 goals → 0 < c → (l.slot? .cutLevel).isSome
  single : ∀ {id}, id ∈ l.singletons → ms.countP (·.1 = id) = 1

lemma ofClause_fits (head : Option Term) (goals : List BodyGoal) (answers : List Nat) :
    (ofClause head goals answers).Fits goals (mentions head goals answers) := by
  have met := met_ofClause head goals answers
  have frame := answers_frame (goals.foldl goal (ofHead head)) answers
  have noted : ∀ {c}, (.cut, c) ∈ placed 0 goals → 0 < c → ∃ last,
      (Survey.ofClause head goals answers).lastCut = some last ∧ c ≤ last := by
    intro c hc pos
    obtain ⟨last, hlast, hle⟩ := cut_noted (s := ofHead head)
      (fun c hc => by cases hc) hc pos
    exact ⟨last, frame.2.1.trans hlast, hle⟩
  refine ⟨?_, ?_, ?_, ?_, ?_, ?_⟩
  · have chunks : (ofClause head goals answers).chunks = (placed 0 goals).map (·.2) :=
      frame.1.trans (goals_chunks (ofHead head) goals)
    rw [chunks, zip_placed]
  · intro id c d none hc hd
    obtain ⟨o, ho⟩ := met.notes.entered (id, c) hc
    have := met.notes.spans id o ho c hc
    have := met.notes.spans id o ho d hd
    have : o.first = o.last := by
      apply Decidable.byContradiction
      intro hne
      obtain ⟨y, hy⟩ := slot?_isSome (l := ofClause head goals answers)
        (mem_slotsOf.2 (.inl ⟨id, o, ho, hne, rfl⟩))
      rw [none] at hy
      cases hy
    omega
  · intro id y c d some hc hd
    obtain ⟨slot, hslot, huse, live⟩ := le_liveAfter_iff some
    refine (live d).2 ?_
    rcases mem_slotsOf.1 hslot with ⟨id', o, ho, _, rfl⟩ | ⟨_, _, rfl⟩
    · obtain rfl : id' = id := by simpa using huse
      exact Nat.lt_of_lt_of_le hd (met.notes.spans id' o ho c hc).2
    · cases huse
  · intro y c d some hc hd
    obtain ⟨slot, hslot, huse, live⟩ := le_liveAfter_iff some
    refine (live d).2 ?_
    rcases mem_slotsOf.1 hslot with ⟨_, _, _, _, rfl⟩ | ⟨last, hlast, rfl⟩
    · cases huse
    · obtain ⟨last', hl, hle⟩ := noted hc (Nat.zero_lt_of_lt hd)
      obtain rfl : last = last' := Option.some.inj (hlast.symm.trans hl)
      exact Nat.lt_of_lt_of_le hd hle
  · intro c hc pos
    obtain ⟨last, hlast, _⟩ := noted hc pos
    obtain ⟨y, hy⟩ := slot?_isSome (l := ofClause head goals answers)
      (mem_slotsOf.2 (.inr ⟨last, hlast, rfl⟩))
    exact isSome_iff_exists.2 ⟨y, hy⟩
  · intro id hid
    obtain ⟨⟨i, o⟩, ho, rfl⟩ := mem_map.1 hid
    obtain ⟨hmem, hcount⟩ := mem_filter.1 ho
    simp only [and_eq_true, decide_eq_true_eq] at hcount
    rw [← met.notes.counted i o hmem]
    exact hcount.1

end Layout

end Horn
