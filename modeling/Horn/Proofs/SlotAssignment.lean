import Horn.Proofs.EnvironmentLayout
import Mathlib.Logic.ExistsUnique

/-!
# The slots of an environment

Which slot a variable gets follows from its mentions alone, not from the order in which the table of
occurrences is gone through.
-/

namespace Horn

open List BodyGoal Survey VarTable

variable {head : Option Term} {goals : List BodyGoal} {answers : List Nat} {id c : Nat}

lemma Survey.cut_of_lastCut {s : Survey} (h : (goals.foldl goal s).lastCut = some c) :
    s.lastCut = some c ∨ 0 < c ∧ (.cut, c) ∈ placed s.chunk goals := by
  induction goals generalizing s with
  | nil => exact .inl h
  | cons g rest ih =>
    rcases ih h with before | ⟨pos, hc⟩
    · simp only [goal] at before
      split at before
      · next cut =>
        cases before
        obtain ⟨rfl, pos⟩ : g = .cut ∧ 0 < s.chunk := by simpa using cut
        exact .inr ⟨pos, mem_cons_self⟩
      · exact .inl before
    · exact .inr ⟨pos, mem_cons_of_mem _ hc⟩

namespace Layout

variable {us : List (SlotUse × Nat)} {use : SlotUse} {a b : Slot} {ls : List Slot}

/-- The uses of what a slot may hold, each with its chunk: of a variable where it is mentioned, of the
cut level when the clause is entered and at each cut. -/
def uses (head : Option Term) (goals : List BodyGoal) (answers : List Nat) :
    List (SlotUse × Nat) :=
  (mentions head goals answers).map (fun m => (.var m.1, m.2)) ++
    (.cutLevel, 0) :: ((placed 0 goals).filter (·.1 = .cut)).map fun p => (.cutLevel, p.2)

def place (us : List (SlotUse × Nat)) (use : SlotUse) : Nat := us.findIdx (·.1 = use)

def LastUse (us : List (SlotUse × Nat)) (use : SlotUse) (c : Nat) : Prop :=
  (use, c) ∈ us ∧ ∀ d, (use, d) ∈ us → d ≤ c

lemma LastUse.unique {d : Nat} (h : LastUse us use c) (h' : LastUse us use d) : c = d :=
  Nat.le_antisymm (h'.2 c h.1) (h.2 d h'.1)

/-- What the slots of a layout are for, in which order they come, and which of them are needed after
a chunk. -/
structure Allots (l : Layout) (us : List (SlotUse × Nat)) (answers : List Nat) : Prop where
  kept : ∀ use, (∃ y, l.slot? use = some y) ↔
    (∃ c d, c < d ∧ (use, c) ∈ us ∧ (use, d) ∈ us) ∨ ∃ id ∈ answers, use = .var id
  bijective : ∀ y, 1 ≤ y ∧ y ≤ l.frameSize ↔ ∃! use, l.slot? use = some y
  ordered : ∀ {use use' y y' c c'}, l.slot? use = some y → l.slot? use' = some y' →
    LastUse us use c → LastUse us use' c' →
    (y < y' ↔ c' < c ∨ c = c' ∧ place us use < place us use')
  live : ∀ {use y}, l.slot? use = some y →
    ∀ chunk, y ≤ l.liveAfter chunk ↔ ∃ c, chunk < c ∧ (use, c) ∈ us
  within : ∀ chunk, l.liveAfter chunk ≤ l.frameSize

/-! ## Slots before and after sorting -/

structure Surveyed (us : List (SlotUse × Nat)) (ls : List Slot) : Prop where
  first : ls.Pairwise fun a b => place us a.use < place us b.use ∧
    Slot.orderedBefore b.order a.order = false
  last : ∀ a ∈ ls, LastUse us a.use a.last

def Precedes (us : List (SlotUse × Nat)) (a b : Slot) : Prop :=
  b.last < a.last ∨ a.last = b.last ∧ place us a.use < place us b.use

namespace Surveyed

variable (h : Surveyed us ls)

include h

lemma precedes (ha : a ∈ ls) (hb : b ∈ ls) (other : a ≠ b) (before : a.before b) :
    Precedes us a b := by
  have before : b.last < a.last ∨ a.last = b.last ∧ Slot.orderedBefore a.order b.order := by
    simpa [Slot.before] using before
  refine before.imp_right fun tie => ⟨tie.1, ?_⟩
  have places : a = b ∨ place us a.use < place us b.use ∨
      Slot.orderedBefore a.order b.order = false :=
    Pairwise.forall_of_forall_of_flip (R := fun a b => a = b ∨ place us a.use < place us b.use ∨
      Slot.orderedBefore a.order b.order = false) (fun _ _ => .inl rfl)
      (h.first.imp fun less => .inr (.inl less.1)) (h.first.imp fun less => .inr (.inr less.2))
      ha hb
  rcases places with same | less | later
  · exact absurd same other
  · exact less
  · rw [tie.2] at later
    cases later

lemma sorted : (ls.mergeSort Slot.before).Pairwise (Precedes us) := by
  have nodup : (ls.mergeSort Slot.before).Nodup := by
    refine (mergeSort_perm _ _).nodup_iff.2 (h.first.imp fun less same => ?_)
    rw [same] at less
    exact Nat.lt_irrefl _ less.1
  refine ((pairwise_mergeSort Slot.before_trans Slot.before_total ls).and nodup).imp_of_mem ?_
  exact fun ha hb both =>
    h.precedes (mem_mergeSort.1 ha) (mem_mergeSort.1 hb) both.2 both.1

lemma mergeSort_perm_eq {ls' : List Slot} (same : ls'.Perm ls) :
    ls'.mergeSort Slot.before = ls.mergeSort Slot.before := by
  have sorted := pairwise_mergeSort Slot.before_trans Slot.before_total
  refine ((mergeSort_perm _ _).trans (same.trans (mergeSort_perm _ _).symm)).eq_of_pairwise
    (fun a b ha hb before after => ?_) (sorted ls') (sorted ls)
  have ha := same.mem_iff.1 (mem_mergeSort.1 ha)
  have hb := mem_mergeSort.1 hb
  refine Decidable.byContradiction fun other => ?_
  have := h.precedes ha hb other before
  have := h.precedes hb ha (Ne.symm other) after
  unfold Precedes at *
  omega

variable {l : Layout} (made : l.slots = ls.mergeSort Slot.before)

include made

lemma lastUse (ha : a ∈ l.slots) : LastUse us a.use a.last :=
  h.last a (mem_mergeSort.1 (made ▸ ha))

lemma precedes_of_lt {i j : Nat} (hi : l.slots[i]? = some a) (hj : l.slots[j]? = some b)
    (less : i < j) : Precedes us a b := by
  obtain ⟨lt, rfl⟩ := List.getElem?_eq_some_iff.1 hi
  obtain ⟨lt', rfl⟩ := List.getElem?_eq_some_iff.1 hj
  exact pairwise_iff_getElem.1 (made ▸ h.sorted) i j lt lt' less

lemma slot?_of_getElem? {i : Nat} (hi : l.slots[i]? = some a) : l.slot? a.use = some (i + 1) := by
  obtain ⟨y, hy⟩ := slot?_isSome (mem_of_getElem? hi)
  obtain ⟨j, b, rfl, hj, same⟩ := slot_of_slot? hy
  have last := (h.lastUse made (mem_of_getElem? hj)).unique
    (same ▸ h.lastUse made (mem_of_getElem? hi))
  rcases Nat.lt_trichotomy i j with less | rfl | more
  · have := h.precedes_of_lt made hi hj less
    rw [Precedes, same] at this
    omega
  · exact hy
  · have := h.precedes_of_lt made hj hi more
    rw [Precedes, same] at this
    omega

end Surveyed

/-! ## The slots of a clause -/

lemma mem_uses_var :
    (.var id, c) ∈ uses head goals answers ↔ (id, c) ∈ mentions head goals answers := by
  simp [uses]

lemma mem_uses_level :
    (.cutLevel, c) ∈ uses head goals answers ↔ c = 0 ∨ (.cut, c) ∈ placed 0 goals := by
  simp [uses]

lemma place_var (h : (id, c) ∈ mentions head goals answers) :
    place (uses head goals answers) (.var id) = rank (mentions head goals answers) id ∧
      place (uses head goals answers) (.var id) < place (uses head goals answers) .cutLevel := by
  have found := (rank_append h (id, c)).2
  have var : place (uses head goals answers) (.var id) = rank (mentions head goals answers) id := by
    rw [place, uses, findIdx_append, findIdx_map, length_map]
    simp only [Function.comp_def, SlotUse.var.injEq]
    exact if_pos found
  refine ⟨var, var ▸ Nat.lt_of_lt_of_le found ?_⟩
  rw [place, uses, findIdx_append, findIdx_map, length_map]
  simp [Function.comp_def]

lemma level_noted (pos : 0 < c) (h : (.cutLevel, c) ∈ uses head goals answers) :
    ∃ last, (Survey.ofClause head goals answers).lastCut = some last ∧ c ≤ last := by
  have cut := (mem_uses_level.1 h).resolve_left (Nat.ne_of_gt pos)
  obtain ⟨last, hlast, le⟩ := cut_noted (s := ofHead head) (fun _ hc => nomatch hc) cut pos
  exact ⟨last, (answers_frame _ answers).2.1.trans hlast, le⟩

lemma lastUse_level (h : (Survey.ofClause head goals answers).lastCut = some c) :
    0 < c ∧ LastUse (uses head goals answers) .cutLevel c := by
  obtain none | ⟨pos, cut⟩ := cut_of_lastCut ((answers_frame _ answers).2.1.symm.trans h)
  · cases none
  · refine ⟨pos, mem_uses_level.2 (.inr cut), fun d hd => ?_⟩
    rcases Nat.eq_zero_or_pos d with rfl | some
    · exact Nat.zero_le c
    · obtain ⟨e, he, le⟩ := level_noted some hd
      cases h.symm.trans he
      exact le

def unsorted (s : Survey) : List Slot :=
  (s.vars.filter fun (_, o) => o.first ≠ o.last).map (fun (id, o) => ⟨.var id, o.last, some o.order⟩) ++
    s.lastCut.toList.map fun last => ⟨.cutLevel, last, none⟩

lemma surveyed_ofClause (head : Option Term) (goals : List BodyGoal) (answers : List Nat) :
    Surveyed (uses head goals answers) (unsorted (.ofClause head goals answers)) := by
  have notes := (met_ofClause head goals answers).notes
  have placed {x} (hx : x ∈ (Survey.ofClause head goals answers).vars.filter
      fun (_, o) => o.first ≠ o.last) := place_var (notes.reached x.1 x.2 (mem_filter.1 hx).1)
  refine ⟨pairwise_append.2 ⟨?_, ?_, ?_⟩, fun a ha => ?_⟩
  · refine pairwise_map.2 ((notes.ranked.filter _).imp_of_mem fun hx hy less => ?_)
    rw [(placed hx).1, (placed hy).1]
    exact ⟨less.2, decide_eq_false (Nat.not_le.2 less.1)⟩
  · cases (Survey.ofClause head goals answers).lastCut <;> simp
  · intro a ha b hb
    obtain ⟨x, hx, rfl⟩ := mem_map.1 ha
    obtain ⟨last, _, rfl⟩ := mem_map.1 hb
    exact ⟨(placed hx).2, rfl⟩
  · rcases mem_slotsOf.1 (mem_mergeSort.2 ha) with ⟨id, o, ho, _, rfl⟩ | ⟨last, hlast, rfl⟩
    · exact ⟨mem_uses_var.2 (notes.reached id o ho), fun d hd =>
        (notes.spans id o ho d (mem_uses_var.1 hd)).2⟩
    · exact (lastUse_level hlast).2

lemma var_kept_iff :
    (∃ o, (id, o) ∈ (Survey.ofClause head goals answers).vars ∧ o.first ≠ o.last) ↔
      (∃ c d, c < d ∧ (.var id, c) ∈ uses head goals answers ∧
        (.var id, d) ∈ uses head goals answers) ∨ id ∈ answers := by
  have notes := (met_ofClause head goals answers).notes
  simp only [mem_uses_var]
  constructor
  · rintro ⟨o, ho, ne⟩
    have last := notes.reached id o ho
    have := notes.spans id o ho _ last
    exact (notes.opened id o ho).imp_left fun first => ⟨o.first, o.last, by omega, first, last⟩
  · rintro (⟨c, d, less, hc, hd⟩ | asked)
    · obtain ⟨o, ho⟩ := notes.entered _ hc
      have := notes.spans id o ho c hc
      have := notes.spans id o ho d hd
      exact ⟨o, ho, by omega⟩
    · have final : (id, lastChunk 0 goals + 1) ∈ mentions head goals answers :=
        mem_append_right _ (mem_map.2 ⟨id, asked, rfl⟩)
      obtain ⟨o, ho⟩ := notes.entered _ final
      have := notes.spans id o ho _ final
      have := notes.begun id o ho
      have : (Survey.ofClause head goals answers).chunk = lastChunk 0 goals :=
        (answers_frame _ answers).2.2.trans (goals_chunk _ goals)
      exact ⟨o, ho, by omega⟩

lemma slot_kept_iff (use : SlotUse) :
    (∃ a ∈ (ofClause head goals answers).slots, a.use = use) ↔
      (∃ c d, c < d ∧ (use, c) ∈ uses head goals answers ∧ (use, d) ∈ uses head goals answers) ∨
        ∃ id ∈ answers, use = .var id := by
  simp only [ofClause, ofSurvey, mem_slotsOf]
  cases use with
  | var id =>
    have asked : (∃ j ∈ answers, SlotUse.var id = .var j) ↔ id ∈ answers := by simp
    rw [asked, ← var_kept_iff]
    constructor
    · rintro ⟨a, ⟨i, o, ho, ne, rfl⟩ | ⟨_, _, rfl⟩, ⟨⟩⟩
      exact ⟨o, ho, ne⟩
    · rintro ⟨o, ho, ne⟩
      exact ⟨_, .inl ⟨id, o, ho, ne, rfl⟩, rfl⟩
  | cutLevel =>
    constructor
    · rintro ⟨a, ⟨_, _, _, _, rfl⟩ | ⟨last, hlast, rfl⟩, ⟨⟩⟩
      obtain ⟨pos, use, -⟩ := lastUse_level hlast
      exact .inl ⟨0, last, pos, mem_uses_level.2 (.inl rfl), use⟩
    · rintro (⟨c, d, less, -, hd⟩ | ⟨_, _, ⟨⟩⟩)
      obtain ⟨last, hlast, -⟩ := level_noted (Nat.zero_lt_of_lt less) hd
      exact ⟨_, .inr ⟨last, hlast, rfl⟩, rfl⟩

/-- However the table of occurrences is gone through, the layout is the same. Its slots are numbered
without gaps and belong to what is used in several chunks and to the variables of the answers. Those
with the latest last use come first, then those with the earliest first use, so that the slots that
are needed after a chunk are the first ones, as many as `liveAfter` says. -/
theorem layout_of_any_table_order {vars : VarTable} {l : Layout}
    (entries : vars.Perm (Survey.ofClause head goals answers).vars)
    (made : l = ofSurvey { Survey.ofClause head goals answers with vars := vars }) :
    l.chunks = (ofClause head goals answers).chunks ∧
    l.slots = (ofClause head goals answers).slots ∧
    (∀ t, l.isSingleton t = (ofClause head goals answers).isSingleton t) ∧
    l.Allots (uses head goals answers) answers := by
  have surveyed := surveyed_ofClause head goals answers
  have slots : l.slots = (ofClause head goals answers).slots := by
    rw [made]
    exact surveyed.mergeSort_perm_eq (((entries.filter _).map _).append_right _)
  refine ⟨by rw [made]; rfl, slots, fun t => ?_, ?_, fun y => ?_, ?_, ?_, fun _ => countP_le_length⟩
  · subst made
    cases t with
    | var name id =>
      rw [isSingleton, isSingleton, Bool.eq_iff_iff, contains_iff_mem, contains_iff_mem]
      exact ((entries.filter _).map _).mem_iff
    | _ => rfl
  · intro use
    rw [← slot_kept_iff, ← slots]
    constructor
    · rintro ⟨y, hy⟩
      obtain ⟨i, a, -, hi, same⟩ := slot_of_slot? hy
      exact ⟨a, mem_of_getElem? hi, same⟩
    · rintro ⟨a, ha, rfl⟩
      exact slot?_isSome ha
  · constructor
    · rintro ⟨pos, le⟩
      obtain ⟨i, rfl⟩ := Nat.exists_eq_add_of_le' pos
      have found := surveyed.slot?_of_getElem? slots (getElem?_eq_getElem le)
      exact ⟨_, found, fun use h => slot?_inj h found⟩
    · rintro ⟨use, h, -⟩
      exact slot?_bounds h
  · intro use use' y y' c c' h h' last last'
    obtain ⟨i, a, rfl, hi, rfl⟩ := slot_of_slot? h
    obtain ⟨j, b, rfl, hj, rfl⟩ := slot_of_slot? h'
    cases last.unique (surveyed.lastUse slots (mem_of_getElem? hi))
    cases last'.unique (surveyed.lastUse slots (mem_of_getElem? hj))
    rcases Nat.lt_trichotomy i j with less | rfl | more
    · exact iff_of_true (by omega) (surveyed.precedes_of_lt slots hi hj less)
    · cases hi.symm.trans hj
      omega
    · have := surveyed.precedes_of_lt slots hj hi more
      unfold Precedes at this
      omega
  · intro use y h chunk
    subst made
    obtain ⟨a, ha, rfl, live⟩ := le_liveAfter_iff h
    obtain ⟨last, bound⟩ := surveyed.lastUse slots ha
    refine (live chunk).trans ?_
    exact ⟨fun less => ⟨_, less, last⟩, fun ⟨c, less, hc⟩ => Nat.lt_of_lt_of_le less (bound c hc)⟩

/-- The clause `p(A, B) :- q(A, B), !, r(B), s(A)`, its table gone through backwards. -/
theorem layout_of_any_table_order_reversed :
    (ofSurvey { Survey.ofClause (some (.compound "p" [.var "A" 0, .var "B" 1]))
      [.user ⟨"q", 2⟩ [.var "A" 0, .var "B" 1], .cut, .user ⟨"r", 1⟩ [.var "B" 1],
        .user ⟨"s", 1⟩ [.var "A" 0]] [] with
      vars := [(1, ⟨3, 0, 1, 1⟩), (0, ⟨3, 0, 2, 0⟩)] }).slots =
    [⟨.var 0, 2, some 0⟩, ⟨.var 1, 1, some 1⟩, ⟨.cutLevel, 1, none⟩] :=
  (layout_of_any_table_order (by decide +kernel) rfl).2.1.trans (mergeSort_of_pairwise (by decide))

end Layout

end Horn
