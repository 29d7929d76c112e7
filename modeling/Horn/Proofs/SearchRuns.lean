import Horn.Proofs.StoreImage

/-!
# Machines that follow the search

For each answer of a lazy list the machine gets to the goals that were pending, with a store that
shows the answer, and if it fails from there, it comes to what the rest of the list says. When the
list is exhausted the machine has failed, with the choices that were there before; a list that ends
in a cut leaves those below the barrier only.
-/

namespace Horn

open List Machine

variable {step : Nat → Step} {goals : List Goal} {more : Unit → Answers}

namespace Search

abbrev Course := Nat → Machine.Outcome

def LeadsTo (x y : Course) : Prop := ∃ k N, ∀ n, N ≤ n → x (n + k) = y n

lemma LeadsTo.refl (x : Course) : LeadsTo x x := ⟨0, 0, fun _ _ => rfl⟩

lemma LeadsTo.trans {x y z : Course} (h : LeadsTo x y) (h' : LeadsTo y z) : LeadsTo x z := by
  obtain ⟨k, N, h⟩ := h
  obtain ⟨k', N', h'⟩ := h'
  refine ⟨k' + k, max N N', fun n le => ?_⟩
  rw [← Nat.add_assoc, h (n + k') (by omega), h' n (by omega)]

structure Begins (p : Program) (x : Course) (step : Nat → Machine.Step) : Prop where
  go : ∀ n m, step n = .go m → x (n + 1) = Machine.run p n false m
  fail : ∀ n m, step n = .fail m → x (n + 1) = Machine.run p n true m

lemma begins_run {p : Program} {failed : Bool} {m : Machine}
    (h : ∀ n, Machine.step p n failed m = step n) :
    Begins p (fun n => run p n failed m) step := by
  constructor
  all_goals
    intro n m' eq
    rw [run, h, eq]

structure Setting where
  program : Program
  operators : OperatorTable
  output : String

namespace Setting

variable {e : Setting} {choices : List Choice} {b : Bindings} {x : Course} {N : Nat}

def machine (e : Setting) (b : Bindings) (goals : List Goal) (choices : List Choice) : Machine :=
  ⟨⟨b, e.operators, e.output⟩, goals, choices.toArray⟩

def going (e : Setting) (b : Bindings) (goals : List Goal) (choices : List Choice) : Course :=
  fun n => Machine.run e.program n false (e.machine b goals choices)

def failing (e : Setting) (b : Bindings) (goals : List Goal) (choices : List Choice) : Course :=
  fun n => Machine.run e.program n true (e.machine b goals choices)

lemma leadsTo_going (h : Begins e.program x step)
    (go : ∀ n, N ≤ n → step n = .go (e.machine b goals choices)) :
    LeadsTo x (e.going b goals choices) :=
  ⟨1, N, fun n le => h.go n _ (go n le)⟩

lemma leadsTo_failing (h : Begins e.program x step)
    (fail : ∀ n, N ≤ n → step n = .fail (e.machine b goals choices)) :
    LeadsTo x (e.failing b goals choices) :=
  ⟨1, N, fun n le => h.fail n _ (fail n le)⟩

def Fails (e : Setting) (i : Image) (choices : List Choice) (x : Course) : Prop :=
  ∃ b goals, i.store.Later b ∧ LeadsTo x (e.failing b goals choices)

def left (barrier : Nat) (wasCut : Bool) (below : List Choice) : List Choice :=
  if wasCut then below.take barrier else below

def Follows (e : Setting) (pending : List Goal) (barrier : Nat) (i : Image) :
    Answers → Bool → List Choice → Course → Prop
  | .stuck, _, _, _ => True
  | .failed, wasCut, below, x => wasCut = false ∧ e.Fails i below x
  | .cut, _, below, x => e.Fails i (below.take barrier) x
  | .answer s rest, wasCut, below, x =>
    ∃ (j : Image) (cutNow : Bool) (above : List Choice),
      i.Before j ∧ j.state = s ∧ (wasCut = true → cutNow = true) ∧
      LeadsTo x (e.going j.store pending (left barrier cutNow below ++ above)) ∧
      ∀ below' b goals, below'.length = (left barrier cutNow below).length → j.store.Later b →
        Follows e pending barrier i (rest ()) cutNow below' (e.failing b goals (below' ++ above))

section

variable {pending : List Goal} {barrier : Nat} {i j : Image} {a : Answers} {wasCut : Bool}
  {below above : List Choice} {y : Course}

lemma Fails.leadsTo (h : e.Fails i below y) (leads : LeadsTo x y) : e.Fails i below x := by
  obtain ⟨b, goals, later, h⟩ := h
  exact ⟨b, goals, later, leads.trans h⟩

lemma Fails.before (h : e.Fails j below x) (before : i.Before j) : e.Fails i below x := by
  obtain ⟨b, goals, later, h⟩ := h
  exact ⟨b, goals, before.store.trans later, h⟩

lemma Follows.leadsTo (h : e.Follows pending barrier i a wasCut below y) (leads : LeadsTo x y) :
    e.Follows pending barrier i a wasCut below x := by
  cases a with
  | stuck => trivial
  | failed => exact ⟨h.1, h.2.leadsTo leads⟩
  | cut => exact Fails.leadsTo h leads
  | answer s rest =>
    obtain ⟨j, cutNow, above, before, state, mono, first, resume⟩ := h
    exact ⟨j, cutNow, above, before, state, mono, leads.trans first, resume⟩

lemma Follows.before (h : e.Follows pending barrier j a wasCut below x) (before : i.Before j) :
    e.Follows pending barrier i a wasCut below x := by
  induction a generalizing wasCut below x with
  | stuck => trivial
  | failed => exact ⟨h.1, h.2.before before⟩
  | cut => exact Fails.before h before
  | answer s rest ih =>
    obtain ⟨k, cutNow, above, later, state, mono, first, resume⟩ := h
    refine ⟨k, cutNow, above, before.trans later, state, mono, first, ?_⟩
    exact fun below' b goals length more => ih () (resume below' b goals length more)

lemma Follows.of_cut (h : e.Follows pending barrier i a true (below.take barrier) x) :
    e.Follows pending barrier i a wasCut below x := by
  have take : (below.take barrier).take barrier = below.take barrier := by
    rw [take_take, Nat.min_self]
  cases a with
  | stuck => trivial
  | failed => exact absurd h.1 Bool.noConfusion
  | cut =>
    change e.Fails i ((below.take barrier).take barrier) x at h
    rwa [take] at h
  | answer s rest =>
    obtain ⟨j, cutNow, above, before, state, mono, first, resume⟩ := h
    obtain rfl := mono rfl
    have same : left barrier true (below.take barrier) = left barrier true below := take
    rw [same] at first resume
    exact ⟨j, true, above, before, state, fun _ => rfl, first, resume⟩

lemma Follows.append_of_cut (h : e.Follows pending barrier i a true below x) :
    e.Follows pending barrier i (a.append more) true below x := by
  induction a generalizing below x with
  | stuck => trivial
  | failed => exact absurd h.1 Bool.noConfusion
  | cut => exact h
  | answer s rest ih =>
    obtain ⟨j, cutNow, above, before, state, mono, first, resume⟩ := h
    obtain rfl := mono rfl
    exact ⟨j, true, above, before, state, mono, first, fun below' b goals length later =>
      ih () (resume below' b goals length later)⟩

lemma Follows.append (h : e.Follows pending barrier j a false (below ++ above) x)
    (before : i.Before j) (high : barrier ≤ below.length)
    (low : wasCut = true → below.length ≤ barrier)
    (next : ∀ below' b goals, below'.length = below.length → j.store.Later b →
      e.Follows pending barrier i (more ()) wasCut below' (e.failing b goals (below' ++ above))) :
    e.Follows pending barrier i (a.append more) wasCut below x := by
  induction a generalizing below x with
  | stuck => trivial
  | failed =>
    obtain ⟨-, b, goals, later, leads⟩ := h
    exact (next below b goals rfl later).leadsTo leads
  | cut =>
    change e.Fails j ((below ++ above).take barrier) x at h
    rw [take_append_of_le_length high] at h
    exact h.before before
  | answer s rest ih =>
    obtain ⟨k, cutNow, above', later, state, -, first, resume⟩ := h
    cases cutNow with
    | true =>
      refine Follows.of_cut ?_
      have cut : left barrier true (below ++ above) = below.take barrier :=
        take_append_of_le_length high
      rw [cut] at first resume
      have same : left barrier true (below.take barrier) = below.take barrier := by
        rw [left, if_pos rfl, take_take, Nat.min_self]
      refine ⟨k, true, above', before.trans later, state, fun _ => rfl, by rwa [same], ?_⟩
      rw [same]
      exact fun below' b goals length later =>
        (resume below' b goals length later).append_of_cut.before before
    | false =>
      have same : left barrier wasCut below = below := by
        unfold left
        split
        · next cut => exact take_of_length_le (low cut)
        · rfl
      refine ⟨k, wasCut, above ++ above', before.trans later, state, id, ?_, ?_⟩
      · rw [same, ← append_assoc]
        exact first
      · rw [same]
        intro below' b goals length more
        rw [← append_assoc]
        refine ih () (resume (below' ++ above) b goals ?_ more) (length ▸ high) (length ▸ low) ?_
        · simp [left, length]
        · exact fun below'' b goals length' => next below'' b goals (length'.trans length)

lemma left_length (high : barrier ≤ below.length) : barrier ≤ (left barrier wasCut below).length := by
  unfold left
  split
  · rw [length_take]
    omega
  · exact high

lemma Follows.bind {k : State → Answers} (h : e.Follows goals barrier i a wasCut below x)
    (high : barrier ≤ below.length) (low : wasCut = true → below.length ≤ barrier)
    (next : ∀ j choices, i.Before j → barrier ≤ choices.length →
      e.Follows pending barrier j (k j.state) false choices (e.going j.store goals choices)) :
    e.Follows pending barrier i (a.bind k) wasCut below x := by
  induction a generalizing wasCut below x with
  | stuck => trivial
  | failed | cut => exact h
  | answer s rest ih =>
    obtain ⟨j, cutNow, above, before, rfl, mono, first, resume⟩ := h
    have high' : barrier ≤ (left barrier cutNow below).length := left_length high
    have low' : cutNow = true → (left barrier cutNow below).length ≤ barrier := by
      intro cut
      rw [cut, left, if_pos rfl, length_take]
      omega
    have after : e.Follows pending barrier i ((Answers.answer j.state rest).bind k) cutNow
        (left barrier cutNow below) x := by
      refine Follows.append ((next j _ before ?_).leadsTo first) before high' low' ?_
      · rw [length_append]
        omega
      · intro below' b goals length later
        exact ih () (resume below' b goals length later) (length ▸ high') (length ▸ low')
    cases cutNow with
    | false =>
      cases wasCut with
      | false => exact after
      | true => exact absurd (mono rfl) Bool.noConfusion
    | true => exact .of_cut after

lemma Follows.enclose (h : e.Follows pending below.length i a wasCut below x) :
    e.Follows pending barrier i a.enclose false below x := by
  induction a generalizing wasCut below x with
  | stuck => trivial
  | failed => exact ⟨rfl, h.2⟩
  | cut =>
    change e.Fails i (below.take below.length) x at h
    rw [take_length] at h
    exact ⟨rfl, h⟩
  | answer s rest ih =>
    obtain ⟨j, cutNow, above, before, state, -, first, resume⟩ := h
    have same : left below.length cutNow below = below := by
      unfold left
      split
      · exact take_length
      · rfl
    rw [same] at first resume
    refine ⟨j, false, above, before, state, Bool.noConfusion, first, ?_⟩
    intro below' b goals length later
    change below'.length = below.length at length
    exact ih () (length ▸ resume below' b goals length later)

end

end Setting

end Search

end Horn
