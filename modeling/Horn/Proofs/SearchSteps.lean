import Horn.Proofs.GoalImage
import Horn.Proofs.SearchRuns

/-!
# Steps that follow the search

The steps by which a machine cuts, goes back to a choice and takes up the branches of a condition,
and what they come to if the condition follows the search.
-/

namespace Horn

open List Machine

namespace Search

namespace Setting

variable {e : Setting} {b : Bindings} {goals pending : List Goal} {below : List Choice} {n : Nat}

lemma going_cutTo (height : Nat) :
    LeadsTo (e.going b (.cutTo height :: goals) below) (e.going b goals (below.take height)) := by
  have step : Begins e.program (e.going b (.cutTo height :: goals) below) fun _ =>
      .go (e.machine b goals (below.take height)) := by
    refine begins_run fun n => ?_
    change Step.go (cutTo _ height) = _
    simp [cutTo, machine]
  exact leadsTo_going step (N := 0) fun _ _ => rfl

lemma modify_length {α : Type} (before after : List α) (a : α) (f : α → α) :
    (before ++ a :: after).modify before.length f = before ++ f a :: after := by
  induction before with
  | nil => rfl
  | cons x before ih => exact congrArg (x :: ·) ih

def spent (c : Choice) : Choice := { c with alternative := .spent }

lemma going_softCut (c : Choice) (above : List Choice) :
    LeadsTo (e.going b (.softCut below.length :: goals) (below ++ c :: above))
      (e.going b goals (below ++ spent c :: above)) := by
  have step : Begins e.program (e.going b (.softCut below.length :: goals) (below ++ c :: above))
      fun _ => .go (e.machine b goals (below ++ spent c :: above)) := by
    refine begins_run fun n => ?_
    change Step.go ⟨_, goals, (below ++ c :: above).toArray.modify below.length spent⟩ = _
    rw [modify_toArray, modify_length]
    rfl
  exact leadsTo_going step (N := 0) fun _ _ => rfl

lemma pushChoice_machine (a : Alternative) :
    (e.machine b goals below).pushChoice a = e.machine b goals (below ++ [⟨b.mark, goals, a⟩]) := by
  rw [machine, machine, ← push_toArray]
  rfl

lemma failing_choice (c : Choice) :
    Begins e.program (e.failing b goals (below ++ [c])) fun n =>
      match c.alternative with
      | .spent => .fail (e.machine (b.undo c.trail) c.goals below)
      | .goal term barrier =>
        .go (e.machine (b.undo c.trail) (.call term barrier :: c.goals) below)
      | .clauses goal rest =>
        tryClauses e.program n (e.machine (b.undo c.trail) c.goals below) goal rest := by
  refine begins_run fun n => ?_
  have back : (below ++ [c]).toArray.back? = some c := by simp
  have pop : (below ++ [c]).toArray.pop = below.toArray := by simp
  change retry e.program n ⟨_, goals, (below ++ [c]).toArray⟩ = _
  simp only [retry, back, pop]
  cases c.alternative <;> rfl

variable {i : Image} {barrier : Nat} {x : Course} {a otherwise : Answers} {k : State → Answers}
  {above : List Choice} {wasCut : Bool} {height : Nat}

lemma failing_goal {term : Term} (later : i.store.Later b) :
    LeadsTo (e.failing b goals (below ++ [⟨i.store.mark, pending, .goal term barrier⟩]))
      (e.going (i.restore b later).store (.call term barrier :: pending) below) :=
  leadsTo_going (failing_choice _) (N := 0) fun _ _ => rfl

lemma fails_spent {c : Choice} (trail : c.trail = i.store.mark) (later : i.store.Later b) :
    e.Fails i below (e.failing b goals (below ++ [spent c])) := by
  refine ⟨b.undo c.trail, c.goals, ?_, leadsTo_failing (failing_choice _) (N := 0) fun _ _ => rfl⟩
  rw [trail]
  exact (later.undo i.sound).later i.sound

lemma left_all (wasCut : Bool) : left below.length wasCut below = below := by
  unfold left
  split
  · exact take_length
  · rfl

lemma Follows.once
    (h : e.Follows (.cutTo below.length :: goals) (below ++ above).length i a false
      (below ++ above) x)
    (consequence : ∀ j, i.Before j →
      e.Follows pending barrier j (k j.state) false below (e.going j.store goals below))
    (alternative : ∀ b gs, i.store.Later b →
      e.Follows pending barrier i otherwise false below (e.failing b gs (below ++ above))) :
    e.Follows pending barrier i (a.once k otherwise) false below x := by
  cases a with
  | stuck => trivial
  | failed =>
    obtain ⟨-, b, gs, later, leads⟩ := h
    exact (alternative b gs later).leadsTo leads
  | cut =>
    obtain ⟨b, gs, later, leads⟩ := h
    rw [take_length] at leads
    exact (alternative b gs later).leadsTo leads
  | answer s rest =>
    obtain ⟨j, cutNow, above', before, rfl, -, first, -⟩ := h
    rw [left_all, append_assoc] at first
    have drop : LeadsTo
        (e.going j.store (.cutTo below.length :: goals) (below ++ (above ++ above')))
        (e.going j.store goals ((below ++ (above ++ above')).take below.length)) :=
      going_cutTo below.length
    rw [take_left] at drop
    exact ((consequence j before).leadsTo (first.trans drop)).before before

lemma Follows.soft_answer {c c' : Choice} {s : State} {rest : Unit → Answers}
    (low : below.length = height)
    (ih : ∀ {below' wasCut x}, below'.length = height →
      e.Follows (.softCut height :: goals) (height + 1) i (rest ()) wasCut (below' ++ [spent c]) x →
      e.Follows goals barrier i (rest ()).enclose false below' x)
    (h : e.Follows (.softCut height :: goals) (height + 1) i (.answer s rest) wasCut (below ++ [c']) x)
    (spent_eq : spent c' = spent c) :
    e.Follows goals barrier i (Answers.answer s rest).enclose false below x := by
  obtain ⟨j, cutNow, above, before, state, -, first, resume⟩ := h
  have length : height + 1 = (below ++ [c']).length := by simp [low]
  rw [length, left_all] at first resume
  rw [append_assoc] at first
  subst low
  refine ⟨j, false, spent c :: above, before, state, Bool.noConfusion,
    spent_eq ▸ first.trans (going_softCut c' above), ?_⟩
  intro below' b gs length' later
  change below'.length = below.length at length'
  have rest := resume (below' ++ [spent c]) b gs (by simp [length']) later
  rw [append_assoc] at rest
  exact ih length' (by rwa [← length] at rest)

lemma Follows.soft_rest {c : Choice} (trail : c.trail = i.store.mark) (low : below.length = height)
    (h : e.Follows (.softCut height :: goals) (height + 1) i a wasCut (below ++ [spent c]) x) :
    e.Follows goals barrier i a.enclose false below x := by
  induction a generalizing below wasCut x with
  | stuck => trivial
  | failed =>
    obtain ⟨-, b, gs, later, leads⟩ := h
    exact ⟨rfl, (fails_spent trail later).leadsTo leads⟩
  | cut =>
    obtain ⟨b, gs, later, leads⟩ := h
    rw [take_of_length_le (by simp [low])] at leads
    exact ⟨rfl, (fails_spent trail later).leadsTo leads⟩
  | answer s rest ih =>
    exact Follows.soft_answer low (fun low' => ih () low') h rfl

lemma Follows.each {c : Choice} (trail : c.trail = i.store.mark)
    (h : e.Follows (.softCut below.length :: goals) (below.length + 1) i a false (below ++ [c]) x)
    (high : barrier ≤ below.length)
    (consequence : ∀ j choices, i.Before j → barrier ≤ choices.length →
      e.Follows pending barrier j (k j.state) false choices (e.going j.store goals choices))
    (alternative : ∀ b gs, i.store.Later b →
      e.Follows pending barrier i otherwise false below (e.failing b gs (below ++ [c]))) :
    e.Follows pending barrier i (a.each k otherwise) false below x := by
  cases a with
  | stuck => trivial
  | failed =>
    obtain ⟨-, b, gs, later, leads⟩ := h
    exact (alternative b gs later).leadsTo leads
  | cut =>
    obtain ⟨b, gs, later, leads⟩ := h
    rw [take_of_length_le (by simp)] at leads
    exact (alternative b gs later).leadsTo leads
  | answer s rest =>
    refine Follows.bind (Follows.soft_answer rfl ?_ h rfl) high Bool.noConfusion consequence
    exact fun low rest => Follows.soft_rest (c := c) trail low rest

end Setting

end Search

end Horn
