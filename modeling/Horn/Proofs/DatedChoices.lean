import Horn.Proofs.CallPlans
import Horn.Proofs.NestedMachines

/-!
# Choices and the dates of their making

How far a cut goes back is given by a height of the stack of choices, and the stack has grown and
shrunk since that height was taken. A ledger is kept beside the machine, which knows of no heights:
every choice has a date of its own, and every goal has the dates of the choices that stood when its
clause or construct was entered. Step by step, the heights of the machine are the numbers of those.
-/

namespace Horn

open List Machine Array

variable {c : Choice} {w : World} {i : Nat}

def Goal.height? : Goal → Option Nat
  | .call _ barrier => some barrier
  | .cutTo height => some height
  | .softCut _ => none

def Alternative.height? : Alternative → Option Nat
  | .goal _ barrier => some barrier
  | .clauses _ _ | .spent => none

namespace Machine

def Step.machine : Step → Machine
  | .go m | .fail m | .solution m | .exhausted m | .halt _ m | .collect _ _ _ m => m

def Descends (n : Nat) (gs : List Goal) : Prop := (n :: gs.filterMap Goal.height?).Pairwise (· ≥ ·)

/-- Whether a goal is a cut of the clause or construct that it is in. -/
def Cuts (b : Bindings) : Goal → Prop
  | .call t _ => (b.walk t).unmarked = .atom "!"
  | .cutTo _ => True
  | .softCut _ => False

end Machine

namespace Computation

def machines (c : Computation) : List Machine :=
  c.machine :: c.waiting.map fun s => ⟨c.machine.world, s.goals, s.choices⟩

end Computation

namespace Ledger

/-- The dates of some choices, the latest first. -/
abbrev Dates := List Nat

structure Stamp where
  date : Nat
  made : Choice
  goals : List Dates
  other : Dates

end Ledger

open Ledger (Dates Stamp)

variable {es : List Dates} {entry S : Dates}

/-- What is known of a machine from the steps that it has taken. The entry of a goal are the choices
that stood when its clause or construct was entered. That of a soft cut are those that stood when the
choice had just been made that it is to give up. -/
structure Ledger where
  made : Nat
  entries : List Dates
  stamps : List Stamp

namespace Ledger

def standing (l : Ledger) : Dates := l.stamps.map Stamp.date

def cut (l : Ledger) (entry : Dates) : Ledger :=
  { l with stamps := l.stamps.filter (·.date ∈ entry) }

/-- If the stack has grown from `m` to `m'`, a choice has been made. -/
def note (l : Ledger) (m m' : Machine) (other : Dates) : Ledger :=
  match m'.choices[m.choices.size]? with
  | none => l
  | some c => { l with made := l.made + 1, stamps := ⟨l.made, c, l.entries, other⟩ :: l.stamps }

def endings (before after : Dates) : Guard → List Dates
  | .free => []
  | .cut _ => [before]
  | .softCut _ => [after]

/-- The entries of the goals that take the place of one with the entry `own`. -/
def entered (own before after : Dates) (more : Nat) : Plan → List Dates
  | .both _ _ => [own, own]
  | .either _ _ => [own]
  | .guarded guard _ rest => after :: (endings before after guard ++ rest.map fun _ => own)
  | .act _ _ => replicate more own
  | .resolve _ _ => replicate more before
  | _ => []

/-- A plan has been carried out by `m`, and `m'` has come of it. -/
def follow (l : Ledger) (m m' : Machine) (own : Dates) (plan : Plan) : Ledger :=
  let next := l.note m m' own
  let more := m'.goals.length - m.goals.length
  { next with entries := entered own l.standing next.standing more plan ++ l.entries }

def advance (p : Program) (l : Ledger) (m m' : Machine) : Ledger :=
  match m.goals, l.entries with
  | g :: rest, own :: entries =>
    let l := { l with entries }
    match g with
    | .cutTo _ => l.cut own
    | .softCut _ => l
    | .call t _ =>
      match Plan.ofGoal p m.world.bindings (m.world.bindings.walk t).unmarked with
      | .cut => l.cut own
      | plan => l.follow { m with goals := rest } m' own plan
  | _, _ => l

def retry (l : Ledger) (m m' : Machine) : Ledger :=
  match m.choices.back?, l.stamps with
  | some c, s :: stamps =>
    let l : Ledger := ⟨l.made, s.goals, stamps⟩
    match c.alternative with
    | .spent => l
    | .goal _ _ => { l with entries := s.other :: s.goals }
    | .clauses t cs => l.follow ⟨m.world, c.goals, m.choices.pop⟩ m' [] (.resolve t cs)
  | _, _ => l

/-- The ledger has been kept from the start of the machine on. While the machine waits for another,
its world changes. -/
inductive Keeps (p : Program) : Ledger → Machine → Prop where
  | start (w : World) (goal : Term) : Keeps p ⟨0, [[]], []⟩ (.start w goal)
  | advance {l : Ledger} {m : Machine} (h : Keeps p l m) (n : Nat) :
    Keeps p (l.advance p m (m.step p n false).machine) (m.step p n false).machine
  | retry {l : Ledger} {m : Machine} (h : Keeps p l m) (n : Nat) :
    Keeps p (l.retry m (m.step p n true).machine) (m.step p n true).machine
  | world {l : Ledger} {m : Machine} (h : Keeps p l m) (w : World) : Keeps p l { m with world := w }

/-- The choices of a machine with their dates, the latest first. -/
def dated (l : Ledger) (m : Machine) : List (Nat × Choice) :=
  l.standing.zip m.choices.toList.reverse

inductive Entered : Dates → List Dates → List Goal → Prop where
  | nil {S : Dates} : Entered S [] []
  | call {S e : Dates} {t : Term} {es : List Dates} {gs : List Goal} (older : e <:+ S)
    (rest : Entered e es gs) : Entered S (e :: es) (.call t e.length :: gs)
  | cutTo {S e : Dates} {es : List Dates} {gs : List Goal} (older : e <:+ S)
    (rest : Entered e es gs) : Entered S (e :: es) (.cutTo e.length :: gs)
  | softCut {S e : Dates} {k : Nat} {es : List Dates} {gs : List Goal} (older : k :: e <:+ S)
    (rest : Entered e es gs) : Entered S ((k :: e) :: es) (.softCut e.length :: gs)

section Entered

variable {S' : Dates} {gs : List Goal}

lemma Entered.mono (h : Entered S es gs) (le : S <:+ S') : Entered S' es gs := by
  cases h with
  | nil => exact .nil
  | call older rest => exact .call (older.trans le) rest
  | cutTo older rest => exact .cutTo (older.trans le) rest
  | softCut older rest => exact .softCut (older.trans le) rest

lemma Entered.calls (h : Entered S es gs) (ts : List Term) :
    Entered S ((ts.map fun _ => S) ++ es) (ts.map (.call · S.length) ++ gs) := by
  induction ts with
  | nil => exact h
  | cons t ts ih => exact .call (suffix_refl S) ih

lemma Entered.length_eq (h : Entered S es gs) : es.length = gs.length := by
  induction h with
  | nil => rfl
  | call _ _ ih | cutTo _ _ ih | softCut _ _ ih => exact congrArg Nat.succ ih

lemma Entered.descends (h : Entered S es gs) : Descends S.length gs := by
  have lower {n k : Nat} {gs : List Goal} (h : Descends n gs) (le : n ≤ k) : Descends k gs := by
    obtain ⟨first, rest⟩ := pairwise_cons.1 h
    exact pairwise_cons.2 ⟨fun j hj => (first j hj).trans le, rest⟩
  have first {n k : Nat} {gs : List Goal} (h : Descends n gs) (le : n ≤ k) :
      (k :: n :: gs.filterMap Goal.height?).Pairwise (· ≥ ·) :=
    pairwise_cons.2 ⟨forall_mem_cons.2 ⟨le, (pairwise_cons.1 (lower h le)).1⟩, h⟩
  induction h with
  | nil => exact List.pairwise_singleton _ _
  | call older _ ih | cutTo older _ ih => exact first ih older.length_le
  | softCut older _ ih => exact lower ih (((suffix_cons _ _).trans older).length_le)

end Entered

/-- A choice with its stamp, where the choices below it have the dates `S`. -/
structure Holds (S : Dates) (s : Stamp) (c : Choice) : Prop where
  goals : Entered S s.goals c.goals
  other : ∀ t b, c.alternative = .goal t b →
    s.other <:+ S ∧ b = s.other.length ∧ Entered s.other s.goals c.goals
  made : c = s.made ∨ c = { s.made with alternative := .spent }

lemma Holds.spent {s : Stamp} (h : Holds S s c) : Holds S s { c with alternative := .spent } := by
  refine ⟨h.goals, nofun, .inr ?_⟩
  rcases h.made with rfl | rfl <;> rfl

inductive Stack : List Stamp → Array Choice → Prop where
  | nil : Stack [] #[]
  | push {s : Stamp} {c : Choice} {ss : List Stamp} {cs : Array Choice}
    (holds : Holds (ss.map Stamp.date) s c) (later : ∀ k ∈ ss.map Stamp.date, k < s.date)
    (rest : Stack ss cs) : Stack (s :: ss) (cs.push c)

namespace Stack

variable {ss : List Stamp} {cs : Array Choice} {e : Dates} {k : Nat}

lemma size (h : Stack ss cs) : cs.size = (ss.map Stamp.date).length := by
  induction h with
  | nil => rfl
  | push _ _ _ ih => rw [size_push, ih, map_cons, length_cons]

lemma cutTo (h : Stack ss cs) (older : e <:+ ss.map Stamp.date) :
    Stack (ss.filter (·.date ∈ e)) (cs.shrink e.length) ∧
      (ss.filter (·.date ∈ e)).map Stamp.date = e ∧
      ((ss.map Stamp.date).zip cs.toList.reverse).filter (·.1 ∈ e) =
        e.zip (cs.shrink e.length).toList.reverse := by
  induction h with
  | nil =>
    obtain rfl := suffix_nil.1 older
    exact ⟨.nil, rfl, rfl⟩
  | @push s c ss cs holds later rest ih =>
    rcases suffix_cons_iff.1 older with rfl | lower
    · have all : (s :: ss).filter (·.date ∈ (s :: ss).map Stamp.date) = s :: ss :=
        filter_eq_self.2 fun t ht => decide_eq_true (mem_map_of_mem ht)
      have whole : (s.date :: ss.map Stamp.date).length = (cs.push c).size := by
        simp [rest.size]
      rw [whole, shrink_size]
      exact ⟨all.symm ▸ .push holds later rest, congrArg _ all,
        filter_eq_self.2 fun x hx => decide_eq_true (of_mem_zip hx).1⟩
    · have newer : s.date ∉ e := fun h => Nat.lt_irrefl _ (later _ (lower.subset h))
      obtain ⟨stack, dates, kept⟩ := ih lower
      rw [filter_cons_of_neg (by simpa using newer), shrink_push (rest.size ▸ lower.length_le),
        ← kept, toList_push, reverse_concat, map_cons, zip_cons_cons]
      exact ⟨stack, dates, filter_cons_of_neg (by simpa using newer)⟩

lemma softCut (h : Stack ss cs) (older : k :: e <:+ ss.map Stamp.date) :
    Stack ss (cs.modify e.length fun c => { c with alternative := .spent }) := by
  induction h with
  | nil => cases suffix_nil.1 older
  | @push s c ss cs holds later rest ih =>
    rcases suffix_cons_iff.1 older with eq | lower
    · obtain rfl := (cons.inj eq).2
      rw [← rest.size, modify_push_last]
      exact .push holds.spent later rest
    · have inside : e.length < cs.size := rest.size ▸ lower.length_le
      rw [modify_push inside]
      exact .push holds later (ih lower)

lemma at_height (h : Stack ss cs) (found : cs[i]? = some c) :
    ∃ s S, ss.reverse[i]? = some s ∧ s.date :: S <:+ ss.map Stamp.date ∧ S.length = i ∧
      Holds S s c := by
  induction h with
  | nil => simp at found
  | @push s c' ss cs holds later rest ih =>
    have size : ss.reverse.length = cs.size := by simp [rest.size]
    rw [getElem?_push] at found
    rw [reverse_cons]
    split at found
    · next last =>
      cases found
      refine ⟨s, _, ?_, suffix_refl _, (last.trans rest.size).symm, holds⟩
      rw [last, ← size, getElem?_concat_length]
    · obtain ⟨s', S, mem, level, length, holds⟩ := ih found
      refine ⟨s', S, ?_, level.trans (suffix_cons _ _), length, holds⟩
      rw [List.getElem?_append_left (List.getElem?_eq_some_iff.1 mem).1, mem]

end Stack

/-- The ledger and the machine agree. -/
structure Shows (l : Ledger) (m : Machine) : Prop where
  goals : Entered l.standing l.entries m.goals
  choices : Stack l.stamps m.choices
  new : ∀ k ∈ l.standing, k < l.made

section Following

variable {l : Ledger} {m m' : Machine} {own : Dates} {plan : Plan} {t : Term} {n b : Nat}

lemma Shows.size (h : l.Shows m) : m.choices.size = l.standing.length := h.choices.size

lemma Shows.same (h : l.Shows m) (same : m'.choices = m.choices)
    (goals : Entered l.standing (entered own l.standing l.standing
      (m'.goals.length - m.goals.length) plan ++ l.entries) m'.goals) :
    (l.follow m m' own plan).Shows m' := by
  have note : l.note m m' own = l := by rw [note, same, getElem?_size]
  rw [follow, note]
  exact ⟨goals, same ▸ h.choices, h.new⟩

lemma Shows.pushed (h : l.Shows m) (pushed : m'.choices = m.choices.push c)
    (holds : Holds l.standing ⟨l.made, c, l.entries, own⟩ c)
    (goals : Entered (l.made :: l.standing) (entered own l.standing (l.made :: l.standing)
      (m'.goals.length - m.goals.length) plan ++ l.entries) m'.goals) :
    (l.follow m m' own plan).Shows m' := by
  have note : l.note m m' own =
      ⟨l.made + 1, l.entries, ⟨l.made, c, l.entries, own⟩ :: l.stamps⟩ := by
    rw [note, pushed, getElem?_push_size]
  rw [follow, note]
  refine ⟨goals, pushed ▸ .push holds h.new h.choices, forall_mem_cons.2 ⟨Nat.lt_succ_self _, ?_⟩⟩
  exact fun k hk => Nat.lt_succ_of_lt (h.new k hk)

/-- Some goals have been added that go back to the height `b`, and no choice has been made. -/
def Adds (m : Machine) (b : Nat) (m' : Machine) : Prop :=
  ∃ (w : World) (ts : List Term), m' = ⟨w, ts.map (.call · b) ++ m.goals, m.choices⟩

lemma adds_act {α : Type} {a : Action α} {k : α → Machine → Step}
    (next : ∀ x w, Adds m b (k x { m with world := w }).machine) (w : World) :
    Adds m b (act { m with world := w } a k).machine := by
  simp only [act]
  split
  · exact next _ _
  · exact ⟨_, [], rfl⟩

lemma adds_resolveBy (c : Clause) : Adds m b (resolveBy n m t c b).machine := by
  have enter (base : Nat) (w : World) : Adds m b (enter { m with world := w } c base b) :=
    ⟨w, c.body.map (Bindings.rename base), by rw [List.map_map]; rfl⟩
  refine adds_act (fun base w => ?_) m.world
  split
  · exact enter base w
  · refine adds_act (fun unified w => ?_) w
    cases unified with
    | true => exact enter base w
    | false => exact ⟨w, [], rfl⟩

lemma Adds.entered (adds : Adds m S.length m') (h : Entered S es m.goals) :
    Entered S (List.replicate (m'.goals.length - m.goals.length) S ++ es) m'.goals := by
  obtain ⟨w, ts, rfl⟩ := adds
  simpa [List.map_const'] using h.calls ts

/-- A clause is entered with the choices that stand before another clause is kept. -/
lemma Shows.tryClauses (h : l.Shows m) (p : Program) (cs : List CompiledClause) :
    (l.follow m (tryClauses p n m t cs).machine own (.resolve t cs)).Shows
      (tryClauses p n m t cs).machine := by
  unfold Machine.tryClauses
  rw [h.size]
  split
  · exact h.same rfl (Adds.entered ⟨m.world, [], rfl⟩ h.goals)
  · next c rest eq =>
    dsimp only
    split
    · have adds := adds_resolveBy (m := m) (b := l.standing.length) (n := n) (t := t) c.clause
      obtain ⟨w, ts, eq⟩ := id adds
      exact h.same (by rw [eq]) (adds.entered h.goals)
    · have adds := adds_resolveBy (m := m.pushChoice (.clauses t (candidates p m t rest)))
        (b := l.standing.length) (n := n) (t := t) c.clause
      obtain ⟨w, ts, eq⟩ := id adds
      exact h.pushed (c := ⟨_, m.goals, .clauses t _⟩) (by rw [eq]; rfl) ⟨h.goals, nofun, .inl rfl⟩
        ((adds.entered h.goals).mono (suffix_cons _ _))

/-- What a plan does to the choices is what the ledger notes. -/
lemma Shows.follow (h : l.Shows m) (older : own <:+ l.standing)
    (goals : Entered own l.entries m.goals) (p : Program) (other : plan ≠ .cut) :
    (l.follow m (plan.run p n m own.length).machine own plan).Shows
      (plan.run p n m own.length).machine := by
  have above : own <:+ l.made :: l.standing := older.trans (suffix_cons _ _)
  have left (t : Term) : Holds l.standing
      ⟨l.made, ⟨m.world.bindings.mark, m.goals, .goal t own.length⟩, l.entries, own⟩
      ⟨m.world.bindings.mark, m.goals, .goal t own.length⟩ :=
    ⟨goals.mono older, fun u b eq => by cases eq; exact ⟨older, rfl, goals⟩, .inl rfl⟩
  cases plan with
  | cut => exact absurd rfl other
  | raise | fail | collect => exact h.same rfl h.goals
  | both x y => exact h.same rfl (.call older (.call (suffix_refl own) goals))
  | either x y => exact h.pushed rfl (left y) (.call above goals)
  | guarded guard x rest =>
    have calls := goals.calls rest
    have closed {S : Dates} {k : Nat} {es : List Dates} {gs : List Goal} (size : k = S.length)
        (ending : Entered S es gs) : Entered S (S :: es) (.call x k :: gs) :=
      size ▸ .call (suffix_refl S) ending
    have cut {S : Dates} (above : l.standing <:+ S) : Entered S
        (l.standing :: (rest.map (fun _ => own) ++ l.entries))
        (.cutTo m.choices.size :: (rest.map (.call · own.length) ++ m.goals)) :=
      h.size ▸ .cutTo above (calls.mono older)
    have size {c : Choice} : (m.choices.push c).size = (l.made :: l.standing).length := by
      rw [size_push, h.size, length_cons]
    cases guard with
    | free => exact h.same rfl (closed h.size (calls.mono older))
    | cut y =>
      cases y with
      | none => exact h.same rfl (closed h.size (cut (suffix_refl _)))
      | some y => exact h.pushed rfl (left y) (closed size (cut (suffix_cons _ _)))
    | softCut y =>
      refine h.pushed rfl (left y) (closed size ?_)
      exact h.size ▸ .softCut (suffix_refl _) (calls.mono older)
  | act b args =>
    have adds : Adds m own.length ((Plan.act b args).run p n m own.length).machine := by
      simp only [Plan.run]
      refine adds_act (fun verdict w => ?_) m.world
      cases verdict with
      | succeed | fail => exact ⟨w, [], rfl⟩
      | solve t => exact ⟨w, [t], rfl⟩
    obtain ⟨w, ts, eq⟩ := id adds
    exact h.same (by rw [eq]) ((adds.entered goals).mono older)
  | resolve t cs => exact h.tryClauses p cs

end Following

section Steps

variable {p : Program} {l : Ledger} {m : Machine} {n : Nat}

lemma Shows.cut {gs gs' : List Goal} {cs : Array Choice} (h : l.Shows ⟨w, gs, cs⟩)
    (older : entry <:+ l.standing) (rest : Entered entry es gs') :
    (cut { l with entries := es } entry).Shows ⟨w, gs', cs.shrink entry.length⟩ := by
  obtain ⟨stack, dates, -⟩ := h.choices.cutTo older
  refine ⟨?_, stack, fun k hk => h.new k (older.subset (dates ▸ hk))⟩
  rwa [standing, Ledger.cut, dates]

lemma Shows.advance (h : l.Shows m) :
    (l.advance p m (m.step p n false).machine).Shows (m.step p n false).machine := by
  obtain ⟨w, goals, choices⟩ := m
  obtain ⟨made, entries, stamps⟩ := l
  have entered := h.goals
  cases entered with
  | nil => exact h
  | @call S e t es gs older rest =>
    have left : Shows ⟨made, es, stamps⟩ ⟨w, gs, choices⟩ := ⟨rest.mono older, h.choices, h.new⟩
    have follows {plan : Plan} (other : plan ≠ .cut) := left.follow (n := n) older rest p other
    have run : step p n false ⟨w, .call t e.length :: gs, choices⟩ = _ :=
      call_eq_run p n ⟨w, gs, choices⟩ e.length t
    simp only [advance, run]
    generalize Plan.ofGoal p w.bindings (w.bindings.walk t).unmarked = plan
    cases plan with
    | cut => exact h.cut older rest
    | _ => exact follows nofun
  | cutTo older rest => exact h.cut older rest
  | softCut older rest =>
    exact ⟨rest.mono ((suffix_cons _ _).trans older), h.choices.softCut older, h.new⟩

lemma Shows.retry (h : l.Shows m) :
    (l.retry m (m.step p n true).machine).Shows (m.step p n true).machine := by
  obtain ⟨⟨store, ops, out⟩, goals, choices⟩ := m
  obtain ⟨made, entries, stamps⟩ := l
  have stack : Stack stamps choices := h.choices
  cases stack with
  | nil => exact h
  | @push s c ss cs holds later rest =>
    have new : ∀ k ∈ ss.map Stamp.date, k < made := fun k hk => h.new k (mem_cons_of_mem _ hk)
    have left : Shows ⟨made, s.goals, ss⟩ ⟨⟨store.undo c.trail, ops, out⟩, c.goals, cs⟩ :=
      ⟨holds.goals, rest, new⟩
    simp only [retry, step, if_true, retry_push, back?_push, pop_push]
    cases alternative : c.alternative with
    | spent => exact left
    | goal t b =>
      obtain ⟨older, rfl, goals⟩ := holds.other t b alternative
      exact ⟨.call older goals, rest, new⟩
    | clauses t cs => exact left.tryClauses p cs

lemma Keeps.shows (h : l.Keeps p m) : l.Shows m := by
  induction h with
  | start w goal => exact ⟨.call (suffix_refl []) .nil, .nil, forall_mem_nil _⟩
  | advance _ n ih => exact ih.advance
  | retry _ n ih => exact ih.retry
  | world _ w ih => exact ⟨ih.goals, ih.choices, ih.new⟩

end Steps

section Meaning

variable {p : Program} {l : Ledger} {m : Machine} {n : Nat} {rest : List Goal}

/-- A cut keeps the choices that stood at its entry, and all of those are still there. -/
def KeepsEntry (l : Ledger) (m m' : Machine) (entry : Dates) : Prop :=
  m'.choices.toList.reverse = ((l.dated m).filter (·.1 ∈ entry)).map Prod.snd ∧
    ((l.dated m).filter (·.1 ∈ entry)).map Prod.fst = entry

lemma Shows.keepsEntry (h : l.Shows m) (older : entry <:+ l.standing) (w : World) (gs : List Goal) :
    l.KeepsEntry m ⟨w, gs, m.choices.shrink entry.length⟩ entry := by
  have kept : (l.dated m).filter (·.1 ∈ entry) = _ := (h.choices.cutTo older).2.2
  have size : entry.length = (m.choices.shrink entry.length).toList.reverse.length := by
    simpa using h.size ▸ older.length_le
  unfold KeepsEntry
  rw [kept, List.map_snd_zip size.ge, List.map_fst_zip size.le]
  exact ⟨rfl, rfl⟩

lemma Shows.cuts (h : l.Shows m) {g : Goal} (goals : m.goals = g :: rest)
    (cuts : Cuts m.world.bindings g) :
    ∃ entry entries m', l.entries = entry :: entries ∧ m.step p n false = .go m' ∧
      m'.goals = rest ∧ l.KeepsEntry m m' entry := by
  obtain ⟨w, gs, cs⟩ := m
  obtain ⟨made, entries, stamps⟩ := l
  have entered := h.goals
  subst goals
  cases entered with
  | @call S e t es gs older _ =>
    refine ⟨e, es, _, rfl, ?_, rfl, h.keepsEntry older w rest⟩
    change call p n ⟨w, rest, cs⟩ t e.length = _
    rw [call, show (w.bindings.walk t).unmarked = .atom "!" from cuts]
    rfl
  | @cutTo S e es gs older _ => exact ⟨e, es, _, rfl, rfl, rfl, h.keepsEntry older w rest⟩
  | softCut => cases cuts

/-- A soft cut finds the choice `s`, as it was made or given up before. -/
def Finds (l : Ledger) (m : Machine) (i : Nat) (s : Stamp) : Prop :=
  l.stamps.reverse[i]? = some s ∧
    (m.choices[i]? = some s.made ∨ m.choices[i]? = some { s.made with alternative := .spent })

lemma Shows.finds (h : l.Shows m) (goals : m.goals = .softCut i :: rest) :
    ∃ s below entries, l.entries = (s.date :: below) :: entries ∧ l.Finds m i s := by
  obtain ⟨w, gs, cs⟩ := m
  obtain ⟨made, entries, stamps⟩ := l
  have entered := h.goals
  subst goals
  cases entered with
  | @softCut S e k es gs older _ =>
    have inside : e.length < cs.size := h.size ▸ older.length_le
    have found := Array.getElem?_eq_getElem inside
    obtain ⟨s, S, stamp, level, length, holds⟩ := h.choices.at_height found
    obtain ⟨rfl, rfl⟩ := cons.inj ((suffix_of_suffix_length_le level older
      (by simp [length])).eq_of_length (by simp [length]))
    refine ⟨s, S, es, rfl, stamp, ?_⟩
    rcases holds.made with eq | eq
    · exact .inl (found.trans (congrArg some eq))
    · exact .inr (found.trans (congrArg some eq))

end Meaning

end Ledger

namespace Computation

open Machine (Waiting)

variable {p : Program} {c : Computation}

lemma Reaches.kept {goal : Term} (reached : Reaches p ⟨.running false, .start w goal, []⟩ c) :
    ∀ m ∈ c.machines, ∃ l : Ledger, l.Keeps p m := by
  have all : (∃ l : Ledger, l.Keeps p c.machine) ∧
      ∀ s ∈ c.waiting, ∀ w, ∃ l : Ledger, l.Keeps p ⟨w, s.goals, s.choices⟩ := by
    induction reached with
    | refl => exact ⟨⟨_, .start w goal⟩, forall_mem_nil _⟩
    | @tail c _ _ next ih =>
      obtain ⟨⟨l, kept⟩, waiting⟩ := ih
      have stepped {n : Nat} {failed : Bool} {s : Step}
          (step : step p n failed c.machine = s) : ∃ l : Ledger, l.Keeps p s.machine := by
        subst step
        cases failed with
        | true => exact ⟨_, kept.retry n⟩
        | false => exact ⟨_, kept.advance n⟩
      cases next with
      | go step | fail step | answer step | exhaust step | halt step =>
        exact ⟨stepped step, waiting⟩
      | collect step =>
        refine ⟨⟨_, .start _ _⟩, forall_mem_cons.2 ⟨fun w => ?_, waiting⟩⟩
        obtain ⟨l, kept⟩ := stepped step
        exact ⟨_, kept.world w⟩
      | more | outOfFuel => exact ⟨⟨l, kept⟩, waiting⟩
      | found =>
        obtain ⟨first, rest⟩ := forall_mem_cons.1 waiting
        exact ⟨⟨l, kept⟩, forall_mem_cons.2 ⟨first, rest⟩⟩
      | gathered | ungathered | unwind =>
        obtain ⟨first, rest⟩ := forall_mem_cons.1 waiting
        exact ⟨first _, rest⟩
  refine forall_mem_cons.2 ⟨all.1, fun m hm => ?_⟩
  obtain ⟨s, hs, rfl⟩ := mem_map.1 hm
  exact all.2 s hs _

open Machine (Descends Cuts)

/-- The heights in a machine never increase from goal to goal and none is above the number of choices;
in a choice none is above its place. Whatever the machine has done before, a cut keeps exactly the
choices that stood when its clause or opaque construct was entered, and a soft cut finds the choice
that was made with it. So it is in every machine that a computation comes to. -/
theorem cuts_keep_older_choices (p : Program) :
    (∀ (l : Ledger) m, l.Keeps p m →
      (Descends m.choices.size m.goals ∧ ∀ k c, m.choices[k]? = some c →
        Descends k c.goals ∧ ∀ b ∈ c.alternative.height?, b ≤ k) ∧
      (l.entries.length = m.goals.length ∧ l.standing.length = m.choices.size) ∧
      (∀ g rest n, m.goals = g :: rest → Cuts m.world.bindings g →
        ∃ entry entries m', l.entries = entry :: entries ∧ m.step p n false = .go m' ∧
          m'.goals = rest ∧ l.KeepsEntry m m' entry) ∧
      ∀ i rest, m.goals = .softCut i :: rest →
        ∃ s below entries, l.entries = (s.date :: below) :: entries ∧ l.Finds m i s) ∧
    ∀ w goal c, Reaches p ⟨.running false, .start w goal, []⟩ c →
      ∀ m ∈ c.machines, ∃ l : Ledger, l.Keeps p m := by
  refine ⟨fun l m kept => ?_, fun w goal c reached => reached.kept⟩
  have shows := kept.shows
  refine ⟨⟨shows.size ▸ shows.goals.descends, fun k c found => ?_⟩,
    ⟨shows.goals.length_eq, shows.size.symm⟩, fun g rest n goals cuts => shows.cuts goals cuts,
    fun i rest goals => shows.finds goals⟩
  obtain ⟨s, S, -, -, rfl, holds⟩ := shows.choices.at_height found
  refine ⟨holds.goals.descends, fun b hb => ?_⟩
  cases other : c.alternative with
  | goal t barrier =>
    obtain ⟨older, rfl, -⟩ := holds.other t barrier other
    rw [other] at hb
    cases hb
    exact older.length_le
  | spent | clauses =>
    rw [other] at hb
    cases hb

/-- The goal `p ; true` with the clauses `p :- ( true ; true ), !` and `p`, when the cut is next. Of
the three choices, the one for `true` stays. -/
theorem cuts_keep_older_choices_clause :
    let yes := Term.atom "true"
    let goal := Term.compound ";" [.atom "p", yes]
    let clause (body : List Term) : CompiledClause :=
      ⟨⟨"p", 0⟩, ⟨0⟩, ⟨some (.atom "p"), body, .rule, ⟨1, 1⟩⟩, [], 0, []⟩
    let second := clause []
    let clauses := [clause [.compound ";" [yes, yes], .atom "!"], second]
    let p : Program := .ofDomain ⟨#[⟨⟨"p", 0⟩, clauses, false⟩], [(⟨"p", 0⟩, 0)]⟩ .error
    let w : World := ⟨.empty, .standard, ""⟩
    let pending : List Goal := [.call (.atom "!") 1]
    let first : Choice := ⟨0, [], .goal yes 0⟩
    let m : Machine := ⟨w, pending,
      #[first, ⟨0, [], .clauses (.atom "p") [second]⟩, ⟨0, pending, .goal yes 1⟩]⟩
    Reaches p ⟨.running false, .start w goal, []⟩ ⟨.running false, m, []⟩ ∧
    ∃ (l : Ledger) (entry : Ledger.Dates), l.Keeps p m ∧ entry.length = 1 ∧
      l.KeepsEntry m ⟨w, [], #[first]⟩ entry := by
  intro yes goal clause second clauses p w pending first m
  let either : Term := .compound ";" [yes, yes]
  let below : Array Choice := #[first, ⟨0, [], .clauses (.atom "p") [second]⟩]
  have left : step p 0 false (.start w goal) = .go ⟨w, [.call (.atom "p") 0], #[first]⟩ := rfl
  have entered : step p 2 false ⟨w, [.call (.atom "p") 0], #[first]⟩ =
      .go ⟨w, .call either 1 :: pending, below⟩ := rfl
  have again : step p 0 false ⟨w, .call either 1 :: pending, below⟩ =
      .go ⟨w, .call yes 1 :: pending, m.choices⟩ := rfl
  have solved : step p 0 false ⟨w, .call yes 1 :: pending, m.choices⟩ = .go m := rfl
  have reached : Reaches p ⟨.running false, .start w goal, []⟩ ⟨.running false, m, []⟩ :=
    .head (.go left) (.head (.go entered) (.head (.go again) (.single (.go solved))))
  obtain ⟨each, all⟩ := cuts_keep_older_choices p
  obtain ⟨l, kept⟩ := all w goal _ reached m mem_cons_self
  obtain ⟨-, -, cuts, -⟩ := each l m kept
  obtain ⟨entry, _, _, -, step, -, keeps⟩ := cuts _ [] 0 rfl rfl
  cases step
  refine ⟨reached, l, entry, kept, ?_, keeps⟩
  have left := congrArg length keeps.1
  have stood := congrArg length keeps.2
  rw [length_map] at left stood
  exact stood.symm.trans left.symm

end Computation

end Horn
