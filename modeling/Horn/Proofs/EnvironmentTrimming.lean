import Horn.Proofs.CompiledCode

/-!
# Trimming the environment

A built-in that runs no goals ends no chunk: what stands between it and the end of its chunk may
refer to a slot that its number leaves out, as `trimming_drops_slot` shows.
-/

namespace Horn

open List Term BodyGoal Layout Lowering

def Reg.slot? : Reg → Option Nat
  | .x _ => none
  | .y n => some n

namespace Instruction

def slots : Instruction → List Nat
  | getVariable r _ | getValue r _ | unifyVariable r | unifyValue r | putVariable r _
  | putValue r _ | setVariable r | setValue r => r.slot?.toList
  | putUnsafeValue y _ | getLevel y | cut y => [y]
  | _ => []

def isData : Instruction → Bool
  | allocate _ | deallocate | call _ _ | execute _ | callBuiltin _ _ | proceed | tryMeElse _
  | retryMeElse _ | trustMe | neckCut | getLevel _ | cut _ => false
  | _ => true

def live? : Instruction → Option Nat
  | call _ live | callBuiltin _ live => some live
  | _ => none

def endsChunk : Instruction → Bool
  | call _ _ => true
  | callBuiltin b _ => b.callsGoals
  | _ => false

def laterChunks : List Instruction → List Instruction
  | [] => []
  | i :: rest => if i.endsChunk then rest else laterChunks rest

lemma live_of_isData {i : Instruction} (h : i.isData = true) : i.live? = none := by
  cases i <;> first | rfl | cases h

lemma endsChunk_of_live {i : Instruction} (h : i.live? = none) : i.endsChunk = false := by
  cases i <;> first | rfl | cases h

lemma laterChunks_append {quiet : List Instruction} (h : ∀ i ∈ quiet, i.live? = none)
    (rest : List Instruction) : laterChunks (quiet ++ rest) = laterChunks rest := by
  induction quiet with
  | nil => rfl
  | cons i quiet ih =>
    obtain ⟨first, others⟩ := forall_mem_cons.1 h
    rw [cons_append, laterChunks, endsChunk_of_live first, ih others]
    rfl

lemma laterChunks_sublist (code : List Instruction) : (laterChunks code).Sublist code := by
  induction code with
  | nil => exact .slnil
  | cons i rest ih =>
    rw [laterChunks]
    split
    · exact sublist_cons_self i rest
    · exact ih.cons i

lemma mem_laterChunks_append {code rest : List Instruction} {j : Instruction}
    (h : j ∈ laterChunks (code ++ rest)) : j ∈ laterChunks code ∨ j ∈ rest := by
  induction code with
  | nil => exact .inr ((laterChunks_sublist rest).subset h)
  | cons i code ih =>
    rw [cons_append, laterChunks] at h
    rw [laterChunks]
    split at h
    · next ends =>
      rw [if_pos ends]
      exact mem_append.1 h
    · next inner =>
      rw [if_neg inner]
      exact ih h

end Instruction

/-- An instruction that moves data and refers to slots of these variables only. -/
structure Instruction.Sets (l : Layout) (among : Nat → Prop) (i : Instruction) : Prop where
  data : i.isData = true
  slots : ∀ y ∈ i.slots, ∃ id, among id ∧ l.slot? (.var id) = some y

namespace Instruction.Sets

variable {l : Layout} {among among' : Nat → Prop} {i : Instruction} {code : List Instruction}

lemma quiet (h : i.Sets l among) : i.live? = none := live_of_isData h.data

lemma mono (h : i.Sets l among) (more : ∀ id, among id → among' id) : i.Sets l among' :=
  ⟨h.data, fun y hy => (h.slots y hy).imp fun id hid => hid.imp_left (more id)⟩

lemma bare (data : i.isData = true) (none : i.slots = []) : i.Sets l among :=
  ⟨data, fun _ hy => by rw [none] at hy; cases hy⟩

lemma home {id : Nat} {r : Registers} (data : i.isData = true)
    (same : i.slots = (occurrence l id r).1.1.slot?.toList) (member : among id) :
    i.Sets l among := by
  refine ⟨data, fun y hy => ⟨id, member, ?_⟩⟩
  rw [same, CodeReading.occurrence_eq] at hy
  cases slot : l.slot? (.var id) with
  | some z =>
    simp only [slot, Reg.slot?, Option.toList_some, mem_singleton] at hy
    rw [hy]
  | none =>
    rw [slot] at hy
    cases temp : r.temps.lookup id <;> simp [temp, Reg.slot?] at hy

lemma voids {n : Nat} {j : Instruction} (h : code = if n = 0 then [] else [j])
    (data : j.isData = true) (none : j.slots = []) : ∀ i ∈ code, i.Sets l among := by
  subst h
  split
  · exact forall_mem_nil _
  · exact forall_mem_singleton.2 (.bare data none)

lemma right {ids : List Nat} (h : ∀ i ∈ code, i.Sets l (· ∈ ids)) (before : List Nat) :
    ∀ i ∈ code, i.Sets l (· ∈ before ++ ids) :=
  fun i hi => (h i hi).mono fun _ => mem_append_right before

lemma append {ids ids' : List Nat} {code' : List Instruction} (h : ∀ i ∈ code, i.Sets l (· ∈ ids))
    (h' : ∀ i ∈ code', i.Sets l (· ∈ ids')) : ∀ i ∈ code ++ code', i.Sets l (· ∈ ids ++ ids') :=
  forall_mem_append.2 ⟨fun i hi => (h i hi).mono fun _ => mem_append_left ids', right h' ids⟩

end Instruction.Sets

namespace Lowering

open Instruction (Sets)

variable {l : Layout}

section Head

lemma unifyArg_sets (l : Layout) (arg : Term) (r : Registers) :
    (unifyArg l arg r).1.1.Sets l fun _ => True := by
  cases arg with
  | atom a =>
    change (if a = "[]" then Instruction.unifyNil else .unifyConstant (.atom a)).Sets l _
    split <;> exact .bare rfl rfl
  | var name id =>
    change (if (occurrence l id r).1.2 then Instruction.unifyVariable (occurrence l id r).1.1
      else .unifyValue (occurrence l id r).1.1).Sets l _
    split <;> exact .home rfl rfl trivial
  | number | compound | cell => exact .bare rfl rfl

lemma unifyArgs_sets (args : List Term) (voids : Nat) (r : Registers) :
    ∀ i ∈ (unifyArgs l voids args r).1.1, i.Sets l fun _ => True := by
  induction args generalizing voids r with
  | nil => exact .voids rfl rfl rfl
  | cons arg rest ih =>
    by_cases single : l.isSingleton arg = true
    · rw [CodeReading.Inv.unifyArgs_void single]
      exact ih (voids + 1) r
    · rw [CodeReading.Inv.unifyArgs_cons (by simpa using single)]
      exact forall_mem_append.2 ⟨.voids rfl rfl rfl, forall_mem_cons.2 ⟨unifyArg_sets l arg r, ih 0 _⟩⟩

lemma getHeader_sets (t : Term) (a : Nat) : ∀ i ∈ getHeader t a, i.Sets l fun _ => True := by
  unfold getHeader
  split
  · refine forall_mem_singleton.2 ?_
    split <;> exact .bare rfl rfl
  · exact forall_mem_nil _

lemma getStructures_sets (queue : List (Term × Nat)) (r : Registers) :
    ∀ i ∈ (getStructures l queue r).1, i.Sets l fun _ => True := by
  induction size : queueSize queue using Nat.strongRecOn generalizing queue r with
  | ind n ih =>
    cases queue with
    | nil =>
      rw [getStructures]
      exact forall_mem_nil _
    | cons p rest =>
      obtain ⟨t, a⟩ := p
      rw [CodeReading.Matching.getStructures_cons]
      refine forall_mem_append.2 ⟨forall_mem_append.2 ⟨getHeader_sets t a, ?_⟩, ?_⟩
      · exact unifyArgs_sets t.args 0 r
      · exact ih _ (size ▸ queueSize_args_lt t a rest _) _ _ rfl

lemma getArg_sets (a : Nat) (arg : Term) (r : Registers) :
    ∀ i ∈ (getArg l a arg r).1, i.Sets l fun _ => True := by
  cases arg with
  | atom name =>
    refine forall_mem_singleton.2 ?_
    split <;> exact .bare rfl rfl
  | number n => exact forall_mem_singleton.2 (.bare rfl rfl)
  | var name id =>
    rw [getArg]
    split
    · exact forall_mem_nil _
    · refine forall_mem_singleton.2 (?_ : Sets l _ (if (occurrence l id r).1.2 then
        .getVariable (occurrence l id r).1.1 a else .getValue (occurrence l id r).1.1 a))
      split <;> exact .home rfl rfl trivial
  | compound | cell => exact getStructures_sets _ r

lemma getArgs_sets (a : Nat) (args : List Term) (r : Registers) :
    ∀ i ∈ (getArgs l a args r).1, i.Sets l fun _ => True := by
  induction args generalizing a r with
  | nil => exact forall_mem_nil _
  | cons arg rest ih => exact forall_mem_append.2 ⟨getArg_sets a arg r, ih (a + 1) _⟩

end Head

section Body

lemma setArg_sets (built : Option Nat) (arg : Term) (r : Registers) :
    ∀ i ∈ (setArg l built arg r).1, i.Sets l (· ∈ arg.occurrences) := by
  cases built with
  | some x => exact forall_mem_singleton.2 (.bare rfl rfl)
  | none =>
    cases arg with
    | atom a =>
      refine forall_mem_singleton.2 ?_
      split <;> exact .bare rfl rfl
    | number n => exact forall_mem_singleton.2 (.bare rfl rfl)
    | var name id =>
      refine forall_mem_singleton.2 (?_ : Sets l _ (if (occurrence l id r).1.2 then
        .setVariable (occurrence l id r).1.1 else .setValue (occurrence l id r).1.1))
      split <;> exact .home rfl rfl (mem_singleton.2 rfl)
    | compound | cell => exact forall_mem_nil _

lemma setArgs_sets (items : List (Term × Option Nat)) (voids : Nat) (r : Registers) :
    ∀ i ∈ (setArgs l voids items r).1,
      i.Sets l (· ∈ occurrencesAll (items.map (·.1))) := by
  induction items generalizing voids r with
  | nil => exact .voids rfl rfl rfl
  | cons item rest ih =>
    obtain ⟨arg, built⟩ := item
    by_cases single : l.isSingleton arg = true
    · rw [CodeReading.Inv.setArgs_void single]
      exact Sets.right (ih (voids + 1) r) _
    · rw [CodeReading.Inv.setArgs_cons (by simpa using single)]
      exact .append (forall_mem_append.2 ⟨.voids rfl rfl rfl, setArg_sets built arg r⟩) (ih 0 _)

lemma buildNested_sets {args : List Term}
    (each : ∀ t ∈ args, ∀ a r, ∀ i ∈ (build l a t r).1, i.Sets l (· ∈ t.occurrences))
    (r : Registers) :
    ∀ i ∈ (buildNested l args r).1.1, i.Sets l (· ∈ occurrencesAll args) := by
  induction args generalizing r with
  | nil => exact forall_mem_nil _
  | cons arg rest ih =>
    obtain ⟨first, others⟩ := forall_mem_cons.1 each
    rw [CodeReading.buildNested_cons]
    split
    · exact .append (first _ _) (ih others _)
    · exact Sets.right (ih others r) _

lemma build_sets (t : Term) (a : Nat) (r : Registers) :
    ∀ i ∈ (build l a t r).1, i.Sets l (· ∈ t.occurrences) := by
  have structured {t : Term} (h : t.isStructure = true)
      (each : ∀ u ∈ t.args, ∀ a r, ∀ i ∈ (build l a u r).1, i.Sets l (· ∈ u.occurrences)) (a : Nat)
      (r : Registers) : ∀ i ∈ (build l a t r).1, i.Sets l (· ∈ t.occurrences) := by
    obtain ⟨f, name⟩ : ∃ f, t.name? = some f := by
      cases t with
      | compound f args => exact ⟨f, rfl⟩
      | cell h t => exact ⟨".", rfl⟩
      | atom | number | var => cases h
    rw [CodeReading.build_eq h name, occurrences_args h]
    refine forall_mem_append.2 ⟨buildNested_sets each r, forall_mem_cons.2 ⟨?_, fun i hi => ?_⟩⟩
    · unfold putHeader
      split <;> exact .bare rfl rfl
    · refine (setArgs_sets _ 0 _ i hi).mono fun id hid => ?_
      obtain ⟨u, hu, hid⟩ := mem_occurrencesAll.1 hid
      obtain ⟨p, hp, rfl⟩ := mem_map.1 hu
      exact mem_occurrencesAll.2 ⟨p.1, (of_mem_zip hp).1, hid⟩
  induction t using induct generalizing a r with
  | atom | number | var => exact forall_mem_nil _
  | compound f args ih => exact structured (t := .compound f args) rfl ih a r
  | cell h t ihh iht =>
    exact structured rfl (forall_mem_cons.2 ⟨ihh, forall_mem_singleton.2 iht⟩) a r

lemma putArg_sets (lastCall : Bool) (a : Nat) (arg : Term) (r : Registers) :
    ∀ i ∈ (putArg l lastCall a arg r).1, i.Sets l (· ∈ arg.occurrences) := by
  cases arg with
  | atom name =>
    refine forall_mem_singleton.2 ?_
    split <;> exact .bare rfl rfl
  | number n => exact forall_mem_singleton.2 (.bare rfl rfl)
  | var name id =>
    by_cases single : l.isSingleton (.var name id) = true
    · rw [putArg, if_pos single]
      exact forall_mem_singleton.2 (.bare rfl rfl)
    · have several : l.isSingleton (.var name id) = false := by simpa using single
      have sets {reg : Reg} {i : Instruction} (data : i.isData = true)
          (same : i.slots = reg.slot?.toList) (home : (occurrence l id r).1.1 = reg) :
          ∀ j ∈ [i], j.Sets l (· ∈ [id]) :=
        forall_mem_singleton.2
          (.home data (by rw [home]; exact same) (mem_singleton.2 rfl))
      obtain ⟨⟨reg, first⟩, r', eq⟩ : ∃ o r', occurrence l id r = (o, r') := ⟨_, _, rfl⟩
      have home : (occurrence l id r).1.1 = reg := by rw [eq]
      cases first with
      | true =>
        obtain ⟨ids, code⟩ := CodeReading.putArg_first several eq lastCall a
        rw [code]
        exact sets rfl rfl home
      | false =>
        rcases CodeReading.putArg_again several eq lastCall a with code | ⟨y, rfl, code⟩ <;> rw [code]
        all_goals exact sets rfl rfl home
  | compound | cell => exact build_sets _ a r

lemma putArgs_sets (lastCall : Bool) (a : Nat) (args : List Term) (r : Registers) :
    ∀ i ∈ (putArgs l lastCall a args r).1, i.Sets l (· ∈ occurrencesAll args) := by
  induction args generalizing a r with
  | nil => exact forall_mem_nil _
  | cons arg rest ih => exact Sets.append (putArg_sets lastCall a arg r) (ih (a + 1) _)

end Body

end Lowering

namespace CodeReading

open Instruction (laterChunks laterChunks_append laterChunks_sublist mem_laterChunks_append)
open Lowering

variable {l : Layout} {goals gs : List BodyGoal} {ms : List Mention} {base c : Nat}
  {r r' : Registers} {code : List Instruction} {g : BodyGoal} {i : Instruction}

def KeptBefore (l : Layout) (c : Nat) (code : List Instruction) : Prop :=
  ∀ i ∈ code, ∀ y ∈ i.slots, ∀ d < c, y ≤ l.liveAfter d

lemma KeptBefore.append {code' : List Instruction} (h : KeptBefore l c code)
    (h' : KeptBefore l c code') : KeptBefore l c (code ++ code') :=
  forall_mem_append.2 ⟨h, h'⟩

lemma KeptBefore.earlier {c' : Nat} (h : KeptBefore l c code) (le : c' ≤ c) :
    KeptBefore l c' code :=
  fun i hi y hy d hd => h i hi y hy d (Nat.lt_of_lt_of_le hd le)

lemma keptBefore_args (fits : l.Fits goals ms)
    (part : Part base goals ms c (g :: gs))
    (sets : ∀ i ∈ code, i.Sets l (· ∈ occurrencesAll g.args)) : KeptBefore l c code := by
  intro i hi y hy d hd
  obtain ⟨id, occurs, slot⟩ := (sets i hi).slots y hy
  refine fits.live slot (part.mentions (id, c) ?_) hd
  rw [placed, flatMap_cons]
  refine mem_append_left _ (mem_map_of_mem ?_)
  have counted := count_pos_iff.2 occurs
  exact count_pos_iff.1 (Nat.lt_of_lt_of_le counted (g.count_args_le id))

inductive GoalCode (l : Layout) (c : Nat) (ends : Bool) : List Instruction → Prop where
  | cut {i : Instruction} (plain : ends = false) (quiet : i.live? = none)
      (kept : KeptBefore l c [i]) : GoalCode l c ends [i]
  | call {setup : List Instruction} {i : Instruction} (quiet : ∀ i ∈ setup, i.live? = none)
      (kept : KeptBefore l c setup) (live : i.live? = some (l.liveAfter c))
      (slots : i.slots = []) (chunk : i.endsChunk = ends) : GoalCode l c ends (setup ++ [i])

lemma goalCode_of_call (fits : l.Fits goals ms) (part : Part base goals ms c (g :: gs))
    (live : i.live? = some (l.liveAfter c)) (slots : i.slots = [])
    (chunk : i.endsChunk = g.endsChunk) :
    GoalCode l c g.endsChunk ((putArgs l false 1 g.args r).1 ++ [i]) := by
  have sets := putArgs_sets (l := l) false 1 g.args r
  exact .call (fun i hi => (sets i hi).quiet) (keptBefore_args fits part sets) live slots chunk

lemma goalCode_goal (fits : l.Fits goals ms)
    (part : Part base goals ms c (g :: gs)) (hcode : goalCode l g c r = (.ok code, r')) :
    GoalCode l c g.endsChunk code := by
  cases g with
  | cut =>
    by_cases neck : c = 0
    · rw [goalCode, if_pos neck] at hcode
      cases hcode
      exact .cut rfl rfl (forall_mem_singleton.2 (forall_mem_nil _))
    · rw [goalCode, if_neg neck] at hcode
      cases slot : l.slot? .cutLevel with
      | none =>
        rw [slot] at hcode
        cases hcode
      | some level =>
        rw [slot] at hcode
        cases hcode
        refine .cut rfl rfl (forall_mem_singleton.2 (forall_mem_singleton.2 fun d hd => ?_))
        exact fits.levelLive slot (part.cuts c mem_cons_self) hd
  | user f args =>
    cases hcode
    exact goalCode_of_call (g := .user f args) (i := .call f (l.liveAfter c)) fits part rfl rfl rfl
  | builtin b goal =>
    cases hcode
    exact goalCode_of_call (g := .builtin b goal) (i := .callBuiltin b (l.liveAfter c)) fits part
      rfl rfl rfl

def Trims (code : List Instruction) : Prop :=
  ∀ before i after n, code = before ++ i :: after → i.live? = some n →
    ∀ j ∈ laterChunks (i :: after), ∀ y ∈ j.slots, y ≤ n

structure BodyTrims (l : Layout) (c : Nat) (code : List Instruction) : Prop where
  kept : KeptBefore l c code
  later : KeptBefore l (c + 1) (laterChunks code)
  trims : Trims code

lemma Trims.of_quiet {quiet : List Instruction} (h : ∀ i ∈ quiet, i.live? = none)
    (trims : Trims code) : Trims (quiet ++ code) := by
  intro before i after n eq live
  rcases append_eq_append_iff.1 eq with ⟨more, rfl, rest⟩ | ⟨more, rfl, rest⟩
  · exact trims more i after n rest live
  · cases more with
    | nil => exact trims [] i after n (by simpa using rest.symm) live
    | cons j more =>
      obtain ⟨rfl, -⟩ := cons.inj rest
      have none := h i (mem_append_right before mem_cons_self)
      rw [none] at live
      cases live

lemma Trims.append {ending : List Instruction} (trims : Trims code)
    (bare : ∀ i ∈ ending, i.live? = none ∧ i.slots = []) : Trims (code ++ ending) := by
  intro before i after n eq live j hj y hy
  rcases append_eq_append_iff.1 eq.symm with ⟨more, rfl, rest⟩ | ⟨more, rfl, rest⟩
  · cases more with
    | nil =>
      have member : i ∈ ending := by
        rw [nil_append] at rest
        rw [← rest]
        exact mem_cons_self
      rw [(bare i member).1] at live
      cases live
    | cons k more =>
      obtain ⟨rfl, rfl⟩ := cons.inj rest
      rcases mem_laterChunks_append (show j ∈ laterChunks ((i :: more) ++ ending) from hj) with hj | hj
      · exact trims before i more n rfl live j hj y hy
      · rw [(bare j hj).2] at hy
        cases hy
  · have member : i ∈ ending := by
      rw [rest]
      exact mem_append_right more mem_cons_self
    rw [(bare i member).1] at live
    cases live

lemma BodyTrims.quiet (quiet : ∀ i ∈ code, i.live? = none) (kept : KeptBefore l c code) :
    BodyTrims l c code where
  kept := kept
  later := by
    have nothing := laterChunks_append quiet []
    rw [append_nil] at nothing
    rw [nothing]
    exact forall_mem_nil _
  trims := by
    have nothing : Trims [] := fun before i after n eq => by simp at eq
    have all := Trims.of_quiet quiet nothing
    rwa [append_nil] at all

lemma GoalCode.append {ends : Bool} {first more : List Instruction}
    (h : GoalCode l c ends first) (rest : BodyTrims l (if ends then c + 1 else c) more) :
    BodyTrims l c (first ++ more) := by
  cases h with
  | cut plain quiet kept =>
    subst plain
    have rest : BodyTrims l c more := rest
    have alone : ∀ j ∈ [_], Instruction.live? j = none := forall_mem_singleton.2 quiet
    refine ⟨kept.append rest.kept, ?_, .of_quiet alone rest.trims⟩
    rw [laterChunks_append alone]
    exact rest.later
  | @call setup i quiet kept live slots chunk =>
    have bare : ∀ c, KeptBefore l c [i] := by
      intro c j hj y hy
      rw [mem_singleton.1 hj, slots] at hy
      cases hy
    -- After a call that ends its chunk all that follows is of later chunks.
    have later : KeptBefore l (c + 1) (laterChunks (i :: more)) := by
      rw [laterChunks, chunk]
      cases ends with
      | true => exact rest.kept
      | false => exact rest.later
    have start : c ≤ if ends then c + 1 else c := by split <;> omega
    have eq : setup ++ [i] ++ more = setup ++ (i :: more) := by simp
    rw [eq]
    refine ⟨kept.append ((bare c).append (rest.kept.earlier start)), ?_, .of_quiet quiet ?_⟩
    · rw [laterChunks_append quiet]
      exact later
    · intro before j after n split live'
      cases before with
      | nil =>
        obtain ⟨rfl, rfl⟩ := cons.inj split
        obtain rfl : l.liveAfter c = n := Option.some.inj (live.symm.trans live')
        exact fun k hk y hy => later k hk y hy c (Nat.lt_succ_self c)
      | cons k before =>
        obtain ⟨-, rfl⟩ := cons.inj split
        exact rest.trims before j after n rfl live'

lemma leaving_bare (framed : Bool) (bare : i.live? = none ∧ i.slots = []) :
    ∀ j ∈ (if framed then [.deallocate] else []) ++ [i], j.live? = none ∧ j.slots = [] := by
  cases framed with
  | false => exact forall_mem_singleton.2 bare
  | true => exact forall_mem_cons.2 ⟨⟨rfl, rfl⟩, forall_mem_singleton.2 bare⟩

lemma bodyTrims {tail framed : Bool} (fits : l.Fits goals ms) (part : Part base goals ms c gs)
    (hcode : bodyCode l tail framed (placed c gs) r = (.ok code, r')) :
    BodyTrims l c code := by
  induction gs generalizing c r code with
  | nil =>
    cases hcode
    exact .quiet (forall_mem_nil _) (forall_mem_nil _)
  | cons g gs ih =>
    by_cases last : tail = true ∧ gs = [] ∧ g.isUser = true
    · obtain ⟨rfl, rfl, user⟩ := last
      cases g with
      | cut | builtin => cases user
      | user f args =>
        cases hcode
        have sets := putArgs_sets (l := l) framed 1 args r
        have plain := leaving_bare (i := .execute f) framed ⟨rfl, rfl⟩
        rw [append_assoc]
        refine .quiet (forall_mem_append.2 ⟨fun i hi => (sets i hi).quiet, fun i hi => (plain i hi).1⟩)
          ((keptBefore_args fits part sets).append ?_)
        intro i hi y hy
        rw [(plain i hi).2] at hy
        cases hy
    · have notEmpty : placed (if g.endsChunk then c + 1 else c) gs = [] ↔ gs = [] := by
        cases gs <;> simp [placed]
      obtain ⟨first, more, r₁, hfirst, hmore, rfl⟩ := bodyCode_cons (by rwa [notEmpty]) hcode
      exact (goalCode_goal fits part hfirst).append (ih part.tail hmore)

lemma entry_quiet (l : Layout) (framed : Bool) : ∀ i ∈ entry l framed, i.live? = none := by
  intro i hi
  unfold entry at hi
  cases framed <;> cases slot : l.slot? .cutLevel <;> simp [slot] at hi
  · rw [hi]; rfl
  · rw [hi]; rfl
  · rcases hi with rfl | rfl <;> rfl

lemma ending_bare (goals : List BodyGoal) (framed : Bool) :
    ∀ i ∈ (if lastIsUser goals then [] else
      (if framed then [.deallocate] else []) ++ [Instruction.proceed]),
      i.live? = none ∧ i.slots = [] := by
  split
  · exact forall_mem_nil _
  · exact leaving_bare framed ⟨rfl, rfl⟩

/-- A call in the code of a clause carries the number of slots that are needed in later chunks: no
instruction after the end of its chunk refers to a slot with a higher number. If the call ends its
chunk itself, no instruction after it does. -/
theorem later_chunks_within_live {p : PreparedClause} {chainRule : Bool} {compiled : CompiledClause}
    (accepted : p.compileClause chainRule = .ok compiled) (before after : List Instruction)
    {i : Instruction} {n : Nat} (code : compiled.code = before ++ i :: after)
    (live : i.live? = some n) :
    (i.endsChunk → ∀ j ∈ after, ∀ y ∈ j.slots, y ≤ n) ∧
      ∀ j ∈ laterChunks after, ∀ y ∈ j.slots, y ≤ n := by
  obtain ⟨head, -, -, goals, r', -, -, -, hgoals, -, hcode⟩ := compileClause_ok accepted
  have fits := ofClause_fits (some head) goals []
  generalize ofClause (some head) goals [] = l at *
  obtain ⟨body, hbody, whole⟩ := clauseCode_ok hcode
  rw [fits.chunks] at hbody
  have trims := (bodyTrims fits (part_all (arity_of_lowered (mapM_ok hgoals))) hbody).trims
  have start : ∀ j ∈ entry l (needsFrame l goals chainRule) ++
      (getArgs l 1 head.args (start (some head) goals)).1, j.live? = none :=
    forall_mem_append.2 ⟨entry_quiet l _, fun j hj => (getArgs_sets 1 head.args _ j hj).quiet⟩
  have ends := (Trims.of_quiet start trims).append (ending_bare goals (needsFrame l goals chainRule))
  have later := ends before i after n (whole.symm.trans code) live
  rw [laterChunks] at later
  constructor
  · intro chunk
    rwa [if_pos chunk] at later
  · split at later
    · exact fun j hj => later j ((laterChunks_sublist after).subset hj)
    · exact later

/-- `p :- q(X), r(Y), s(Y), t(X)`: the call of `s/1` gives up the slot of `Y`. -/
theorem later_chunks_within_live_example :
    let goal (f : String) (name : String) (id : Nat) : Term := .compound f [.var name id]
    let body := [goal "q" "X" 0, goal "r" "Y" 1, goal "s" "Y" 1, goal "t" "X" 0]
    let p : PreparedClause := ⟨⟨some (.atom "p"), body, .rule, ⟨1, 1⟩⟩, some ⟨0⟩, [], []⟩
    ∃ c before after, p.compileClause true = .ok c ∧
      c.code = before ++ .call ⟨"s", 1⟩ 1 :: after ∧ ∀ j ∈ after, ∀ y ∈ j.slots, y ≤ 1 := by
  intro goal body p
  have accepted : p.compileClause true = .ok ⟨⟨"p", 0⟩, ⟨0⟩, p.clause,
      [.allocate 2, .putVariable (.y 1) 1, .call ⟨"q", 1⟩ 2, .putVariable (.y 2) 1,
        .call ⟨"r", 1⟩ 2, .putValue (.y 2) 1, .call ⟨"s", 1⟩ 1, .putUnsafeValue 1 1,
        .deallocate, .execute ⟨"t", 1⟩], 2, []⟩ := by
    let goals : List BodyGoal := [.user ⟨"q", 1⟩ [.var "X" 0], .user ⟨"r", 1⟩ [.var "Y" 1],
      .user ⟨"s", 1⟩ [.var "Y" 1], .user ⟨"t", 1⟩ [.var "X" 0]]
    have sorted : body.mapM ofTerm = .ok goals := rfl
    have layout : ofClause (some (.atom "p")) goals [] =
        ⟨[0, 1, 2, 3], [⟨.var 0, 3, some 0⟩, ⟨.var 1, 2, some 1⟩], []⟩ :=
      congrArg (mk _ · _) (mergeSort_of_pairwise (by decide))
    rw [compileClause_of_goals rfl rfl rfl sorted true layout]
    decide +kernel
  refine ⟨_, [_, _, _, _, _, _], [_, _, _], accepted, rfl, ?_⟩
  exact (later_chunks_within_live accepted [_, _, _, _, _, _] _ rfl rfl).1 rfl

/-- `p(X) :- q, X > 1, r(X)`: the comparison is to keep no slot, and `r/1` is called with the
variable that has the first. -/
theorem trimming_drops_slot :
    let x : Term := .var "X" 0
    let body := [.atom "q", Term.mark (.compound ">" [x, .int 1]), .compound "r" [x]]
    let p : PreparedClause := ⟨⟨some (.compound "p" [x]), body, .rule, ⟨1, 1⟩⟩, some ⟨0⟩, [], []⟩
    ∃ c before after, p.compileClause true = .ok c ∧
      c.code = before ++ .callBuiltin .greater 0 :: after ∧
      ∃ j ∈ after, ∃ y ∈ j.slots, 0 < y := by
  intro x body p
  have accepted : p.compileClause true = .ok ⟨⟨"p", 1⟩, ⟨0⟩, p.clause,
      [.allocate 1, .getVariable (.y 1) 1, .call ⟨"q", 0⟩ 1, .putValue (.y 1) 1,
        .putConstant (.int 1) 2, .callBuiltin .greater 0, .putValue (.y 1) 1,
        .deallocate, .execute ⟨"r", 1⟩], 1, []⟩ := by decide +kernel
  refine ⟨_, [_, _, _, _, _], [_, _, _], accepted, rfl, _, mem_cons_self, 1, ?_⟩
  decide

end CodeReading

end Horn
