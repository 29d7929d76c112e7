import Horn.Builtin.Catalogue

/-!
# Marked goals

A goal that calls a built-in is marked with the id of the built-in, as `'$builtin'(Id, Goal)`. A
variable as a goal is marked as a call of its value.
-/

namespace Horn

namespace Term

def markFunctor : String := "$builtin"

def marked? : Term → Option (Builtin × Term)
  | .compound f [.number (.int id), goal] =>
    if f = markFunctor && 0 ≤ id.toInt then (Builtin.ofId? id.toInt.toNat).map (·, goal) else none
  | _ => none

def withMark (b : Builtin) (goal : Term) : Term :=
  .compound markFunctor [.int (Int64.ofNat b.id), goal]

def unmarked (goal : Term) : Term :=
  match goal.marked? with
  | some (_, inner) => inner
  | none => goal

mutual

def mark : Term → Term
  | .var name id => withMark (.call 1) (.compound "call" [.var name id])
  | .compound f args =>
    if (marked? (.compound f args)).isSome then .compound f args
    else match Builtin.lookup? ⟨f, args.length⟩ with
      | none => .compound f args
      | some b => withMark b (.compound f (if b.goalArgs.isEmpty then args else markAll args))
  | .atom a =>
    match Builtin.lookup? ⟨a, 0⟩ with
    | none => .atom a
    | some b => withMark b (.atom a)
  | t => t

def markAll : List Term → List Term
  | [] => []
  | a :: as => mark a :: markAll as

end

/-- The arguments of a goal that are goals themselves, for the constructs and predicates that goal
expansion goes into. -/
def metaGoalArgs (goal : Term) : List Nat :=
  match goal.functor? with
  | some ⟨name, 2⟩ =>
    if [",", ";", "->", "*->", "forall"].contains name then [0, 1] else []
  | some ⟨name, 1⟩ => if ["\\+", "call"].contains name then [0] else []
  | some ⟨"findall", 3⟩ => [1]
  | _ => []

end Term

end Horn
