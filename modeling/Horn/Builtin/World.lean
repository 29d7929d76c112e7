import Horn.Binding
import Horn.ExecutionError

namespace Horn

structure World where
  bindings : Bindings
  operators : OperatorTable
  output : String

inductive Halt where
  | raised (e : ExecutionError)
  | outOfFuel
  deriving DecidableEq, Repr

/-- What a goal does to the world. Changes made before a halt stay. -/
abbrev Action (α : Type) := EStateM Halt World α

namespace Action

def raise {α : Type} (e : ExecutionError) : Action α := throw (.raised e)

def fueled {α : Type} : Option α → Action α
  | some a => return a
  | none => throw .outOfFuel

def onBindings {α : Type} (f : Bindings → α × Bindings) : Action α := fun w =>
  let ⟨b, ops, out⟩ := w
  let (a, b) := f b
  .ok a ⟨b, ops, out⟩

def walk (t : Term) : Action Term := fun w => .ok (w.bindings.walk t) w

def resolve (fuel : Nat) (t : Term) : Action Term := fun w =>
  match w.bindings.resolve? fuel t with
  | some t => .ok t w
  | none => .error .outOfFuel w

def unify (fuel : Nat) (s t : Term) : Action Bool := do
  fueled (← onBindings (Bindings.unify fuel s t))

def copy (fuel : Nat) (t : Term) : Action Term := do
  fueled (← onBindings (Bindings.copy fuel t))

def fresh : Action Term := onBindings Bindings.fresh

def mark : Action Nat := fun w => .ok w.bindings.mark w

def undo (mark : Nat) : Action Unit := onBindings fun b => ((), b.undo mark)

def write (text : String) : Action Unit := fun w =>
  let ⟨b, ops, out⟩ := w
  .ok () ⟨b, ops, out ++ text⟩

end Action

end Horn
