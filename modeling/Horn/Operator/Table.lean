import Horn.Operator.Basic

/-!
# Operator tables

A name may have one operator before its operand and one between or after its operands. The comma
cannot be redefined, and the bar only as an infix operator above all arguments.
-/

namespace Horn

inductive OperatorError where
  | priorityOutOfRange (priority : Nat)
  | unknownType (spec : String)
  | locked (name : String)
  | malformed (what : String)
  deriving DecidableEq, Repr

def OperatorError.message : OperatorError → String
  | .priorityOutOfRange p => "operator priority " ++ toString p ++ " out of range 0..=1200"
  | .unknownType spec => "unknown operator type specifier: " ++ spec
  | .locked name => "operator '" ++ name ++ "' cannot be modified"
  | .malformed what => "malformed operator declaration: " ++ what

structure OperatorTable where
  prefixOps : List Operator
  infixOps : List Operator
  priorities : List (Nat × Nat)
  deriving DecidableEq, Repr

namespace OperatorTable

def maxPriority : Nat := 1200

def minBarPriority : Nat := 1001

def empty : OperatorTable := ⟨[], [], []⟩

def prefixOp? (t : OperatorTable) (name : String) : Option Operator :=
  t.prefixOps.find? (·.name = name)

def infixOp? (t : OperatorTable) (name : String) : Option Operator :=
  t.infixOps.find? (·.name = name)

def isOperator (t : OperatorTable) (name : String) : Bool :=
  (t.prefixOp? name).isSome || (t.infixOp? name).isSome

def countUp (p : Nat) : List (Nat × Nat) → List (Nat × Nat)
  | [] => [(p, 1)]
  | (q, n) :: rest =>
    if p < q then (p, 1) :: (q, n) :: rest
    else if p = q then (q, n + 1) :: rest
    else (q, n) :: countUp p rest

def countDown (p : Nat) : List (Nat × Nat) → List (Nat × Nat)
  | [] => []
  | (q, n) :: rest =>
    if p = q then if n ≤ 1 then rest else (q, n - 1) :: rest
    else (q, n) :: countDown p rest

def put (op : Operator) : List Operator → List Operator
  | [] => [op]
  | o :: rest => if o.name = op.name then op :: rest else o :: put op rest

def removeName (name : String) (ops : List Operator) : List Operator :=
  ops.filter (·.name ≠ name)

def group (t : OperatorTable) : Fixity → List Operator
  | .prefixOp => t.prefixOps
  | .infixOp | .postfixOp => t.infixOps

def withGroup (t : OperatorTable) (fixity : Fixity) (ops : List Operator) : OperatorTable :=
  match fixity with
  | .prefixOp => { t with prefixOps := ops }
  | .infixOp | .postfixOp => { t with infixOps := ops }

def lookup? (t : OperatorTable) (fixity : Fixity) (name : String) : Option Operator :=
  (t.group fixity).find? (·.name = name)

def remove (t : OperatorTable) (fixity : Fixity) (name : String) :
    Option Operator × OperatorTable :=
  match t.lookup? fixity name with
  | none => (none, t)
  | some op =>
    let t := t.withGroup fixity (removeName name (t.group fixity))
    (some op, { t with priorities := countDown op.priority t.priorities })

def insert (t : OperatorTable) (op : Operator) : OperatorTable :=
  let counts := match t.lookup? op.fixity op.name with
    | none => t.priorities
    | some old => countDown old.priority t.priorities
  let t := t.withGroup op.fixity (put op (t.group op.fixity))
  { t with priorities := countUp op.priority counts }

def isLocked (priority : Nat) (fixity : Fixity) (name : String) : Bool :=
  name = "," ||
    (name = "|" && priority ≠ 0 && (priority < minBarPriority || fixity ≠ .infixOp))

def declare (t : OperatorTable) (priority : Nat) (type : OpType) (name : String) :
    Except OperatorError (Option Operator × OperatorTable) :=
  if maxPriority < priority then .error (.priorityOutOfRange priority)
  else if isLocked priority type.fixity name then .error (.locked name)
  else if priority = 0 then .ok (none, (t.remove type.fixity name).2)
  else
    let op : Operator := ⟨name, priority, type⟩
    .ok (some op, t.insert op)

def declareParts (t : OperatorTable) (priority : Nat) (fixity : Fixity) (assoc : Assoc)
    (name : String) : Except OperatorError (Option Operator × OperatorTable) :=
  match OpType.ofParts? fixity assoc with
  | none => .error (.unknownType (fixity.text ++ "/" ++ assoc.text))
  | some type => t.declare priority type name

def nextLower (t : OperatorTable) (p : Nat) : Nat :=
  t.priorities.foldl (fun best entry => if entry.1 < p then max best entry.1 else best) 0

def operators (t : OperatorTable) : List Operator :=
  (t.prefixOps ++ t.infixOps).mergeSort Operator.listedBefore

def size (t : OperatorTable) : Nat := t.prefixOps.length + t.infixOps.length

def standardOperators : List Operator :=
  [⟨":-", 1200, .xfx⟩, ⟨"-->", 1200, .xfx⟩, ⟨":-", 1200, .fx⟩, ⟨"?-", 1200, .fx⟩,
   ⟨"dynamic", 1150, .fx⟩, ⟨"discontiguous", 1150, .fx⟩, ⟨"initialization", 1150, .fx⟩,
   ⟨"multifile", 1150, .fx⟩, ⟨";", 1100, .xfy⟩, ⟨"|", 1100, .xfy⟩, ⟨"->", 1050, .xfy⟩,
   ⟨"*->", 1050, .xfy⟩, ⟨",", 1000, .xfy⟩, ⟨"\\+", 900, .fy⟩, ⟨"=", 700, .xfx⟩,
   ⟨"\\=", 700, .xfx⟩, ⟨"==", 700, .xfx⟩, ⟨"\\==", 700, .xfx⟩, ⟨"@<", 700, .xfx⟩,
   ⟨"@>", 700, .xfx⟩, ⟨"@=<", 700, .xfx⟩, ⟨"@>=", 700, .xfx⟩, ⟨"=..", 700, .xfx⟩,
   ⟨"is", 700, .xfx⟩, ⟨"=:=", 700, .xfx⟩, ⟨"=\\=", 700, .xfx⟩, ⟨"<", 700, .xfx⟩,
   ⟨">", 700, .xfx⟩, ⟨"=<", 700, .xfx⟩, ⟨">=", 700, .xfx⟩, ⟨":", 600, .xfy⟩,
   ⟨"+", 500, .yfx⟩, ⟨"-", 500, .yfx⟩, ⟨"/\\", 500, .yfx⟩, ⟨"\\/", 500, .yfx⟩,
   ⟨"xor", 500, .yfx⟩, ⟨"*", 400, .yfx⟩, ⟨"/", 400, .yfx⟩, ⟨"//", 400, .yfx⟩,
   ⟨"rem", 400, .yfx⟩, ⟨"mod", 400, .yfx⟩, ⟨"div", 400, .yfx⟩, ⟨"<<", 400, .yfx⟩,
   ⟨">>", 400, .yfx⟩, ⟨"**", 200, .xfx⟩, ⟨"^", 200, .xfy⟩, ⟨"-", 200, .fy⟩,
   ⟨"+", 200, .fy⟩, ⟨"\\", 200, .fy⟩]

def standard : OperatorTable := standardOperators.foldl insert empty

end OperatorTable

end Horn
