namespace Horn

inductive Fixity where
  | prefixOp
  | infixOp
  | postfixOp
  deriving DecidableEq, Repr

inductive Assoc where
  | left
  | right
  | neither
  deriving DecidableEq, Repr

inductive OpType where
  | xfx
  | xfy
  | yfx
  | fy
  | fx
  | xf
  | yf
  deriving DecidableEq, Repr

def Fixity.text : Fixity → String
  | .prefixOp => "Prefix"
  | .infixOp => "Infix"
  | .postfixOp => "Postfix"

def Assoc.text : Assoc → String
  | .left => "Left"
  | .right => "Right"
  | .neither => "None"

namespace OpType

def text : OpType → String
  | .xfx => "xfx"
  | .xfy => "xfy"
  | .yfx => "yfx"
  | .fy => "fy"
  | .fx => "fx"
  | .xf => "xf"
  | .yf => "yf"

def all : List OpType := [.xfx, .xfy, .yfx, .fy, .fx, .xf, .yf]

def ofText? (spec : String) : Option OpType := all.find? (·.text = spec)

def fixity : OpType → Fixity
  | .xfx | .xfy | .yfx => .infixOp
  | .fy | .fx => .prefixOp
  | .xf | .yf => .postfixOp

def assoc : OpType → Assoc
  | .xfy | .fy => .right
  | .yfx | .yf => .left
  | .xfx | .fx | .xf => .neither

/-- The type with this fixity and associativity. An operator cannot associate on a side where it
has no operand. -/
def ofParts? (fixity : Fixity) (assoc : Assoc) : Option OpType :=
  all.find? fun t => t.fixity = fixity && t.assoc = assoc

end OpType

structure Operator where
  name : String
  priority : Nat
  type : OpType
  deriving DecidableEq, Repr

namespace Operator

def fixity (op : Operator) : Fixity := op.type.fixity

def leftMax (op : Operator) : Nat :=
  match op.type with
  | .yfx | .yf => op.priority
  | _ => op.priority - 1

def rightMax (op : Operator) : Nat :=
  match op.type with
  | .xfy | .fy => op.priority
  | _ => op.priority - 1

def listedBefore (a b : Operator) : Bool :=
  b.priority < a.priority ||
    (a.priority = b.priority &&
      (a.name < b.name || (a.name = b.name && a.type.text ≤ b.type.text)))

end Operator

end Horn
