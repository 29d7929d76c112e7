import Horn.Json.Basic
import Horn.Lowering

namespace Horn

open Horn.Text

inductive Declaration where
  | dynamic (f : Functor)
  | discontiguous (f : Functor)
  | multifile (f : Functor)
  | flag (name value : String)
  deriving DecidableEq, Repr

structure Warning where
  cause : Scattered
  position : Position
  deriving DecidableEq, Repr

inductive Event where
  | unitOpened (name : String)
  | unitClosed (summary : UnitSummary)
  | clauseCompiled (f : Functor) (instructions : Nat) (position : Position)
  | queryCompiled (goal : String) (instructions : Nat)
  | declared (d : Declaration)
  | warned (w : Warning)
  deriving DecidableEq, Repr

def Functor.toJson (f : Functor) : Json :=
  .object [("name", .string f.name), ("arity", .number f.arity)]

def Text.Position.toJson (p : Position) : Json :=
  .object [("line", .number p.line), ("column", .number p.column)]

def UnitSummary.toJson (u : UnitSummary) : Json :=
  .object [("name", .string u.name), ("predicates", .array (u.predicates.map Functor.toJson)),
    ("symbols", .number u.symbols)]

def Declaration.toJson : Declaration → Json
  | .dynamic f => .object [("type", .string "dynamic"), ("predicate", f.toJson)]
  | .discontiguous f => .object [("type", .string "discontiguous"), ("predicate", f.toJson)]
  | .multifile f => .object [("type", .string "multifile"), ("predicate", f.toJson)]
  | .flag name value =>
    .object [("type", .string "flag"), ("name", .string name), ("value", .string value)]

def Warning.toJson (w : Warning) : Json :=
  .object [("message", .string w.cause.message), ("position", w.position.toJson)]

def Event.toJson : Event → Json
  | .unitOpened name => .object [("type", .string "unit_opened"), ("name", .string name)]
  | .unitClosed u => .object [("type", .string "unit_closed"), ("summary", u.toJson)]
  | .clauseCompiled f n p =>
    .object [("type", .string "clause_compiled"), ("predicate", f.toJson),
      ("instructions", .number n), ("position", p.toJson)]
  | .queryCompiled goal n =>
    .object [("type", .string "query_compiled"), ("goal", .string goal),
      ("instructions", .number n)]
  | .declared d => .object [("type", .string "declared"), ("declaration", d.toJson)]
  | .warned w => .object [("type", .string "warned"), ("warning", w.toJson)]

end Horn
