import Horn.Operator.Table
import Horn.Term.Basic
import Horn.Text.CharClass

/-!
# Writing terms

Atoms that could not be read back bare are quoted unless the style says otherwise. Operands of too
high a priority stand in parentheses.
-/

namespace Horn

open Horn.Text

namespace Term

/-- Atoms made of delimiters or of one character, which are read back bare. -/
def soloAtoms : List String := ["[]", "\x7b\x7d", "!", ";"]

def isBareAtom (name : String) : Bool :=
  soloAtoms.contains name ||
    match name.toList with
    | [] => false
    | c :: rest =>
      if isLowercase c then rest.all isWordChar
      else name ≠ "." && (c :: rest).all isSymbol

def quotedChar (c : Char) : List Char :=
  if c = '\'' then ['\\', '\'']
  else if c = '\\' then ['\\', '\\']
  else if c = '\n' then ['\\', 'n']
  else if c = '\t' then ['\\', 't']
  else if c = '\r' then ['\\', 'r']
  else [c]

def quoteAtom (name : String) : String :=
  if isBareAtom name then name
  else "'" ++ String.ofList (name.toList.flatMap quotedChar) ++ "'"

end Term

def Functor.text (f : Functor) : String := Term.quoteAtom f.name ++ "/" ++ toString f.arity

structure WriteStyle where
  operators : OperatorTable
  quoted : Bool
  ignoreOps : Bool

namespace WriteStyle

def ofOperators (t : OperatorTable) : WriteStyle := ⟨t, true, false⟩

def standard : WriteStyle := ofOperators .standard

def argPriority : Nat := 999

def atomText (style : WriteStyle) (name : String) : String :=
  if style.quoted then Term.quoteAtom name else name

def varText (name : String) (id : Nat) : String :=
  if name = "" || name = "_" then "_G" ++ toString id else name

def parenthesized (wrap : Bool) (text : String) : String :=
  if wrap then "(" ++ text ++ ")" else text

/-- The operator that `functor` is with this many operands. -/
def operatorFor? (style : WriteStyle) (functor : String) (arity : Nat) : Option Operator :=
  if style.ignoreOps then none
  else match arity with
    | 2 => (style.operators.infixOp? functor).filter (·.fixity = .infixOp)
    | 1 =>
      match style.operators.prefixOp? functor with
      | some op => some op
      | none => (style.operators.infixOp? functor).filter (·.fixity = .postfixOp)
    | _ => none

def infixText (style : WriteStyle) (functor : String) : String :=
  if functor = "," then "," else " " ++ style.atomText functor ++ " "

/-- An atom that is an operator stands in parentheses where an operand is expected. -/
def operandAtom (style : WriteStyle) (max : Nat) (a : String) : String :=
  parenthesized (max < argPriority && style.operators.isOperator a) (style.atomText a)

mutual

def termText (style : WriteStyle) (max : Nat) : Term → String
  | .var name id => varText name id
  | .number n => n.text
  | .atom a => operandAtom style max a
  | .cell h t => "[" ++ termText style argPriority h ++ tailText style t ++ "]"
  | .compound functor args => compoundText style max functor args

def tailText (style : WriteStyle) : Term → String
  | .cell h t => "," ++ termText style argPriority h ++ tailText style t
  | .atom a => if a = "[]" then "" else "|" ++ operandAtom style argPriority a
  | .var name id => "|" ++ varText name id
  | .number n => "|" ++ n.text
  | .compound functor args => "|" ++ compoundText style argPriority functor args

def compoundText (style : WriteStyle) (max : Nat) (functor : String) : List Term → String
  | [] => style.atomText functor ++ "()"
  | [a] =>
    if functor = "\x7b\x7d" && !style.ignoreOps then
      "\x7b" ++ termText style OperatorTable.maxPriority a ++ "\x7d"
    else match style.operatorFor? functor 1 with
      | some op =>
        parenthesized (max < op.priority) <|
          if op.fixity = .prefixOp then
            style.atomText functor ++ " " ++ termText style op.rightMax a
          else termText style op.leftMax a ++ " " ++ style.atomText functor
      | none => style.atomText functor ++ "(" ++ termText style argPriority a ++ ")"
  | [a, b] =>
    match style.operatorFor? functor 2 with
    | some op =>
      parenthesized (max < op.priority) <|
        termText style op.leftMax a ++ style.infixText functor ++ termText style op.rightMax b
    | none =>
      style.atomText functor ++ "(" ++ termText style argPriority a ++ "," ++
        termText style argPriority b ++ ")"
  | a :: rest =>
    style.atomText functor ++ "(" ++ termText style argPriority a ++ furtherText style rest ++ ")"

def furtherText (style : WriteStyle) : List Term → String
  | [] => ""
  | a :: rest => "," ++ termText style argPriority a ++ furtherText style rest

end

def write (style : WriteStyle) (t : Term) : String := termText style OperatorTable.maxPriority t

end WriteStyle

def Term.text (t : Term) : String := WriteStyle.standard.write t

end Horn
