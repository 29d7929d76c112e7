import Horn.Flags
import Horn.Operator.Table
import Horn.Reader.SyntaxError
import Horn.Term.Basic
import Horn.Token.Lexer

/-!
# Reading terms

Operator-precedence reading with one token of lookahead. Variables are numbered from zero in order
of first occurrence in each term; every `_` is a variable of its own. A variable or compound
directly followed by `(` is applied: `F(X)` reads as `apply(F, X)`.
-/

namespace Horn

open Horn.Text

structure ReadTerm where
  term : Term
  position : Position
  names : List (String × Term)
  deriving DecidableEq, Repr

structure Reader where
  lexer : Lexer
  lookahead : Option Token
  varIds : List (String × Nat)
  nextVar : Nat
  deriving DecidableEq, Repr

/-- What the text means depends on the operators and on the reading of double quotes. -/
structure ReadMode where
  operators : OperatorTable
  doubleQuotes : DoubleQuotes

abbrev Reading (α : Type) := EStateM SyntaxError Reader α

inductive Closing where
  | clause
  | single
  | paren
  | curly
  | argument
  | listItem
  | listTail
  deriving DecidableEq, Repr

namespace Closing

def accepts : Closing → Lexeme → Bool
  | .clause, .clauseEnd => true
  | .single, .clauseEnd | .single, .inputEnd => true
  | .paren, .closeParen => true
  | .curly, .closeCurly => true
  | .argument, .comma | .argument, .closeParen => true
  | .listItem, .comma | .listItem, .bar | .listItem, .closeBracket => true
  | .listTail, .closeBracket => true
  | _, _ => false

def fault (closing : Closing) (found : Lexeme) : SyntaxError.Cause :=
  match closing, found.isEnd with
  | .paren, true => .missingParen
  | .curly, true => .missingCurly
  | .argument, true | .listItem, true | .listTail, true => .missingDelimiter
  | _, _ => if found = .inputEnd then .prematureEnd else .operatorExpected

end Closing

namespace Reader

def ofSource (source : Source) : Reader := ⟨.ofSource source, none, [], 0⟩

def ofText (text : String) : Reader := ofSource (.ofText text)

/-- The place of the next token, or of the next character when no token was looked at. -/
def position (r : Reader) : Position :=
  match r.lookahead with
  | some t => t.position
  | none => r.lexer.position

def nextToken (valued : Bool) : Reading Token := fun r =>
  match r.lexer.next valued with
  | .ok t l => .ok t { r with lexer := l }
  | .error e l => .error (.ofLex e) { r with lexer := l }

def peek (valued : Bool) : Reading Token := do
  match (← get).lookahead with
  | some t => return t
  | none =>
    let t ← nextToken valued
    modify fun r => { r with lookahead := some t }
    return t

def advance : Reading Token := do
  match (← get).lookahead with
  | some t =>
    modify fun r => { r with lookahead := none }
    return t
  | none => nextToken false

def freshVar (name : String) : Reading Term := do
  let id := (← get).nextVar
  modify fun r => { r with nextVar := id + 1 }
  return .var name id

def varNamed (name : String) : Reading Term := do
  if name = "_" then freshVar name
  else match (← get).varIds.find? (·.1 = name) with
    | some (_, id) => return .var name id
    | none =>
      let id := (← get).nextVar
      modify fun r => { r with nextVar := id + 1, varIds := r.varIds ++ [(name, id)] }
      return .var name id

def codes (text : String) : Term :=
  .list (text.toList.map fun c => .int (Int64.ofNat c.toNat))

def doubleQuoted (mode : DoubleQuotes) (text : String) : Term :=
  match mode with
  | .codes => codes text
  | .chars => .list (text.toList.map fun c => .atom (String.singleton c))
  | .atom => .atom text

/-- Whether the token after a prefix operator begins its operand. An infix operator that is no
prefix operator does not: then the prefix operator is itself an operand. -/
def startsOperand (ops : OperatorTable) : Lexeme → Bool
  | .clauseEnd | .inputEnd | .closeParen | .closeBracket | .closeCurly | .comma | .bar => false
  | .atom name _ => (ops.infixOp? name).isNone || (ops.prefixOp? name).isSome
  | _ => true

def infixToken? (ops : OperatorTable) : Lexeme → Option (Operator × String)
  | .comma => some (⟨",", 1000, .xfy⟩, ",")
  | .bar => (ops.infixOp? "|").map (·, ";")
  | .atom name _ =>
    if name = "," then some (⟨",", 1000, .xfy⟩, ",") else (ops.infixOp? name).map (·, name)
  | _ => none

def prefixPriorities (op : Operator) (max : Nat) : Nat × Nat :=
  if max < op.priority then (max, min op.rightMax max) else (op.priority, op.rightMax)

def argPriority : Nat := 999

def tooDeep {α : Type} : Reading α := fun r => .error ⟨.tooDeep, r.position, none⟩ r

mutual

def closed (mode : ReadMode) : Nat → Closing → Nat → Reading Term
  | 0, _, _ => tooDeep
  | n + 1, closing, max => do
    let (term, _) ← expr mode n max
    let next ← peek false
    if closing.accepts next.lexeme then return term
    else throw (.atToken next (closing.fault next.lexeme))

def expr (mode : ReadMode) : Nat → Nat → Reading (Term × Nat)
  | 0, _ => tooDeep
  | n + 1, max => do
    let (left, priority) ← primary mode n max
    extend mode n left priority max

def primary (mode : ReadMode) : Nat → Nat → Reading (Term × Nat)
  | 0, _ => tooDeep
  | n + 1, max => do
    let token ← peek true
    match token.lexeme with
    | .inputEnd => throw (.atToken token .prematureEnd)
    | .clauseEnd | .closeParen | .closeBracket | .closeCurly | .comma | .bar =>
      throw (.atToken token .expressionExpected)
    | .integer i =>
      let _ ← advance
      return (.int i, 0)
    | .float x =>
      let _ ← advance
      return (.float x, 0)
    | .variable name =>
      let _ ← advance
      let v ← varNamed name
      return (← applied mode n v, 0)
    | .doubleQuoted text =>
      let _ ← advance
      return (doubleQuoted mode.doubleQuotes text, 0)
    | .backQuoted text =>
      let _ ← advance
      return (codes text, 0)
    | .openParen | .openCall =>
      let _ ← advance
      let inner ← closed mode n .paren OperatorTable.maxPriority
      let _ ← advance
      return (inner, 0)
    | .openBracket =>
      let _ ← advance
      if (← peek true).lexeme = .closeBracket then
        let _ ← advance
        nameTerm mode n "[]" max
      else return (← listFrom mode n [], 0)
    | .openCurly =>
      let _ ← advance
      if (← peek true).lexeme = .closeCurly then
        let _ ← advance
        nameTerm mode n "\x7b\x7d" max
      else
        let inner ← closed mode n .curly OperatorTable.maxPriority
        let _ ← advance
        return (.build "\x7b\x7d" [inner], 0)
    | .atom name _ =>
      let _ ← advance
      nameTerm mode n name max

/-- A name where a term begins: a functor with its arguments, a prefix operator with its operand,
or an atom. -/
def nameTerm (mode : ReadMode) : Nat → String → Nat → Reading (Term × Nat)
  | 0, _, _ => tooDeep
  | n + 1, name, max => do
    let op? := mode.operators.prefixOp? name
    let next ← peek op?.isSome
    if next.lexeme = .openCall then
      let _ ← advance
      let args ← arguments mode n []
      return (← applied mode n (.build name args), 0)
    else match op? with
      | none => return (.atom name, 0)
      | some op =>
        if startsOperand mode.operators next.lexeme then
          let (priority, operandMax) := prefixPriorities op max
          let (operand, _) ← expr mode n operandMax
          return (.build name [operand], priority)
        else return (.atom name, 0)

def extend (mode : ReadMode) : Nat → Term → Nat → Nat → Reading (Term × Nat)
  | 0, _, _, _ => tooDeep
  | n + 1, left, leftPriority, max => do
    let next ← peek false
    match infixToken? mode.operators next.lexeme with
    | none => return (left, leftPriority)
    | some (op, functor) =>
      if max < op.priority || op.leftMax < leftPriority then return (left, leftPriority)
      else
        let _ ← advance
        if op.fixity = .postfixOp then
          extend mode n (.build functor [left]) op.priority max
        else
          let (right, _) ← expr mode n op.rightMax
          extend mode n (.build functor [left, right]) op.priority max

def arguments (mode : ReadMode) : Nat → List Term → Reading (List Term)
  | 0, _ => tooDeep
  | n + 1, before => do
    let arg ← closed mode n .argument argPriority
    let separator ← advance
    if separator.lexeme = .closeParen then return (arg :: before).reverse
    else arguments mode n (arg :: before)

def listFrom (mode : ReadMode) : Nat → List Term → Reading Term
  | 0, _ => tooDeep
  | n + 1, before => do
    let item ← closed mode n .listItem argPriority
    let separator ← advance
    match separator.lexeme with
    | .comma => listFrom mode n (item :: before)
    | .bar =>
      let tail ← closed mode n .listTail argPriority
      let _ ← advance
      return .listTo (item :: before).reverse tail
    | _ => return .list (item :: before).reverse

def applied (mode : ReadMode) : Nat → Term → Reading Term
  | 0, _ => tooDeep
  | n + 1, term => do
    if (← peek false).lexeme = .openCall then
      let _ ← advance
      let args ← arguments mode n []
      applied mode n (.build "apply" (term :: args))
    else return term

end

/-- Enough calls for whatever is left in the stream: a token leads to at most four of them. -/
def depth (r : Reader) : Nat := 5 * (r.lexer.stream.size + 4)

def finish (term : Term) (position : Position) : Reading ReadTerm := do
  let names := (← get).varIds.map fun (name, id) => (name, Term.var name id)
  modify fun r => { r with varIds := [] }
  return ⟨term, position, names⟩

def startTerm : Reading Unit := modify fun r => { r with varIds := [], nextVar := 0 }

/-- The next term that a clause end follows; `none` at the end of the text. -/
def readTerm (mode : ReadMode) : Reading (Option ReadTerm) := do
  startTerm
  let depth := (← get).depth
  let first ← peek true
  if first.lexeme = .inputEnd then return none
  else
    let term ← closed mode depth .clause OperatorTable.maxPriority
    let _ ← advance
    return some (← finish term first.position)

def readSingle (mode : ReadMode) : Reading ReadTerm := do
  startTerm
  let depth := (← get).depth
  let first ← peek true
  let term ← closed mode depth .single OperatorTable.maxPriority
  let _ ← advance
  finish term first.position

def skipClause : Reading Unit := fun r =>
  let skip (_ : Unit) : EStateM.Result SyntaxError Reader Unit :=
    match r.lexer.skipToEnd with
    | .ok () l => .ok () { r with lexer := l, lookahead := none }
    | .error e l => .error (.ofLex e) { r with lexer := l, lookahead := none }
  match r.lookahead with
  | some t => if t.lexeme.isEnd then .ok () { r with lookahead := none } else skip ()
  | none => skip ()

/-- Enough rounds for any text: each but the last takes something from it. -/
def rounds (r : Reader) : Nat := r.lexer.stream.size + 4

/-- Read the terms of a text one after the other. Each is read in the mode in force when its turn
comes, and handed on with the errors that arise, until the text ends or no more is wanted. After an
error, reading goes on behind the clause. -/
def forEach {m : Type → Type} [Monad m] {β : Type} (mode : m ReadMode)
    (handle : β → Except SyntaxError ReadTerm → m (ForInStep β)) : Nat → Reader → β → m β
  | 0, _, b => return b
  | n + 1, r, b => do
    match readTerm (← mode) r with
    | .ok none _ => return b
    | .ok (some t) r =>
      match ← handle b (.ok t) with
      | .done b => return b
      | .yield b => forEach mode handle n r b
    | .error e r =>
      match ← handle b (.error e) with
      | .done b => return b
      | .yield b =>
        match skipClause r with
        | .ok () r => forEach mode handle n r b
        | .error e _ =>
          match ← handle b (.error e) with
          | .done b | .yield b => return b

end Reader

def Term.parse (mode : ReadMode) (text : String) : Except SyntaxError ReadTerm :=
  match Reader.readSingle mode (.ofText text) with
  | .ok t _ => .ok t
  | .error e _ => .error e

end Horn
