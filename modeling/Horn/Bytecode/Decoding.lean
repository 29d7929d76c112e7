import Horn.Bytecode.Encoding

namespace Horn.Bytecode

open Horn.Text

abbrev Get (α : Type) := StateT (List UInt8) Option α

namespace Get

def byte : Get UInt8 := do
  match ← get with
  | [] => failure
  | b :: rest =>
    set rest
    return b

def number : Nat → Get Nat
  | 0 => return 0
  | width + 1 => do
    let low ← byte
    let high ← number width
    return low.toNat + 256 * high

def word64 : Get Nat := number 8

def word32 : Get Nat := number 4

def many {α : Type} (item : Get α) : Nat → Get (List α)
  | 0 => return []
  | n + 1 => do
    let a ← item
    let rest ← many item n
    return a :: rest

def list {α : Type} (item : Get α) : Get (List α) := do many item (← word64)

def bool : Get Bool := do
  match ← byte with
  | 0 => return false
  | 1 => return true
  | _ => failure

def option {α : Type} (item : Get α) : Get (Option α) := do
  match ← byte with
  | 0 => return none
  | 1 => return some (← item)
  | _ => failure

def text : Get String := do
  let length ← word64
  let bytes ← get
  if bytes.length < length then failure
  else
    set (bytes.drop length)
    match String.fromUTF8? (ByteArray.mk (bytes.take length).toArray) with
    | some s => return s
    | none => failure

def int : Get Int64 := do return (UInt64.ofNat (← word64)).toInt64

def float : Get Binary64 := do return ⟨UInt64.ofNat (← word64)⟩

def functor : Get Functor := do return ⟨← text, ← word64⟩

def numberTerm : Get Number := do
  match ← word32 with
  | 0 => return .int (← int)
  | 1 => return .float (← float)
  | _ => failure

def termWithin : Nat → Get Term
  | 0 => failure
  | n + 1 => do
    match ← word32 with
    | 0 => return .atom (← text)
    | 1 => return .number (← numberTerm)
    | 2 => return .var (← text) (← word64)
    | 3 => return .compound (← text) (← list (termWithin n))
    | 4 => return .cell (← termWithin n) (← termWithin n)
    | _ => failure

/-- A term. Each level of nesting takes at least one byte. -/
def term : Get Term := fun bytes => termWithin (bytes.length + 1) bytes

def position : Get Position := do return ⟨← word64, ← word64⟩

def choice {α : Type} (values : List α) : Get α := do
  match values[← word32]? with
  | some a => return a
  | none => failure

def clause : Get Clause := do
  let head ← option term
  let body ← list term
  let kind ← choice kinds
  return ⟨head, body, kind, ← position⟩

def reg : Get Reg := do
  match ← word32 with
  | 0 => return .x (← word64)
  | 1 => return .y (← word64)
  | _ => failure

def constant : Get Constant := do
  match ← word32 with
  | 0 => return .atom (← text)
  | 1 => return .int (← int)
  | 2 => return .float (← float)
  | _ => failure

def builtin : Get Builtin := do
  match ← choice builtins with
  | .call _ => return .call (← byte)
  | b => return b

def instruction : Get Instruction := do
  match ← word32 with
  | 0 => return .getVariable (← reg) (← word64)
  | 1 => return .getValue (← reg) (← word64)
  | 2 => return .getConstant (← constant) (← word64)
  | 3 => return .getNil (← word64)
  | 4 => return .getList (← word64)
  | 5 => return .getStructure (← functor) (← word64)
  | 6 => return .unifyVariable (← reg)
  | 7 => return .unifyValue (← reg)
  | 8 => return .unifyConstant (← constant)
  | 9 => return .unifyNil
  | 10 => return .unifyVoid (← word64)
  | 11 => return .putVariable (← reg) (← word64)
  | 12 => return .putValue (← reg) (← word64)
  | 13 => return .putUnsafeValue (← word64) (← word64)
  | 14 => return .putConstant (← constant) (← word64)
  | 15 => return .putNil (← word64)
  | 16 => return .putList (← word64)
  | 17 => return .putStructure (← functor) (← word64)
  | 18 => return .setVariable (← reg)
  | 19 => return .setValue (← reg)
  | 20 => return .setConstant (← constant)
  | 21 => return .setNil
  | 22 => return .setVoid (← word64)
  | 23 => return .allocate (← word64)
  | 24 => return .deallocate
  | 25 => return .call (← functor) (← word64)
  | 26 => return .execute (← functor)
  | 27 => return .callBuiltin (← builtin) (← word64)
  | 28 => return .proceed
  | 29 => return .tryMeElse (← word64)
  | 30 => return .retryMeElse (← word64)
  | 31 => return .trustMe
  | 32 => return .neckCut
  | 33 => return .getLevel (← word64)
  | 34 => return .cut (← word64)
  | _ => failure

def compiledClause : Get CompiledClause := do
  let f ← functor
  let key ← word32
  let c ← clause
  let code ← list instruction
  let permanentVars ← word64
  return ⟨f, ⟨key⟩, c, code, permanentVars, ← list functor⟩

def predicate : Get Predicate := do
  let f ← functor
  let clauses ← list compiledClause
  return ⟨f, clauses, ← bool⟩

end Get

def toDomain? (bytes : List UInt8) : Option Domain := do
  let (predicates, _) ← Get.list Get.predicate bytes
  return .ofPredicates predicates

end Horn.Bytecode
