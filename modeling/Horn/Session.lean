import Horn.Bytecode.Decoding
import Horn.Engine
import Horn.Library
import Horn.SourceUnit

namespace Horn

structure Session where
  context : Context
  engine : Engine

inductive SessionError where
  | compilation (e : CompileError)
  | execution (e : ExecutionError)
  deriving DecidableEq, Repr

def SessionError.ofHalt : Halt → SessionError
  | .raised e => .execution e
  | .outOfFuel => .compilation .outOfFuel

namespace Session

/-- Something done in a session. Changes made before an error stay. -/
abbrev Act (α : Type) := EStateM SessionError Session α

def new (operators : OperatorTable) (config : Config) : Session :=
  ⟨.new operators config, .new config.unknown⟩

def compiling {α : Type} (x : Compiling Engine α) : EStateM CompileError Session α := fun s =>
  match x (s.context, s.engine) with
  | .ok a (c, e) => .ok a ⟨c, e⟩
  | .error err (c, e) => .error err ⟨c, e⟩

def running {α : Type} (r : Running α) : EStateM Halt Session α := fun s =>
  match r (s.context.operators, s.engine) with
  | .ok a (ops, e) => .ok a ⟨{ s.context with operators := ops }, e⟩
  | .error h (ops, e) => .error h ⟨{ s.context with operators := ops }, e⟩

def withError {ε α : Type} (f : ε → SessionError) (x : EStateM ε Session α) : Act α := fun s =>
  match x s with
  | .ok a s => .ok a s
  | .error e s => .error (f e) s

def act {α : Type} (r : Running α) : Act α := withError .ofHalt (running r)

def consult (fuel : Nat) (name text : String) : EStateM CompileError Session UnitReport :=
  compiling (SourceUnit.compile (Engine.observer fuel) fuel name (.ofText text))

/-- Consult the library. It is found only where it is kept with the program. -/
def loadLibrary (fuel : Nat) : EStateM CompileError Session UnitReport := do
  match (← get).context.config.resourceRoot with
  | none => consult fuel Library.name Library.text
  | some _ => throw .unreadable

/-- Read a text as a term. Double quotes are read as codes, whatever the flag. -/
def read (text : String) : Act Term := do
  match Term.parse ⟨(← get).context.operators, .codes⟩ text with
  | .ok r => return r.term
  | .error e => throw (.compilation (.reading e))

def prepare (fuel : Nat) (text : String) : Act Unit := do
  match Term.parse ⟨(← get).context.operators, .codes⟩ text with
  | .error e => throw (.compilation (.reading e))
  | .ok r =>
    let p ← withError .compilation (compiling (Preparation.query (Engine.observer fuel) fuel r))
    match p.compileQuery with
    | .error e => throw (.compilation e)
    | .ok q => modify fun s => { s with engine := { s.engine with query := some q } }

def query (fuel : Nat) (text : String) : Act (Option Solution) := do
  prepare fuel text
  act (Engine.firstAnswer fuel)

def queryAll (fuel : Nat) (text : String) : Act (List Solution) := do
  prepare fuel text
  act (Engine.allAnswers fuel)

def takeOutput (s : Session) : String × Session :=
  let (output, e) := s.engine.takeOutput
  (output, { s with engine := e })

def reload (s : Session) (bytes : List UInt8) : Except CompileError Session :=
  match Bytecode.toDomain? bytes with
  | some d => .ok { s with engine := { Engine.new s.context.config.unknown with domain := d } }
  | none => .error .malformed

end Session

end Horn
