import Horn.Builtin.Catalogue

namespace Horn

inductive Reg where
  | x (n : Nat)
  | y (n : Nat)
  deriving DecidableEq, Repr

/-- Atomic terms other than `[]`, which has instructions of its own. -/
inductive Constant where
  | atom (name : String)
  | int (n : Int64)
  | float (x : Binary64)
  deriving DecidableEq, Repr

inductive Instruction where
  | getVariable (r : Reg) (a : Nat)
  | getValue (r : Reg) (a : Nat)
  | getConstant (c : Constant) (a : Nat)
  | getNil (a : Nat)
  | getList (a : Nat)
  | getStructure (f : Functor) (a : Nat)
  | unifyVariable (r : Reg)
  | unifyValue (r : Reg)
  | unifyConstant (c : Constant)
  | unifyNil
  | unifyVoid (n : Nat)
  | putVariable (r : Reg) (a : Nat)
  | putValue (r : Reg) (a : Nat)
  /-- A slot whose variable may still live in the environment that is given up. -/
  | putUnsafeValue (y a : Nat)
  | putConstant (c : Constant) (a : Nat)
  | putNil (a : Nat)
  | putList (a : Nat)
  | putStructure (f : Functor) (a : Nat)
  | setVariable (r : Reg)
  | setValue (r : Reg)
  | setConstant (c : Constant)
  | setNil
  | setVoid (n : Nat)
  | allocate (n : Nat)
  | deallocate
  /-- A call with the number of slots still needed after it. -/
  | call (f : Functor) (live : Nat)
  | execute (f : Functor)
  | callBuiltin (b : Builtin) (live : Nat)
  | proceed
  /-- The operand of a choice is the index of the next alternative. -/
  | tryMeElse (next : Nat)
  | retryMeElse (next : Nat)
  | trustMe
  | neckCut
  | getLevel (y : Nat)
  | cut (y : Nat)
  deriving DecidableEq, Repr

def Reg.text : Reg → String
  | .x n => "X" ++ toString n
  | .y n => "Y" ++ toString n

namespace Constant

def ofNumber : Number → Constant
  | .int n => .int n
  | .float x => .float x

def text : Constant → String
  | .atom name => Term.quoteAtom name
  | .int n => Number.text (.int n)
  | .float x => Number.text (.float x)

end Constant

namespace Instruction

def isCall : Instruction → Bool
  | call _ _ | execute _ => true
  | _ => false

def isChoice : Instruction → Bool
  | tryMeElse _ | retryMeElse _ | trustMe => true
  | _ => false

def target? : Instruction → Option Nat
  | tryMeElse next | retryMeElse next => some next
  | _ => none

def withArg (name operand : String) (a : Nat) : String :=
  name ++ " " ++ operand ++ ", A" ++ toString a

def withNumber (name mark : String) (n : Nat) : String := name ++ " " ++ mark ++ toString n

def text : Instruction → String
  | getVariable r a => withArg "get_variable" r.text a
  | getValue r a => withArg "get_value" r.text a
  | getConstant c a => withArg "get_constant" c.text a
  | getNil a => withNumber "get_nil" "A" a
  | getList a => withNumber "get_list" "A" a
  | getStructure f a => withArg "get_structure" f.text a
  | unifyVariable r => "unify_variable " ++ r.text
  | unifyValue r => "unify_value " ++ r.text
  | unifyConstant c => "unify_constant " ++ c.text
  | unifyNil => "unify_nil"
  | unifyVoid n => withNumber "unify_void" "" n
  | putVariable r a => withArg "put_variable" r.text a
  | putValue r a => withArg "put_value" r.text a
  | putUnsafeValue y a => withArg "put_unsafe_value" (Reg.y y).text a
  | putConstant c a => withArg "put_constant" c.text a
  | putNil a => withNumber "put_nil" "A" a
  | putList a => withNumber "put_list" "A" a
  | putStructure f a => withArg "put_structure" f.text a
  | setVariable r => "set_variable " ++ r.text
  | setValue r => "set_value " ++ r.text
  | setConstant c => "set_constant " ++ c.text
  | setNil => "set_nil"
  | setVoid n => withNumber "set_void" "" n
  | allocate n => withNumber "allocate" "" n
  | deallocate => "deallocate"
  | call f live => "call " ++ f.text ++ ", " ++ toString live
  | execute f => "execute " ++ f.text
  | callBuiltin b live => "call_builtin " ++ b.text ++ ", " ++ toString live
  | proceed => "proceed"
  | tryMeElse next => withNumber "try_me_else" "L" next
  | retryMeElse next => withNumber "retry_me_else" "L" next
  | trustMe => "trust_me"
  | neckCut => "neck_cut"
  | getLevel y => withNumber "get_level" "Y" y
  | cut y => withNumber "cut" "Y" y

def listing (code : List Instruction) : String :=
  let targets := code.filterMap target?
  String.join (code.zipIdx.map fun (i, index) =>
    (if targets.contains index then "L" ++ toString index ++ ":\n" else "") ++
      "    " ++ i.text ++ "\n")

end Instruction

end Horn
