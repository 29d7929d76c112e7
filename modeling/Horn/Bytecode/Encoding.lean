import Horn.Domain

namespace Horn.Bytecode

open Horn.Text

def bytes : Nat → Nat → List UInt8
  | 0, _ => []
  | width + 1, n => UInt8.ofNat (n % 256) :: bytes width (n / 256)

def word64 (n : Nat) : List UInt8 := bytes 8 n

def word32 (n : Nat) : List UInt8 := bytes 4 n

def ofBool (b : Bool) : List UInt8 := [if b then 1 else 0]

def ofText (s : String) : List UInt8 :=
  let content := s.toUTF8.toList
  word64 content.length ++ content

def ofList {α : Type} (encode : α → List UInt8) (items : List α) : List UInt8 :=
  word64 items.length ++ items.flatMap encode

def ofOption {α : Type} (encode : α → List UInt8) : Option α → List UInt8
  | none => [0]
  | some a => 1 :: encode a

def ofInt (n : Int64) : List UInt8 := word64 n.toUInt64.toNat

def ofFloat (x : Binary64) : List UInt8 := word64 x.bits.toNat

def ofFunctor (f : Functor) : List UInt8 := ofText f.name ++ word64 f.arity

def ofNumber : Number → List UInt8
  | .int n => word32 0 ++ ofInt n
  | .float x => word32 1 ++ ofFloat x

mutual

def ofTerm : Term → List UInt8
  | .atom a => word32 0 ++ ofText a
  | .number n => word32 1 ++ ofNumber n
  | .var name id => word32 2 ++ ofText name ++ word64 id
  | .compound f args => word32 3 ++ ofText f ++ word64 args.length ++ ofTerms args
  | .cell h t => word32 4 ++ ofTerm h ++ ofTerm t

def ofTerms : List Term → List UInt8
  | [] => []
  | t :: ts => ofTerm t ++ ofTerms ts

end

def kinds : List ClauseKind := [.fact, .rule, .directive, .query]

def ofPosition (p : Position) : List UInt8 := word64 p.line ++ word64 p.column

def ofClause (c : Clause) : List UInt8 :=
  ofOption ofTerm c.head ++ ofList ofTerm c.body ++ word32 (kinds.findIdx (· = c.kind)) ++
    ofPosition c.position

def ofReg : Reg → List UInt8
  | .x n => word32 0 ++ word64 n
  | .y n => word32 1 ++ word64 n

def ofConstant : Constant → List UInt8
  | .atom name => word32 0 ++ ofText name
  | .int n => word32 1 ++ ofInt n
  | .float x => word32 2 ++ ofFloat x

/-- The built-ins in the order of their variant numbers. The arity of `call` is given apart. -/
def builtins : List Builtin :=
  [.conjunction, .disjunction, .ifThen, .softIfThen, .negation, .call 0, .succeed, .fail, .falsity,
   .unify, .notUnify, .identical, .notIdentical, .termLess, .termGreater, .termLessEq,
   .termGreaterEq, .compare, .is, .arithEqual, .arithNotEqual, .less, .greater, .lessEq,
   .greaterEq, .var, .nonvar, .atom, .number, .integer, .float, .atomic, .compound, .callable,
   .isList, .functor, .arg, .univ, .copyTerm, .findall, .op, .currentOp, .write, .writeln, .nl]

def ofBuiltin : Builtin → List UInt8
  | .call arity => word32 (builtins.findIdx (· = .call 0)) ++ [arity]
  | b => word32 (builtins.findIdx (· = b))

def ofInstruction : Instruction → List UInt8
  | .getVariable r a => word32 0 ++ ofReg r ++ word64 a
  | .getValue r a => word32 1 ++ ofReg r ++ word64 a
  | .getConstant c a => word32 2 ++ ofConstant c ++ word64 a
  | .getNil a => word32 3 ++ word64 a
  | .getList a => word32 4 ++ word64 a
  | .getStructure f a => word32 5 ++ ofFunctor f ++ word64 a
  | .unifyVariable r => word32 6 ++ ofReg r
  | .unifyValue r => word32 7 ++ ofReg r
  | .unifyConstant c => word32 8 ++ ofConstant c
  | .unifyNil => word32 9
  | .unifyVoid n => word32 10 ++ word64 n
  | .putVariable r a => word32 11 ++ ofReg r ++ word64 a
  | .putValue r a => word32 12 ++ ofReg r ++ word64 a
  | .putUnsafeValue y a => word32 13 ++ word64 y ++ word64 a
  | .putConstant c a => word32 14 ++ ofConstant c ++ word64 a
  | .putNil a => word32 15 ++ word64 a
  | .putList a => word32 16 ++ word64 a
  | .putStructure f a => word32 17 ++ ofFunctor f ++ word64 a
  | .setVariable r => word32 18 ++ ofReg r
  | .setValue r => word32 19 ++ ofReg r
  | .setConstant c => word32 20 ++ ofConstant c
  | .setNil => word32 21
  | .setVoid n => word32 22 ++ word64 n
  | .allocate n => word32 23 ++ word64 n
  | .deallocate => word32 24
  | .call f live => word32 25 ++ ofFunctor f ++ word64 live
  | .execute f => word32 26 ++ ofFunctor f
  | .callBuiltin b live => word32 27 ++ ofBuiltin b ++ word64 live
  | .proceed => word32 28
  | .tryMeElse next => word32 29 ++ word64 next
  | .retryMeElse next => word32 30 ++ word64 next
  | .trustMe => word32 31
  | .neckCut => word32 32
  | .getLevel y => word32 33 ++ word64 y
  | .cut y => word32 34 ++ word64 y

def ofCompiledClause (c : CompiledClause) : List UInt8 :=
  ofFunctor c.functor ++ word32 c.key.index ++ ofClause c.clause ++
    ofList ofInstruction c.code ++ word64 c.permanentVars ++ ofList ofFunctor c.references

def ofPredicate (p : Predicate) : List UInt8 :=
  ofFunctor p.functor ++ ofList ofCompiledClause p.clauses ++ ofBool p.dynamic

/-- The bytes of a domain. The index is not among them. -/
def ofDomain (d : Domain) : List UInt8 := ofList ofPredicate d.predicates.toList

end Horn.Bytecode
