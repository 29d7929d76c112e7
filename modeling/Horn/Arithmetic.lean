import Horn.Decimal.Reading
import Horn.ExecutionError

/-!
# Arithmetic

Integer operations give the exact result or an overflow, except that a left shift drops the bits
that leave the word. A function of an integer and a float is a function of floats.
-/

namespace Horn

open Horn.Decimal

inductive UnaryFn where
  | neg
  | pos
  | abs
  | sign
  | complement
  | float
  | integer
  | integerPart
  | fractionalPart
  | truncate
  | round
  | ceiling
  | floor
  | sqrt
  | sin
  | cos
  | tan
  | asin
  | acos
  | atan
  | exp
  | log
  | msb
  deriving DecidableEq, Repr

inductive BinaryFn where
  | add
  | sub
  | mul
  | divide
  | quotient
  | remainder
  | modulo
  | floorDiv
  | min
  | max
  | floatPower
  | power
  | atan2
  | shiftRight
  | shiftLeft
  | bitAnd
  | bitOr
  | bitXor
  deriving DecidableEq, Repr

inductive Comparison where
  | equal
  | notEqual
  | less
  | greater
  | lessEq
  | greaterEq
  deriving DecidableEq, Repr

namespace Arithmetic

abbrev Result (α : Type) := Except ExecutionError α

def undefined : ExecutionError := .evaluation .undefined

def overflow : ExecutionError := .evaluation .overflow

def zeroDivisor : ExecutionError := .evaluation .zeroDivisor

def notEvaluable (name : String) (arity : Nat) : ExecutionError :=
  .type .evaluable (name ++ "/" ++ toString arity)

def notInteger (n : Number) : ExecutionError := .type .integer n.text

def exactly (i : Int) : Result Number :=
  match Number.int64? i with
  | some n => .ok (.int n)
  | none => .error overflow

def toZero (x : Float) : Float := if x < 0 then x.ceil else x.floor

/-- The integer that a whole float stands for. The float next above the largest integer counts as
that integer. -/
def ofWhole (x : Binary64) : Result Number :=
  if x.isNaN || x.isInfinite then .error overflow
  else
    let d := Dyadic.ofBits x.bits
    let size : Int := d.numerator / d.denominator
    let i := if x.isNegative then -size else size
    let largest := Int64.maxValue.toInt
    exactly (if i = largest + 1 then largest else i)

/-- The sign of a value. What is no number has the sign `nan`, whatever its bits. -/
def signOf (x : Binary64) : Binary64 :=
  if x.isNaN then .nan
  else if x.toFloat == 0 then .zero
  else .ofFloat (if x.isNegative then -1 else 1)

/-- Order of two numbers; an integer is compared with a float as a float. -/
def compareNumbers : Number → Number → Result Ordering
  | .int a, .int b => .ok (compare a.toInt b.toInt)
  | x, y =>
    let a := x.toFloat
    let b := y.toFloat
    if a < b then .ok .lt else if b < a then .ok .gt else if a == b then .ok .eq
    else .error undefined

end Arithmetic

namespace UnaryFn

open Arithmetic

def table : List (String × UnaryFn) :=
  [("-", neg), ("+", pos), ("abs", abs), ("sign", sign), ("\\", complement), ("float", float),
   ("integer", integer), ("float_integer_part", integerPart),
   ("float_fractional_part", fractionalPart), ("truncate", truncate), ("round", round),
   ("ceiling", ceiling), ("floor", floor), ("sqrt", sqrt), ("sin", sin), ("cos", cos),
   ("tan", tan), ("asin", asin), ("acos", acos), ("atan", atan), ("exp", exp), ("log", log),
   ("msb", msb)]

def ofName? (name : String) : Option UnaryFn := table.lookup name

/-- A function of a float. The inverse sine and cosine are `nan` outside of their domain. -/
def onFloat : UnaryFn → Binary64 → Result Number
  | neg, x => .ok (.float x.neg)
  | pos, x => .ok (.float x)
  | abs, x => .ok (.float x.abs)
  | sign, x => .ok (.float (signOf x))
  | complement, x | msb, x => .error (notInteger (.float x))
  | float, x => .ok (.float x)
  | integer, x | round, x => ofWhole (x.map Float.round)
  | integerPart, x => .ok (.float (x.map toZero))
  | fractionalPart, x => .ok (.float (x.map fun v => v - toZero v))
  | truncate, x => ofWhole (x.map toZero)
  | ceiling, x => ofWhole (x.map Float.ceil)
  | floor, x => ofWhole (x.map Float.floor)
  | sqrt, x => if x.toFloat < 0 then .error undefined else .ok (.float (x.map Float.sqrt))
  | sin, x => .ok (.float (x.map Float.sin))
  | cos, x => .ok (.float (x.map Float.cos))
  | tan, x => .ok (.float (x.map Float.tan))
  | asin, x => .ok (.float (x.mapOr .nan Float.asin))
  | acos, x => .ok (.float (x.mapOr .nan Float.acos))
  | atan, x => .ok (.float (x.map Float.atan))
  | exp, x => .ok (.float (x.map Float.exp))
  | log, x => if x.toFloat <= 0 then .error undefined else .ok (.float (x.map Float.log))

def apply (f : UnaryFn) : Number → Result Number
  | .float x => f.onFloat x
  | .int a =>
    match f with
    | neg => exactly (-a.toInt)
    | pos | integer => .ok (.int a)
    | abs => exactly a.toInt.natAbs
    | sign => exactly a.toInt.sign
    | complement => .ok (.int (~~~a))
    | msb =>
      if 0 < a.toInt then exactly (Nat.log2 a.toInt.toNat) else .error (notEvaluable "msb" 1)
    | f => f.onFloat (Number.toBinary64 (.int a))

end UnaryFn

namespace BinaryFn

open Arithmetic

def table : List (String × BinaryFn) :=
  [("+", add), ("-", sub), ("*", mul), ("/", divide), ("//", quotient), ("rem", remainder),
   ("mod", modulo), ("div", floorDiv), ("min", min), ("max", max), ("**", floatPower),
   ("^", power), ("atan2", atan2), ("atan", atan2), (">>", shiftRight), ("<<", shiftLeft),
   ("/\\", bitAnd), ("\\/", bitOr), ("xor", bitXor)]

def ofName? (name : String) : Option BinaryFn := table.lookup name

/-- `a ^ b` for an exponent that is not negative. Of a base with more than one bit no power from
the 64th on fits; of the others only the parity of the exponent matters. -/
def intPower (a : Int) (b : Nat) : Result Number :=
  if UInt32.size ≤ b then .error overflow
  else if a.natAbs ≤ 1 then exactly (Int.pow a (if b = 0 then 0 else 2 - b % 2))
  else if 64 ≤ b then .error overflow
  else exactly (Int.pow a b)

def onFloats (f : Float → Float → Float) (x y : Number) : Result Number :=
  .ok (.float (x.toBinary64.map₂ y.toBinary64 f))

/-- The angle of a point. Of two operands that are no numbers the second is handed on. -/
def angle (x y : Number) : Result Number :=
  .ok (.float (y.toBinary64.map₂ x.toBinary64 fun b a => Float.atan2 a b))

/-- Division of integers. A remainder exists only where the quotient fits. -/
def divided (a b : Int) (result : Int) : Result Number :=
  if b = 0 then .error zeroDivisor
  else match Number.int64? (a.tdiv b) with
    | none => .error overflow
    | some _ => exactly result

def onInts (f : BinaryFn) (x y : Int64) : Result Number :=
  let a := x.toInt
  let b := y.toInt
  match f with
  | add => exactly (a + b)
  | sub => exactly (a - b)
  | mul => exactly (a * b)
  | divide =>
    if b = 0 then .error zeroDivisor
    else match Number.int64? (a.tdiv b), decide (a.tmod b = 0) with
      | some q, true => .ok (.int q)
      | _, _ => onFloats (· / ·) (.int x) (.int y)
  | quotient => divided a b (a.tdiv b)
  | remainder => divided a b (a.tmod b)
  | modulo => divided a b (a.fmod b)
  | floorDiv => divided a b (a.fdiv b)
  | min => .ok (.int (if b < a then y else x))
  | max => .ok (.int (if a < b then y else x))
  | floatPower => onFloats Float.pow (.int x) (.int y)
  | power =>
    if 0 ≤ b then intPower a b.toNat
    else if a = 1 || a = -1 then .ok (.int (if b % 2 = 0 then 1 else x))
    else .error (.type .float (toString a))
  | atan2 => angle (.int x) (.int y)
  | shiftRight => exactly (a >>> (Nat.min b.toNat 63))
  | shiftLeft =>
    if 0 ≤ b && b < 64 then .ok (.int (Int64.ofInt (a * Int.pow 2 b.toNat))) else .error overflow
  | bitAnd => .ok (.int (x &&& y))
  | bitOr => .ok (.int (x ||| y))
  | bitXor => .ok (.int (x ^^^ y))

def onMixed (f : BinaryFn) (x y : Number) : Result Number :=
  match f with
  | add => onFloats (· + ·) x y
  | sub => onFloats (· - ·) x y
  | mul => onFloats (· * ·) x y
  | divide => if y.toFloat == 0 then .error zeroDivisor else onFloats (· / ·) x y
  | min => do return if (← compareNumbers x y) = .gt then y else x
  | max => do return if (← compareNumbers x y) = .lt then y else x
  | floatPower | power => onFloats Float.pow x y
  | atan2 => angle x y
  | quotient | remainder | modulo | floorDiv | shiftRight | shiftLeft | bitAnd | bitOr | bitXor =>
    .error (notInteger (if x.isFloat then x else y))

def apply (f : BinaryFn) : Number → Number → Result Number
  | .int x, .int y => f.onInts x y
  | x, y => f.onMixed x y

end BinaryFn

namespace Arithmetic

def pi : Binary64 := .ofFloat 3.141592653589793

def euler : Binary64 := .ofFloat 2.718281828459045

def epsilon : Binary64 := .ofFloat 2.220446049250313e-16

def constants : List (String × Number) :=
  [("pi", .float pi), ("e", .float euler), ("inf", .float .infinity),
   ("infinite", .float .infinity), ("nan", .float .nan), ("epsilon", .float epsilon),
   ("max_tagged_integer", .int Int64.maxValue), ("min_tagged_integer", .int Int64.minValue)]

def constant (name : String) : Result Number :=
  match constants.lookup name with
  | some n => .ok n
  | none => .error (notEvaluable name 0)

def unary (name : String) (x : Number) : Result Number :=
  match UnaryFn.ofName? name with
  | some f => f.apply x
  | none => .error (notEvaluable name 1)

def binary (name : String) (x y : Number) : Result Number :=
  match BinaryFn.ofName? name with
  | some f => f.apply x y
  | none => .error (notEvaluable name 2)

/-- The value of an expression. A list of one member stands for that member. -/
def evaluate : Term → Result Number
  | .number n => .ok n
  | .var _ _ => .error .instantiation
  | .atom name => constant name
  | .cell h t => if t.isNil then evaluate h else .error (.type .evaluable (Functor.text ⟨".", 2⟩))
  | .compound f args =>
    match args with
    | [a] => do unary f (← evaluate a)
    | [a, b] => do
      let x ← evaluate a
      let y ← evaluate b
      binary f x y
    | args => .error (.type .evaluable (Functor.text ⟨f, args.length⟩))

def order (a b : Term) : Result Ordering := do
  let x ← evaluate a
  let y ← evaluate b
  compareNumbers x y

end Arithmetic

namespace Comparison

def table : List (String × Comparison) :=
  [("=:=", equal), ("=\\=", notEqual), ("<", less), (">", greater), ("=<", lessEq),
   (">=", greaterEq)]

def ofName? (name : String) : Option Comparison := table.lookup name

def holds : Comparison → Ordering → Bool
  | equal, o => o = .eq
  | notEqual, o => o ≠ .eq
  | less, o => o = .lt
  | greater, o => o = .gt
  | lessEq, o => o ≠ .gt
  | greaterEq, o => o ≠ .lt

def test (c : Comparison) (a b : Term) : Except ExecutionError Bool :=
  c.holds <$> Arithmetic.order a b

end Comparison

end Horn
