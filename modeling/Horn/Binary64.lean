/-!
# Floating-point words

`Float` has a single value for all that is no number; words tell these apart by sign and payload,
which a stored program keeps.
-/

namespace Horn

structure Binary64 where
  bits : UInt64
  deriving DecidableEq, Repr

namespace Binary64

def signBit : UInt64 := 0x8000000000000000

/-- Set in what is no number once it has been through an operation. -/
def quietBit : UInt64 := 0x0008000000000000

/-- The bits of the infinite value without its sign. What is no number lies above. -/
def infinityBits : UInt64 := 0x7FF0000000000000

def ofFloat (x : Float) : Binary64 := ⟨x.toBits⟩

def toFloat (x : Binary64) : Float := Float.ofBits x.bits

def zero : Binary64 := ⟨0⟩

def infinity : Binary64 := ⟨infinityBits⟩

def nan : Binary64 := ⟨0x7FF8000000000000⟩

def invalid : Binary64 := ⟨0xFFF8000000000000⟩

def magnitudeBits (x : Binary64) : UInt64 := x.bits &&& 0x7FFFFFFFFFFFFFFF

def isNaN (x : Binary64) : Bool := infinityBits < x.magnitudeBits

def isInfinite (x : Binary64) : Bool := x.magnitudeBits = infinityBits

def isNegative (x : Binary64) : Bool := x.bits &&& signBit ≠ 0

/-- Equality of values. The two zeros are equal, and what is no number equals nothing. -/
def equals (x y : Binary64) : Bool :=
  !x.isNaN && !y.isNaN && (x.bits = y.bits || (x.magnitudeBits = 0 && y.magnitudeBits = 0))

/-- The word with the other sign, also for what is no number. -/
def neg (x : Binary64) : Binary64 := ⟨x.bits ^^^ signBit⟩

def abs (x : Binary64) : Binary64 := ⟨x.magnitudeBits⟩

def quiet (x : Binary64) : Binary64 := ⟨x.bits ||| quietBit⟩

/-- The result of a function of one value, or `undefined` where the function has none. -/
def mapOr (x undefined : Binary64) (f : Float → Float) : Binary64 :=
  let result := f x.toFloat
  if !result.isNaN then ofFloat result
  else if x.isNaN then x.quiet
  else undefined

def map (x : Binary64) (f : Float → Float) : Binary64 := x.mapOr invalid f

def map₂ (x y : Binary64) (f : Float → Float → Float) : Binary64 :=
  let result := f x.toFloat y.toFloat
  if !result.isNaN then ofFloat result
  else if x.isNaN then x.quiet
  else if y.isNaN then y.quiet
  else invalid

end Binary64

end Horn
