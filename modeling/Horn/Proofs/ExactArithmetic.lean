import Horn.Proofs.TermInduction
import Horn.Arithmetic
import Mathlib.Data.Int.Bitwise
import Mathlib.Data.Nat.Log

/-!
# Exact arithmetic

Bits are compared one by one: a word has the bits of its integer in two's complement, and its
highest bit from there on. Left shifts stand apart: they are exact only where no bit leaves the
word.
-/

namespace Horn

open List Option Arithmetic Int64 Number

variable {i a b : Int} {n : Number} {x y : Int64}

namespace Arithmetic

lemma int64?_of_fits (low : -2 ^ 63 ≤ i) (high : i < 2 ^ 63) :
    int64? i = some (ofInt i) :=
  if_pos ⟨by simpa using low, by rw [toInt_maxValue]; omega⟩

lemma toInt_of_int64? {v : Int64} (h : int64? i = some v) : v.toInt = i := by
  unfold int64? at h
  split at h
  · next fits =>
    cases h
    rw [toInt_minValue, toInt_maxValue] at fits
    exact toInt_ofInt_of_le fits.1 (by omega)
  · cases h

lemma exactly_ok (h : exactly i = .ok n) : ∃ v : Int64, n = .int v ∧ some i = some v.toInt := by
  unfold exactly at h
  split at h
  · next v fits =>
    cases h
    exact ⟨v, rfl, congrArg some (toInt_of_int64? fits).symm⟩
  · cases h

lemma testBit_toInt {w : Nat} (x : BitVec w) (i : Nat) :
    x.toInt.testBit i = if i < w then x.getLsbD i else x.msb := by
  rw [BitVec.toInt_eq_msb_cond]
  cases msb : x.msb with
  | false =>
    rw [if_neg (by simp)]
    change x.toNat.testBit i = _
    rw [BitVec.testBit_toNat]
    split
    · rfl
    · next out => exact BitVec.getLsbD_of_ge x i (Nat.le_of_not_lt out)
  | true =>
    have negative : (x.toNat : Int) - (2 ^ w : Nat) = Int.negSucc (2 ^ w - (x.toNat + 1)) := by
      have := x.isLt
      omega
    rw [if_pos rfl, negative]
    change (!(2 ^ w - (x.toNat + 1)).testBit i) = _
    rw [Nat.testBit_two_pow_sub_succ x.isLt, BitVec.testBit_toNat]
    split <;> simp_all

lemma eq_of_testBit (h : ∀ i, a.testBit i = b.testBit i) : a = b := by
  have apart (m n : Nat) : ¬∀ i, m.testBit i = !n.testBit i := by
    intro same
    have large (k : Nat) (le : k ≤ max m n) : k.testBit (max m n) = false :=
      Nat.testBit_lt_two_pow (Nat.lt_of_le_of_lt le Nat.lt_two_pow_self)
    have := same (max m n)
    rw [large m (Nat.le_max_left _ _), large n (Nat.le_max_right _ _)] at this
    cases this
  cases a with
  | ofNat m =>
    cases b with
    | ofNat n => exact congrArg Int.ofNat (Nat.eq_of_testBit_eq h)
    | negSucc n => exact absurd h (apart m n)
  | negSucc m =>
    cases b with
    | ofNat n => exact absurd (fun i => (h i).symm) (apart n m)
    | negSucc n => exact congrArg Int.negSucc (Nat.eq_of_testBit_eq fun i => Bool.not_inj (h i))

lemma toInt_bitwise (f : Bool → Bool → Bool) {x y z : BitVec 64}
    (bits : ∀ i < 64, z.getLsbD i = f (x.getLsbD i) (y.getLsbD i)) :
    z.toInt = Int.bitwise f x.toInt y.toInt := by
  refine eq_of_testBit fun i => ?_
  rw [Int.testBit_bitwise, testBit_toInt, testBit_toInt, testBit_toInt]
  split
  · next inside => exact bits i inside
  · exact bits 63 (by decide)

end Arithmetic

inductive IntUnary where
  | neg
  | pos
  | abs
  | sign
  | complement
  | msb
  deriving DecidableEq, Repr

inductive IntBinary where
  | add
  | sub
  | mul
  | quotient
  | remainder
  | floorDiv
  | modulo
  | min
  | max
  | power
  | bitAnd
  | bitOr
  | bitXor
  deriving DecidableEq, Repr

inductive IntExpr where
  | literal (n : Int64)
  | unary (f : IntUnary) (e : IntExpr)
  | binary (f : IntBinary) (e e' : IntExpr)
  deriving DecidableEq, Repr

namespace IntUnary

def name : IntUnary → String
  | neg => "-"
  | pos => "+"
  | abs => "abs"
  | sign => "sign"
  | complement => "\\"
  | msb => "msb"

def function : IntUnary → UnaryFn
  | neg => .neg
  | pos => .pos
  | abs => .abs
  | sign => .sign
  | complement => .complement
  | msb => .msb

/-- The value over the unbounded integers. The highest bit of an integer that is not positive has
no place. -/
def value? : IntUnary → Int → Option Int
  | neg, a => some (-a)
  | pos, a => some a
  | abs, a => some a.natAbs
  | sign, a => some a.sign
  | complement, a => some a.lnot
  | msb, a => if 0 < a then some (Nat.log 2 a.toNat) else none

lemma apply_exact (f : IntUnary) (h : f.function.apply (.int x) = .ok n) :
    ∃ v : Int64, n = .int v ∧ f.value? x.toInt = some v.toInt := by
  cases f with
  | neg | abs | sign => exact exactly_ok h
  | pos =>
    cases h
    exact ⟨x, rfl, rfl⟩
  | complement =>
    cases h
    refine ⟨_, rfl, congrArg some (eq_of_testBit fun i => ?_)⟩
    rw [Int.testBit_lnot]
    change _ = (~~~x.toBitVec).toInt.testBit i
    change (!x.toBitVec.toInt.testBit i) = _
    rw [testBit_toInt, testBit_toInt]
    split <;> simp_all
  | msb =>
    simp only [function, UnaryFn.apply] at h
    split at h
    · next positive =>
      rw [value?, if_pos positive, ← Nat.log2_eq_log_two]
      exact exactly_ok h
    · cases h

lemma unary_name (f : IntUnary) (x : Number) : unary f.name x = f.function.apply x := by
  have named : UnaryFn.ofName? f.name = some f.function := by cases f <;> decide
  rw [unary, named]

end IntUnary

namespace IntBinary

def name : IntBinary → String
  | add => "+"
  | sub => "-"
  | mul => "*"
  | quotient => "//"
  | remainder => "rem"
  | floorDiv => "div"
  | modulo => "mod"
  | min => "min"
  | max => "max"
  | power => "^"
  | bitAnd => "/\\"
  | bitOr => "\\/"
  | bitXor => "xor"

def function : IntBinary → BinaryFn
  | add => .add
  | sub => .sub
  | mul => .mul
  | quotient => .quotient
  | remainder => .remainder
  | floorDiv => .floorDiv
  | modulo => .modulo
  | min => .min
  | max => .max
  | power => .power
  | bitAnd => .bitAnd
  | bitOr => .bitOr
  | bitXor => .bitXor

/-- The value over the unbounded integers, if there is one. Only of 1 and -1 are there negative
powers: the reciprocals of the positive ones. -/
def value? : IntBinary → Int → Int → Option Int
  | add, a, b => some (a + b)
  | sub, a, b => some (a - b)
  | mul, a, b => some (a * b)
  | quotient, a, b => if b = 0 then none else some (a.tdiv b)
  | remainder, a, b => if b = 0 then none else some (a.tmod b)
  | floorDiv, a, b => if b = 0 then none else some (a.fdiv b)
  | modulo, a, b => if b = 0 then none else some (a.fmod b)
  | min, a, b => some (Min.min a b)
  | max, a, b => some (Max.max a b)
  | power, a, b =>
    if 0 ≤ b then some (a ^ b.toNat)
    else if a = 1 ∨ a = -1 then some (1 / a ^ b.natAbs) else none
  | bitAnd, a, b => some (a.land b)
  | bitOr, a, b => some (a.lor b)
  | bitXor, a, b => some (Int.xor a b)

lemma divided_exact (h : BinaryFn.divided a b i = .ok n) :
    ∃ v : Int64, n = .int v ∧ (if b = 0 then none else some i) = some v.toInt := by
  unfold BinaryFn.divided at h
  split at h
  · cases h
  · next nonzero =>
    split at h
    · cases h
    · rw [if_neg nonzero]
      exact exactly_ok h

lemma neg_one_pow_eq (b : Nat) : (-1 : Int) ^ b = if b % 2 = 0 then 1 else -1 := by
  split
  · next even => exact (Nat.even_iff.2 even).neg_one_pow
  · next odd => exact (Nat.odd_iff.2 (by omega)).neg_one_pow

lemma intPower_exact {b : Nat} (h : BinaryFn.intPower a b = .ok n) :
    ∃ v : Int64, n = .int v ∧ some (a ^ b) = some v.toInt := by
  unfold BinaryFn.intPower at h
  split at h
  · cases h
  · split at h
    · next small =>
      suffices same : a ^ b = a ^ (if b = 0 then 0 else 2 - b % 2) by
        rw [same]
        exact exactly_ok h
      have unit : a = 0 ∨ a = 1 ∨ a = -1 := by omega
      rcases unit with rfl | rfl | rfl
      · split
        · next zero => rw [zero]
        · rw [zero_pow (by omega), zero_pow (by omega)]
      · rw [one_pow, one_pow]
      · rw [neg_one_pow_eq, neg_one_pow_eq]
        grind
    · split at h
      · cases h
      · exact exactly_ok h

lemma apply_exact (f : IntBinary) (h : f.function.apply (.int x) (.int y) = .ok n) :
    ∃ v : Int64, n = .int v ∧ f.value? x.toInt y.toInt = some v.toInt := by
  have bits {f : Bool → Bool → Bool} {z : Int64} (h : .ok (.int z) = (.ok n : Result _))
      (each : ∀ i < 64, z.toBitVec.getLsbD i = f (x.toBitVec.getLsbD i) (y.toBitVec.getLsbD i)) :
      ∃ v : Int64, n = .int v ∧ some (Int.bitwise f x.toInt y.toInt) = some v.toInt := by
    cases h
    exact ⟨z, rfl, congrArg some (toInt_bitwise f each).symm⟩
  cases f with
  | add | sub | mul => exact exactly_ok h
  | quotient | remainder | floorDiv | modulo => exact divided_exact h
  | min | max =>
    cases h
    refine ⟨_, rfl, congrArg some ?_⟩
    split <;> omega
  | power =>
    change (if 0 ≤ y.toInt then BinaryFn.intPower x.toInt y.toInt.toNat
      else if x.toInt = 1 || x.toInt = -1 then .ok (.int (if y.toInt % 2 = 0 then 1 else x))
      else .error (.type .float (toString x.toInt))) = .ok n at h
    rw [value?]
    split at h
    · next nonneg =>
      rw [if_pos nonneg]
      exact intPower_exact h
    · next negative =>
      split at h
      · next unit =>
        cases h
        refine ⟨_, rfl, ?_⟩
        have unit : x.toInt = 1 ∨ x.toInt = -1 := by simpa using unit
        rw [if_neg negative, if_pos unit]
        have parity : y.toInt.natAbs % 2 = 0 ↔ y.toInt % 2 = 0 := by omega
        rcases unit with one | minus
        · rw [one, one_pow]
          split <;> simp [one]
        · simp only [minus, neg_one_pow_eq, parity]
          split <;> simp [minus]
      · cases h
  | bitAnd =>
    rw [value?, ← Int.bitwise_and]
    exact bits h fun i _ => BitVec.getLsbD_and
  | bitOr =>
    rw [value?, ← Int.bitwise_or]
    exact bits h fun i _ => BitVec.getLsbD_or
  | bitXor =>
    rw [value?, ← Int.bitwise_xor]
    exact bits h fun i _ => BitVec.getLsbD_xor

lemma binary_name (f : IntBinary) (x y : Number) :
    binary f.name x y = f.function.apply x y := by
  have named : BinaryFn.ofName? f.name = some f.function := by cases f <;> decide
  rw [binary, named]

end IntBinary

namespace IntExpr

def toTerm : IntExpr → Term
  | literal n => .int n
  | unary f e => .compound f.name [e.toTerm]
  | binary f e e' => .compound f.name [e.toTerm, e'.toTerm]

def value? : IntExpr → Option Int
  | literal n => some n.toInt
  | unary f e => e.value? >>= f.value?
  | binary f e e' => e.value? >>= fun a => e'.value? >>= f.value? a

lemma evaluate_value (e : IntExpr) (h : evaluate e.toTerm = .ok n) :
    ∃ v : Int64, n = .int v ∧ e.value? = some v.toInt := by
  induction e generalizing n with
  | literal x => cases h; exact ⟨x, rfl, rfl⟩
  | unary f e ih =>
    change (Arithmetic.evaluate e.toTerm >>= Arithmetic.unary f.name) = .ok n at h
    cases inner : evaluate e.toTerm with
    | error err => rw [inner] at h; cases h
    | ok m =>
      obtain ⟨x, rfl, value⟩ := ih inner
      rw [inner] at h
      change Arithmetic.unary f.name (.int x) = .ok n at h
      rw [f.unary_name] at h
      obtain ⟨v, rfl, exact⟩ := f.apply_exact h
      exact ⟨v, rfl, by rw [value?, value]; exact exact⟩
  | binary f e e' ih ih' =>
    change (evaluate e.toTerm >>= fun x => evaluate e'.toTerm >>= fun y =>
      Arithmetic.binary f.name x y) = .ok n at h
    cases left : evaluate e.toTerm with
    | error err => rw [left] at h; cases h
    | ok m =>
      cases right : evaluate e'.toTerm with
      | error err => rw [left, right] at h; cases h
      | ok m' =>
        obtain ⟨x, rfl, value⟩ := ih left
        obtain ⟨y, rfl, value'⟩ := ih' right
        rw [left, right] at h
        change Arithmetic.binary f.name (.int x) (.int y) = .ok n at h
        rw [f.binary_name] at h
        obtain ⟨v, rfl, exact⟩ := f.apply_exact h
        exact ⟨v, rfl, by rw [value?, value, value']; exact exact⟩

end IntExpr

/-! Integer operations step by step, as a machine does them on words. A step that is not checked
must not wrap: where it would, there is no result at all. -/

def Arithmetic.unchecked (i : Int) : Option (Arithmetic.Result Number) :=
  (Number.int64? i).map fun n => .ok (.int n)

def Arithmetic.rem? (x y : Int64) : Option Int64 :=
  if y = 0 then none else (Number.int64? (x.toInt.tdiv y.toInt)).map fun _ => x % y

lemma Arithmetic.unchecked_of_fits (low : -2 ^ 63 ≤ i) (high : i < 2 ^ 63) :
    unchecked i = some (exactly i) := by
  rw [unchecked, exactly, int64?_of_fits low high]
  rfl

lemma Arithmetic.exactly_toInt (x : Int64) : exactly x.toInt = .ok (.int x) := by
  rw [exactly, int64?_of_fits x.le_toInt x.toInt_lt, ofInt_toInt]

namespace UnaryFn

open Arithmetic

def onWord (f : UnaryFn) (x : Int64) : Option (Result Number) :=
  match f with
  | sign => unchecked x.toInt.sign
  | msb =>
    if 0 < x then unchecked (63 - x.toBitVec.clz.toNat) else some (.error (notEvaluable "msb" 1))
  | f => some (f.apply (.int x))

lemma clz_eq_log2 (positive : 0 < x.toInt) :
    x.toInt.toNat.log2 < 63 ∧ (63 - x.toBitVec.clz.toNat : Int) = x.toInt.toNat.log2 := by
  have value : x.toInt = x.toBitVec.toNat :=
    BitVec.toInt_eq_toNat_of_lt (BitVec.toInt_pos_iff.1 (Int.le_of_lt positive))
  have bound := x.toInt_lt
  rw [value] at positive bound ⊢
  rw [Int.toNat_natCast]
  have nonzero : x.toBitVec ≠ 0#64 := fun zero => by simp [zero] at positive
  have low := BitVec.two_pow_sub_clz_le_toNat_of_ne_zero (by decide) nonzero
  have high := BitVec.toNat_lt_two_pow_sub_clz (x := x.toBitVec)
  have few : x.toBitVec.clz.toNat < 64 := by
    by_contra many
    rw [Nat.sub_eq_zero_of_le (Nat.le_of_not_lt many)] at high
    omega
  have log : x.toBitVec.toNat.log2 = 63 - x.toBitVec.clz.toNat := by
    rw [Nat.log2_eq_iff (by omega)]
    exact ⟨low, by rwa [show 63 - x.toBitVec.clz.toNat + 1 = 64 - x.toBitVec.clz.toNat by omega]⟩
  refine ⟨(Nat.log2_lt (by omega)).2 (by omega), by omega⟩

lemma onWord_eq (f : UnaryFn) (x : Int64) : f.onWord x = some (f.apply (.int x)) := by
  cases f with
  | sign =>
    refine unchecked_of_fits ?_ ?_
    all_goals
      rcases Int.lt_trichotomy x.toInt 0 with h | h | h
      · rw [Int.sign_eq_neg_one_of_neg h]; decide
      · rw [h]; decide
      · rw [Int.sign_eq_one_of_pos h]; decide
  | msb =>
    change (if 0 < x then _ else _) = some (if 0 < x.toInt then _ else _)
    simp only [lt_iff_toInt_lt, toInt_zero]
    split
    · next positive =>
      obtain ⟨small, log⟩ := clz_eq_log2 positive
      rw [log, unchecked_of_fits (by omega) (by omega)]
    · rfl
  | _ => rfl

end UnaryFn

namespace BinaryFn

open Arithmetic

def checkedDiv (x y : Int64) (next : Int64 → Option (Result Number)) : Option (Result Number) :=
  if y = 0 then some (.error zeroDivisor)
  else match Number.int64? (x.toInt.tdiv y.toInt) with
    | none => some (.error overflow)
    | some q => next q

def onWords (f : BinaryFn) (x y : Int64) : Option (Result Number) :=
  match f with
  | modulo => checkedDiv x y fun _ => do
    let m ← rem? x y
    if m ≠ 0 ∧ decide (m < 0) ≠ decide (y < 0) then unchecked (m.toInt + y.toInt)
    else some (.ok (.int m))
  | floorDiv => checkedDiv x y fun q => do
    let m ← rem? x y
    if m ≠ 0 ∧ decide (x < 0) ≠ decide (y < 0) then unchecked (q.toInt - 1)
    else some (.ok (.int q))
  | power =>
    if y < 0 ∧ (x = 1 ∨ x = -1) then do
      let m ← rem? y 2
      some (.ok (.int (if m = 0 then 1 else x)))
    else some (onInts power x y)
  | shiftRight =>
    let places := Max.max 0 (Min.min y.toInt 63)
    if 64 ≤ places then none else unchecked (x.toInt >>> places.toNat)
  | f => some (f.onInts x y)

lemma fmod_eq (a b : Int) : a.fmod b =
    if a.tmod b ≠ 0 ∧ decide (a.tmod b < 0) ≠ decide (b < 0) then a.tmod b + b else a.tmod b := by
  have up : 0 ≤ a → 0 ≤ a.tmod b := Int.tmod_nonneg b
  have down : 0 ≤ -a → 0 ≤ -a.tmod b := fun h => Int.neg_tmod a b ▸ Int.tmod_nonneg b h
  rw [Int.fmod_eq_tmod]
  simp only [Int.dvd_iff_tmod_eq_zero]
  grind

lemma fdiv_eq (nonzero : b ≠ 0) : a.fdiv b =
    if a.tmod b ≠ 0 ∧ decide (a < 0) ≠ decide (b < 0) then a.tdiv b - 1 else a.tdiv b := by
  rw [Int.fdiv_eq_tdiv]
  simp only [Int.dvd_iff_tmod_eq_zero]
  rcases Int.lt_or_gt_of_ne nonzero with neg | pos
  · rw [Int.sign_eq_neg_one_of_neg neg]
    grind
  · rw [Int.sign_eq_one_of_pos pos]
    grind

lemma tdiv_above (low : -2 ^ 63 ≤ a) (high : a < 2 ^ 63) (nonzero : b ≠ 0)
    (inexact : a.tmod b ≠ 0) : -2 ^ 63 < a.tdiv b := by
  have large : 2 ≤ b.natAbs := by
    by_contra small
    have unit : b = 1 ∨ b = -1 := by omega
    rcases unit with rfl | rfl
    · exact inexact (Int.tmod_one a)
    · exact inexact ((Int.tmod_neg a 1).trans (Int.tmod_one a))
  have quotient : (a.tdiv b).natAbs = a.natAbs / b.natAbs := Int.natAbs_tdiv a b
  have half : a.natAbs / b.natAbs ≤ a.natAbs / 2 := Nat.div_le_div_left large (by decide)
  omega

lemma checkedDiv_eq {next : Int64 → Option (Result Number)}
    (h : ∀ q, y ≠ 0 → int64? (x.toInt.tdiv y.toInt) = some q → next q = some (exactly i)) :
    checkedDiv x y next = some (divided x.toInt y.toInt i) := by
  have zero : y.toInt = 0 ↔ y = 0 := by rw [← toInt_inj, toInt_zero]
  simp only [checkedDiv, divided, zero]
  split
  · rfl
  · next nonzero =>
    cases fits : int64? (x.toInt.tdiv y.toInt) with
    | none => rfl
    | some q => exact h q nonzero fits

lemma rem?_eq (nonzero : y ≠ 0) {q : Int64} (fits : int64? (x.toInt.tdiv y.toInt) = some q) :
    rem? x y = some (x % y) := by
  rw [rem?, if_neg nonzero, fits]
  rfl

lemma eq_zero_iff (x : Int64) : x = 0 ↔ x.toInt = 0 := toInt_inj.symm

lemma neg_iff (x : Int64) : x < 0 ↔ x.toInt < 0 := lt_iff_toInt_lt

lemma onWords_eq (f : BinaryFn) (x y : Int64) : f.onWords x y = some (f.onInts x y) := by
  have lowX := x.le_toInt
  have highX := x.toInt_lt
  have lowY := y.le_toInt
  have highY := y.toInt_lt
  cases f with
  | modulo =>
    refine checkedDiv_eq fun q nonzero fits => ?_
    rw [rem?_eq nonzero fits, fmod_eq]
    have low := (x % y).le_toInt
    have high := (x % y).toInt_lt
    simp only [bind_eq_bind, bind_some, ne_eq, eq_zero_iff, neg_iff]
    rw [← toInt_mod]
    split
    · next signs =>
      refine unchecked_of_fits ?_ ?_
      all_goals
        have := signs.2
        simp only [decide_eq_decide] at this
        omega
    · rw [exactly_toInt]
  | floorDiv =>
    refine checkedDiv_eq fun q nonzero fits => ?_
    have nonzero' : y.toInt ≠ 0 := (eq_zero_iff y).not.1 nonzero
    rw [rem?_eq nonzero fits, fdiv_eq nonzero', ← toInt_of_int64? fits]
    simp only [bind_eq_bind, bind_some, ne_eq, eq_zero_iff, neg_iff, toInt_mod]
    split
    · next inexact =>
      have above := tdiv_above lowX highX nonzero' inexact.1
      rw [← toInt_of_int64? fits] at above
      have := q.toInt_lt
      exact unchecked_of_fits (by omega) (by omega)
    · rw [exactly_toInt]
  | power =>
    rw [onWords]
    split
    · next unit =>
      obtain ⟨negative, unit⟩ := unit
      have two : (2 : Int64).toInt = 2 := rfl
      have half : (y.toInt.tdiv 2).natAbs = y.toInt.natAbs / 2 := Int.natAbs_tdiv _ _
      have fits := int64?_of_fits (i := y.toInt.tdiv 2) (by omega) (by omega)
      have even : y % 2 = 0 ↔ y.toInt % 2 = 0 := by
        rw [eq_zero_iff, toInt_mod, two, ← Int.dvd_iff_tmod_eq_zero,
          Int.dvd_iff_emod_eq_zero]
      have unit' : (x.toInt = 1 || x.toInt = -1) = true := by
        rcases unit with rfl | rfl <;> rfl
      rw [rem?_eq (by decide) fits, onInts, if_neg (by have := (neg_iff y).1 negative; omega),
        if_pos unit']
      simp only [bind_eq_bind, bind_some, even]
    · rfl
  | shiftRight =>
    have places : (Max.max 0 (Min.min y.toInt 63)).toNat = Nat.min y.toInt.toNat 63 := by
      change _ = Min.min y.toInt.toNat 63
      omega
    rw [onWords, onInts, if_neg (by omega), places]
    have shifted := BitVec.toInt_sshiftRight (x := x.toBitVec) (n := Nat.min y.toInt.toNat 63)
    rw [toInt_toBitVec] at shifted
    rw [← shifted]
    exact unchecked_of_fits (BitVec.le_toInt _) BitVec.toInt_lt
  | _ => rfl

end BinaryFn

namespace Arithmetic

def unaryWords (name : String) : Number → Option (Result Number)
  | .int x =>
    match UnaryFn.ofName? name with
    | some f => f.onWord x
    | none => some (.error (notEvaluable name 1))
  | x => some (unary name x)

def binaryWords (name : String) : Number → Number → Option (Result Number)
  | .int x, .int y =>
    match BinaryFn.ofName? name with
    | some f => f.onWords x y
    | none => some (.error (notEvaluable name 2))
  | x, y => some (binary name x y)

/-- The value of an expression, all integer operations done in steps on words. -/
def evaluateWords : Term → ExceptT ExecutionError Option Number
  | .cell h t => if t.isNil then evaluateWords h else ExceptT.mk (some (evaluate (.cell h t)))
  | .compound f args =>
    match args with
    | [a] => do unaryWords f (← evaluateWords a)
    | [a, b] => do
      let x ← evaluateWords a
      let y ← evaluateWords b
      binaryWords f x y
    | args => ExceptT.mk (some (evaluate (.compound f args)))
  | t => ExceptT.mk (some (evaluate t))

lemma unaryWords_eq (name : String) (x : Number) : unaryWords name x = some (unary name x) := by
  cases x with
  | float x => rfl
  | int x =>
    rw [unaryWords, unary]
    cases UnaryFn.ofName? name with
    | none => rfl
    | some f => exact f.onWord_eq x

lemma binaryWords_eq (name : String) (x y : Number) :
    binaryWords name x y = some (binary name x y) := by
  cases x with
  | float x => rfl
  | int x =>
    cases y with
    | float y => rfl
    | int y =>
      rw [binaryWords, binary]
      cases BinaryFn.ofName? name with
      | none => rfl
      | some f => exact f.onWords_eq x y

lemma evaluateWords_eq (t : Term) : evaluateWords t = some (evaluate t) := by
  induction t using Term.induct with
  | atom | number | var => rfl
  | cell h t ih _ =>
    rw [evaluateWords]
    split
    · next nil => rw [ih, evaluate, if_pos nil]
    · rfl
  | compound f args ih =>
    match args with
    | [] | _ :: _ :: _ :: _ => rfl
    | [a] =>
      change ExceptT.bind (evaluateWords a) (unaryWords f) = some (evaluate a >>= unary f)
      rw [ih a mem_cons_self]
      cases evaluate a with
      | error e => rfl
      | ok x => exact unaryWords_eq f x
    | [a, b] =>
      change ExceptT.bind (evaluateWords a) (fun x => ExceptT.bind (evaluateWords b) (binaryWords f x))
        = some (evaluate a >>= fun x => evaluate b >>= binary f x)
      rw [ih a mem_cons_self, ih b (mem_cons_of_mem _ mem_cons_self)]
      cases evaluate a with
      | error e => rfl
      | ok x =>
        cases evaluate b with
        | error e => rfl
        | ok y => exact binaryWords_eq f x y

/-- An integer that an expression of integers evaluates to is its value over the unbounded integers.
In no evaluation at all does a step that is not checked wrap. -/
theorem evaluate_exact (e : IntExpr) :
    (∀ v, evaluate e.toTerm = .ok (.int v) → e.value? = some v.toInt) ∧
      ∀ t, evaluateWords t = some (evaluate t) := by
  refine ⟨fun v h => ?_, evaluateWords_eq⟩
  obtain ⟨w, same, value⟩ := e.evaluate_value h
  cases same
  exact value

/-- Floors of negative quotients, at the lowest word too, and their bits. -/
theorem evaluate_exact_floors :
    let e : IntExpr := .binary .bitXor (.binary .floorDiv (.literal (-7)) (.literal 2))
      (.binary .modulo (.literal Int64.minValue) (.literal 3))
    evaluate e.toTerm = .ok (.int (-3)) ∧ e.value? = some (-3) := by
  have evaluated : evaluate (IntExpr.binary .bitXor
      (.binary .floorDiv (.literal (-7)) (.literal 2))
      (.binary .modulo (.literal minValue) (.literal 3))).toTerm = .ok (.int (-3)) := by
    decide +kernel
  exact ⟨evaluated, (evaluate_exact _).1 _ evaluated⟩

lemma exactly_eq_iff : exactly i = .ok (.int x) ↔ i = x.toInt := by
  constructor
  · intro h
    obtain ⟨v, same, value⟩ := exactly_ok h
    cases same
    exact some.inj value
  · rintro rfl
    exact exactly_toInt x

/-- What is left of a product with a power of two in a word has the factor still, so dividing it
gives the other factor only where nothing is lost. -/
lemma bmod_div_pow_iff (a : Int) {n : Nat} (small : n ≤ 64) :
    (a * 2 ^ n).bmod (2 ^ 64) / 2 ^ n = a ↔ (a * 2 ^ n).bmod (2 ^ 64) = a * 2 ^ n := by
  have positive : (0 : Int) < 2 ^ n := Int.pow_pos (by decide)
  have factor : (2 : Int) ^ n ∣ (a * 2 ^ n).bmod (2 ^ 64) := by
    have whole : (2 : Int) ^ n ∣ ((2 ^ 64 : Nat) : Int) := by
      exact_mod_cast Nat.pow_dvd_pow 2 small
    rw [Int.bmod_eq_self_sub_mul_bdiv]
    exact Int.dvd_sub (Int.dvd_mul_left _ _) (Int.dvd_mul_of_dvd_left whole)
  rw [Int.ediv_eq_iff_eq_mul_left (Int.ne_of_gt positive) factor]

def scaled (x y : Int64) : Int := x.toInt * 2 ^ y.toInt.toNat

/-- A left shift by fewer places than a word has never fails, and is exact only where the product
fits; shifting back tells the two apart. By other counts there is no left shift. -/
theorem evaluate_shiftLeft (x y : Int64) :
    if 0 ≤ y.toInt ∧ y.toInt < 64 then
      ∃ v : Int64, evaluate (.compound "<<" [.int x, .int y]) = .ok (.int v) ∧
        v.toInt = (scaled x y).bmod (2 ^ 64) ∧
        (v.toInt = scaled x y ↔ -2 ^ 63 ≤ scaled x y ∧ scaled x y < 2 ^ 63) ∧
        (evaluate (.compound ">>" [.int v, .int y]) = .ok (.int x) ↔ v.toInt = scaled x y)
    else evaluate (.compound "<<" [.int x, .int y]) = .error overflow := by
  have left : evaluate (.compound "<<" [.int x, .int y]) =
      if 0 ≤ y.toInt && y.toInt < 64 then .ok (.int (ofInt (scaled x y)))
      else .error overflow := rfl
  split
  · next range =>
    have value : (ofInt (scaled x y)).toInt = (scaled x y).bmod (2 ^ 64) :=
      toInt_ofInt
    refine ⟨ofInt (scaled x y), by rw [left, if_pos (by simpa using range)], value, ?_, ?_⟩
    · constructor
      · intro same
        rw [← same]
        exact ⟨le_toInt _, toInt_lt _⟩
      · rintro ⟨low, high⟩
        exact toInt_ofInt_of_le low high
    · have right : evaluate (.compound ">>" [.int (ofInt (scaled x y)), .int y]) =
          exactly ((ofInt (scaled x y)).toInt >>> Nat.min y.toInt.toNat 63) := rfl
      have places : Nat.min y.toInt.toNat 63 = y.toInt.toNat := Nat.min_eq_left (by omega)
      rw [right, exactly_eq_iff, places, Int.shiftRight_eq_div_pow, value]
      exact_mod_cast bmod_div_pow_iff x.toInt (n := y.toInt.toNat) (by omega)
  · next outside => rw [left, if_neg (by simpa using outside)]

theorem shiftLeft_loses_bit :
    evaluate (.compound "<<" [.int 1, .int 63]) = .ok (.int Int64.minValue) ∧
      Int64.minValue.toInt ≠ 1 * 2 ^ 63 ∧
      evaluate (.compound ">>" [.int Int64.minValue, .int 63]) = .ok (.int (-1)) := by
  decide +kernel

end Arithmetic

end Horn
