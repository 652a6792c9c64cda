/-! Binary floating-point patterns as exact numbers.
A pattern splits into a sign, an exponent field and a fraction field; a finite
one stands for `significand * 2 ^ power`. -/

namespace ArrayStore.Decimal

structure Format where
  fractionBits : Nat
  exponentBits : Nat
  deriving DecidableEq, Repr

namespace Format

def single : Format := ⟨23, 8⟩

def double : Format := ⟨52, 11⟩

def topExponent (f : Format) : Nat := (1 <<< f.exponentBits) - 1

def exponentField (f : Format) (bits : Nat) : Nat :=
  (bits >>> f.fractionBits) % (1 <<< f.exponentBits)

def fractionField (f : Format) (bits : Nat) : Nat := bits % (1 <<< f.fractionBits)

def isNegative (f : Format) (bits : Nat) : Bool :=
  (bits >>> (f.fractionBits + f.exponentBits)) % 2 == 1

def isNaN (f : Format) (bits : Nat) : Bool :=
  f.exponentField bits == f.topExponent && f.fractionField bits != 0

def isZero (f : Format) (bits : Nat) : Bool :=
  f.exponentField bits == 0 && f.fractionField bits == 0

/-- Numeric equality of two patterns: a NaN equals nothing and the two zeros are equal. -/
def equal (f : Format) (a b : Nat) : Bool :=
  !f.isNaN a && !f.isNaN b && (a == b || (f.isZero a && f.isZero b))

end Format

inductive Reading where
  | nan
  | infinite (negative : Bool)
  | zero (negative : Bool)
  /-- The number `significand * 2 ^ power`. The flag `narrow` says that the gap
  to the next lower number is half of the gap to the next higher one. -/
  | finite (negative : Bool) (significand : Nat) (power : Int) (narrow : Bool)
  deriving DecidableEq, Repr

def Format.read (f : Format) (bits : Nat) : Reading :=
  let sign := f.isNegative bits
  let exponent := f.exponentField bits
  let fraction := f.fractionField bits
  let bias : Nat := (1 <<< (f.exponentBits - 1)) - 1 + f.fractionBits
  if exponent = f.topExponent then
    if fraction = 0 then .infinite sign else .nan
  else if exponent = 0 then
    if fraction = 0 then .zero sign else .finite sign fraction (1 - bias) false
  else
    let significand := (1 <<< f.fractionBits) + fraction
    .finite sign significand (exponent - bias) (fraction = 0 && 1 < exponent)

example : Format.single.equal 0 0x80000000 = true := by decide

end ArrayStore.Decimal
