import ArrayStore.Decimal.Binary

/-! Decimals with a fixed number of places.
The exact value of a binary pattern is rounded once, and a tie goes to the even
neighbour. -/

namespace ArrayStore.Decimal

/-- The quotient rounded to the nearest natural number, ties to even. -/
def roundQuotient (num den : Nat) : Nat :=
  let q := num / den
  let r := num % den
  if 2 * r < den then q
  else if den < 2 * r then q + 1
  else if q % 2 = 0 then q else q + 1

def hundredths (n : Nat) : String :=
  let cents := toString (n % 100)
  toString (n / 100) ++ "." ++ (if n % 100 < 10 then "0" ++ cents else cents)

def Format.twoPlaces (f : Format) (bits : Nat) : String :=
  match f.read bits with
  | .nan => "NaN"
  | .infinite negative => if negative then "-inf" else "inf"
  | .zero negative => (if negative then "-" else "") ++ hundredths 0
  | .finite negative significand power _ =>
    (if negative then "-" else "") ++
      hundredths (roundQuotient ((significand * 100) <<< power.toNat) (1 <<< (-power).toNat))

example : Format.double.twoPlaces 0x3fc0000000000000 = "0.12" := by decide +kernel

end ArrayStore.Decimal
