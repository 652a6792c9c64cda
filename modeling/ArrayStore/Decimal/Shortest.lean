import ArrayStore.Decimal.Binary

/-! The shortest decimal that reads back as a given binary number.
All reals between the two midpoints around `significand * 2 ^ power` read back
as it, and the midpoints themselves do when the significand is even. Decimal
grids of one digit, two digits and so on are tried in turn; on each grid only
the two neighbours of the number matter. The first grid with a hit decides, of
two hits the nearer one is taken and the larger one on a tie. -/

namespace ArrayStore.Decimal

def tens : Nat → Nat
  | 0 => 1
  | n + 1 => 10 * tens n

structure Ratio where
  num : Nat
  den : Nat
  deriving Repr

namespace Ratio

def scaled (n : Nat) (power : Int) : Ratio :=
  ⟨n <<< power.toNat, 1 <<< (-power).toNat⟩

def compareTo (r : Ratio) (n : Nat) (exponent : Int) : Ordering :=
  compare (r.num * tens (-exponent).toNat) (n * tens exponent.toNat * r.den)

/-- The greatest `n` with `n * 10 ^ exponent` at most the number. -/
def floorAt (r : Ratio) (exponent : Int) : Nat :=
  r.num * tens (-exponent).toNat / (r.den * tens exponent.toNat)

/-- Where the decimal point stands: the number lies in `[10 ^ (k - 1), 10 ^ k)`. -/
def point (r : Ratio) : Int :=
  if r.den ≤ r.num then
    (Nat.toDigits 10 (r.num / r.den)).length
  else
    let d := (Nat.toDigits 10 (r.den / r.num)).length
    if r.den ≤ r.num * tens (d - 1) then 2 - (d : Int) else 1 - (d : Int)

end Ratio

structure Numeral where
  digits : Nat
  exponent : Int
  deriving DecidableEq, Repr

/-- The reals that read back as one binary number. -/
structure Interval where
  low : Ratio
  mid : Ratio
  high : Ratio
  /-- Whether the two ends belong to it. -/
  closed : Bool

namespace Interval

def around (significand : Nat) (power : Int) (narrow : Bool) : Interval where
  low := .scaled (4 * significand - if narrow then 1 else 2) (power - 2)
  mid := .scaled (4 * significand) (power - 2)
  high := .scaled (4 * significand + 2) (power - 2)
  closed := significand % 2 == 0

def contains (i : Interval) (digits : Nat) (exponent : Int) : Bool :=
  let low := i.low.compareTo digits exponent
  let high := i.high.compareTo digits exponent
  (low == .lt || (i.closed && low == .eq)) && (high == .gt || (i.closed && high == .eq))

/-- The better of the two neighbours on the grid of multiples of `10 ^ exponent`. -/
def hit? (i : Interval) (exponent : Int) : Option Numeral :=
  let below := i.mid.floorAt exponent
  let above := below + 1
  match i.contains below exponent, i.contains above exponent with
  | false, false => none
  | true, false => some ⟨below, exponent⟩
  | false, true => some ⟨above, exponent⟩
  | true, true =>
    -- the midpoint of the two neighbours is `(2 * below + 1) / 2`
    let twice : Ratio := ⟨2 * i.mid.num, i.mid.den⟩
    if twice.compareTo (2 * below + 1) exponent == .lt then some ⟨below, exponent⟩
    else some ⟨above, exponent⟩

end Interval

/-- Tries grids of ever more digits, `tries` of them at most. -/
def search (i : Interval) (exponent : Int) : Nat → Numeral
  | 0 => ⟨i.mid.floorAt exponent, exponent⟩
  | tries + 1 =>
    match i.hit? exponent with
    | some d => d
    | none => search i (exponent - 1) tries

/-- No binary number of 53 bits needs more than 17 digits. -/
def shortest (significand : Nat) (power : Int) (narrow : Bool) : Numeral :=
  let i := Interval.around significand power narrow
  search i (i.mid.point - 1) 17

namespace Numeral

def trim : Nat → Numeral → Numeral
  | 0, d => d
  | n + 1, d => if d.digits % 10 = 0 then trim n ⟨d.digits / 10, d.exponent + 1⟩ else d

def positional (digits : List Char) (point : Int) : String :=
  let n : Int := digits.length
  if point ≤ 0 then
    "0." ++ String.ofList (List.replicate (-point).toNat '0' ++ digits)
  else if n ≤ point then
    String.ofList (digits ++ List.replicate (point - n).toNat '0') ++ ".0"
  else
    String.ofList (digits.take point.toNat) ++ "." ++ String.ofList (digits.drop point.toNat)

def exponential (digits : List Char) (point : Int) : String :=
  let fraction := digits.drop 1
  String.ofList (digits.take 1) ++ (if fraction.isEmpty then "" else "." ++ String.ofList fraction)
    ++ "e" ++ toString (point - 1)

/-- Plain notation from `0.0001` up to below `10 ^ 16`, else a power of ten. -/
def text (d : Numeral) : String :=
  let d := d.trim 20
  let digits := Nat.toDigits 10 d.digits
  let point : Int := digits.length + d.exponent
  if -3 ≤ point ∧ point ≤ 16 then positional digits point else exponential digits point

end Numeral

/-- The text of a binary pattern: the fewest digits that read back. -/
def Format.text (f : Format) (bits : Nat) : String :=
  let signed (negative : Bool) (s : String) := if negative then "-" ++ s else s
  match f.read bits with
  | .nan => "NaN"
  | .infinite negative => signed negative "inf"
  | .zero negative => signed negative "0.0"
  | .finite negative significand power narrow =>
    signed negative (shortest significand power narrow).text

example : Format.single.text 0x3dcccccd = "0.1" := by decide +kernel

end ArrayStore.Decimal
