/-! Byte orders, and natural numbers as fixed-width runs of bytes.
`join` undoes `split` on every number that fits the width. -/

namespace ArrayStore

inductive ByteOrder where
  | big | little
  deriving DecidableEq, Repr, Inhabited

namespace ByteOrder

def native : ByteOrder := .little

def name : ByteOrder → String
  | big => "Big"
  | little => "Little"

def lowBytes : Nat → Nat → List UInt8
  | 0, _ => []
  | width + 1, n => UInt8.ofNat n :: lowBytes width (n / 256)

def ofLowBytes : List UInt8 → Nat
  | [] => 0
  | b :: bytes => b.toNat + 256 * ofLowBytes bytes

/-- How many numbers fit `width` bytes. -/
def span : Nat → Nat
  | 0 => 1
  | width + 1 => 256 * span width

@[simp] theorem length_lowBytes (width n : Nat) : (lowBytes width n).length = width := by
  induction width generalizing n with
  | zero => rfl
  | succ width ih => simp [lowBytes, ih]

theorem ofLowBytes_lowBytes (width n : Nat) (h : n < span width) :
    ofLowBytes (lowBytes width n) = n := by
  induction width generalizing n with
  | zero =>
    simp only [span] at h
    simp only [lowBytes, ofLowBytes]
    omega
  | succ width ih =>
    have hn : n / 256 < span width := Nat.div_lt_of_lt_mul h
    simp only [lowBytes, ofLowBytes, ih _ hn, UInt8.toNat_ofNat']
    omega

theorem ofLowBytes_lt (bytes : List UInt8) : ofLowBytes bytes < span bytes.length := by
  induction bytes with
  | nil => exact Nat.zero_lt_one
  | cons b bytes ih =>
    have hb := b.toNat_lt
    simp only [ofLowBytes, List.length_cons, span]
    omega

def split (order : ByteOrder) (width n : Nat) : List UInt8 :=
  match order with
  | big => (lowBytes width n).reverse
  | little => lowBytes width n

def join (order : ByteOrder) (bytes : List UInt8) : Nat :=
  match order with
  | big => ofLowBytes bytes.reverse
  | little => ofLowBytes bytes

theorem join_single (order : ByteOrder) (b : UInt8) : order.join [b] = b.toNat := by
  cases order <;> simp [join, ofLowBytes]

@[simp] theorem length_split (order : ByteOrder) (width n : Nat) :
    (order.split width n).length = width := by
  cases order <;> simp [split]

theorem join_split (order : ByteOrder) (width n : Nat) (h : n < span width) :
    order.join (order.split width n) = n := by
  cases order <;> simp [split, join, ofLowBytes_lowBytes width n h]

theorem join_lt (order : ByteOrder) (bytes : List UInt8) :
    order.join bytes < span bytes.length := by
  cases order
  · simpa [join] using ofLowBytes_lt bytes.reverse
  · exact ofLowBytes_lt bytes

end ByteOrder

end ArrayStore
