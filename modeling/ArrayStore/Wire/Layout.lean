import ArrayStore.Scalar.Wire
import ArrayStore.Text.Utf8

/-! The layout of arrays on the wire.
An array is its size followed by its elements; a string is its size in bytes
followed by its UTF-8 bytes. A size below 254 is one byte, any other an escape
byte and a 32-bit count in the order of the stream. The layout is spelled out
byte by byte: writers and readers go by the three constants below and by the
codec of elements, and the layout by neither. -/

namespace ArrayStore.Wire

def sizeEscape : UInt8 := 0xFE

/-- The null size, which reads as zero. -/
def nullSize : UInt8 := 0xFF

/-- The sizes from here on, `2 ^ 31`, do not fit the encoding. -/
def sizeBound : Nat := 0x80000000

/-- The bytes of a number, the most significant first on a big-endian wire. -/
def digits (order : ByteOrder) (width n : Nat) : List UInt8 :=
  let low := (List.range width).map fun i => UInt8.ofNat (n >>> (8 * i))
  match order with
  | .big => low.reverse
  | .little => low

def encodeSize (order : ByteOrder) (size : Nat) : List UInt8 :=
  if size < 254 then [UInt8.ofNat size] else 0xFE :: digits order 4 size

def encodeText (order : ByteOrder) (text : String) : List UInt8 :=
  let bytes := Utf8.encode text
  encodeSize order bytes.length ++ bytes

def encodeElement (order : ByteOrder) : Scalar → List UInt8
  | .boolean value => [if value then 1 else 0]
  | .byte value => [value.toUInt8]
  | .ubyte value => [value]
  | .short value => digits order 2 value.toUInt16.toNat
  | .ushort value => digits order 2 value.toNat
  | .int value => digits order 4 value.toUInt32.toNat
  | .uint value => digits order 4 value.toNat
  | .long value => digits order 8 value.toUInt64.toNat
  | .ulong value => digits order 8 value.toNat
  | .float bits => digits order 4 bits.toNat
  | .double bits => digits order 8 bits.toNat
  | .text text => encodeText order text

def encodeArray (order : ByteOrder) (values : List Scalar) : List UInt8 :=
  encodeSize order values.length ++ values.flatMap (encodeElement order)

theorem split_eq_digits (order : ByteOrder) (width n : Nat) :
    order.split width n = digits order width n := by
  have low : ByteOrder.lowBytes width n =
      (List.range width).map fun i => UInt8.ofNat (n >>> (8 * i)) := by
    induction width generalizing n with
    | zero => rfl
    | succ width ih =>
      rw [ByteOrder.lowBytes, ih, List.range_succ_eq_map, List.map_cons, List.map_map]
      refine congrArg _ (List.map_congr_left fun i _ => ?_)
      have next : 8 * i.succ = 8 + 8 * i := by omega
      simp only [Function.comp_apply, next, Nat.shiftRight_add, Nat.shiftRight_eq_div_pow n 8]
  cases order <;> simp only [ByteOrder.split, digits, low]

theorem length_encodeSize (order : ByteOrder) (size : Nat) :
    (encodeSize order size).length = if size < 254 then 1 else 5 := by
  unfold encodeSize
  rw [← split_eq_digits]
  split <;> simp

theorem encodeSize_short (order : ByteOrder) {size : Nat} (short : size < sizeEscape.toNat) :
    encodeSize order size = [UInt8.ofNat size] := if_pos short

theorem encodeSize_long (order : ByteOrder) {size : Nat} (long : ¬size < sizeEscape.toNat) :
    encodeSize order size = sizeEscape :: order.split 4 size := by
  rw [split_eq_digits]
  exact if_neg long

theorem encodeElement_fixed (order : ByteOrder) {v : Scalar} (fixed : v.kind ≠ .text) :
    encodeElement order v = v.encode order := by
  cases v with
  | text text => exact absurd rfl fixed
  | boolean value => cases value <;> cases order <;> rfl
  | byte value => exact (Scalar.encode_ubyte order value.toUInt8).symm
  | ubyte value => exact (Scalar.encode_ubyte order value).symm
  | _ => exact (split_eq_digits order _ _).symm

end ArrayStore.Wire
