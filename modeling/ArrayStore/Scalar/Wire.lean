import ArrayStore.ByteOrder
import ArrayStore.Scalar.Basic

/-! Fixed-width elements as bytes.
An element is a bit pattern of its kind's width, written in the order of the
stream. Reading back what was written gives the same element; for booleans
every non-zero byte reads as true. -/

namespace ArrayStore

def Scalar.pattern : Scalar → Nat
  | .boolean value => value.toNat
  | .byte value => value.toUInt8.toNat
  | .short value => value.toUInt16.toNat
  | .int value => value.toUInt32.toNat
  | .long value => value.toUInt64.toNat
  | .ubyte value => value.toNat
  | .ushort value => value.toNat
  | .uint value => value.toNat
  | .ulong value => value.toNat
  | .float bits => bits.toNat
  | .double bits => bits.toNat
  | .text _ => 0

def Kind.ofPattern : Kind → Nat → Scalar
  | .boolean, n => .boolean (n != 0)
  | .byte, n => .byte (UInt8.ofNat n).toInt8
  | .short, n => .short (UInt16.ofNat n).toInt16
  | .int, n => .int (UInt32.ofNat n).toInt32
  | .long, n => .long (UInt64.ofNat n).toInt64
  | .ubyte, n => .ubyte (UInt8.ofNat n)
  | .ushort, n => .ushort (UInt16.ofNat n)
  | .uint, n => .uint (UInt32.ofNat n)
  | .ulong, n => .ulong (UInt64.ofNat n)
  | .float, n => .float (UInt32.ofNat n)
  | .double, n => .double (UInt64.ofNat n)
  | .text, _ => .text ""

@[simp] theorem Kind.kind_ofPattern (k : Kind) (n : Nat) : (k.ofPattern n).kind = k := by
  cases k <;> rfl

theorem Scalar.ofPattern_pattern (s : Scalar) (h : s.kind ≠ .text) :
    s.kind.ofPattern s.pattern = s := by
  cases s with
  | boolean value => cases value <;> rfl
  | text value => exact absurd rfl h
  | _ => simp [Scalar.kind, Scalar.pattern, Kind.ofPattern]

theorem Scalar.pattern_lt (s : Scalar) (h : s.kind ≠ .text) :
    s.pattern < ByteOrder.span s.kind.width := by
  cases s with
  | boolean value => cases value <;> decide
  | text value => exact absurd rfl h
  | byte value => exact value.toUInt8.toNat_lt
  | short value => exact value.toUInt16.toNat_lt
  | int value => exact value.toUInt32.toNat_lt
  | long value => exact value.toUInt64.toNat_lt
  | ubyte value => exact value.toNat_lt
  | ushort value => exact value.toNat_lt
  | uint value => exact value.toNat_lt
  | ulong value => exact value.toNat_lt
  | float bits => exact bits.toNat_lt
  | double bits => exact bits.toNat_lt

def Scalar.encode (order : ByteOrder) (s : Scalar) : List UInt8 :=
  order.split s.kind.width s.pattern

def Kind.decode (k : Kind) (order : ByteOrder) (bytes : List UInt8) : Scalar :=
  k.ofPattern (order.join bytes)

@[simp] theorem Scalar.length_encode (order : ByteOrder) (s : Scalar) :
    (s.encode order).length = s.kind.width := by
  simp [Scalar.encode]

theorem Scalar.encode_ubyte (order : ByteOrder) (x : UInt8) :
    (Scalar.ubyte x).encode order = [x] := by
  cases order <;>
    simp [Scalar.encode, Scalar.kind, Scalar.pattern, Kind.width, Kind.width?, ByteOrder.split,
      ByteOrder.lowBytes]

theorem Scalar.decode_encode (order : ByteOrder) (s : Scalar) (h : s.kind ≠ .text) :
    s.kind.decode order (s.encode order) = s := by
  rw [Kind.decode, Scalar.encode, ByteOrder.join_split _ _ _ (s.pattern_lt h),
    s.ofPattern_pattern h]

def Scalar.encodeAll (order : ByteOrder) (values : List Scalar) : List UInt8 :=
  values.flatMap (Scalar.encode order)

/-- The first `count` elements that a run of bytes spells. -/
def Kind.decodeAll (k : Kind) (order : ByteOrder) (count : Nat) (bytes : List UInt8) :
    List Scalar :=
  let data := bytes.toArray
  (List.range count).map fun i =>
    k.decode order (data.extract (i * k.width) ((i + 1) * k.width)).toList

@[simp] theorem Kind.length_decodeAll (k : Kind) (order : ByteOrder) (count : Nat)
    (bytes : List UInt8) : (k.decodeAll order count bytes).length = count := by
  simp [Kind.decodeAll]

theorem Kind.decodeAll_succ (k : Kind) (order : ByteOrder) (count : Nat) (bytes : List UInt8) :
    k.decodeAll order (count + 1) bytes =
      k.decode order (bytes.take k.width) :: k.decodeAll order count (bytes.drop k.width) := by
  simp only [Kind.decodeAll, List.range_succ_eq_map, List.map_cons, List.map_map,
    Array.toList_extract, List.extract_eq_take_drop, List.drop_drop]
  congr 1
  · simp
  · apply List.map_congr_left
    intro i _
    simp only [Function.comp_apply, Nat.succ_eq_add_one, Nat.succ_mul, Nat.add_comm k.width,
      Nat.add_sub_cancel_left]

def ByteOrder.reverses (order : ByteOrder) (k : Kind) : Bool :=
  1 < k.width && order != .native

def Scalar.rawBytes (values : List Scalar) : List UInt8 := Scalar.encodeAll .native values

/-- Elements from the bytes that lie in memory; none where some patterns are no element. -/
def Kind.ofRawBytes? (k : Kind) (count : Nat) (bytes : List UInt8) : Option (List Scalar) :=
  if k.anyPattern then some (k.decodeAll .native count bytes) else none

end ArrayStore
