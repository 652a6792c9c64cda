import ArrayStore.Kind
import ArrayStore.Decimal.Shortest
import ArrayStore.Text.Quoted

/-! Elements of arrays.
Floating-point elements are held as their bit patterns, so that every NaN stays
what it is; they compare as numbers. -/

namespace ArrayStore

inductive Scalar where
  | boolean (value : Bool)
  | byte (value : Int8)
  | short (value : Int16)
  | int (value : Int32)
  | long (value : Int64)
  | ubyte (value : UInt8)
  | ushort (value : UInt16)
  | uint (value : UInt32)
  | ulong (value : UInt64)
  | float (bits : UInt32)
  | double (bits : UInt64)
  | text (value : String)
  deriving DecidableEq, Repr

namespace Scalar

def kind : Scalar → Kind
  | boolean _ => .boolean
  | byte _ => .byte
  | short _ => .short
  | int _ => .int
  | long _ => .long
  | ubyte _ => .ubyte
  | ushort _ => .ushort
  | uint _ => .uint
  | ulong _ => .ulong
  | float _ => .float
  | double _ => .double
  | text _ => .text

/-- Equality of elements, numeric for the floating-point kinds. -/
def same : Scalar → Scalar → Bool
  | float a, float b => Decimal.Format.single.equal a.toNat b.toNat
  | double a, double b => Decimal.Format.double.equal a.toNat b.toNat
  | a, b => a == b

def sameAll : List Scalar → List Scalar → Bool
  | [], [] => true
  | a :: as, b :: bs => a.same b && sameAll as bs
  | _, _ => false

def print : Scalar → String
  | boolean value => if value then "true" else "false"
  | byte value => toString value.toInt
  | short value => toString value.toInt
  | int value => toString value.toInt
  | long value => toString value.toInt
  | ubyte value => toString value.toNat
  | ushort value => toString value.toNat
  | uint value => toString value.toNat
  | ulong value => toString value.toNat
  | float bits => Decimal.Format.single.text bits.toNat
  | double bits => Decimal.Format.double.text bits.toNat
  | text value => Text.quoted value

def printAll (values : List Scalar) : String :=
  "[" ++ ", ".intercalate (values.map Scalar.print) ++ "]"

end Scalar

/-- The element with which an array is padded. -/
def Kind.blank : Kind → Scalar
  | .boolean => .boolean false
  | .byte => .byte 0
  | .short => .short 0
  | .int => .int 0
  | .long => .long 0
  | .ubyte => .ubyte 0
  | .ushort => .ushort 0
  | .uint => .uint 0
  | .ulong => .ulong 0
  | .float => .float 0
  | .double => .double 0
  | .text => .text ""

@[simp] theorem Kind.kind_blank (k : Kind) : k.blank.kind = k := by cases k <;> rfl

end ArrayStore
