/-! The twelve kinds of element an array can hold.
A kind fixes how many bytes an element takes on the wire and how many it
takes in a block. Text has no wire width: its length travels with it. -/

namespace ArrayStore

inductive Kind where
  | boolean | byte | short | int | long
  | ubyte | ushort | uint | ulong
  | float | double | text
  deriving DecidableEq, Repr, Inhabited

namespace Kind

def all : List Kind :=
  [boolean, byte, short, int, long, ubyte, ushort, uint, ulong, float, double, text]

theorem mem_all (k : Kind) : k ∈ all := by cases k <;> decide

def name : Kind → String
  | boolean => "boolean"
  | byte => "byte"
  | short => "short"
  | int => "int"
  | long => "long"
  | ubyte => "ubyte"
  | ushort => "ushort"
  | uint => "uint"
  | ulong => "ulong"
  | float => "float"
  | double => "double"
  | text => "string"

/-- The name in the text of a value. -/
def title : Kind → String
  | boolean => "Boolean"
  | byte => "Byte"
  | short => "Short"
  | int => "Int"
  | long => "Long"
  | ubyte => "UByte"
  | ushort => "UShort"
  | uint => "UInt"
  | ulong => "ULong"
  | float => "Float"
  | double => "Double"
  | text => "String"

def ofName? (name : String) : Option Kind :=
  all.find? fun kind => kind.name == name

theorem ofName?_name (k : Kind) : ofName? k.name = some k := by cases k <;> decide

def isUnsigned : Kind → Bool
  | ubyte | ushort | uint | ulong => true
  | _ => false

def isInteger : Kind → Bool
  | byte | short | int | long => true
  | k => k.isUnsigned

def isNumeric : Kind → Bool
  | float | double => true
  | k => k.isInteger

def width? : Kind → Option Nat
  | boolean | byte | ubyte => some 1
  | short | ushort => some 2
  | int | uint | float => some 4
  | long | ulong | double => some 8
  | text => none

def width (k : Kind) : Nat := k.width?.getD 0

/-- Bytes of one element inside a block. A string is held by a three-word header. -/
def footprint (k : Kind) : Nat := k.width?.getD 24

theorem footprint_pos (k : Kind) : 0 < k.footprint := by cases k <;> decide

theorem width_eq_of_width? {k : Kind} {w : Nat} (h : k.width? = some w) : k.width = w := by
  simp [width, h]

theorem width?_pos {k : Kind} {w : Nat} (h : k.width? = some w) : 0 < w := by
  cases k <;> simp_all [width?] <;> omega

theorem width?_eq_none_iff (k : Kind) : k.width? = none ↔ k = text := by
  cases k <;> simp [width?]

/-- Whether every pattern of `width` bytes is an element. -/
def anyPattern : Kind → Bool
  | boolean | text => false
  | _ => true

def index (k : Kind) : Nat := all.idxOf k

end Kind

structure Field where
  name : String
  kind : Kind
  deriving DecidableEq, Repr, Inhabited

namespace Field

/-- Type id such as `double[]`. -/
def typeId (f : Field) : String := f.kind.name ++ "[]"

def describe (f : Field) : String := f.typeId ++ " " ++ f.name

end Field

end ArrayStore
