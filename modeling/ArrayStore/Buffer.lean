import ArrayStore.Error
import ArrayStore.Scalar.Wire
import ArrayStore.Splice

/-! Byte buffers with a position, a limit and a byte order.
Writing fills `position .. limit`; `flip` makes what was written readable;
`compact` moves what was not read to the front, to be filled up behind it.
An operation that does not fit changes nothing. -/

namespace ArrayStore

structure Buffer where
  data : Array UInt8
  position : Nat
  limit : Nat
  order : ByteOrder
  deriving DecidableEq, Repr

namespace Buffer

/-- A buffer of zeros, ready for writing. -/
def empty (capacity : Nat) (order : ByteOrder) : Buffer :=
  ⟨Array.replicate capacity 0, 0, capacity, order⟩

/-- A buffer whose whole content is readable. -/
def holding (bytes : List UInt8) (order : ByteOrder) : Buffer :=
  let data := bytes.toArray
  ⟨data, 0, data.size, order⟩

def capacity (b : Buffer) : Nat := b.data.size

def remaining (b : Buffer) : Nat := b.limit - b.position

def hasRemaining (b : Buffer) : Bool := b.position < b.limit

def unread (b : Buffer) : List UInt8 := (b.data.extract b.position b.limit).toList

def written (b : Buffer) : List UInt8 := (b.data.extract 0 b.position).toList

def Valid (b : Buffer) : Prop := b.position ≤ b.limit ∧ b.limit ≤ b.capacity

instance (b : Buffer) : Decidable b.Valid := inferInstanceAs (Decidable (_ ∧ _))

theorem valid_empty (capacity : Nat) (order : ByteOrder) : (empty capacity order).Valid := by
  simp [Valid, empty, Buffer.capacity]

theorem valid_holding (bytes : List UInt8) (order : ByteOrder) : (holding bytes order).Valid := by
  simp [Valid, holding, Buffer.capacity]

theorem unread_holding (bytes : List UInt8) (order : ByteOrder) :
    (holding bytes order).unread = bytes := by
  simp [unread, holding]

theorem length_unread {b : Buffer} (h : b.Valid) : b.unread.length = b.remaining := by
  have := h.2
  simp only [capacity] at this
  simp [unread, remaining]
  omega

/-- Reset for writing over the whole capacity. -/
def clear (b : Buffer) : Buffer := { b with position := 0, limit := b.data.size }

def flip (b : Buffer) : Buffer := { b with position := 0, limit := b.position }

/-- Move the unread bytes to the front and go on writing behind them. -/
def compact (b : Buffer) : Buffer :=
  if b.position = 0 then { b with position := b.limit, limit := b.data.size }
  else
    let kept := b.unread
    let size := b.data.size
    { b with data := splice b.data 0 kept, position := kept.length, limit := size }

def withOrder (b : Buffer) (order : ByteOrder) : Buffer := { b with order }

/-- Overwrite the bytes between the position and the limit with one byte. -/
def fill (b : Buffer) (byte : UInt8) : Buffer :=
  { b with data := splice b.data b.position (List.replicate b.remaining byte) }

/-- Store bytes at the position and move behind them. The caller sees to the room. -/
def store (b : Buffer) (bytes : List UInt8) : Buffer :=
  { b with data := splice b.data b.position bytes, position := b.position + bytes.length }

def setPosition (position : Nat) : Change Buffer Unit := fun b =>
  if b.limit < position then
    .error (.invalidParameter (.positionBeyondLimit position b.limit)) b
  else .ok () { b with position }

def setLimit (limit : Nat) : Change Buffer Unit := fun b =>
  if b.capacity < limit then
    .error (.invalidParameter (.limitBeyondCapacity limit b.capacity)) b
  else .ok () { b with limit, position := min b.position limit }

def advance (count : Nat) : Change Buffer Unit := fun b =>
  if b.remaining < count then .error (.insufficientSpace count b.remaining) b
  else .ok () { b with position := b.position + count }

def putBytes (bytes : List UInt8) : Change Buffer Unit := fun b =>
  if b.remaining < bytes.length then
    .error (.insufficientSpace bytes.length b.remaining) b
  else .ok () (b.store bytes)

def put (value : Scalar) : Change Buffer Unit := fun b =>
  putBytes (value.encode b.order) b

def putAll (values : List Scalar) : Change Buffer Unit := fun b =>
  putBytes (Scalar.encodeAll b.order values) b

def getBytes (count : Nat) : Change Buffer (List UInt8) := fun b =>
  if b.remaining < count then .error (.insufficientSpace count b.remaining) b
  else
    .ok (b.data.extract b.position (b.position + count)).toList
      { b with position := b.position + count }

def get (k : Kind) : Change Buffer Scalar := fun b =>
  match getBytes k.width b with
  | .ok bytes b' => .ok (k.decode b'.order bytes) b'
  | .error e b' => .error e b'

def getAll (k : Kind) (count : Nat) : Change Buffer (List Scalar) := fun b =>
  match getBytes (count * k.width) b with
  | .ok bytes b' => .ok (k.decodeAll b'.order count bytes) b'
  | .error e b' => .error e b'

def reverses (b : Buffer) (k : Kind) : Bool := b.order.reverses k

def describe (b : Buffer) : String :=
  "ByteBuffer \x7b capacity: " ++ toString b.capacity ++ ", position: " ++ toString b.position
    ++ ", limit: " ++ toString b.limit ++ ", order: " ++ b.order.name ++ " \x7d"

end Buffer

end ArrayStore
