import ArrayStore.Vector.Frozen
import ArrayStore.Wire.Reading

/-! Reading arrays into new vectors.
The storage grows with the data that arrives: one chunk ahead for fixed-width
kinds, one string at a time for text. When reading fails the new vector is given
back and nothing else has changed but the stream. -/

namespace ArrayStore

structure Intake where
  next : Writable
  input : Incoming
  store : Store

namespace Intake

/-- Bytes of storage committed ahead of the data: a mebibyte. -/
def chunkBytes : Nat := 0x100000

/-- Give the vector `length` of the `count` elements announced. Its capacity at
least doubles, but never exceeds the announced count. -/
def growTo (length count : Nat) : Change Intake Unit
  | ⟨next, input, store⟩ =>
    let target := min (max length (2 * next.capacity)) count
    let grow : Change (Writable × Allocators) Unit := fun s =>
      if next.capacity < length then
        match Writable.reserve target s with
        | .error e s => .error e s
        | .ok () s => Writable.resize length s
      else Writable.resize length s
    match Store.onWritable grow (next, store) with
    | .ok () (next, store) => .ok () ⟨next, input, store⟩
    | .error e (next, store) => .error e ⟨next, input, store⟩

/-- Read elements into the places from `done` up to `stop`, as they become
readable. For the last of all elements only the missing bytes are asked for. -/
def readElements (k : Kind) (width : Nat) (width_pos : 0 < width) (count stop done : Nat) :
    Change Intake Unit
  | ⟨next, input, store⟩ =>
    if stop ≤ done then .ok () ⟨next, input, store⟩
    else
      let held := input.buffer.remaining
      if _h : held / width = 0 then
        match Incoming.ensureData (if count - done = 1 then width - held else width) input with
        | .error e input => .error e ⟨next, input, store⟩
        | .ok () input =>
          if held < input.buffer.remaining then
            readElements k width width_pos count stop done ⟨next, input, store⟩
          else .error .stalled ⟨next, input, store⟩
      else
        let run := min (held / width) (stop - done)
        match Incoming.onBuffer (Buffer.getAll k run) input with
        | .error e input => .error e ⟨next, input, store⟩
        | .ok values input =>
          readElements k width width_pos count stop (done + run)
            ⟨next.store done values, input, store⟩
termination_by s => (stop - done, width - s.input.buffer.remaining)
decreasing_by
  · apply Prod.Lex.right
    have h : held < width := by
      rcases Nat.lt_or_ge held width with h | h
      · exact h
      · have := Nat.div_pos h width_pos
        omega
    omega
  · apply Prod.Lex.left
    have h : 0 < held / width := Nat.pos_of_ne_zero _h
    generalize held / width = whole at h
    omega

/-- The bytes of a chunk that come past the buffer, if the inlet takes that path
and memory holds the elements as they are on the wire. -/
def readChunk? (k : Kind) (width size : Nat) : Change Incoming (Option (List UInt8)) := fun s =>
  if k.anyPattern && !s.buffer.reverses k then Incoming.readDirect (size * width) s
  else .ok none s

def chunk (width : Nat) : Nat := max (chunkBytes / width) 1

def readFixed (k : Kind) (width : Nat) (width_pos : 0 < width) (count done : Nat) :
    Change Intake Unit := fun s =>
  if count ≤ done then .ok () s
  else
    let stop := min count (done + chunk width)
    match growTo stop count s with
    | .error e s => .error e s
    | .ok () ⟨next, input, store⟩ =>
      match readChunk? k width (stop - done) input with
      | .error e input => .error e ⟨next, input, store⟩
      | .ok (some bytes) input =>
        let values := k.decodeAll .native (stop - done) bytes
        readFixed k width width_pos count stop ⟨next.store done values, input, store⟩
      | .ok none input =>
        match readElements k width width_pos count stop done ⟨next, input, store⟩ with
        | .error e s => .error e s
        | .ok () s => readFixed k width width_pos count stop s
termination_by count - done
decreasing_by
  all_goals
    have : 1 ≤ chunk width := Nat.le_max_right _ _
    omega

/-- Read `missing` strings behind the first `count - missing`. -/
def readTexts (count : Nat) : (missing : Nat) → Change Intake Unit
  | 0 => fun s => .ok () s
  | missing + 1 => fun ⟨next, input, store⟩ =>
    match Wire.readText input with
    | .error e input => .error e ⟨next, input, store⟩
    | .ok text input =>
      let index := count - (missing + 1)
      match growTo (index + 1) count ⟨next, input, store⟩ with
      | .error e s => .error e s
      | .ok () ⟨next, input, store⟩ =>
        readTexts count missing ⟨next.store index [.text text], input, store⟩

def readAll (k : Kind) (count : Nat) : Change Intake Unit := fun s =>
  match h : k.width? with
  | none => readTexts count count s
  | some width => readFixed k width (Kind.width?_pos h) count 0 s

end Intake

namespace Wire

def readArray (k : Kind) (a : Allocator) : Change (Incoming × Store) Frozen
  | (input, store) =>
    match readSize input with
    | .error e input => .error e (input, store)
    | .ok count input =>
      let (next, store) := store.emptyWritable k a
      match Intake.readAll k count ⟨next, input, store⟩ with
      | .error e ⟨next, input, store⟩ => .error e (input, store.dropWritable next)
      | .ok () ⟨next, input, store⟩ =>
        let (value, store) := store.freeze next
        .ok value (input, store)

end Wire

end ArrayStore
