import ArrayStore.Buffer
import ArrayStore.Stream.Sink

/-! Buffers that are filled, with the outlet they drain into.
Bytes wait before the position until a flush hands them on. Without a stream
behind the buffer a flush does nothing, and what does not fit is refused. -/

namespace ArrayStore

inductive Outlet where
  /-- Nowhere: the buffer has to hold the whole payload. -/
  | closed
  | stream (writer : Writer)
  deriving DecidableEq, Repr

structure Outgoing where
  buffer : Buffer
  outlet : Outlet
  deriving DecidableEq, Repr

namespace Outgoing

def delivered (s : Outgoing) : List UInt8 :=
  match s.outlet with
  | .closed => []
  | .stream w => w.sink.stored.toList

/-- Hand the written bytes on and reset the buffer. Bytes that could not be
handed on are lost. -/
def flush : Change Outgoing Unit
  | ⟨b, .closed⟩ => .ok () ⟨b, .closed⟩
  | ⟨b, .stream w⟩ =>
    match Writer.write b.written w with
    | .error e w => .error e ⟨b.clear, .stream w⟩
    | .ok () w => .ok () ⟨b.clear, .stream { w with flushes := w.flushes + 1 }⟩

def ensureRoom (size : Nat) : Change Outgoing Unit := fun s =>
  if size ≤ s.buffer.remaining then .ok () s
  else
    match flush s with
    | .error e s => .error e s
    | .ok () s =>
      if s.buffer.remaining < size then .error (.insufficientSpace size s.buffer.remaining) s
      else .ok () s

theorem le_remaining_of_ensureRoom {size : Nat} {s t : Outgoing}
    (h : ensureRoom size s = .ok () t) : size ≤ t.buffer.remaining := by
  simp only [ensureRoom] at h
  split at h
  · cases h
    assumption
  · split at h
    · cases h
    · split at h
      · cases h
      · cases h
        omega

def onBuffer {α : Type} (change : Change Buffer α) : Change Outgoing α
  | ⟨b, outlet⟩ =>
    match change b with
    | .ok a b => .ok a ⟨b, outlet⟩
    | .error e b => .error e ⟨b, outlet⟩

/-- Offer bytes for transfer past the buffer. False means that they were declined. -/
def writeDirect (bytes : List UInt8) : Change Outgoing Bool
  | ⟨b, .closed⟩ => .ok false ⟨b, .closed⟩
  | ⟨b, .stream w⟩ =>
    if w.direct then
      match flush ⟨b, .stream w⟩ with
      | .ok () ⟨b, .stream w⟩ =>
        match Writer.write bytes w with
        | .error e w => .error e ⟨b, .stream w⟩
        | .ok () w => .ok true ⟨b, .stream w⟩
      | .ok () s => .ok false s
      | .error e s => .error e s
    else .ok false ⟨b, .stream w⟩

def finish : Change Outgoing Unit := fun s =>
  match flush s with
  | .error e s => .error e s
  | .ok () s =>
    match s.outlet with
    | .closed => .ok () s
    | .stream w =>
      match w.sink.flushFault with
      | none => .ok () s
      | some fault => .error (.stream "flushing stream" fault) s

end Outgoing

end ArrayStore
