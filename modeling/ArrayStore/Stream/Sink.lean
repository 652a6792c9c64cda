import ArrayStore.Error

/-! Sinks: where written bytes end up.
A sink may be full at some size. A write that does not fit stores what fits and
then fails. -/

namespace ArrayStore

structure Sink where
  stored : Array UInt8 := #[]
  /-- The most bytes that the sink stores in all; none for no bound. -/
  limit : Option Nat := none
  /-- What the sink reports when it is flushed; none when flushing succeeds. -/
  flushFault : Option StreamFault := none
  deriving DecidableEq, Repr

namespace Sink

def full : StreamFault := ⟨.writeZero, "failed to write whole buffer"⟩

def fitting (s : Sink) (bytes : List UInt8) : List UInt8 :=
  match s.limit with
  | none => bytes
  | some limit => bytes.take (limit - s.stored.size)

def fits (s : Sink) (bytes : List UInt8) : Bool :=
  match s.limit with
  | none => true
  | some limit => bytes.length ≤ limit - s.stored.size

def write (s : Sink) (bytes : List UInt8) : Sink :=
  let run := s.fitting bytes
  { s with stored := s.stored ++ run }

theorem stored_write (s : Sink) (bytes : List UInt8) :
    (s.write bytes).stored.toList = s.stored.toList ++ s.fitting bytes := by
  simp [write]

theorem fitting_of_fits (s : Sink) (bytes : List UInt8) (h : s.fits bytes = true) :
    s.fitting bytes = bytes := by
  unfold fits at h
  unfold fitting
  split <;> simp_all [List.take_of_length_le]

end Sink

/-- A writer counts what it hands to its sink. A direct writer takes bulk
payloads past the buffer. -/
structure Writer where
  sink : Sink := {}
  direct : Bool := false
  bytesWritten : Nat := 0
  flushes : Nat := 0
  deriving DecidableEq, Repr

namespace Writer

/-- Hand a run of bytes to the sink. Only a run that was stored as a whole is counted. -/
def write (bytes : List UInt8) : Change Writer Unit := fun w =>
  if w.sink.fits bytes then
    .ok () { w with sink := w.sink.write bytes, bytesWritten := w.bytesWritten + bytes.length }
  else
    .error (.stream "writing stream" Sink.full) { w with sink := w.sink.write bytes }

end Writer

end ArrayStore
