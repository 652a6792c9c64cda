import ArrayStore.Buffer
import ArrayStore.Stream.Source

/-! Buffers that are drained, with the inlet that fills them up.
Bytes wait between the position and the limit. A refill moves them to the front
and reads one fragment behind them. -/

namespace ArrayStore

/-- A reader takes at most one fragment per refill. A direct reader fills bulk
destinations past the buffer. -/
structure Reader where
  source : Source
  fragment : Nat := UInt64.size - 1
  direct : Bool := false
  bytesRead : Nat := 0
  refills : Nat := 0

namespace Reader

def withFragment (r : Reader) (fragment : Nat) : Reader := { r with fragment := max fragment 1 }

end Reader

inductive Inlet where
  /-- Nowhere: the buffer already holds the whole payload. -/
  | closed
  /-- An inlet that reports success and adds nothing. -/
  | idle
  | stream (reader : Reader)

structure Incoming where
  buffer : Buffer
  inlet : Inlet

namespace Incoming

/-- Read one fragment into the buffer. Answers the number of bytes added. -/
def refill (b : Buffer) (r : Reader) : Outcome (Buffer × Reader) Nat :=
  let b := b.compact
  match r.source.read (min b.remaining r.fragment) with
  | (.error fault, source) => .error (.stream "reading stream" fault) (b.flip, { r with source })
  | (.ok chunk, source) =>
    let count := chunk.length
    .ok count ((b.store chunk).flip,
      { r with source, bytesRead := r.bytesRead + count, refills := r.refills + 1 })

/-- What a refill adds was not yet delivered before. -/
theorem refill_rest {b b' : Buffer} {r r' : Reader} {count : Nat}
    (h : refill b r = .ok count (b', r')) :
    r.source.rest.length = count + r'.source.rest.length := by
  simp only [refill] at h
  split at h
  · cases h
  · next chunk source hread =>
    cases h
    have := r.source.read_rest _ chunk (by rw [hread])
    rw [hread] at this
    rw [← this]
    simp

def ended : StreamFault := ⟨.unexpectedEnd, "stream ended mid-payload"⟩

def fillTo (target : Nat) (b : Buffer) (r : Reader) : Outcome (Buffer × Reader) Unit :=
  if b.remaining < target then
    match _h : refill b r with
    | .error e s => .error e s
    | .ok 0 s => .error (.stream "reading stream" ended) s
    | .ok (_ + 1) (b', r') => fillTo target b' r'
  else .ok () (b, r)
termination_by r.source.rest.length
decreasing_by
  have := refill_rest _h
  omega

/-- The report that `size` more bytes do not fit. It adds up two sizes in one machine word, and does
not come about where the sum is beyond it. -/
def shortage (b : Buffer) (size available : Nat) : Error :=
  if b.remaining + size < UInt64.size then .insufficientSpace (b.remaining + size) available
  else .overflow

/-- Make `size` more bytes readable beyond those that are. -/
def ensureData (size : Nat) : Change Incoming Unit
  | ⟨b, .closed⟩ => .error (shortage b size b.remaining) ⟨b, .closed⟩
  | ⟨b, .idle⟩ => .ok () ⟨b, .idle⟩
  | ⟨b, .stream r⟩ =>
    let target := min (b.remaining + size) b.capacity
    if 0 < size ∧ target ≤ b.remaining then
      .error (shortage b size b.capacity) ⟨b, .stream r⟩
    else
      match fillTo target b r with
      | .ok () (b, r) => .ok () ⟨b, .stream r⟩
      | .error e (b, r) => .error e ⟨b, .stream r⟩

/-- Make `size` bytes readable in all. -/
def ensureRemaining (size : Nat) : Change Incoming Unit := fun s =>
  if size ≤ s.buffer.remaining then .ok () s
  else
    match ensureData (size - s.buffer.remaining) s with
    | .error e s => .error e s
    | .ok () s =>
      if s.buffer.remaining < size then .error (.insufficientSpace size s.buffer.remaining) s
      else .ok () s

def onBuffer {α : Type} (change : Change Buffer α) : Change Incoming α
  | ⟨b, inlet⟩ =>
    match change b with
    | .ok a b => .ok a ⟨b, inlet⟩
    | .error e b => .error e ⟨b, inlet⟩

/-- Ask for `count` bytes past the buffer, after those that it holds. None means
that the request was declined. -/
def readDirect (count : Nat) : Change Incoming (Option (List UInt8))
  | ⟨b, .stream r⟩ =>
    if r.direct then
      let buffered := min b.remaining count
      match Buffer.getBytes buffered b with
      | .error e b => .error e ⟨b, .stream r⟩
      | .ok front b =>
        match r.source.readExact (count - buffered) front.toArray with
        | (.error fault, source) =>
          .error (.stream "reading stream" fault) ⟨b, .stream { r with source }⟩
        | (.ok bytes, source) =>
          .ok (some bytes.toList)
            ⟨b, .stream { r with source, bytesRead := r.bytesRead + (count - buffered) }⟩
    else .ok none ⟨b, .stream r⟩
  | s => .ok none s

end Incoming

end ArrayStore
