import ArrayStore.Stream.Incoming
import ArrayStore.Wire.Layout

/-! Reading sizes and strings through a buffer.
A string grows with the bytes that arrive, so a hostile size costs nothing. -/

namespace ArrayStore.Wire

def signed32 (n : Nat) : Int := (UInt32.ofNat n).toInt32.toInt

def readLongSize : Change Incoming Nat := fun s =>
  match Incoming.ensureRemaining 4 s with
  | .error e s => .error e s
  | .ok () s =>
    match Incoming.onBuffer (Buffer.getBytes 4) s with
    | .error e s => .error e s
    | .ok bytes s =>
      let size := signed32 (s.buffer.order.join bytes)
      if size < 0 then .error (.malformed (.negativeSize size)) s else .ok size.toNat s

def readSize : Change Incoming Nat := fun s =>
  match Incoming.ensureRemaining 1 s with
  | .error e s => .error e s
  | .ok () s =>
    match Incoming.onBuffer (Buffer.getBytes 1) s with
    | .error e s => .error e s
    | .ok bytes s =>
      let lead := bytes.headD 0
      if lead = nullSize then .ok 0 s
      else if lead = sizeEscape then readLongSize s
      else .ok lead.toNat s

/-- See to it that something is readable while `missing` bytes are still to be read. -/
def ensureAny (missing : Nat) : Change Incoming Unit := fun s =>
  if s.buffer.hasRemaining then .ok () s
  else
    match Incoming.ensureData (min missing s.buffer.capacity) s with
    | .error e s => .error e s
    | .ok () s =>
      if s.buffer.hasRemaining then .ok () s else .error (.insufficientSpace missing 0) s

theorem hasRemaining_of_ensureAny {missing : Nat} {s t : Incoming}
    (h : ensureAny missing s = .ok () t) : t.buffer.hasRemaining = true := by
  simp only [ensureAny] at h
  split at h
  · cases h
    assumption
  · split at h
    · cases h
    · split at h
      · cases h
        assumption
      · cases h

def readBytes (missing : Nat) (front : Array UInt8) : Change Incoming (Array UInt8) := fun s =>
  if _h : missing = 0 then .ok front s
  else
    match _hs : ensureAny missing s with
    | .error e s => .error e s
    | .ok () s =>
      let count := min missing s.buffer.remaining
      match Incoming.onBuffer (Buffer.getBytes count) s with
      | .error e s => .error e s
      | .ok chunk s => readBytes (missing - count) (front ++ chunk) s
termination_by missing
decreasing_by
  have h1 := hasRemaining_of_ensureAny _hs
  simp only [Buffer.hasRemaining, decide_eq_true_eq] at h1
  simp only [Buffer.remaining]
  omega

def readText : Change Incoming String := fun s =>
  match readSize s with
  | .error e s => .error e s
  | .ok size s =>
    match readBytes size #[] s with
    | .error e s => .error e s
    | .ok bytes s =>
      match Utf8.decode bytes with
      | .error fault => .error (.malformed (.invalidText fault)) s
      | .ok text => .ok text s

end ArrayStore.Wire
