import ArrayStore.Stream.Outgoing
import ArrayStore.Wire.Layout

/-! Writing sizes, strings and arrays through a buffer.
Whatever the buffer holds and however small it is, the bytes that leave it are
those of the layout; a buffer too small for a size or for one element is
refused. -/

namespace ArrayStore.Wire

def writeSize (size : Nat) : Change Outgoing Unit := fun s =>
  if size < sizeEscape.toNat then
    match Outgoing.ensureRoom 1 s with
    | .error e s => .error e s
    | .ok () s => Outgoing.onBuffer (Buffer.put (.ubyte (UInt8.ofNat size))) s
  else if sizeBound ≤ size then .error (.invalidParameter (.sizeNotEncodable size)) s
  else
    match Outgoing.ensureRoom 5 s with
    | .error e s => .error e s
    | .ok () s =>
      match Outgoing.onBuffer (Buffer.put (.ubyte sizeEscape)) s with
      | .error e s => .error e s
      | .ok () s => Outgoing.onBuffer (Buffer.put (.int (Int32.ofNat size))) s

def writeNullSize : Change Outgoing Unit := fun s =>
  match Outgoing.ensureRoom 1 s with
  | .error e s => .error e s
  | .ok () s => Outgoing.onBuffer (Buffer.putBytes [nullSize]) s

/-- Make room for one byte, or refuse the bytes that are still to be written. -/
def ensureSome (missing : List UInt8) : Change Outgoing Unit := fun s =>
  if s.buffer.hasRemaining then .ok () s
  else
    match Outgoing.flush s with
    | .error e s => .error e s
    | .ok () s =>
      if s.buffer.hasRemaining then .ok () s else .error (.insufficientSpace missing.length 0) s

theorem hasRemaining_of_ensureSome {missing : List UInt8} {s t : Outgoing}
    (h : ensureSome missing s = .ok () t) : t.buffer.hasRemaining = true := by
  simp only [ensureSome] at h
  split at h
  · cases h
    assumption
  · split at h
    · cases h
    · split at h
      · cases h
        assumption
      · cases h

def writeBytes (bytes : List UInt8) : Change Outgoing Unit := fun s =>
  if _h : bytes = [] then .ok () s
  else
    match _hs : ensureSome bytes s with
    | .error e s => .error e s
    | .ok () s =>
      let room := s.buffer.remaining
      match Outgoing.onBuffer (Buffer.putBytes (bytes.take room)) s with
      | .error e s => .error e s
      | .ok () s => writeBytes (bytes.drop room) s
termination_by bytes.length
decreasing_by
  have h1 := hasRemaining_of_ensureSome _hs
  have h2 : 0 < bytes.length := List.length_pos_iff.mpr _h
  simp only [Buffer.hasRemaining, decide_eq_true_eq] at h1
  have h3 : 0 < room := by
    simp only [room, Buffer.remaining]
    omega
  simp only [List.length_drop]
  omega

def writeText (text : String) : Change Outgoing Unit := fun s =>
  let bytes := Utf8.encode text
  match writeSize bytes.length s with
  | .error e s => .error e s
  | .ok () s => writeBytes bytes s

def ensureElement (width : Nat) : Change Outgoing Unit := fun s =>
  if width ≤ s.buffer.remaining then .ok () s
  else
    match Outgoing.flush s with
    | .error e s => .error e s
    | .ok () s =>
      if s.buffer.remaining < width then .error (.insufficientSpace width s.buffer.remaining) s
      else .ok () s

theorem le_remaining_of_ensureElement {width : Nat} {s t : Outgoing}
    (h : ensureElement width s = .ok () t) : width ≤ t.buffer.remaining :=
  Outgoing.le_remaining_of_ensureRoom h

def writeElements (width : Nat) (width_pos : 0 < width) (values : List Scalar) :
    Change Outgoing Unit := fun s =>
  if _h : values = [] then Outgoing.flush s
  else
    match _hs : ensureElement width s with
    | .error e s => .error e s
    | .ok () s =>
      let run := s.buffer.remaining / width
      match Outgoing.onBuffer (Buffer.putAll (values.take run)) s with
      | .error e s => .error e s
      | .ok () s => writeElements width width_pos (values.drop run) s
termination_by values.length
decreasing_by
  have h1 := le_remaining_of_ensureElement _hs
  have h2 : 0 < values.length := List.length_pos_iff.mpr _h
  have h3 : 0 < run := Nat.div_pos h1 width_pos
  simp only [List.length_drop]
  omega

def writeTexts : List Scalar → Change Outgoing Unit
  | [] => fun s => .ok () s
  | value :: values => fun s =>
    match writeText (match value with | .text text => text | _ => "") s with
    | .error e s => .error e s
    | .ok () s => writeTexts values s

/-- Write an array. Elements that lie in memory as they go on the wire are
offered to the outlet as a whole first. -/
def writeArray (k : Kind) (values : List Scalar) : Change Outgoing Unit := fun s =>
  match writeSize values.length s with
  | .error e s => .error e s
  | .ok () s =>
    match hw : k.width? with
    | none => writeTexts values s
    | some width =>
      let pos : 0 < width := Kind.width?_pos hw
      if s.buffer.reverses k then writeElements width pos values s
      else
        match Outgoing.writeDirect (Scalar.rawBytes values) s with
        | .error e s => .error e s
        | .ok true s => .ok () s
        | .ok false s => writeElements width pos values s

end ArrayStore.Wire
