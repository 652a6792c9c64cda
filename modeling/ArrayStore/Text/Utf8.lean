/-! UTF-8 runs of bytes.
A sequence is led by a byte that says how many bytes follow and bounds the
first of them; the others lie in `0x80 .. 0xBF`. A run that is not UTF-8 has a
first fault: a sequence that breaks off in the middle of the run, or one that
the end of the run cuts short. -/

namespace ArrayStore.Utf8

/-- The first fault of a run. The index is the length of the longest valid beginning. -/
inductive Fault where
  /-- The first `length` bytes of a sequence are possible and the next one is not. -/
  | invalid (length index : Nat)
  /-- The run ends inside a sequence. -/
  | incomplete (index : Nat)
  deriving DecidableEq, Repr

def Fault.message : Fault → String
  | .invalid length index => s!"invalid utf-8 sequence of {length} bytes from index {index}"
  | .incomplete index => s!"incomplete utf-8 byte sequence from index {index}"

/-- Bytes that a lead byte still asks for, and the bounds of the first of them. -/
def following? (lead : UInt8) : Option (Nat × UInt8 × UInt8) :=
  if lead < 0x80 then some (0, 0x80, 0xBF)
  else if lead < 0xC2 then none
  else if lead < 0xE0 then some (1, 0x80, 0xBF)
  else if lead = 0xE0 then some (2, 0xA0, 0xBF)
  else if lead = 0xED then some (2, 0x80, 0x9F)
  else if lead < 0xF0 then some (2, 0x80, 0xBF)
  else if lead = 0xF0 then some (3, 0x90, 0xBF)
  else if lead < 0xF4 then some (3, 0x80, 0xBF)
  else if lead = 0xF4 then some (3, 0x80, 0x8F)
  else none

/-- Where a scan stands: between sequences, or inside one that began at `start`
with `seen` bytes so far, owes `owed + 1` more and bounds the next of them. -/
inductive Scan where
  | between (index : Nat)
  | inside (start seen owed : Nat) (low high : UInt8)

namespace Scan

def step : Scan → UInt8 → Except Fault Scan
  | between index, b =>
    match following? b with
    | none => .error (.invalid 1 index)
    | some (0, _, _) => .ok (between (index + 1))
    | some (owed + 1, low, high) => .ok (inside index 1 owed low high)
  | inside start seen owed low high, b =>
    if low ≤ b ∧ b ≤ high then
      match owed with
      | 0 => .ok (between (start + seen + 1))
      | owed + 1 => .ok (inside start (seen + 1) owed 0x80 0xBF)
    else .error (.invalid seen start)

def fault? : Scan → List UInt8 → Option Fault
  | between _, [] => none
  | inside start .., [] => some (.incomplete start)
  | s, b :: bytes =>
    match s.step b with
    | .ok next => fault? next bytes
    | .error fault => some fault

end Scan

def fault? (bytes : List UInt8) : Option Fault := (Scan.between 0).fault? bytes

def decode (bytes : Array UInt8) : Except Fault String :=
  match String.fromUTF8? ⟨bytes⟩ with
  | some text => .ok text
  | none => .error ((fault? bytes.toList).getD (.incomplete 0))

def encode (text : String) : List UInt8 := text.toUTF8.data.toList

theorem decode_encode (text : String) : decode (encode text).toArray = .ok text := by
  simp [decode, encode, String.fromUTF8?, text.isValidUTF8]
  rfl

/-- A run decodes to a text when it is the encoding of just that text. -/
theorem decode_eq_ok_iff {bytes : Array UInt8} {text : String} :
    decode bytes = .ok text ↔ bytes.toList = encode text := by
  refine ⟨fun decoded => ?_, fun same => ?_⟩
  · simp only [decode, String.fromUTF8?] at decoded
    split at decoded
    · next found =>
      split at found
      · cases decoded
        cases found
        rfl
      · cases found
    · cases decoded
  · rw [← bytes.toArray_toList, same, decode_encode]

-- A sequence that the end cuts short, and a surrogate.
example : fault? [0x61, 0xE6, 0x97] = some (.incomplete 1) := by decide
example : fault? [0xED, 0xA0, 0x80] = some (.invalid 1 0) := by decide

end ArrayStore.Utf8
