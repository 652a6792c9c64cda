import ArrayStore.Value.Basic

/-! Flat records of array fields.
A record stands at offset 0 and its fields at the offsets from 1 on, in the
order in which they were added. Every field lies below the token of its record
and reports to its tracker. -/

namespace ArrayStore

structure Record where
  name : String
  token : Token
  tracker : TrackerId
  fields : List Field := []
  deriving DecidableEq, Repr

namespace Record

def create (name : String) (w : World) : Record × World :=
  let (token, w) := w.newToken
  let (tracker, w) := w.newTracker
  (⟨name, token, tracker, []⟩, w)

/-- Add a field. Its value grows from the shared allocator. -/
def add (r : Record) (field : Field) (w : World) : Record × FieldValue × World :=
  let (v, w) := FieldValue.create field .shared w
  let r := { r with fields := r.fields ++ [field] }
  let (token, w) := w.childToken r.token
  let (v, w) := v.attach token ⟨r.tracker, r.fields.length⟩ w
  (r, v, w)

def freeze (r : Record) (w : World) : World := w.freezeToken r.token

def isImmutable (r : Record) (w : World) : Bool := w.flags.isImmutable r.token

end Record

end ArrayStore
