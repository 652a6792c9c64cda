import ArrayStore.Value.Decode
import ArrayStore.Value.World
import ArrayStore.Wire.Writing

/-! Values of array fields.
A value holds a frozen vector, so that a view of it can be kept for as long as
one likes. A structural change thaws the vector, which copies it only while a
view is held elsewhere, and freezes the result. Immutability is asked of the
token, and the owner hears of every new content. -/

namespace ArrayStore

structure Owner where
  tracker : TrackerId
  offset : Nat
  deriving DecidableEq, Repr

structure FieldValue where
  field : Field
  value : Frozen
  /-- Where new storage comes from. -/
  allocator : Allocator
  capacityMutable : Bool
  token : Token
  owner : Option Owner
  deriving DecidableEq, Repr

namespace FieldValue

/-- An empty, mutable value without an owner, holding a handle on its allocator. -/
def create (field : Field) (a : Allocator) (w : World) : FieldValue × World :=
  let (token, w) := w.newToken
  (⟨field, .empty field.kind, a, true, token, none⟩, { w with store := w.store.retain a })

def mismatch? (field : Field) (k : Kind) : Option Error :=
  if field.kind = k then none else some (.invalidParameter (.wrongKind field k))

def kind (v : FieldValue) : Kind := v.field.kind

def length (v : FieldValue) : Nat := v.value.length

def values (v : FieldValue) (w : World) : List Scalar := w.store.values v.value

def capacity (v : FieldValue) (w : World) : Nat := w.store.capacity v.value

def isImmutable (v : FieldValue) (w : World) : Bool := w.flags.isImmutable v.token

def isCapacityMutable (v : FieldValue) (w : World) : Bool := !v.isImmutable w && v.capacityMutable

/-- From now on new storage comes from `a`. The storage at hand stays as it is. -/
def growFrom (a : Allocator) (v : FieldValue) (w : World) : FieldValue × World :=
  ({ v with allocator := a }, { w with store := (w.store.retain a).letGo v.allocator })

def drop (v : FieldValue) (w : World) : World :=
  { w with store := (w.store.drop v.value).letGo v.allocator }

def view (v : FieldValue) (w : World) : Frozen × World :=
  (v.value, { w with store := w.store.clone v.value })

/-- Join a record. A value that is immutable stays so: it raises the own flag of
its new token. -/
def attach (v : FieldValue) (token : Token) (owner : Owner) (w : World) : FieldValue × World :=
  let frozen := v.isImmutable w
  ({ v with token, owner := some owner }, if frozen then w.freezeToken token else w)

def setImmutable (v : FieldValue) (w : World) : FieldValue × World :=
  ({ v with capacityMutable := false }, w.freezeToken v.token)

def post (v : FieldValue) (w : World) : World :=
  match v.owner with
  | none => w
  | some owner => w.post owner.tracker owner.offset

def setCapacityMutable (on : Bool) : Change (FieldValue × World) Unit
  | (v, w) =>
    if on && v.isImmutable w then .error (.immutable v.field.name) (v, w)
    else .ok () ({ v with capacityMutable := on }, w)

/-- Apply a change to a writable form of the content and freeze the result. A
sole reference is changed in place and put back if the change fails; otherwise
the change works on a copy, which is given back if it fails. -/
def modify (change : Change (Writable × Allocators) Unit) : Change (FieldValue × World) Unit
  | (v, w) =>
    let sole := w.store.unique v.value
    let store := if sole then w.store else w.store.clone v.value
    match store.thaw v.value v.allocator with
    | .error e store =>
      .error e (if sole then { v with value := .empty v.kind } else v, { w with store })
    | .ok next store =>
      match Store.onWritable change (next, store) with
      | .ok () (next, store) =>
        let (value, store) := store.freeze next
        let store := if sole then store else store.drop v.value
        .ok () ({ v with value }, { w with store })
      | .error e (next, store) =>
        if sole then
          let (value, store) := store.freeze next
          .error e ({ v with value }, { w with store })
        else .error e (v, { w with store := store.dropWritable next })

def setCapacity (capacity : Nat) : Change (FieldValue × World) Unit
  | (v, w) =>
    if !v.isCapacityMutable w then .ok () (v, w)
    else if capacity ≤ v.capacity w then .ok () (v, w)
    else modify (Writable.reserve capacity) (v, w)

def setLength (length : Nat) : Change (FieldValue × World) Unit
  | (v, w) =>
    if v.isImmutable w then .error (.immutable v.field.name) (v, w)
    else if length = v.length then .ok () (v, w)
    else if length < v.length then .ok () ({ v with value := v.value.slice 0 length }, w)
    else modify (Writable.resize length) (v, w)

def replace (next : Frozen) : Change (FieldValue × World) Unit
  | (v, w) =>
    if v.isImmutable w then
      .error (.immutable v.field.name) (v, { w with store := w.store.drop next })
    else
      let w := { w with store := w.store.drop v.value }
      let v := { v with value := next }
      .ok () (v, v.post w)

def putFrom (values : List Scalar) : Change (FieldValue × World) Unit
  | (v, w) =>
    if v.isImmutable w then .error (.immutable v.field.name) (v, w)
    else
      match World.onStore (Store.ofList v.kind v.allocator values) w with
      | .error e w => .error e (v, w)
      | .ok next w => replace next (v, w)

/-- Exchange the content with a view, without telling the owner. -/
def swap : Change (FieldValue × Frozen × World) Unit
  | (v, other, w) =>
    if v.isImmutable w then .error (.immutable v.field.name) (v, other, w)
    else .ok () ({ v with value := other }, v.value, w)

def serialize (v : FieldValue) (w : World) : Change Outgoing Unit :=
  Wire.writeArray v.kind (v.values w)

/-- Write `count` elements from `offset`, clamped to what there is. -/
def serializeRange (v : FieldValue) (w : World) (offset count : Nat) : Change Outgoing Unit :=
  Wire.writeArray v.kind (w.store.values (v.value.slice offset count))

/-- Read a new content from a stream. The old content stays in place until the
whole array has arrived; then the owner is told. -/
def deserialize : Change (FieldValue × World × Incoming) Unit
  | (v, w, input) =>
    if v.isImmutable w then .error (.immutable v.field.name) (v, w, input)
    else
      match w with
      | ⟨store, flags, trackers, tracked⟩ =>
        match Wire.readArray v.kind v.allocator (input, store) with
        | .error e (input, store) => .error e (v, ⟨store, flags, trackers, tracked⟩, input)
        | .ok next (input, store) =>
          let w := ⟨store.drop v.value, flags, trackers, tracked⟩
          let v := { v with value := next }
          .ok () (v, v.post w, input)

def same (a b : FieldValue) (w : World) : Bool :=
  a.field == b.field && Scalar.sameAll (a.values w) (b.values w)

def describe (v : FieldValue) (w : World) : String :=
  v.kind.title ++ "(ArrayValue \x7b field: " ++ Text.quoted v.field.describe
    ++ ", value: " ++ Scalar.printAll (v.values w)
    ++ ", immutable: " ++ toString (v.isImmutable w)
    ++ ", allocator: " ++ Text.quoted (w.store.allocators.name v.allocator) ++ " \x7d)"

end FieldValue

end ArrayStore
