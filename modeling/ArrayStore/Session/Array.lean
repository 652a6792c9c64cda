import ArrayStore.Record.Basic

/-! Runs of steps on slots that hold array values, views, records, tokens and
trackers. -/

namespace ArrayStore.Session

structure ArrayState where
  world : World := {}
  /-- The allocators that steps name by their place. -/
  pools : List Allocator := []
  values : Table FieldValue := {}
  views : Table Frozen := {}
  records : Table Record := {}
  tokens : Table Token := {}
  trackers : Table TrackerId := {}

inductive Watch where
  | record (slot : Nat)
  | tracker (slot : Nat)
  deriving DecidableEq, Repr

inductive TokenSource where
  | fresh
  | bare
  | childOf (slot : Nat)
  | copyOf (slot : Nat)
  deriving DecidableEq, Repr

inductive ArrayStep where
  | record (slot : Nat) (name : String)
  | freezeRecord (slot : Nat)
  | add (slot value : Nat) (field : Field)
  | token (slot : Nat) (source : TokenSource)
  | freezeToken (slot : Nat)
  | tracker (slot : Nat)
  | post (watch : Watch) (offset : Nat)
  | clear (watch : Watch)
  | attach (value token : Nat) (watch : Watch) (offset : Nat)
  | create (value : Nat) (field : Field) (pool : Option Nat)
  | growFrom (value : Nat) (pool : Option Nat)
  | drop (value : Nat)
  | put (value : Nat) (elements : List Scalar)
  | replace (value : Nat) (elements : List Scalar)
  | setLength (value length : Nat)
  | setCapacity (value capacity : Nat)
  | setCapacityMutable (value : Nat) (on : Bool)
  | setImmutable (value : Nat)
  | view (value view : Nat)
  | makeView (view : Nat) (k : Kind) (elements : List Scalar)
  | sliceView (view offset count : Nat)
  | dropView (view : Nat)
  | swap (value view : Nat)
  | install (value view : Nat)
  | serialize (value capacity : Nat) (order : ByteOrder) (direct : Bool)
    (range : Option (Nat × Nat))
  | deserialize (value : Nat) (bytes : List UInt8) (order : ByteOrder)
  deriving DecidableEq, Repr

inductive ArrayReply where
  | done
  | written (flushes bytesWritten : Nat) (bytes : List UInt8)
  /-- The bytes left after reading, and what went wrong. -/
  | read (left : Nat) (failure : Option Error)
  /-- A slot is empty or holds something else than the step needs. -/
  | noSlot
  deriving DecidableEq, Repr

namespace ArrayState

def registry : RegistryId := 1

/-- The allocator that a step names; the shared one when it names none. -/
def allocator (s : ArrayState) (pool : Option Nat) : Allocator :=
  (pool.bind (s.pools[·]?)).getD .shared

def trackerOf? (s : ArrayState) : Watch → Option TrackerId
  | .record slot => (s.records.get? slot).map Record.tracker
  | .tracker slot => s.trackers.get? slot

def putValue (s : ArrayState) (slot : Nat) (v : FieldValue) (w : World) : ArrayState :=
  let w :=
    match s.values.get? slot with
    | none => w
    | some old => old.drop w
  { s with world := w, values := s.values.insert slot v }

def putView (s : ArrayState) (slot : Nat) (f : Frozen) (w : World) : ArrayState :=
  let w :=
    match s.views.get? slot with
    | none => w
    | some old => { w with store := w.store.drop old }
  { s with world := w, views := s.views.insert slot f }

def onValue (s : ArrayState) (slot : Nat) (change : Change (FieldValue × World) Unit) :
    Outcome ArrayState ArrayReply :=
  match s.values.get? slot with
  | none => .ok .noSlot s
  | some v =>
    match change (v, s.world) with
    | .ok () (v, w) => .ok .done { s with world := w, values := s.values.insert slot v }
    | .error e (v, w) => .error e { s with world := w, values := s.values.insert slot v }

/-- Replace the content of a value by what a change makes. -/
def install (make : Change Store Frozen) : Change (FieldValue × World) Unit
  | (v, w) =>
    match World.onStore make w with
    | .error e w => .error e (v, w)
    | .ok next w => FieldValue.replace next (v, w)

def outgoing (capacity : Nat) (order : ByteOrder) (direct : Bool) : Outgoing :=
  ⟨.empty capacity order, .stream { direct }⟩

def write (v : FieldValue) (w : World) (range : Option (Nat × Nat)) :
    Change Outgoing Unit := fun s =>
  let serialized :=
    match range with
    | none => v.serialize w s
    | some (offset, count) => v.serializeRange w offset count s
  match serialized with
  | .error e s => .error e s
  | .ok () s => Outgoing.finish s

def writtenReply : Outgoing → ArrayReply
  | ⟨_, .closed⟩ => .written 0 0 []
  | ⟨_, .stream w⟩ => .written w.flushes w.bytesWritten w.sink.stored.toList

def step (step : ArrayStep) : Change ArrayState ArrayReply := fun s =>
  match step with
  | .record slot name =>
    let (r, w) := Record.create name s.world
    .ok .done { s with world := w, records := s.records.insert slot r }
  | .freezeRecord slot =>
    match s.records.get? slot with
    | none => .ok .noSlot s
    | some r => .ok .done { s with world := r.freeze s.world }
  | .add slot value field =>
    match s.records.get? slot with
    | none => .ok .noSlot s
    | some r =>
      let (r, v, w) := r.add field s.world
      .ok .done ({ s with records := s.records.insert slot r }.putValue value v w)
  | .token slot source =>
    let made : Option (Token × World) :=
      match source with
      | .fresh => some s.world.newToken
      | .bare => some (.bare, s.world)
      | .childOf parent => (s.tokens.get? parent).map s.world.childToken
      | .copyOf other => (s.tokens.get? other).map fun t => (t, s.world)
    match made with
    | none => .ok .noSlot s
    | some (t, w) => .ok .done { s with world := w, tokens := s.tokens.insert slot t }
  | .freezeToken slot =>
    match s.tokens.get? slot with
    | none => .ok .noSlot s
    | some t => .ok .done { s with world := s.world.freezeToken t }
  | .tracker slot =>
    let (id, w) := s.world.newTracker
    .ok .done { s with world := w, trackers := s.trackers.insert slot id }
  | .post watch offset =>
    match s.trackerOf? watch with
    | none => .ok .noSlot s
    | some id => .ok .done { s with world := s.world.post id offset }
  | .clear watch =>
    match s.trackerOf? watch with
    | none => .ok .noSlot s
    | some id => .ok .done { s with world := s.world.clearTracker id }
  | .attach value token watch offset =>
    match s.values.get? value, s.tokens.get? token, s.trackerOf? watch with
    | some v, some t, some id =>
      let (v, w) := v.attach t ⟨id, offset⟩ s.world
      .ok .done { s with world := w, values := s.values.insert value v }
    | _, _, _ => .ok .noSlot s
  | .create value field pool =>
    let (v, w) := FieldValue.create field (s.allocator pool) s.world
    .ok .done (s.putValue value v w)
  | .growFrom value pool =>
    match s.values.get? value with
    | none => .ok .noSlot s
    | some v =>
      let (v, w) := v.growFrom (s.allocator pool) s.world
      .ok .done { s with world := w, values := s.values.insert value v }
  | .drop value =>
    match s.values.get? value with
    | none => .ok .noSlot s
    | some v => .ok .done { s with world := v.drop s.world, values := s.values.erase value }
  | .put value elements => s.onValue value (FieldValue.putFrom elements)
  | .replace value elements =>
    match s.values.get? value with
    | none => .ok .noSlot s
    | some v => s.onValue value (install (Store.ofList v.kind .shared elements))
  | .setLength value length => s.onValue value (FieldValue.setLength length)
  | .setCapacity value capacity => s.onValue value (FieldValue.setCapacity capacity)
  | .setCapacityMutable value on => s.onValue value (FieldValue.setCapacityMutable on)
  | .setImmutable value =>
    match s.values.get? value with
    | none => .ok .noSlot s
    | some v =>
      let (v, w) := v.setImmutable s.world
      .ok .done { s with world := w, values := s.values.insert value v }
  | .view value view =>
    match s.values.get? value with
    | none => .ok .noSlot s
    | some v =>
      let (f, w) := v.view s.world
      .ok .done (s.putView view f w)
  | .makeView view k elements =>
    match World.onStore (Store.ofList k .shared elements) s.world with
    | .error e w => .error e { s with world := w }
    | .ok f w => .ok .done (s.putView view f w)
  | .sliceView view offset count =>
    match s.views.get? view with
    | none => .ok .noSlot s
    | some f => .ok .done { s with views := s.views.insert view (f.slice offset count) }
  | .dropView view =>
    match s.views.get? view with
    | none => .ok .noSlot s
    | some f =>
      .ok .done
        { s with
          world := { s.world with store := s.world.store.drop f }
          views := s.views.erase view }
  | .swap value view =>
    match s.values.get? value, s.views.get? view with
    | some v, some f =>
      if v.kind ≠ f.kind then .ok .noSlot s
      else
        match FieldValue.swap (v, f, s.world) with
        | .ok () (v, f, w) =>
          .ok .done
            { s with world := w, values := s.values.insert value v, views := s.views.insert view f }
        | .error e (v, f, w) =>
          .error e
            { s with world := w, values := s.values.insert value v, views := s.views.insert view f }
    | _, _ => .ok .noSlot s
  | .install value view =>
    match s.values.get? value, s.views.get? view with
    | some v, some f =>
      if v.kind ≠ f.kind then .ok .noSlot s
      else s.onValue value (install fun store => .ok f (store.clone f))
    | _, _ => .ok .noSlot s
  | .serialize value capacity order direct range =>
    match s.values.get? value with
    | none => .ok .noSlot s
    | some v =>
      match write v s.world range (outgoing capacity order direct) with
      | .error e _ => .error e s
      | .ok () out => .ok (writtenReply out) s
  | .deserialize value bytes order =>
    match s.values.get? value with
    | none => .ok .noSlot s
    | some v =>
      match FieldValue.deserialize (v, s.world, ⟨.holding bytes order, .closed⟩) with
      | .ok () (v, w, input) =>
        .ok (.read input.buffer.remaining none)
          { s with world := w, values := s.values.insert value v }
      | .error e (v, w, input) =>
        .ok (.read input.buffer.remaining (some e))
          { s with world := w, values := s.values.insert value v }

/-- Writing an array out changes nothing, whether or not it succeeds. -/
theorem state_serialize (s : ArrayState) (value capacity : Nat) (order : ByteOrder) (direct : Bool)
    (range : Option (Nat × Nat)) :
    Outcome.state (step (.serialize value capacity order direct range) s) = s := by
  simp only [step]
  cases s.values.get? value with
  | none => rfl
  | some v =>
    simp only
    split <;> rfl

def same? (s : ArrayState) (a b : Nat) : Option Bool := do
  let x ← s.values.get? a
  let y ← s.values.get? b
  return x.same y s.world

def moved? (before after : ArrayState) (slot : Nat) : Option Bool := do
  let x ← before.values.get? slot
  let y ← after.values.get? slot
  return before.world.store.address x.value != after.world.store.address y.value

end ArrayState

end ArrayStore.Session
