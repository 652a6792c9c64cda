import ArrayStore.Value.Basic

/-! Runs of steps on one buffer and the channel behind it.
A step either touches the buffer alone, writes through it or reads through it.
Every step leaves a state, also when it fails. -/

namespace ArrayStore.Session

inductive StreamReply where
  | done
  | flag (value : Bool)
  | count (value : Nat)
  | scalar (value : Scalar)
  | scalars (values : List Scalar)
  | bytes (bytes : List UInt8)
  | text (value : String)
  | portion (taken : Bool) (bytes : List UInt8)
  | array (values : List Scalar) (capacity : Nat) (failure : Option Error)
  /-- The channel has no such step. -/
  | unsuited
  deriving DecidableEq, Repr

inductive BufferStep where
  | put (value : Scalar)
  | get (k : Kind)
  | putAll (values : List Scalar)
  | getAll (k : Kind) (count : Nat)
  | putBytes (bytes : List UInt8)
  | getBytes (count : Nat)
  | clear
  | flip
  | compact
  | position (n : Nat)
  | limit (n : Nat)
  | advance (n : Nat)
  | order (order : ByteOrder)
  | fill (byte : UInt8)
  deriving DecidableEq, Repr

inductive WriteStep where
  | size (n : Nat)
  | nullSize
  | text (s : String)
  | ensureRoom (n : Nat)
  | flush
  | direct (bytes : List UInt8)
  | array (k : Kind) (values : List Scalar)
  | range (k : Kind) (values : List Scalar) (offset count : Nat)
  | finish
  deriving DecidableEq, Repr

inductive ReadStep where
  | size
  | text
  | ensureRemaining (n : Nat)
  | ensureData (n : Nat)
  | direct (n : Nat)
  | array (k : Kind) (prior : List Scalar)
  deriving DecidableEq, Repr

def replying {σ α : Type} (reply : α → StreamReply) : Outcome σ α → Outcome σ StreamReply
  | .ok a s => .ok (reply a) s
  | .error e s => .error e s

def silent {σ : Type} (r : Outcome σ Unit) : Outcome σ StreamReply := replying (fun _ => .done) r

def BufferStep.run : BufferStep → Change Buffer StreamReply
  | .put value => fun b => silent (Buffer.put value b)
  | .get k => fun b => replying .scalar (Buffer.get k b)
  | .putAll values => fun b => silent (Buffer.putAll values b)
  | .getAll k count => fun b => replying .scalars (Buffer.getAll k count b)
  | .putBytes bytes => fun b => silent (Buffer.putBytes bytes b)
  | .getBytes count => fun b => replying .bytes (Buffer.getBytes count b)
  | .clear => fun b => .ok .done b.clear
  | .flip => fun b => .ok .done b.flip
  | .compact => fun b => .ok .done b.compact
  | .position n => fun b => silent (Buffer.setPosition n b)
  | .limit n => fun b => silent (Buffer.setLimit n b)
  | .advance n => fun b => silent (Buffer.advance n b)
  | .order o => fun b => .ok .done (b.withOrder o)
  | .fill byte => fun b => .ok .done (b.fill byte)

/-- A value of a field named `value` in a world of its own. -/
def loaded (k : Kind) (values : List Scalar) : Outcome (FieldValue × World) Unit :=
  let (v, w) := FieldValue.create ⟨"value", k⟩ .shared {}
  if values.isEmpty then .ok () (v, w) else FieldValue.putFrom values (v, w)

def WriteStep.run : WriteStep → Change Outgoing StreamReply
  | .size n => fun s => silent (Wire.writeSize n s)
  | .nullSize => fun s => silent (Wire.writeNullSize s)
  | .text value => fun s => silent (Wire.writeText value s)
  | .ensureRoom n => fun s => silent (Outgoing.ensureRoom n s)
  | .flush => fun s => silent (Outgoing.flush s)
  | .direct bytes => fun s => replying .flag (Outgoing.writeDirect bytes s)
  | .array k values => fun s =>
    match loaded k values with
    | .error e _ => .error e s
    | .ok () (v, w) => silent (v.serialize w s)
  | .range k values offset count => fun s =>
    match loaded k values with
    | .error e _ => .error e s
    | .ok () (v, w) => silent (v.serializeRange w offset count s)
  | .finish => fun s =>
    match s.outlet with
    | .closed => .ok .unsuited s
    | .stream _ => silent (Outgoing.finish s)

/-- Read an array into a value that holds `prior`, and show what it then holds. -/
def readInto (k : Kind) (prior : List Scalar) : Change Incoming StreamReply := fun s =>
  match loaded k prior with
  | .error e _ => .error e s
  | .ok () (v, w) =>
    match FieldValue.deserialize (v, w, s) with
    | .ok () (v, w, s) => .ok (.array (v.values w) (v.capacity w) none) s
    | .error e (v, w, s) => .ok (.array (v.values w) (v.capacity w) (some e)) s

def ReadStep.run : ReadStep → Change Incoming StreamReply
  | .size => fun s => replying .count (Wire.readSize s)
  | .text => fun s => replying .text (Wire.readText s)
  | .ensureRemaining n => fun s => silent (Incoming.ensureRemaining n s)
  | .ensureData n => fun s => silent (Incoming.ensureData n s)
  | .direct n => fun s =>
    match Incoming.readDirect n s with
    | .error e s => .error e s
    | .ok none s => .ok (.portion false (List.replicate n 0)) s
    | .ok (some bytes) s => .ok (.portion true bytes) s
  | .array k prior => readInto k prior

inductive Channel where
  | closed
  | idle
  | writing (writer : Writer)
  | reading (reader : Reader)

structure StreamState where
  buffer : Buffer
  channel : Channel

inductive StreamStep where
  | buffer (step : BufferStep)
  | write (step : WriteStep)
  | read (step : ReadStep)
  deriving DecidableEq, Repr

namespace StreamState

def channelOfOutlet (before : Channel) : Outlet → Channel
  | .closed => before
  | .stream w => .writing w

def channelOfInlet : Inlet → Channel
  | .closed => .closed
  | .idle => .idle
  | .stream r => .reading r

def outgoing? : StreamState → Option Outgoing
  | ⟨b, .closed⟩ | ⟨b, .idle⟩ => some ⟨b, .closed⟩
  | ⟨b, .writing w⟩ => some ⟨b, .stream w⟩
  | ⟨_, .reading _⟩ => none

def incoming? : StreamState → Option Incoming
  | ⟨b, .closed⟩ => some ⟨b, .closed⟩
  | ⟨b, .idle⟩ => some ⟨b, .idle⟩
  | ⟨b, .reading r⟩ => some ⟨b, .stream r⟩
  | ⟨_, .writing _⟩ => none

def step : StreamStep → Change StreamState StreamReply
  | .buffer step => fun ⟨b, channel⟩ =>
    match step.run b with
    | .ok reply b => .ok reply ⟨b, channel⟩
    | .error e b => .error e ⟨b, channel⟩
  | .write step => fun s =>
    match s.outgoing? with
    | none => .ok .unsuited s
    | some out =>
      match step.run out with
      | .ok reply ⟨b, outlet⟩ => .ok reply ⟨b, channelOfOutlet s.channel outlet⟩
      | .error e ⟨b, outlet⟩ => .error e ⟨b, channelOfOutlet s.channel outlet⟩
  | .read step => fun s =>
    match s.incoming? with
    | none => .ok .unsuited s
    | some input =>
      match step.run input with
      | .ok reply ⟨b, inlet⟩ => .ok reply ⟨b, channelOfInlet inlet⟩
      | .error e ⟨b, inlet⟩ => .error e ⟨b, channelOfInlet inlet⟩

end StreamState

end ArrayStore.Session
