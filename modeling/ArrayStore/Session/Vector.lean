import ArrayStore.Vector.Frozen

/-! Runs of steps on slots that hold vectors of one kind.
A step that makes a vector drops what its slot held before, once the new vector
is there; a step that fails leaves the slots as they were, except that a vector
is gone when thawing used it up or when it was taken out to be exchanged with
that of an empty slot. -/

namespace ArrayStore.Session

inductive VectorSlot where
  | writable (vector : Writable)
  | frozen (vector : Frozen)
  deriving DecidableEq, Repr

structure VectorState where
  kind : Kind
  store : Store := {}
  /-- The allocators that steps name by their place. -/
  pools : List Allocator := []
  slots : Table VectorSlot := {}

inductive VectorReply where
  | done
  | outOfRange
  /-- The slot is empty or holds a vector of the other form. -/
  | noSlot
  deriving DecidableEq, Repr

inductive VectorStep where
  | create (slot : Nat) (pool : Option Nat)
  | ofList (slot : Nat) (values : List Scalar) (pool : Option Nat)
  | frozenOfList (slot : Nat) (values : List Scalar)
  | emptyFrozen (slot : Nat)
  | blank (slot length : Nat) (zero : Bool) (pool : Option Nat)
  | freeze (slot : Nat)
  | thaw (slot : Nat) (pool : Option Nat)
  | clone (slot other : Nat)
  | drop (slot : Nat)
  | slice (slot offset count : Nat)
  | reserve (slot capacity : Nat)
  | resize (slot length : Nat)
  | set (slot index : Nat) (value : Scalar)
  | swap (slot other : Nat)
  deriving DecidableEq, Repr

namespace VectorState

def registry : RegistryId := 1

def allocator (s : VectorState) (pool : Option Nat) : Allocator :=
  (pool.bind (s.pools[·]?)).getD .shared

def discard (store : Store) : Option VectorSlot → Store
  | none => store
  | some (.writable w) => store.dropWritable w
  | some (.frozen f) => store.drop f

def put (s : VectorState) (slot : Nat) (vector : VectorSlot) (store : Store) : VectorState :=
  { s with store := discard store (s.slots.get? slot), slots := s.slots.insert slot vector }

def make (s : VectorState) (slot : Nat) (r : Outcome Store VectorSlot) :
    Outcome VectorState VectorReply :=
  match r with
  | .ok vector store => .ok .done (s.put slot vector store)
  | .error e store => .error e { s with store }

def change (s : VectorState) (slot : Nat) (w : Writable)
    (change : Change (Writable × Allocators) Unit) : Outcome VectorState VectorReply :=
  match Store.onWritable change (w, s.store) with
  | .ok () (w, store) =>
    .ok .done { s with store, slots := s.slots.insert slot (.writable w) }
  | .error e (w, store) => .error e { s with store, slots := s.slots.insert slot (.writable w) }

def asWritable : Outcome Store Writable → Outcome Store VectorSlot
  | .ok w store => .ok (.writable w) store
  | .error e store => .error e store

def asFrozen : Outcome Store Frozen → Outcome Store VectorSlot
  | .ok f store => .ok (.frozen f) store
  | .error e store => .error e store

def step (step : VectorStep) : Change VectorState VectorReply := fun s =>
  match step with
  | .create slot pool =>
    let (w, store) := s.store.emptyWritable s.kind (s.allocator pool)
    .ok .done (s.put slot (.writable w) store)
  | .ofList slot values pool =>
    s.make slot (asWritable
      (Store.onAllocators (Writable.ofList s.kind (s.allocator pool) values) s.store))
  | .frozenOfList slot values =>
    s.make slot (asFrozen (Store.ofList s.kind .shared values s.store))
  | .emptyFrozen slot => .ok .done (s.put slot (.frozen (.empty s.kind)) s.store)
  | .blank slot length zero pool =>
    s.make slot (asWritable
      (Store.onAllocators (Writable.blank s.kind (s.allocator pool) length zero) s.store))
  | .freeze slot =>
    match s.slots.get? slot with
    | some (.writable w) =>
      let (f, store) := s.store.freeze w
      .ok .done { s with store, slots := s.slots.insert slot (.frozen f) }
    | _ => .ok .noSlot s
  | .thaw slot pool =>
    match s.slots.get? slot with
    | some (.frozen f) =>
      match Store.thaw f (s.allocator pool) s.store with
      | .ok w store => .ok .done { s with store, slots := s.slots.insert slot (.writable w) }
      | .error e store => .error e { s with store, slots := s.slots.erase slot }
    | _ => .ok .noSlot s
  | .clone slot other =>
    match s.slots.get? slot with
    | some (.frozen f) => .ok .done (s.put other (.frozen f) (s.store.clone f))
    | _ => .ok .noSlot s
  | .drop slot =>
    match s.slots.get? slot with
    | some vector =>
      .ok .done { s with store := discard s.store (some vector), slots := s.slots.erase slot }
    | none => .ok .noSlot s
  | .slice slot offset count =>
    match s.slots.get? slot with
    | some (.writable w) =>
      .ok .done { s with slots := s.slots.insert slot (.writable (w.slice offset count)) }
    | some (.frozen f) =>
      .ok .done { s with slots := s.slots.insert slot (.frozen (f.slice offset count)) }
    | none => .ok .noSlot s
  | .reserve slot capacity =>
    match s.slots.get? slot with
    | some (.writable w) => s.change slot w (Writable.reserve capacity)
    | _ => .ok .noSlot s
  | .resize slot length =>
    match s.slots.get? slot with
    | some (.writable w) => s.change slot w (Writable.resize length)
    | _ => .ok .noSlot s
  | .set slot index value =>
    match s.slots.get? slot with
    | some (.writable w) =>
      match w.set? index value with
      | some w => .ok .done { s with slots := s.slots.insert slot (.writable w) }
      | none => .ok .outOfRange s
    | _ => .ok .noSlot s
  | .swap slot other =>
    match s.slots.get? slot, (s.slots.erase slot).get? other with
    | some (.writable a), some (.writable b) =>
      .ok .done { s with slots := (s.slots.insert slot (.writable b)).insert other (.writable a) }
    | some (.frozen a), some (.frozen b) =>
      .ok .done { s with slots := (s.slots.insert slot (.frozen b)).insert other (.frozen a) }
    | some a, none =>
      .ok .noSlot { s with store := discard s.store (some a), slots := s.slots.erase slot }
    | _, _ => .ok .noSlot s

def runAll (s : VectorState) (steps : List VectorStep) : VectorState :=
  steps.foldl (fun s t => Outcome.state (step t s)) s

def valuesOf (s : VectorState) : VectorSlot → List Scalar
  | .writable w => w.values
  | .frozen f => s.store.values f

def addressOf (s : VectorState) : VectorSlot → Option Address
  | .writable w => w.address
  | .frozen f => s.store.address f

def same? (s : VectorState) (a b : Nat) : Option Bool :=
  match s.slots.get? a, s.slots.get? b with
  | some (.writable x), some (.writable y) => some (Scalar.sameAll x.values y.values)
  | some (.frozen x), some (.frozen y) =>
    some (Scalar.sameAll (s.store.values x) (s.store.values y))
  | _, _ => none

def aliased? (s : VectorState) (a b : Nat) : Option Bool := do
  let x ← s.slots.get? a
  let y ← s.slots.get? b
  return s.addressOf x == s.addressOf y

def moved? (before after : VectorState) (slot : Nat) : Option Bool := do
  let x ← before.slots.get? slot
  let y ← after.slots.get? slot
  return before.addressOf x != after.addressOf y

end VectorState

/-- Build pools for elements of given sizes, in order; the first failure counts. -/
def buildPools (registry : RegistryId) :
    List (PoolConfig × Nat) → Allocators → Except Error (List Allocator × Allocators)
  | [], m => .ok ([], m)
  | (config, size) :: rest, m =>
    match Allocators.build registry config size m with
    | .error e _ => .error e
    | .ok a m =>
      match buildPools registry rest m with
      | .error e => .error e
      | .ok (pools, m) => .ok (a :: pools, m)

end ArrayStore.Session
