import ArrayStore.Vector.Writable

/-! Frozen vectors, which share their storage.
Freezing a writable vector moves its storage into a cell; copies of the frozen
vector refer to the same cell, and the cell counts them. Thawing the only
reference takes the storage back; thawing one of several copies the visible
elements into a new block of the same allocator. -/

namespace ArrayStore

abbrev CellId := Nat

/-- A shared storage with the number of frozen vectors that refer to it. -/
structure Cell where
  storage : Storage
  holders : Nat
  deriving DecidableEq, Repr

structure Store where
  allocators : Allocators := {}
  cells : Table Cell := {}
  made : Nat := 0

structure Frozen where
  kind : Kind
  cell : Option CellId
  offset : Nat
  length : Nat
  deriving DecidableEq, Repr

namespace Frozen

def empty (k : Kind) : Frozen := ⟨k, none, 0, 0⟩

def slice (f : Frozen) (offset count : Nat) : Frozen :=
  let (skipped, length) := narrow f.length offset count
  { f with offset := f.offset + skipped, length }

end Frozen

namespace Store

def onAllocators {α : Type} (change : Change Allocators α) : Change Store α := fun s =>
  match s with
  | ⟨m, cells, made⟩ =>
    match change m with
    | .ok a m => .ok a ⟨m, cells, made⟩
    | .error e m => .error e ⟨m, cells, made⟩

def retain (s : Store) (a : Allocator) : Store := { s with allocators := s.allocators.retain a }

def letGo (s : Store) (a : Allocator) : Store := { s with allocators := s.allocators.letGo a }

def cell? (s : Store) (f : Frozen) : Option Cell := f.cell.bind s.cells.get?

def storage? (s : Store) (f : Frozen) : Option Storage := (s.cell? f).map Cell.storage

def values (s : Store) (f : Frozen) : List Scalar :=
  (s.storage? f).elim [] fun storage => storage.view f.offset f.length

/-- Elements that the storage holds from the start of the view. -/
def capacity (s : Store) (f : Frozen) : Nat :=
  (s.storage? f).elim 0 fun storage => storage.capacity - f.offset

def address (s : Store) (f : Frozen) : Option Address :=
  (s.storage? f).map fun storage => (storage.block.id, f.offset)

def owner? (s : Store) (f : Frozen) : Option Allocator :=
  (s.storage? f).map fun storage => storage.block.owner

def holders (s : Store) (f : Frozen) : Nat := (s.cell? f).elim 0 Cell.holders

def unique (s : Store) (f : Frozen) : Bool := (s.cell? f).elim true fun c => c.holders == 1

def clone (s : Store) (f : Frozen) : Store :=
  match f.cell with
  | none => s
  | some id => { s with cells := s.cells.modify id fun c => { c with holders := c.holders + 1 } }

/-- Count one reference less. The last one gives the block back. -/
def drop (s : Store) (f : Frozen) : Store :=
  match f.cell with
  | none => s
  | some id =>
    match s.cells.get? id with
    | none => s
    | some c =>
      if c.holders ≤ 1 then
        { s with allocators := (s.allocators.release c.storage.block).1, cells := s.cells.erase id }
      else { s with cells := s.cells.insert id { c with holders := c.holders - 1 } }

def dropWritable (s : Store) (w : Writable) : Store :=
  { s with allocators := w.drop s.allocators }

def freeze (s : Store) (w : Writable) : Frozen × Store :=
  match w.storage with
  | none => (⟨w.kind, none, w.offset, w.length⟩, s.letGo w.allocator)
  | some storage =>
    (⟨w.kind, some s.made, w.offset, w.length⟩,
      { allocators := s.allocators.letGo w.allocator
        cells := s.cells.insert s.made ⟨storage, 1⟩
        made := s.made + 1 })

def emptyWritable (s : Store) (k : Kind) (a : Allocator) : Writable × Store :=
  let (w, m) := Writable.empty k a s.allocators
  (w, { s with allocators := m })

/-- A copy of the visible elements in a new block of the owner of the old one. -/
def copyOut (f : Frozen) (c : Cell) : Change Store Writable := fun s =>
  let owner := c.storage.block.owner
  if f.length = 0 then
    let (w, s) := s.emptyWritable f.kind owner
    .ok w s
  else
    match onAllocators (Storage.allocate owner f.kind f.length false) s with
    | .error e s => .error e s
    | .ok storage s =>
      let items := (c.storage.view f.offset f.length).toArray
      let (w, m) := Writable.ofStorage f.kind { storage with items } 0 f.length s.allocators
      .ok w { s with allocators := m }

/-- Make a frozen vector writable, in place when nothing else refers to its
block. The frozen vector is used up, also when this fails. Without a block the
new vector grows from `fallback`. -/
def thaw (f : Frozen) (fallback : Allocator) : Change Store Writable := fun s =>
  match f.cell.bind fun id => (s.cells.get? id).map fun c => (id, c) with
  | none =>
    let (w, s) := s.emptyWritable f.kind fallback
    .ok w s
  | some (id, c) =>
    if c.holders = 1 then
      let (w, m) := Writable.ofStorage f.kind c.storage f.offset f.length s.allocators
      .ok w { s with allocators := m, cells := s.cells.erase id }
    else
      match copyOut f c s with
      | .error e s => .error e (s.drop f)
      | .ok w s => .ok w (s.drop f)

def ofList (k : Kind) (a : Allocator) (values : List Scalar) : Change Store Frozen := fun s =>
  match onAllocators (Writable.ofList k a values) s with
  | .error e s => .error e s
  | .ok w s =>
    let (f, s) := s.freeze w
    .ok f s

def onWritable {α : Type} (change : Change (Writable × Allocators) α) :
    Change (Writable × Store) α
  | (w, ⟨m, cells, made⟩) =>
    match change (w, m) with
    | .ok a (w, m) => .ok a (w, ⟨m, cells, made⟩)
    | .error e (w, m) => .error e (w, ⟨m, cells, made⟩)

end Store

end ArrayStore
