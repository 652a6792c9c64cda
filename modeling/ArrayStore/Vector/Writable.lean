import ArrayStore.Vector.Storage

/-! Writable vectors.
A writable vector is the only one that refers to its storage. Growth beyond the
capacity takes a new block from the vector's allocator and moves the visible
elements over; shrinking only narrows the view. -/

namespace ArrayStore

structure Writable where
  kind : Kind
  storage : Option Storage
  offset : Nat
  length : Nat
  /-- Where the vector grows from. -/
  allocator : Allocator
  deriving DecidableEq, Repr

namespace Writable

def empty (k : Kind) (a : Allocator) (m : Allocators) : Writable × Allocators :=
  (⟨k, none, 0, 0, a⟩, m.retain a)

def ofStorage (k : Kind) (s : Storage) (offset length : Nat) (m : Allocators) :
    Writable × Allocators :=
  (⟨k, some s, offset, length, s.block.owner⟩, m.retain s.block.owner)

/-- Elements that fit without a new block. -/
def capacity (w : Writable) : Nat := w.storage.elim 0 fun s => s.capacity - w.offset

def values (w : Writable) : List Scalar := w.storage.elim [] fun s => s.view w.offset w.length

def address (w : Writable) : Option Address := w.storage.map fun s => (s.block.id, w.offset)

def ofList (k : Kind) (a : Allocator) (values : List Scalar) :
    Change Allocators Writable := fun m =>
  if values.isEmpty then
    let (w, m) := empty k a m
    .ok w m
  else
    let items := values.toArray
    match Storage.allocate a k items.size false m with
    | .error e m => .error e m
    | .ok s m =>
      let (w, m) := ofStorage k { s with items } 0 items.size m
      .ok w m

def blank (k : Kind) (a : Allocator) (length : Nat) (zero : Bool) :
    Change Allocators Writable := fun m =>
  if length = 0 then
    let (w, m) := empty k a m
    .ok w m
  else
    match Storage.allocate a k length zero m with
    | .error e m => .error e m
    | .ok s m =>
      let (w, m) := ofStorage k (s.fillBlank k 0 length) 0 length m
      .ok w m

def slice (w : Writable) (offset count : Nat) : Writable :=
  let (skipped, length) := narrow w.length offset count
  { w with offset := w.offset + skipped, length }

def store (w : Writable) (index : Nat) (values : List Scalar) : Writable :=
  match w with
  | ⟨kind, some ⟨block, capacity, items⟩, offset, length, allocator⟩ =>
    ⟨kind, some ⟨block, capacity, splice items (offset + index) values⟩, offset, length, allocator⟩
  | w => w

def set? (w : Writable) (index : Nat) (value : Scalar) : Option Writable :=
  if index < w.length then some (w.store index [value]) else none

/-- Make room for `capacity` elements without changing the length. -/
def reserve (capacity : Nat) : Change (Writable × Allocators) Unit
  | (w, m) =>
    if capacity ≤ w.capacity then .ok () (w, m)
    else
      match Storage.allocate w.allocator w.kind capacity false m with
      | .error e m => .error e (w, m)
      | .ok next m =>
        match w.storage with
        | none => .ok () ({ w with storage := some next, offset := 0 }, m)
        | some s =>
          let items := s.items.extract w.offset (w.offset + w.length)
          let grown := { w with storage := some { next with items }, offset := 0 }
          .ok () (grown, (m.release s.block).1)

def lengthen (w : Writable) (length : Nat) : Writable :=
  match w with
  | ⟨kind, some s, offset, old, allocator⟩ =>
    ⟨kind, some (s.fillBlank kind (offset + old) (offset + length)), offset, length, allocator⟩
  | w => { w with length }

/-- Change the length. New elements are blank, whatever the storage held there. -/
def resize (length : Nat) : Change (Writable × Allocators) Unit
  | (w, m) =>
    if length ≤ w.length then .ok () ({ w with length }, m)
    else
      match reserve length (w, m) with
      | .error e s => .error e s
      | .ok () (w, m) => .ok () (w.lengthen length, m)

def drop (w : Writable) (m : Allocators) : Allocators :=
  (w.storage.elim m fun s => (m.release s.block).1).letGo w.allocator

end Writable

end ArrayStore
