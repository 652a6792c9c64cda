import ArrayStore.Memory.Basic
import ArrayStore.Scalar.Basic
import ArrayStore.Splice

/-! Element storage over a block.
A storage has room for `capacity` elements, of which the first `items.size` are
set. Vectors view a part of these; elements beside the view stay where they are
until they are overwritten. Elements are of the twelve kinds only. Each of these takes
at least a byte and no alignment that a block does not have, so storage of elements
without a size, and a refusal for their alignment, do not occur. -/

namespace ArrayStore

structure Storage where
  block : Block
  capacity : Nat
  items : Array Scalar
  deriving DecidableEq, Repr

namespace Storage

def allocate (a : Allocator) (k : Kind) (count : Nat) (zero : Bool) :
    Change Allocators Storage := fun m =>
  match Allocators.alloc a k.footprint count zero m with
  | .ok block m => .ok ⟨block, block.size / k.footprint, #[]⟩ m
  | .error e m => .error e m

def view (s : Storage) (offset length : Nat) : List Scalar :=
  (s.items.extract offset (offset + length)).toList

/-- Set the elements in `start .. stop` to blanks, and all before them that are not yet set. -/
def fillBlank (s : Storage) (k : Kind) (start stop : Nat) : Storage :=
  let size := s.items.size
  let again := List.replicate (min stop size - start) k.blank
  let fresh := Array.replicate (stop - size) k.blank
  { s with items := splice s.items start again ++ fresh }

end Storage

/-- Where the first element of a view lies: in which block, how many elements in. -/
abbrev Address := BlockId × Nat

/-- What a view makes of a narrower one, clamped to what there is. -/
def narrow (length offset count : Nat) : Nat × Nat :=
  let skipped := min offset length
  (skipped, min count (length - skipped))

theorem narrow_le (length offset count : Nat) :
    (narrow length offset count).1 + (narrow length offset count).2 ≤ length := by
  simp only [narrow]
  omega

end ArrayStore
