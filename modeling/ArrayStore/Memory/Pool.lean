import ArrayStore.Error
import ArrayStore.Memory.Counters
import ArrayStore.Memory.PoolConfig
import ArrayStore.Memory.System

/-! Pools of blocks of one size.
A request is served with a whole block: the one released last, or a new one
from the system. Requests beyond the block size are refused, and so is every
request of a capped pool that has `limit` blocks outstanding. A released block
stays in the pool while fewer than `limit` blocks wait there; else it goes back
to the system. -/

namespace ArrayStore

/-- A block with the byte that fills it, when that is known. -/
structure Spare where
  id : BlockId
  fill : Option UInt8
  deriving DecidableEq, Repr

/-- The largest number of bytes that a request can name. -/
def addressBound : Nat := UInt64.size

structure Pool where
  name : String
  elementSize : Nat
  blockElements : Nat
  limit : Nat
  capped : Bool
  /-- The blocks that wait to be handed out, the next one first. -/
  free : List Spare := []
  /-- The number of blocks handed out and not yet released. -/
  outstanding : Nat := 0
  counters : Counters := {}
  deriving DecidableEq, Repr

structure Snapshot where
  name : String := ""
  numAllocs : Nat := 0
  sizeAllocs : Nat := 0
  numFree : Nat := 0
  sizeFree : Nat := 0
  allocSize : Nat := 0
  fixedSize : Bool := false
  hasStats : Bool := false
  deriving DecidableEq, Repr, Inhabited

namespace Snapshot

def isIdle (s : Snapshot) : Bool := s.numAllocs == 0

def totalBytes (s : Snapshot) : Nat := s.sizeAllocs + s.sizeFree

def describe (s : Snapshot) : String :=
  "Name: " ++ (if s.name.isEmpty then "<unnamed>" else s.name) ++ "\n Size: "
    ++ (if s.fixedSize then toString s.allocSize else "dynamic") ++ "\n"
    ++ (if s.hasStats then
          s!" Alloc: {s.numAllocs} {s.sizeAllocs}\n Free : {s.numFree} {s.sizeFree}\n"
        else "")

end Snapshot

namespace Pool

def releasePattern : UInt8 := 0x1b

def blockBytes (p : Pool) : Nat := p.elementSize * p.blockElements

/-- The bytes that a request names; a product out of range counts as the largest one. -/
def requested (elementSize count : Nat) : Nat := min (elementSize * count) (addressBound - 1)

def create (name : String) (elementSize blockElements limit initial : Nat) (capped : Bool) :
    Change System Pool := fun s =>
  if elementSize = 0 ∨ blockElements = 0 then .error (.invalidParameter .emptyBlock) s
  else if limit < initial then .error (.invalidParameter (.stockBeyondLimit initial limit)) s
  else if addressBound ≤ elementSize * blockElements then
    .error (.invalidParameter .blockOverflow) s
  else
    match System.stock (elementSize * blockElements) initial [] s with
    | (none, s) =>
      .error (.allocationFailed name (elementSize * blockElements) .stockRefused) s
    | (some stock, s) =>
      .ok
        { name, elementSize, blockElements, limit, capped
          free := stock.map fun id => ⟨id, none⟩ } s

def refuse (p : Pool) : Pool := { p with counters := p.counters.record .failure }

def handOut (p : Pool) : Pool :=
  { p with outstanding := p.outstanding + 1, counters := p.counters.record .allocation }

def alloc (elementSize count : Nat) (zero : Bool) : Change (Pool × System) Spare
  | (p, s) =>
    let requested := requested elementSize count
    if p.blockBytes < requested then
      .error (.allocationFailed p.name requested (.exceedsBlock p.blockBytes)) (p.refuse, s)
    else if p.capped ∧ p.outstanding = p.limit then
      .error (.allocationFailed p.name requested (.capped p.limit)) (p.refuse, s)
    else
      match p.free with
      | spare :: free =>
        .ok (if zero then { spare with fill := some 0 } else spare) ({ p with free }.handOut, s)
      | [] =>
        match s.request p.blockBytes with
        | (some id, s) => .ok ⟨id, if zero then some 0 else none⟩ (p.handOut, s)
        | (none, s) =>
          .error (.allocationFailed p.name p.blockBytes .systemRefused) (p.refuse, s)

def release (p : Pool) (id : BlockId) : Pool × Bool :=
  let p :=
    { p with outstanding := p.outstanding - 1, counters := p.counters.record .release }
  if p.free.length < p.limit then ({ p with free := ⟨id, some releasePattern⟩ :: p.free }, false)
  else ({ p with counters := p.counters.record .eviction }, true)

def snapshot (p : Pool) : Snapshot where
  name := p.name
  numAllocs := p.outstanding
  sizeAllocs := p.outstanding * p.blockBytes
  numFree := p.free.length
  sizeFree := p.free.length * p.blockBytes
  allocSize := p.blockBytes
  fixedSize := true
  hasStats := true

end Pool

end ArrayStore
