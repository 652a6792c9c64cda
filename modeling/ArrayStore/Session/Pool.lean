import ArrayStore.Memory.Basic

/-! Runs of steps on slots that hold allocators and blocks.
The blocks of a pool are numbered in the order in which it first hands them out. -/

namespace ArrayStore.Session

/-- An allocator in a slot. A pool that was built as such shows its inner measures. -/
structure PoolSlot where
  allocator : Allocator
  typed : Bool
  deriving DecidableEq, Repr

structure PoolState where
  allocators : Allocators := {}
  /-- The registry in which pools are built. -/
  registry : RegistryId := 1
  slots : Table PoolSlot := {}
  blocks : Table Block := {}
  /-- Which pools have handed out which blocks, in the order of the first time. -/
  seen : List (Nat × BlockId) := []

inductive PoolStep where
  | build (slot : Nat) (config : PoolConfig) (elementSize : Nat)
  | freelist (slot : Nat) (name : String) (elementSize blockElements limit initial : Nat)
      (capped : Bool)
  | shared (slot : Nat)
  | alloc (slot block elementSize count : Nat) (zero : Bool)
  | write (block : Nat) (byte : UInt8)
  | release (block : Nat)
  | drop (slot : Nat)
  deriving DecidableEq, Repr

inductive PoolReply where
  | done
  | evicted
  /-- A block, with the number that its pool gave it. -/
  | block (block : Block) (number : Option Nat)
  | noSlot
  deriving DecidableEq, Repr

namespace PoolState

def put (s : PoolState) (slot : Nat) (a : PoolSlot) (m : Allocators) : PoolState :=
  let m :=
    match s.slots.get? slot with
    | none => m
    | some old => m.letGo old.allocator
  { s with allocators := m, slots := s.slots.insert slot a }

def witness (seen : List (Nat × BlockId)) (pool : Nat) (id : BlockId) : List (Nat × BlockId) :=
  if seen.contains (pool, id) then seen else seen ++ [(pool, id)]

def numberOf (seen : List (Nat × BlockId)) (pool : Nat) (id : BlockId) : Nat :=
  (seen.filter fun e => e.1 == pool).idxOf (pool, id)

def giveBack (m : Allocators) : Option Block → Allocators × Bool
  | none => (m, false)
  | some b => m.release b

def step (step : PoolStep) : Change PoolState PoolReply := fun s =>
  match step with
  | .build slot config elementSize =>
    match Allocators.build s.registry config elementSize s.allocators with
    | .error e m => .error e { s with allocators := m }
    | .ok a m => .ok .done (s.put slot ⟨a, false⟩ m)
  | .freelist slot name elementSize blockElements limit initial capped =>
    match Allocators.buildPool s.registry name elementSize blockElements limit initial capped
        s.allocators with
    | .error e m => .error e { s with allocators := m }
    | .ok a m => .ok .done (s.put slot ⟨a, true⟩ m)
  | .shared slot => .ok .done (s.put slot ⟨.shared, false⟩ s.allocators)
  | .alloc slot block elementSize count zero =>
    match s.slots.get? slot with
    | none => .ok .noSlot s
    | some a =>
      match Allocators.alloc a.allocator elementSize count zero s.allocators with
      | .error e m => .error e { s with allocators := m }
      | .ok b m =>
        let (m, _) := giveBack m (s.blocks.get? block)
        let s := { s with allocators := m, blocks := s.blocks.insert block b }
        match b.owner with
        | .shared => .ok (.block b none) s
        | .pool id =>
          let seen := witness s.seen id b.id
          .ok (.block b (some (numberOf seen id b.id))) { s with seen }
  | .write block byte =>
    match s.blocks.get? block with
    | none => .ok .noSlot s
    | some b =>
      let b := { b with fill := some byte }
      .ok (.block b none) { s with blocks := s.blocks.insert block b }
  | .release block =>
    match s.blocks.get? block with
    | none => .ok .noSlot s
    | some b =>
      let (m, evicted) := s.allocators.release b
      .ok (if evicted then .evicted else .done)
        { s with allocators := m, blocks := s.blocks.erase block }
  | .drop slot =>
    match s.slots.get? slot with
    | none => .ok .noSlot s
    | some a =>
      .ok .done
        { s with allocators := s.allocators.letGo a.allocator, slots := s.slots.erase slot }

def runAll (s : PoolState) (steps : List PoolStep) : PoolState :=
  steps.foldl (fun s t => Outcome.state (step t s)) s

def processReport (s : PoolState) : String := s.allocators.report RegistryId.process

end PoolState

end ArrayStore.Session
