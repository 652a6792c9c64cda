import ArrayStore.Memory.Pool
import ArrayStore.Table

/-! The memory of a program: its allocators.
One allocator is shared by all and takes any size. The others are pools. A pool
lives as long as a handle refers to it or a block of it is outstanding; a
registry lists the live pools that were built in it, oldest first. -/

namespace ArrayStore

inductive Allocator where
  /-- The allocator that is always there. -/
  | shared
  | pool (id : Nat)
  deriving DecidableEq, Repr, Inhabited

structure Block where
  id : BlockId
  owner : Allocator
  size : Nat
  /-- The byte that fills the block, when that is known. -/
  fill : Option UInt8
  deriving DecidableEq, Repr

abbrev RegistryId := Nat

namespace RegistryId

/-- The registry of the whole process, which also lists the shared allocator. -/
def process : RegistryId := 0

end RegistryId

/-- A live pool: the pool, the number of handles on it and the registry it stands in. -/
structure Tenant where
  pool : Pool
  handles : Nat
  registry : RegistryId
  deriving Repr

structure Allocators where
  system : System := .machine
  pools : Table Tenant := {}
  built : Nat := 0

namespace Allocators

def sharedName : String := "Default Allocator"

def sharedSnapshot : Snapshot := { name := sharedName }

/-- Drop a pool that nothing refers to. -/
def settle (m : Allocators) (id : Nat) : Allocators :=
  match m.pools.get? id with
  | some t =>
    if t.handles = 0 ∧ t.pool.outstanding = 0 then { m with pools := m.pools.erase id } else m
  | none => m

def retain (m : Allocators) : Allocator → Allocators
  | .shared => m
  | .pool id => { m with pools := m.pools.modify id fun t => { t with handles := t.handles + 1 } }

def letGo (m : Allocators) : Allocator → Allocators
  | .shared => m
  | .pool id =>
    { m with pools := m.pools.modify id fun t => { t with handles := t.handles - 1 } }.settle id

def allocShared (elementSize count : Nat) (zero : Bool) : Change Allocators Block := fun m =>
  let size := elementSize * count
  if addressBound ≤ size then
    .error (.allocationFailed sharedName (addressBound - 1) .sizeOverflow) m
  else
    match m.system.request size with
    | (some id, system) => .ok ⟨id, .shared, size, if zero then some 0 else none⟩ { m with system }
    | (none, system) => .error (.allocationFailed sharedName size .systemRefused) { m with system }

def alloc (a : Allocator) (elementSize count : Nat) (zero : Bool) :
    Change Allocators Block := fun m =>
  match a with
  | .shared => allocShared elementSize count zero m
  | .pool id =>
    match m.pools.get? id with
    | none => .error (.allocationFailed "" (Pool.requested elementSize count) (.other "no pool")) m
    | some t =>
      match Pool.alloc elementSize count zero (t.pool, m.system) with
      | .ok spare (pool, system) =>
        .ok ⟨spare.id, .pool id, pool.blockBytes, spare.fill⟩
          { m with system, pools := m.pools.insert id { t with pool } }
      | .error e (pool, system) =>
        .error e { m with system, pools := m.pools.insert id { t with pool } }

/-- Take a block back. The flag says that a pool gave it back to the system. -/
def release (m : Allocators) (b : Block) : Allocators × Bool :=
  match b.owner with
  | .shared => (m, false)
  | .pool id =>
    match m.pools.get? id with
    | none => (m, false)
    | some t =>
      let (pool, evicted) := t.pool.release b.id
      ({ m with pools := m.pools.insert id { t with pool } }.settle id, evicted)

def buildPool (registry : RegistryId) (name : String)
    (elementSize blockElements limit initial : Nat) (capped : Bool) :
    Change Allocators Allocator := fun m =>
  match Pool.create name elementSize blockElements limit initial capped m.system with
  | .error e system => .error e { m with system }
  | .ok pool system =>
    .ok (.pool m.built)
      { system, pools := m.pools.insert m.built ⟨pool, 1, registry⟩, built := m.built + 1 }

def build (registry : RegistryId) (config : PoolConfig) (elementSize : Nat) :
    Change Allocators Allocator := fun m =>
  if elementSize = 0 then .error (.invalidParameter .emptyElement) m
  else
    match config.problem? with
    | some problem => .error (.invalidParameter problem) m
    | none =>
      match config.blockElements with
      | none => .ok .shared m
      | some elements =>
        buildPool registry config.name elementSize elements config.policy.limit
          config.initialCount config.policy.isCapped m

def pool? (m : Allocators) : Allocator → Option Pool
  | .shared => none
  | .pool id => (m.pools.get? id).map Tenant.pool

def name (m : Allocators) (a : Allocator) : String := (m.pool? a).elim sharedName Pool.name

def snapshot (m : Allocators) (a : Allocator) : Snapshot :=
  (m.pool? a).elim sharedSnapshot Pool.snapshot

def statistics? (m : Allocators) (a : Allocator) : Option Statistics :=
  (m.pool? a).map fun p => p.counters.statistics

def poolsOf (m : Allocators) (registry : RegistryId) : List Pool :=
  (m.pools.values.filter fun t => t.registry == registry).map Tenant.pool

def listed (m : Allocators) (registry : RegistryId) : List Snapshot :=
  (if registry = RegistryId.process then [sharedSnapshot] else [])
    ++ (m.poolsOf registry).map Pool.snapshot

def describe (m : Allocators) (a : Allocator) (elementSize : Nat) : String :=
  "VectorAllocator \x7b name: " ++ Text.quoted (m.name a) ++ ", element_size: "
    ++ toString elementSize ++ " \x7d"

def report (m : Allocators) (registry : RegistryId) : String :=
  "# Allocator info\n" ++ String.join ((m.listed registry).map Snapshot.describe)
    ++ "# End Allocator info\n"

end Allocators

end ArrayStore
