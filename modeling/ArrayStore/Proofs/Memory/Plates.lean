import ArrayStore.Proofs.Memory.Passage

/-! What a pool is known by, and what puts one up.
A pool keeps its registry, its name and the size of its blocks for as long as it
stands. Main statements: an operation that builds no pool leaves each pool under
its plate or takes it down, and puts up none; an order for a pool puts up just
the one that it describes, and nothing if it is refused. -/

namespace ArrayStore

/-- What is said of a pool whatever is done with it. -/
structure Plate where
  registry : RegistryId
  name : String
  blockBytes : Nat
  deriving DecidableEq, Repr

def Tenant.plate (t : Tenant) : Plate := ⟨t.registry, t.pool.name, t.pool.blockBytes⟩

namespace Pool

variable {p q : Pool}

theorem Asked.plate (asked : p.Asked q) : q.name = p.name ∧ q.blockBytes = p.blockBytes := by
  obtain rfl | rfl | ⟨free, -, -, rfl⟩ | ⟨-, rfl⟩ := asked_cases asked <;> exact ⟨rfl, rfl⟩

theorem release_plate (p : Pool) (id : BlockId) :
    (p.release id).1.name = p.name ∧ (p.release id).1.blockBytes = p.blockBytes := by
  obtain ⟨counters, ⟨-, run⟩ | ⟨-, run⟩⟩ := p.release_cases id <;>
    · rw [run]
      exact ⟨rfl, rfl⟩

end Pool

namespace Allocators

def plate? (m : Allocators) (id : Nat) : Option Plate := (m.pools.get? id).map Tenant.plate

/-- No pool has been built in the meantime; each is gone or stands under its plate. -/
structure Since (n m : Allocators) : Prop where
  built : n.built = m.built
  plates : ∀ id, n.plate? id = none ∨ n.plate? id = m.plate? id

variable {m n o : Allocators} {id : Nat} {t : Tenant}

theorem Since.refl (m : Allocators) : m.Since m := ⟨rfl, fun _ => .inr rfl⟩

theorem Since.trans (second : o.Since n) (first : n.Since m) : o.Since m := by
  refine ⟨second.built.trans first.built, fun id => ?_⟩
  obtain gone | same := second.plates id
  · exact .inl gone
  · rw [same]
    exact first.plates id

theorem insert_since {q : Pool} (system : System) (found : m.pools.get? id = some t)
    (same : q.name = t.pool.name ∧ q.blockBytes = t.pool.blockBytes) :
    Since { m with system, pools := m.pools.insert id { t with pool := q } } m := by
  have plate : Tenant.plate { t with pool := q } = t.plate := by
    rw [Tenant.plate, same.1, same.2, Tenant.plate]
  refine ⟨rfl, fun other => .inr ?_⟩
  simp only [plate?, Table.get?_insert]
  split
  · next at_id => rw [at_id, found, Option.map_some, Option.map_some, plate]
  · rfl

theorem settle_since (m : Allocators) (id : Nat) : (m.settle id).Since m := by
  refine ⟨built_settle m id, fun other => ?_⟩
  cases found : (m.settle id).pools.get? other with
  | none => exact .inl (by rw [plate?, found, Option.map_none])
  | some t => exact .inr (by rw [plate?, plate?, found, settle_get? found])

theorem handles_since (m : Allocators) (id : Nat) (count : Nat → Nat) :
    Since { m with pools := m.pools.modify id fun t => { t with handles := count t.handles } }
      m := by
  refine ⟨rfl, fun other => .inr ?_⟩
  simp only [plate?, Table.get?_modify]
  split
  · rw [Option.map_map]
    rfl
  · rfl

theorem retain_since (m : Allocators) (a : Allocator) : (m.retain a).Since m := by
  cases a with
  | shared => exact .refl m
  | pool id => exact m.handles_since id (· + 1)

theorem letGo_since (m : Allocators) (a : Allocator) : (m.letGo a).Since m := by
  cases a with
  | shared => exact .refl m
  | pool id => exact (settle_since _ id).trans (m.handles_since id (· - 1))

theorem alloc_since (m : Allocators) (a : Allocator) (elementSize count : Nat) (zero : Bool) :
    (Outcome.state (alloc a elementSize count zero m)).Since m := by
  refine ⟨built_alloc m a elementSize count zero, fun id => ?_⟩
  cases a with
  | shared =>
    refine .inr ?_
    simp only [alloc, allocShared]
    split
    · rfl
    · split <;> rfl
  | pool other =>
    simp only [alloc]
    cases found : m.pools.get? other with
    | none => exact .inr rfl
    | some t =>
      have asked : t.pool.Asked (Outcome.state (Pool.alloc elementSize count zero
          (t.pool, m.system))).1 := .inr ⟨elementSize, count, zero, m.system, rfl⟩
      have same := asked.plate
      simp only
      cases run : Pool.alloc elementSize count zero (t.pool, m.system) with
      | ok spare p | error e p =>
        rw [run] at same
        exact (insert_since p.2 found same).plates id

theorem release_since (m : Allocators) (b : Block) : (m.release b).1.Since m := by
  unfold release
  split
  · exact .refl m
  · next id _ =>
    cases found : m.pools.get? id with
    | none => exact .refl m
    | some t =>
      exact (settle_since _ id).trans
        (insert_since m.system found (t.pool.release_plate b.id))

theorem buildPool_ok {registry : RegistryId} {name : String}
    {elementSize blockElements limit initial : Nat} {capped : Bool} {a : Allocator}
    (run : buildPool registry name elementSize blockElements limit initial capped m = .ok a n) :
    a = .pool m.built ∧ n.built = m.built + 1 ∧ ∀ id, n.plate? id =
      if id = m.built then some ⟨registry, name, elementSize * blockElements⟩ else m.plate? id := by
  unfold buildPool at run
  split at run
  · cases run
  · next pool system made =>
    cases run
    refine ⟨rfl, rfl, fun id => ?_⟩
    have plate : Tenant.plate ⟨pool, 1, registry⟩ =
        ⟨registry, name, elementSize * blockElements⟩ := by
      unfold Pool.create at made
      split at made
      · cases made
      · split at made
        · cases made
        · split at made
          · cases made
          · split at made
            · cases made
            · cases made
              rfl
    simp only [plate?, Table.get?_insert]
    split
    · rw [Option.map_some, plate]
    · rfl

theorem buildPool_error {registry : RegistryId} {name : String}
    {elementSize blockElements limit initial : Nat} {capped : Bool} {e : Error}
    (refused : buildPool registry name elementSize blockElements limit initial capped m =
      .error e n) : n.pools = m.pools ∧ n.built = m.built := by
  unfold buildPool at refused
  split at refused
  · cases refused
    exact ⟨rfl, rfl⟩
  · cases refused

end Allocators

inductive PoolOrder where
  /-- What a description asks for, for elements of one size. -/
  | described (config : PoolConfig) (elementSize : Nat)
  | pool (name : String) (elementSize blockElements limit initial : Nat) (capped : Bool)
  deriving DecidableEq, Repr

namespace PoolOrder

open Allocators (Lends)

def build (registry : RegistryId) : PoolOrder → Change Allocators Allocator
  | described config elementSize => Allocators.build registry config elementSize
  | pool name elementSize blockElements limit initial capped =>
    Allocators.buildPool registry name elementSize blockElements limit initial capped

def plate (registry : RegistryId) : PoolOrder → Plate
  | described config elementSize =>
    ⟨registry, config.name, elementSize * config.blockElements.getD 0⟩
  | pool name elementSize blockElements _ _ _ => ⟨registry, name, elementSize * blockElements⟩

variable {registry : RegistryId} {m n : Allocators} {a : Allocator} {e : Error}

theorem build_error {order : PoolOrder} (refused : order.build registry m = .error e n) :
    n.pools = m.pools ∧ n.built = m.built := by
  cases order with
  | pool => exact Allocators.buildPool_error refused
  | described config elementSize =>
    simp only [build, Allocators.build] at refused
    split at refused
    · cases refused
      exact ⟨rfl, rfl⟩
    · split at refused
      · cases refused
        exact ⟨rfl, rfl⟩
      · split at refused
        · cases refused
        · exact Allocators.buildPool_error refused

theorem build_ok {order : PoolOrder} (run : order.build registry m = .ok a n) :
    (a = .shared ∧ n = m) ∨ (a = .pool m.built ∧ n.built = m.built + 1 ∧ ∀ id, n.plate? id =
      if id = m.built then some (order.plate registry) else m.plate? id) := by
  cases order with
  | pool => exact .inr (Allocators.buildPool_ok run)
  | described config elementSize =>
    simp only [build, Allocators.build] at run
    split at run
    · cases run
    · split at run
      · cases run
      · split at run
        · cases run
          exact .inl ⟨rfl, rfl⟩
        · next elements fixed =>
          simp only [plate, fixed, Option.getD_some]
          exact .inr (Allocators.buildPool_ok run)

theorem build_lends {handles : List Allocator} {out : List Block} (h : m.Lends handles out)
    (registry : RegistryId) (order : PoolOrder) :
    match order.build registry m with
    | .ok a n => n.Lends (a :: handles) out
    | .error _ n => n.Lends handles out := by
  cases order with
  | described config elementSize => exact h.build registry config elementSize
  | pool name elementSize blockElements limit initial capped =>
    exact h.buildPool registry name elementSize blockElements limit initial capped

end PoolOrder

end ArrayStore
