import ArrayStore.Proofs.Memory.Books

/-! One pool through the operations of the allocators.
Whatever is asked of the allocators, a pool that is there afterwards was there
before, unless it has just been built, and has served or refused one request,
or taken one block back, or nothing. Handles are left aside. What comes back takes
nothing from any pool. -/

namespace ArrayStore

namespace Pool

/-- A pool before and after at most one request. -/
def Asked (p q : Pool) : Prop :=
  q = p ∨ ∃ elementSize count zero s, q = (Outcome.state (alloc elementSize count zero (p, s))).1

/-- A pool before and after at most one of its blocks has come back. -/
def Returned (p q : Pool) : Prop := q = p ∨ ∃ id, p.outstanding ≠ 0 ∧ q = (p.release id).1

variable {p q : Pool} {id : BlockId}

theorem asked_cases (asked : p.Asked q) :
    q = p ∨ q = p.refuse ∨ (∃ free, p.free ≠ [] ∧ free.length + 1 = p.free.length ∧
      q = { p with free }.handOut) ∨ (p.free = [] ∧ q = p.handOut) := by
  obtain rfl | ⟨elementSize, count, zero, s, rfl⟩ := asked
  · exact .inl rfl
  · cases run : alloc elementSize count zero (p, s) with
    | error e t => exact .inr (.inl (alloc_error run).1)
    | ok spare t =>
      obtain ⟨-, -, ⟨fill, free, listed, same, -⟩ | ⟨empty, -, same⟩⟩ := alloc_ok run
      · refine .inr (.inr (.inl ⟨free, ?_, ?_, same⟩))
        · rw [listed]
          exact List.cons_ne_nil _ _
        · rw [listed, List.length_cons]
      · exact .inr (.inr (.inr ⟨empty, same⟩))

theorem Asked.measures (asked : p.Asked q) : q.limit = p.limit ∧ q.capped = p.capped := by
  obtain rfl | rfl | ⟨free, -, -, rfl⟩ | ⟨-, rfl⟩ := asked_cases asked
  · exact ⟨rfl, rfl⟩
  · exact ⟨rfl, rfl⟩
  · exact ⟨rfl, rfl⟩
  · exact ⟨rfl, rfl⟩

theorem Returned.measures (returned : p.Returned q) : q.limit = p.limit ∧ q.capped = p.capped := by
  obtain rfl | ⟨id, -, rfl⟩ := returned
  · exact ⟨rfl, rfl⟩
  · obtain ⟨counters, ⟨-, run⟩ | ⟨-, run⟩⟩ := p.release_cases id
    · rw [run]
      exact ⟨rfl, rfl⟩
    · rw [run]
      exact ⟨rfl, rfl⟩

theorem Balanced.asked (h : p.Balanced) (asked : p.Asked q) : q.Balanced := by
  obtain rfl | ⟨elementSize, count, zero, s, rfl⟩ := asked
  · exact h
  · cases run : Pool.alloc elementSize count zero (p, s) with
    | error e t =>
      have same := (alloc_error run).1
      simp only [Outcome.state_error, same]
      exact h.refuse
    | ok spare t => exact h.alloc run

theorem release_of_room (room : p.free.length < p.limit) :
    (p.release id).1 = { p with
      outstanding := p.outstanding - 1
      free := ⟨id, some releasePattern⟩ :: p.free
      counters := p.counters.record .release } := by
  simp only [release, if_pos room]

theorem release_of_full (full : ¬p.free.length < p.limit) :
    (p.release id).1 = { p with
      outstanding := p.outstanding - 1
      counters := (p.counters.record .release).record .eviction } := by
  simp only [release, if_neg full]

/-- A pool of which no block has been taken, nor been asked for in vain. Blocks may have come
back. -/
structure Undrawn (p q : Pool) : Prop where
  allocations : q.counters.statistics.totalAllocations = p.counters.statistics.totalAllocations
  failures : q.counters.statistics.allocationFailures = p.counters.statistics.allocationFailures
  outstanding : q.outstanding ≤ p.outstanding
  spares : p.spares ⊆ q.spares

theorem Undrawn.refl (p : Pool) : p.Undrawn p := ⟨rfl, rfl, Nat.le_refl _, List.Subset.refl _⟩

theorem release_undrawn (p : Pool) (id : BlockId) : p.Undrawn (p.release id).1 := by
  by_cases room : p.free.length < p.limit
  · rw [release_of_room room]
    exact ⟨rfl, rfl, Nat.sub_le _ _, List.subset_cons_self _ _⟩
  · rw [release_of_full room]
    exact ⟨rfl, rfl, Nat.sub_le _ _, List.Subset.refl _⟩

end Pool

namespace Allocators

/-- No block has been taken of any allocator. A pool may be gone. -/
structure Undrawn (m n : Allocators) : Prop where
  system : n.system = m.system
  pools : ∀ id t', n.pools.get? id = some t' →
    ∃ t, m.pools.get? id = some t ∧ t.pool.Undrawn t'.pool

theorem Undrawn.refl (m : Allocators) : m.Undrawn m := ⟨rfl, fun _ t found => ⟨t, found, .refl _⟩⟩

variable {m : Allocators} {a : Allocator} {b : Block} {id other : Nat} {t t' : Tenant}

theorem settle_get? (found : (m.settle other).pools.get? id = some t) :
    m.pools.get? id = some t := by
  unfold settle at found
  split at found
  · split at found
    · rw [Table.get?_erase] at found
      split at found
      · cases found
      · exact found
    · exact found
  · exact found

theorem built_settle (m : Allocators) (id : Nat) : (m.settle id).built = m.built := by
  unfold settle
  split
  · split <;> rfl
  · rfl

theorem built_letGo (m : Allocators) (a : Allocator) : (m.letGo a).built = m.built := by
  cases a with
  | shared => rfl
  | pool id => exact built_settle _ id

theorem built_release (m : Allocators) (b : Block) : (m.release b).1.built = m.built := by
  unfold release
  split
  · rfl
  · split
    · rfl
    · exact built_settle ..

theorem built_alloc (m : Allocators) (a : Allocator) (elementSize count : Nat) (zero : Bool) :
    (Outcome.state (alloc a elementSize count zero m)).built = m.built := by
  cases a with
  | shared =>
    simp only [alloc, allocShared]
    split
    · rfl
    · split <;> rfl
  | pool id =>
    simp only [alloc]
    split
    · rfl
    · split <;> rfl

theorem built_buildPool (m : Allocators) (registry : RegistryId) (name : String)
    (elementSize blockElements limit initial : Nat) (capped : Bool) :
    m.built ≤ (Outcome.state (buildPool registry name elementSize blockElements limit initial capped
      m)).built := by
  unfold buildPool
  split
  · exact Nat.le_refl _
  · exact Nat.le_succ _

theorem built_build (m : Allocators) (registry : RegistryId) (config : PoolConfig)
    (elementSize : Nat) :
    m.built ≤ (Outcome.state (build registry config elementSize m)).built := by
  unfold build
  split
  · exact Nat.le_refl _
  · split
    · exact Nat.le_refl _
    · split
      · exact Nat.le_refl _
      · exact built_buildPool ..

theorem letGo_pool (found : (m.letGo a).pools.get? id = some t') :
    ∃ t, m.pools.get? id = some t ∧ t'.pool = t.pool := by
  cases a with
  | shared => exact ⟨t', found, rfl⟩
  | pool other =>
    have there := settle_get? found
    rw [Table.get?_modify] at there
    split at there
    · obtain ⟨t, found', rfl⟩ := Option.map_eq_some_iff.1 there
      exact ⟨t, found', rfl⟩
    · exact ⟨t', there, rfl⟩

theorem alloc_pool (m : Allocators) (a : Allocator) (elementSize count : Nat) (zero : Bool)
    (id : Nat) :
    match alloc a elementSize count zero m with
    | .ok b n => ∀ t', n.pools.get? id = some t' →
      ∃ t, m.pools.get? id = some t ∧ t.pool.Asked t'.pool ∧
        ∀ i ∈ t.pool.spares, i ∈ t'.pool.spares ∨ (b.owner = .pool id ∧ b.id = i)
    | .error _ n => ∀ t', n.pools.get? id = some t' →
      ∃ t, m.pools.get? id = some t ∧ t.pool.Asked t'.pool ∧ t'.pool.spares = t.pool.spares := by
  cases a with
  | shared =>
    simp only [alloc, allocShared]
    by_cases large : addressBound ≤ elementSize * count
    · rw [if_pos large]
      exact fun t found => ⟨t, found, .inl rfl, rfl⟩
    · rw [if_neg large]
      obtain ⟨granted, -⟩ | refused := m.system.request_cases (elementSize * count)
      · rw [granted]
        exact fun t found => ⟨t, found, .inl rfl, fun i => .inl⟩
      · rw [refused]
        exact fun t found => ⟨t, found, .inl rfl, rfl⟩
  | pool other =>
    simp only [alloc]
    cases there : m.pools.get? other with
    | none => exact fun t found => ⟨t, found, .inl rfl, rfl⟩
    | some t =>
      simp only
      cases run : Pool.alloc elementSize count zero (t.pool, m.system) with
      | error e u =>
        obtain ⟨q, system⟩ := u
        obtain ⟨rfl, -⟩ := Pool.alloc_error run
        intro t' found
        simp only [Table.get?_insert] at found
        split at found
        · next same =>
          cases found
          exact ⟨t, same ▸ there, .inr ⟨elementSize, count, zero, m.system, by rw [run]; rfl⟩, rfl⟩
        · exact ⟨t', found, .inl rfl, rfl⟩
      | ok spare u =>
        obtain ⟨q, system⟩ := u
        intro t' found
        simp only [Table.get?_insert] at found
        split at found
        · next same =>
          cases found
          refine ⟨t, same ▸ there, .inr ⟨elementSize, count, zero, m.system, by rw [run]; rfl⟩,
            fun i member => ?_⟩
          obtain ⟨listed, -⟩ | ⟨kept, -, -⟩ := Pool.spares_alloc run
          · rw [listed] at member
            obtain rfl | member := List.mem_cons.1 member
            · exact .inr ⟨congrArg _ same.symm, rfl⟩
            · exact .inl member
          · exact .inl (kept ▸ member)
        · exact ⟨t', found, .inl rfl, fun i => .inl⟩

theorem release_pool (found : (m.release b).1.pools.get? id = some t') :
    ∃ t, m.pools.get? id = some t ∧ ((b.owner ≠ .pool id ∧ t'.pool = t.pool) ∨
      (b.owner = .pool id ∧ t'.pool = (t.pool.release b.id).1)) := by
  unfold release at found
  cases own : b.owner with
  | shared =>
    simp only [own] at found
    exact ⟨t', found, .inl ⟨by simp, rfl⟩⟩
  | pool other =>
    simp only [own] at found
    cases there : m.pools.get? other with
    | none =>
      simp only [there] at found
      refine ⟨t', found, .inl ⟨fun same => ?_, rfl⟩⟩
      rw [Allocator.pool.inj same, found] at there
      cases there
    | some t =>
      simp only [there] at found
      have kept := settle_get? found
      rw [Table.get?_insert] at kept
      split at kept
      · next same =>
        cases kept
        exact ⟨t, same ▸ there, .inr ⟨congrArg _ same.symm, rfl⟩⟩
      · next apart =>
        exact ⟨t', kept, .inl ⟨fun same => apart (Allocator.pool.inj same).symm, rfl⟩⟩

theorem system_settle (m : Allocators) (id : Nat) : (m.settle id).system = m.system := by
  unfold settle
  split
  · split <;> rfl
  · rfl

theorem system_letGo (m : Allocators) (a : Allocator) : (m.letGo a).system = m.system := by
  cases a with
  | shared => rfl
  | pool id => exact system_settle ..

theorem release_undrawn (m : Allocators) (b : Block) : m.Undrawn (m.release b).1 := by
  refine ⟨?_, fun id t' found => ?_⟩
  · unfold release
    split
    · rfl
    · split
      · rfl
      · exact system_settle ..
  · obtain ⟨t, there, ⟨-, same⟩ | ⟨-, same⟩⟩ := release_pool found
    · exact ⟨t, there, same ▸ .refl _⟩
    · exact ⟨t, there, same ▸ t.pool.release_undrawn b.id⟩

theorem buildPool_pool {registry : RegistryId} {name : String}
    {elementSize blockElements limit initial : Nat} {capped : Bool} (old : id < m.built)
    (found : (Outcome.state (buildPool registry name elementSize blockElements limit initial capped
      m)).pools.get? id = some t) : m.pools.get? id = some t := by
  unfold buildPool at found
  split at found
  · exact found
  · simp only [Outcome.state_ok, Table.get?_insert] at found
    rwa [if_neg (Nat.ne_of_lt old)] at found

theorem build_pool {registry : RegistryId} {config : PoolConfig} {elementSize : Nat}
    (old : id < m.built)
    (found : (Outcome.state (build registry config elementSize m)).pools.get? id = some t) :
    m.pools.get? id = some t := by
  unfold build at found
  split at found
  · exact found
  · split at found
    · exact found
    · split at found
      · exact found
      · exact buildPool_pool old found

end Allocators

end ArrayStore
