import ArrayStore.Proofs.Memory.Books
import ArrayStore.Session.Pool

/-! Safety of pools over runs of requests and releases.
Any number of pools, slots and blocks, in any order, on a system that refuses
what it likes. Main statement: what waits and what is out is distinct and within
the limit of its pool, and a request is served exactly if the pool has room and
a block can be had. What the blocks contain is not said. -/

namespace ArrayStore.Session

namespace PoolState

structure Sound (s : PoolState) : Prop where
  slots_sorted : s.slots.Sorted
  blocks_sorted : s.blocks.Sorted
  lends : s.allocators.Lends (s.slots.values.map PoolSlot.allocator) s.blocks.values

variable {s : PoolState} {m : Allocators}

theorem sound_start (system : System) (registry : RegistryId) :
    Sound { allocators := { system }, registry } := ⟨.nil, .nil, Allocators.lends_nil system⟩

theorem put_sound (h : s.Sound) (slot : Nat) (a : PoolSlot)
    (lends : m.Lends (a.allocator :: s.slots.values.map PoolSlot.allocator) s.blocks.values) :
    (s.put slot a m).Sound := by
  have after := (Table.values_insert_perm h.slots_sorted slot a).map PoolSlot.allocator
  refine ⟨Table.insert_sorted h.slots_sorted slot a, h.blocks_sorted, ?_⟩
  unfold put
  cases found : s.slots.get? slot with
  | none =>
    rw [Table.erase_of_get?_eq_none found] at after
    exact lends.perm after.symm (.refl _)
  | some old =>
    have before := (Table.values_perm_of_get? h.slots_sorted found).map PoolSlot.allocator
    -- The old handle goes when the new one is there.
    have both := lends.perm ((before.cons a.allocator).trans (.swap ..)) (.refl _)
    exact both.letGo.perm after.symm (.refl _)

theorem giveBack_lends {handles : List Allocator} {block : Nat} {b : Block} (h : s.Sound)
    (lends : m.Lends handles (b :: s.blocks.values)) :
    (giveBack m (s.blocks.get? block)).1.Lends handles (s.blocks.insert block b).values := by
  have after := Table.values_insert_perm h.blocks_sorted block b
  cases found : s.blocks.get? block with
  | none =>
    rw [Table.erase_of_get?_eq_none found] at after
    exact lends.perm (.refl _) after.symm
  | some old =>
    have before := Table.values_perm_of_get? h.blocks_sorted found
    have both := lends.perm (.refl _) ((before.cons b).trans (.swap ..))
    exact both.release.perm (.refl _) after.symm

theorem alloc_sound {slot block elementSize count : Nat} {zero : Bool} (h : s.Sound) :
    (Outcome.state (PoolState.step (.alloc slot block elementSize count zero) s)).Sound := by
  simp only [PoolState.step]
  split
  · exact h
  · next a found =>
    have served := h.lends.alloc a.allocator elementSize count zero
    split
    · next e m refused =>
      rw [refused] at served
      exact ⟨h.slots_sorted, h.blocks_sorted, served⟩
    · next b m given =>
      rw [given] at served
      have sound : Sound { s with
          allocators := (giveBack m (s.blocks.get? block)).1
          blocks := s.blocks.insert block b } :=
        ⟨h.slots_sorted, Table.insert_sorted h.blocks_sorted block b, giveBack_lends h served.1⟩
      split
      · exact sound
      · exact ⟨sound.slots_sorted, sound.blocks_sorted, sound.lends⟩

theorem step_sound (h : s.Sound) (step : PoolStep) :
    (Outcome.state (PoolState.step step s)).Sound := by
  cases step with
  | build slot config elementSize =>
    have built := h.lends.build s.registry config elementSize
    simp only [PoolState.step]
    split
    · next e m failed =>
      rw [failed] at built
      exact ⟨h.slots_sorted, h.blocks_sorted, built⟩
    · next a m made =>
      rw [made] at built
      exact put_sound h slot ⟨a, false⟩ built
  | freelist slot name elementSize blockElements limit initial capped =>
    have built := h.lends.buildPool s.registry name elementSize blockElements limit initial capped
    simp only [PoolState.step]
    split
    · next e m failed =>
      rw [failed] at built
      exact ⟨h.slots_sorted, h.blocks_sorted, built⟩
    · next a m made =>
      rw [made] at built
      exact put_sound h slot ⟨a, true⟩ built
  | shared slot => exact put_sound h slot ⟨.shared, false⟩ (h.lends.retain trivial)
  | alloc slot block elementSize count zero => exact alloc_sound h
  | write block byte =>
    simp only [PoolState.step]
    split
    · exact h
    · next b found =>
      have before := Table.values_perm_of_get? h.blocks_sorted found
      have after := Table.values_insert_perm h.blocks_sorted block { b with fill := some byte }
      refine ⟨h.slots_sorted, Table.insert_sorted h.blocks_sorted block _, ?_⟩
      exact ((h.lends.perm (.refl _) before).overwrite (some byte)).perm (.refl _) after.symm
  | release block =>
    simp only [PoolState.step]
    split
    · exact h
    · next b found =>
      have before := Table.values_perm_of_get? h.blocks_sorted found
      exact ⟨h.slots_sorted, Table.erase_sorted h.blocks_sorted block,
        (h.lends.perm (.refl _) before).release⟩
  | drop slot =>
    simp only [PoolState.step]
    split
    · exact h
    · next a found =>
      have before := (Table.values_perm_of_get? h.slots_sorted found).map PoolSlot.allocator
      exact ⟨Table.erase_sorted h.slots_sorted slot, h.blocks_sorted,
        (h.lends.perm before (.refl _)).letGo⟩

theorem runAll_sound (h : s.Sound) (steps : List PoolStep) : (s.runAll steps).Sound := by
  induction steps generalizing s with
  | nil => exact h
  | cons step steps ih => exact ih (step_sound h step)

def lent (s : PoolState) (id : Nat) : List Block := s.blocks.values.filter (Block.isOf id)

/-- Whatever was requested, released and refused before: the blocks of a pool are
distinct and within its limit, those that are out are counted and have its size, and
the next request is served exactly if it can be, with a block that is not out. -/
theorem runAll_pools_safe (system : System) (registry : RegistryId) (steps : List PoolStep) :
    let s := PoolState.runAll { allocators := { system }, registry } steps
    ∀ id t, s.allocators.pools.get? id = some t →
      (t.pool.spares ++ (s.lent id).map Block.id).Nodup ∧
      t.pool.outstanding = (s.lent id).length ∧
      t.pool.free.length ≤ t.pool.limit ∧
      (t.pool.capped = true → t.pool.outstanding + t.pool.free.length ≤ t.pool.limit) ∧
      (∀ b ∈ s.lent id, 0 < t.pool.outstanding ∧ b.size = t.pool.blockBytes) ∧
      ∀ elementSize count zero,
        match Allocators.alloc (.pool id) elementSize count zero s.allocators with
        | .ok b _ =>
          t.pool.Serves s.allocators.system (elementSize * count) ∧
            b.id ∉ s.blocks.values.map Block.id
        | .error _ m =>
          ¬t.pool.Serves s.allocators.system (elementSize * count) ∧
            ∃ u, m.pools.get? id = some u ∧ u.pool.free = t.pool.free ∧
              u.pool.outstanding = t.pool.outstanding := by
  intro s id t found
  have sound : s.Sound := runAll_sound (sound_start system registry) steps
  have tallies := sound.lends.tallies id t found
  have count : t.pool.outstanding = (s.lent id).length :=
    tallies.lent.trans List.countP_eq_length_filter
  refine ⟨sound.lends.distinct found, count, tallies.balanced.kept, tallies.balanced.within,
    fun b member => ?_, fun elementSize n zero => ?_⟩
  · obtain ⟨out, own⟩ := List.mem_filter.1 member
    exact ⟨count ▸ List.length_pos_of_mem member, tallies.sized b out (Block.isOf_iff.1 own)⟩
  · have serves := sound.lends.alloc_pool found elementSize n zero
    have lends := sound.lends.alloc (.pool id) elementSize n zero
    cases run : Allocators.alloc (.pool id) elementSize n zero s.allocators with
    | ok b m =>
      rw [run] at serves lends
      exact ⟨serves, lends.1.fresh⟩
    | error e m =>
      rw [run] at serves
      exact serves

/-- A capped pool on a system that refuses its second request: the block of the
initial stock is out, a second one is not to be had, and the count stays right. -/
theorem runAll_pools_safe_refused :
    let system : System := { grants := fun i _ => i != 1 }
    let s := PoolState.runAll { allocators := { system }, registry := 1 }
      [.freelist 0 "small" 8 2 2 1 true, .alloc 0 0 8 2 false, .alloc 0 1 8 1 false]
    ∃ t, s.allocators.pools.get? 0 = some t ∧
      (t.pool.spares ++ (s.lent 0).map Block.id).Nodup ∧
      t.pool.outstanding = 1 ∧ (s.lent 0).length = 1 ∧ t.pool.free.length ≤ t.pool.limit ∧
      t.pool.Serves s.allocators.system 16 ∧ ¬t.pool.Serves s.allocators.system 17 := by
  intro system s
  have safe := runAll_pools_safe system 1
    [.freelist 0 "small" 8 2 2 1 true, .alloc 0 0 8 2 false, .alloc 0 1 8 1 false] 0 _ rfl
  obtain ⟨distinct, count, kept, -, -, serves⟩ := safe
  exact ⟨_, rfl, distinct, rfl, rfl, kept, (serves 8 2 false).1, (serves 17 1 false).1⟩

end PoolState

end ArrayStore.Session
