import ArrayStore.Memory.Basic

/-! Allocators that do not run out.
A borrower that trades each block for a larger one holds two blocks at a time
and some handles. A supply is what makes each of its requests succeed, and every
step of the borrower keeps it. What other borrowers may do to a supply is not
said. -/

namespace ArrayStore

theorem System.request_of_grants {s : System} {size : Nat} (low : size ≤ sizeBound)
    (granted : ∀ i, s.grants i size = true) :
    s.request size = (some s.requests, s.asks size) := by
  rw [request, if_pos (.inr ⟨low, granted _⟩)]

theorem sizeBound_lt_addressBound : System.sizeBound < addressBound := by decide

namespace Allocators

/-- What serves requests for up to `bytes` bytes by a borrower of `blocks`
blocks and `handles` handles. -/
inductive Supplies : Allocator → Nat → Nat → Nat → Allocators → Prop where
  | shared {bytes blocks handles : Nat} {m : Allocators} (low : bytes ≤ System.sizeBound)
    (granted : ∀ i n, n ≤ bytes → m.system.grants i n = true) :
    Supplies .shared bytes blocks handles m
  | pool {id bytes blocks handles : Nat} {m : Allocators} (t : Tenant)
    (alive : m.pools.get? id = some t) (held : handles < t.handles)
    (large : bytes ≤ t.pool.blockBytes) (low : t.pool.blockBytes ≤ System.sizeBound)
    (granted : ∀ i, m.system.grants i t.pool.blockBytes = true)
    (room : t.pool.capped = true →
      blocks ≤ t.pool.outstanding ∧ t.pool.outstanding + 2 ≤ t.pool.limit + blocks) :
    Supplies (.pool id) bytes blocks handles m

variable {a : Allocator} {bytes blocks handles : Nat} {m : Allocators}

theorem settle_insert (m : Allocators) (id : Nat) {t : Tenant} (system : System)
    (held : 0 < t.handles) :
    settle { m with system, pools := m.pools.insert id t } id =
      { m with system, pools := m.pools.insert id t } := by
  simp only [settle, Table.get?_insert, if_true]
  rw [if_neg (by omega)]

theorem Supplies.retain (h : Supplies a bytes blocks handles m) :
    Supplies a bytes blocks (handles + 1) (m.retain a) := by
  cases h with
  | shared low granted => exact .shared low granted
  | pool t alive held large low granted room =>
    refine .pool { t with handles := t.handles + 1 } ?_ (Nat.succ_lt_succ held) large low granted
      room
    simp only [Allocators.retain, Table.get?_modify, if_true, alive, Option.map_some]

theorem Supplies.letGo (h : Supplies a bytes blocks (handles + 1) m) :
    Supplies a bytes blocks handles (m.letGo a) := by
  cases h with
  | shared low granted => exact .shared low granted
  | @pool id _ _ _ _ t alive held large low granted room =>
    have found : (m.pools.modify id fun t => { t with handles := t.handles - 1 }).get? id =
        some { t with handles := t.handles - 1 } := by
      simp only [Table.get?_modify, if_true, alive, Option.map_some]
    have stays : ¬(t.handles - 1 = 0 ∧ t.pool.outstanding = 0) := by omega
    refine .pool { t with handles := t.handles - 1 } ?_ (by simp only; omega) large low ?_ room
    all_goals simp only [Allocators.letGo, settle, found, if_neg stays]
    exact granted

theorem Supplies.alloc {elementSize count : Nat} (zero : Bool)
    (h : Supplies a bytes blocks handles m) (few : blocks ≤ 1)
    (fits : elementSize * count ≤ bytes) :
    ∃ b n, Allocators.alloc a elementSize count zero m = .ok b n ∧ b.owner = a ∧
      elementSize * count ≤ b.size ∧ Supplies a bytes (blocks + 1) handles n := by
  have bound := sizeBound_lt_addressBound
  cases h with
  | shared low granted =>
    have served := System.request_of_grants (s := m.system) (Nat.le_trans fits low)
      fun i => granted i _ fits
    have within : ¬addressBound ≤ elementSize * count := by omega
    simp only [Allocators.alloc, allocShared, if_neg within, served]
    refine ⟨_, _, rfl, rfl, ?_, .shared low granted⟩
    exact Nat.le_refl _
  | @pool id _ _ _ _ t alive held large low granted room =>
    -- The old block is still out while the new one is asked for.
    have small : ¬t.pool.blockBytes < Pool.requested elementSize count := by
      simp only [Pool.requested]
      omega
    have uncapped : ¬(t.pool.capped = true ∧ t.pool.outstanding = t.pool.limit) := by
      intro full
      have left := room full.1
      omega
    have served := System.request_of_grants low granted
    have given : ∃ spare system, Pool.alloc elementSize count zero (t.pool, m.system) =
        .ok spare system ∧ system.1.blockBytes = t.pool.blockBytes ∧
        system.1.outstanding = t.pool.outstanding + 1 ∧ system.1.capped = t.pool.capped ∧
        system.1.limit = t.pool.limit ∧ system.2.grants = m.system.grants := by
      simp only [Pool.alloc, if_neg small, if_neg uncapped]
      cases free : t.pool.free with
      | nil => exact ⟨_, _, by simp only [served]; rfl, rfl, rfl, rfl, rfl, rfl⟩
      | cons spare free => exact ⟨_, _, rfl, rfl, rfl, rfl, rfl, rfl⟩
    obtain ⟨spare, ⟨pool, system⟩, run, same, more, capped, limit, grants⟩ := given
    simp only at same more capped limit grants
    simp only [Allocators.alloc, alive, run]
    refine ⟨_, _, rfl, rfl, ?_, .pool { t with pool } ?_ held ?_ ?_ ?_ ?_⟩
    · simp only [same]
      omega
    · simp only [Table.get?_insert, if_true]
    · simpa only [same] using large
    · simpa only [same] using low
    · simpa only [same, grants] using granted
    · intro full
      have left := room (capped ▸ full)
      simp only [more, limit]
      omega

theorem Supplies.release {b : Block} (h : Supplies a bytes (blocks + 1) handles m)
    (own : b.owner = a) : Supplies a bytes blocks handles (m.release b).1 := by
  cases h with
  | shared low granted =>
    simp only [Allocators.release, own]
    exact .shared low granted
  | @pool id _ _ _ _ t alive held large low granted room =>
    have back : ∃ pool evicted, t.pool.release b.id = (pool, evicted) ∧
        pool.blockBytes = t.pool.blockBytes ∧ pool.outstanding = t.pool.outstanding - 1 ∧
        pool.capped = t.pool.capped ∧ pool.limit = t.pool.limit := by
      simp only [Pool.release]
      split <;> exact ⟨_, _, rfl, rfl, rfl, rfl, rfl⟩
    obtain ⟨pool, evicted, run, same, less, capped, limit⟩ := back
    have stays : settle { m with pools := m.pools.insert id { t with pool } } id = _ :=
      settle_insert m id m.system (Nat.zero_lt_of_lt held)
    simp only [Allocators.release, own, alive, run]
    rw [stays]
    refine .pool { t with pool } ?_ held ?_ ?_ ?_ ?_
    · simp only [Table.get?_insert, if_true]
    · simpa only [same] using large
    · simpa only [same] using low
    · simpa only [same] using granted
    · intro full
      have left := room (capped ▸ full)
      simp only [less, limit]
      omega

theorem machine_supplies (small : bytes < 0x1000000000000)
    (machine : m.system.grants = System.machine.grants) :
    Supplies .shared bytes blocks handles m := by
  refine .shared (by simp only [System.sizeBound]; omega) fun i n low => ?_
  simp only [machine, System.machine, decide_eq_true_eq]
  omega

end Allocators

end ArrayStore
