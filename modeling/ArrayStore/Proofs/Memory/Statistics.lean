import ArrayStore.Proofs.Memory.HighWater

/-! What the statistics of a pool say.
A pool counts what it hands out and takes back twice, once for itself and once
for its statistics. Here the counts are held against what has happened to the
pool: how many requests were refused, how many were served when no block waited,
and how many blocks were out at the highest. Each request and each release keeps
the books right, also where a block goes back to the system. -/

namespace ArrayStore

namespace Pool

/-- The statistics of a pool that was stocked with `initial` blocks, has refused a number of
requests, has drawn a number of blocks on top of its stock, and has had `peak` blocks out at the
highest. -/
structure Reckoned (initial refused drawn peak : Nat) (p : Pool) : Prop where
  counted : p.counters.outstanding = p.outstanding
  allocations : p.counters.statistics.totalAllocations =
    p.counters.statistics.totalReleases + p.outstanding
  failures : p.counters.statistics.allocationFailures = refused
  peak_eq : p.counters.statistics.peakOutstanding = peak
  outstanding_le : p.outstanding ≤ peak
  blocks : p.outstanding + p.free.length + p.counters.statistics.evictions = initial + drawn

variable {p q : Pool} {s : System} {initial refused drawn peak : Nat}

theorem Stocked.reckoned (h : p.Stocked initial) : p.Reckoned initial 0 0 0 := by
  obtain ⟨outstanding, size, counters⟩ := h
  refine ⟨?_, ?_, ?_, ?_, Nat.le_of_eq outstanding, ?_⟩
  · rw [counters, outstanding]
  · rw [counters, outstanding]
  · rw [counters]
  · rw [counters]
  · rw [counters, outstanding, size]
    exact Nat.zero_add _

theorem Reckoned.refuse (h : p.Reckoned initial refused drawn peak) :
    p.refuse.Reckoned initial (refused + 1) drawn peak :=
  ⟨h.counted, h.allocations, congrArg Nat.succ h.failures, h.peak_eq, h.outstanding_le, h.blocks⟩

theorem Reckoned.handOut {free : List Spare} {more : Nat}
    (h : p.Reckoned initial refused drawn peak)
    (blocks : free.length + 1 = p.free.length + more) :
    ({ p with free }.handOut).Reckoned initial refused (drawn + more)
      (max peak (p.outstanding + 1)) := by
  have counted := h.counted
  have allocations := h.allocations
  have total := h.blocks
  refine ⟨?_, ?_, h.failures, ?_, Nat.le_max_right _ _, ?_⟩
  · exact congrArg Nat.succ counted
  · simp only [Pool.handOut, Counters.record]
    omega
  · simp only [Pool.handOut, Counters.record, counted, h.peak_eq]
  · simp only [Pool.handOut, Counters.record]
    omega

theorem Reckoned.alloc (h : p.Reckoned initial refused drawn peak) (elementSize count : Nat)
    (zero : Bool) :
    match Pool.alloc elementSize count zero (p, s) with
    | .ok _ (q, _) =>
      q.Reckoned initial refused (drawn + if p.free.length = 0 then 1 else 0)
        (max peak q.outstanding)
    | .error _ (q, _) => q.Reckoned initial (refused + 1) drawn peak := by
  cases run : Pool.alloc elementSize count zero (p, s) with
  | error e t =>
    simp only [(alloc_error run).1]
    exact h.refuse
  | ok spare t =>
    obtain ⟨-, -, ⟨fill, free, listed, same, -⟩ | ⟨empty, -, same⟩⟩ := alloc_ok run
    · have size : free.length + 1 = p.free.length := by rw [listed, List.length_cons]
      rw [if_neg (by omega)]
      simp only [same]
      exact h.handOut size
    · rw [empty, List.length_nil, if_pos rfl]
      simp only [same]
      exact h.handOut rfl

theorem Reckoned.takeBack (h : p.Reckoned initial refused drawn peak) (out : p.outstanding ≠ 0)
    (spare : Spare) :
    ({ p with
      outstanding := p.outstanding - 1
      free := spare :: p.free
      counters := p.counters.record .release } : Pool).Reckoned initial refused drawn peak := by
  have counted := h.counted
  have allocations := h.allocations
  have total := h.blocks
  refine ⟨?_, ?_, h.failures, h.peak_eq, Nat.le_trans (Nat.sub_le _ _) h.outstanding_le, ?_⟩
  · simp only [Counters.record, counted, if_neg out]
  · simp only [Counters.record]
    omega
  · simp only [Counters.record, List.length_cons]
    omega

theorem Reckoned.evict {spare : Spare} {free : List Spare}
    (h : p.Reckoned initial refused drawn peak) (listed : p.free = spare :: free) :
    ({ p with free, counters := p.counters.record .eviction } : Pool).Reckoned initial refused
      drawn peak := by
  have total := h.blocks
  refine ⟨h.counted, h.allocations, h.failures, h.peak_eq, h.outstanding_le, ?_⟩
  rw [listed, List.length_cons] at total
  simp only [Counters.record]
  omega

theorem Reckoned.returned (h : p.Reckoned initial refused drawn peak) (returned : p.Returned q) :
    q.Reckoned initial refused drawn peak := by
  obtain rfl | ⟨id, out, rfl⟩ := returned
  · exact h
  · by_cases room : p.free.length < p.limit
    · rw [release_of_room room]
      exact h.takeBack out _
    · rw [release_of_full room]
      exact (h.takeBack out ⟨id, none⟩).evict rfl

end Pool

namespace Allocators

/-- The statistics of a pool, as long as it stands. -/
def Reckons (id initial refused drawn peak : Nat) (m : Allocators) : Prop :=
  ∀ t, m.pools.get? id = some t → t.pool.Reckoned initial refused drawn peak

variable {m n : Allocators} {id initial refused drawn peak : Nat} {a : Allocator}

theorem snapshot_of_get? {t : Tenant} (found : m.pools.get? id = some t) :
    m.snapshot (.pool id) = t.pool.snapshot := by
  simp only [snapshot, pool?, found, Option.map_some, Option.elim_some]

theorem Reckons.max_numAllocs (h : m.Reckons id initial refused drawn peak) :
    max peak (m.snapshot (.pool id)).numAllocs = peak := by
  refine Nat.max_eq_left ?_
  cases found : m.pools.get? id with
  | none =>
    simp only [snapshot, pool?, found, Option.map_none, Option.elim_none]
    exact Nat.zero_le _
  | some t =>
    rw [snapshot_of_get? found]
    exact (h t found).outstanding_le

theorem Reckons.alloc (h : m.Reckons id initial refused drawn peak) (elementSize count : Nat)
    (zero : Bool) :
    match Allocators.alloc (.pool id) elementSize count zero m with
    | .ok _ n => n.Reckons id initial refused
      (drawn + if (m.snapshot (.pool id)).numFree = 0 then 1 else 0)
      (max peak (n.snapshot (.pool id)).numAllocs)
    | .error _ n => n.Reckons id initial (refused + 1) drawn peak := by
  cases found : m.pools.get? id with
  | none =>
    simp only [Allocators.alloc, found]
    intro t there
    rw [found] at there
    cases there
  | some t =>
    have served := (h t found).alloc elementSize count zero (s := m.system)
    rw [snapshot_of_get? found]
    simp only [Allocators.alloc, found]
    cases run : Pool.alloc elementSize count zero (t.pool, m.system) with
    | error e u =>
      rw [run] at served
      intro t' there
      rw [Table.get?_insert, if_pos rfl] at there
      cases there
      exact served
    | ok spare u =>
      rw [run] at served
      intro t' there
      rw [snapshot_of_get? there]
      rw [Table.get?_insert, if_pos rfl] at there
      cases there
      exact served

theorem alloc_apart (apart : a ≠ .pool id) (elementSize count : Nat) (zero : Bool) :
    (Outcome.state (alloc a elementSize count zero m)).pools.get? id = m.pools.get? id := by
  cases a with
  | shared =>
    simp only [alloc, allocShared]
    split
    · rfl
    · split <;> rfl
  | pool other =>
    have ne : id ≠ other := fun same => apart (congrArg _ same.symm)
    simp only [alloc]
    split
    · rfl
    · split
      · exact (Table.get?_insert ..).trans (if_neg ne)
      · exact (Table.get?_insert ..).trans (if_neg ne)

end Allocators

end ArrayStore
