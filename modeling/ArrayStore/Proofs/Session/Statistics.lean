import ArrayStore.Proofs.Memory.Statistics
import ArrayStore.Proofs.Session.HighWater

/-! Statistics of pools over runs of requests and releases.
The requests that steps make of a pool are read off the steps, with what the
pool answers and how many blocks are out after it. Main statement: from the
moment at which it is built, a pool's statistics say how often it has refused,
how many blocks have come back, how many were out at the highest, and how many
it has given away, whatever its policy and whatever the system refuses. -/

namespace ArrayStore.Session.PoolState

/-- The answer to the request that a step makes of a pool. -/
def request? (id : Nat) (s : PoolState) : PoolStep → Option (Outcome Allocators Block)
  | .alloc slot _ elementSize count zero =>
    match s.slots.get? slot with
    | none => none
    | some a =>
      if a.allocator = .pool id then
        some (Allocators.alloc (.pool id) elementSize count zero s.allocators)
      else none
  | _ => none

/-- A step asks a pool for a block and gets none. -/
def refuses (id : Nat) (moment : PoolState × PoolStep) : Bool :=
  match moment.1.request? id moment.2 with
  | some (.error ..) => true
  | _ => false

/-- A step asks a pool for a block and gets one while none waits. -/
def draws (id : Nat) (moment : PoolState × PoolStep) : Bool :=
  match moment.1.request? id moment.2 with
  | some (.ok ..) => (moment.1.allocators.snapshot (.pool id)).numFree == 0
  | _ => false

/-- How many blocks of a pool are out after the request that a step makes of it, if it makes one,
and after the step, which may give one back. -/
def levels (id : Nat) (moment : PoolState × PoolStep) : List Nat :=
  (((moment.1.request? id moment.2).map Outcome.state).toList ++
    [(Outcome.state (step moment.2 moment.1)).allocators]).map
      fun m => (m.snapshot (.pool id)).numAllocs

def trace (s : PoolState) : List PoolStep → List (PoolState × PoolStep)
  | [] => []
  | step :: steps => (s, step) :: trace (Outcome.state (PoolState.step step s)) steps

variable {s s' : PoolState} {m : Allocators} {id initial refused drawn peak : Nat}

/-- The books of a pool are right after a step if they were right before it and what the step asked
for and found has been added to them. -/
def Books (id initial : Nat) (moment : PoolState × PoolStep) : Prop :=
  ∀ refused drawn peak, moment.1.allocators.Reckons id initial refused drawn peak →
    (Outcome.state (step moment.2 moment.1)).allocators.Reckons id initial
      (refused + if refuses id moment then 1 else 0) (drawn + if draws id moment then 1 else 0)
      ((levels id moment).foldl max peak)

theorem giveBack_reckons {handles : List Allocator} {out : List Block} {old : Option Block}
    (h : m.Reckons id initial refused drawn peak) (lends : m.Lends handles out)
    (there : ∀ c ∈ old, c ∈ out) :
    (giveBack m old).1.Reckons id initial refused drawn peak := by
  intro t' found'
  obtain ⟨t, found, returned, -⟩ := giveBack_pool lends there found'
  exact (h t found).returned returned

theorem Sound.block_mem (h : s.Sound) (block : Nat) :
    ∀ c ∈ s.blocks.get? block, c ∈ s.blocks.values :=
  fun _ found => (Table.mem_values_iff h.blocks_sorted).2 ⟨block, found⟩

theorem books_unasked {step : PoolStep} (unasked : s.request? id step = none)
    (kept : ∀ refused drawn peak, s.allocators.Reckons id initial refused drawn peak →
      (Outcome.state (PoolState.step step s)).allocators.Reckons id initial refused drawn peak) :
    Books id initial (s, step) := by
  intro refused drawn peak h
  have after := kept refused drawn peak h
  simp only [refuses, draws, levels, unasked, Option.map_none, Option.toList_none,
    List.nil_append, List.map_cons, List.map_nil, List.foldl_cons, List.foldl_nil,
    after.max_numAllocs]
  exact after

theorem allocators_alloc {a : PoolSlot} {slot : Nat} (held : s.slots.get? slot = some a)
    (block elementSize count : Nat) (zero : Bool) :
    (Outcome.state (step (.alloc slot block elementSize count zero) s)).allocators =
      match Allocators.alloc a.allocator elementSize count zero s.allocators with
      | .error _ m => m
      | .ok _ m => (giveBack m (s.blocks.get? block)).1 := by
  simp only [step, held]
  cases Allocators.alloc a.allocator elementSize count zero s.allocators with
  | error e m => rfl
  | ok b m =>
    simp only
    split <;> rfl

theorem alloc_books (h : s.Sound) (slot block elementSize count : Nat) (zero : Bool) :
    Books id initial (s, .alloc slot block elementSize count zero) := by
  have there := h.block_mem block
  cases held : s.slots.get? slot with
  | none =>
    refine books_unasked (by simp only [request?, held]) fun _ _ _ right => ?_
    simp only [step, held]
    exact right
  | some a =>
    have served := h.lends.alloc a.allocator elementSize count zero
    have next := allocators_alloc held block elementSize count zero
    by_cases own : a.allocator = .pool id
    · intro refused drawn peak right
      have asked := right.alloc elementSize count zero
      simp only [own] at served next
      simp only [refuses, draws, levels, request?, held, if_pos own, next]
      cases run : Allocators.alloc (.pool id) elementSize count zero s.allocators with
      | error e m =>
        rw [run] at asked
        simp only [Option.map_some, Outcome.state_error, Option.toList_some, List.singleton_append,
          List.map_cons, List.map_nil, List.foldl_cons, List.foldl_nil, asked.max_numAllocs]
        exact asked
      | ok b m =>
        rw [run] at asked served
        have back := giveBack_reckons asked served.1 fun c found =>
          List.mem_cons_of_mem _ (there c found)
        simp only [Option.map_some, Outcome.state_ok, Option.toList_some, List.singleton_append,
          List.map_cons, List.map_nil, List.foldl_cons, List.foldl_nil, back.max_numAllocs,
          beq_iff_eq]
        exact back
    · refine books_unasked (by simp only [request?, held, if_neg own]) fun _ _ _ right => ?_
      have apart := Allocators.alloc_apart (m := s.allocators) own elementSize count zero
      simp only [next]
      cases run : Allocators.alloc a.allocator elementSize count zero s.allocators with
      | error e m =>
        rw [run] at apart
        exact fun t found => right t (apart ▸ found)
      | ok b m =>
        rw [run] at apart served
        exact giveBack_reckons (fun t found => right t (apart ▸ found)) served.1
          fun c found => List.mem_cons_of_mem _ (there c found)

theorem release_books (h : s.Sound) (block : Nat) : Books id initial (s, .release block) := by
  refine books_unasked rfl fun _ _ _ right => ?_
  have back := giveBack_reckons right h.lends (h.block_mem block)
  simp only [step]
  cases held : s.blocks.get? block with
  | none => exact right
  | some b =>
    rw [held] at back
    exact back

/-- Each step adds to the books of a pool what it asked for and found. -/
theorem step_books (h : s.Sound) (old : id < s.allocators.built) (step : PoolStep) :
    Books id initial (s, step) := by
  have still (unmoved : step.moves = false) (unasked : s.request? id step = none) :
      Books id initial (s, step) := by
    refine books_unasked unasked fun _ _ _ right t' found' => ?_
    obtain ⟨t, found, same⟩ := step_stands old unmoved found'
    exact same ▸ right t found
  cases step with
  | alloc slot block elementSize count zero => exact alloc_books h slot block elementSize count zero
  | release block => exact release_books h block
  | build | freelist | shared | write | drop => exact still rfl rfl

theorem runAll_books (h : s.Sound) (old : id < s.allocators.built) (steps : List PoolStep)
    (start : s.allocators.Reckons id initial refused drawn peak) :
    (s.runAll steps).allocators.Reckons id initial
      (refused + (s.trace steps).countP (refuses id)) (drawn + (s.trace steps).countP (draws id))
      (((s.trace steps).flatMap (levels id)).foldl max peak) := by
  induction steps generalizing s refused drawn peak with
  | nil => exact start
  | cons step steps ih =>
    have standing := Nat.lt_of_lt_of_le old (built_step s step)
    have rest := ih (step_sound h step) standing (step_books h old step _ _ _ start)
    rw [trace, List.countP_cons, List.countP_cons, List.flatMap_cons, List.foldl_append,
      Nat.add_comm (List.countP _ _), Nat.add_comm (List.countP _ _), ← Nat.add_assoc,
      ← Nat.add_assoc]
    exact rest

/-- Whatever is requested, refused and released after a pool has been built: each block that it has
handed out has come back or is out, its peak is the highest of the levels that were reached, its
failures are the requests of it that were refused, and the blocks that it has and those that it gave
away are those it was stocked with and one for each request that was served while none waited. -/
theorem runAll_statistics (system : System) (registry : RegistryId) (before after : List PoolStep)
    (build : PoolStep) (initial : Nat) :
    let s₀ := PoolState.runAll { allocators := { system }, registry } before
    let id := s₀.allocators.built
    ∀ s₁, PoolState.step build s₀ = .ok .done s₁ → build.stock? = some initial →
      ∀ t, (s₁.runAll after).allocators.pools.get? id = some t →
        let statistics := t.pool.counters.statistics
        statistics.totalAllocations = statistics.totalReleases + t.pool.outstanding ∧
          statistics.peakOutstanding = ((s₁.trace after).flatMap (levels id)).foldl max 0 ∧
          statistics.allocationFailures = (s₁.trace after).countP (refuses id) ∧
          t.pool.outstanding + t.pool.free.length + statistics.evictions =
            initial + (s₁.trace after).countP (draws id) := by
  intro s₀ id s₁ done stocked t found statistics
  have sound : s₁.Sound := by
    have next := step_sound (runAll_sound (sound_start system registry) before) build
    rwa [done] at next
  obtain ⟨stands, start⟩ := build_stocked done stocked
  have books := runAll_books sound stands after (fun t found => (start t found).reckoned) t found
  refine ⟨books.allocations, books.peak_eq, ?_, ?_⟩
  · exact books.failures.trans (Nat.zero_add _)
  · exact books.blocks.trans (congrArg _ (Nat.zero_add _))

/-- A pool that keeps one block and is stocked with it: a second one is drawn and given away when it
comes back, one request is too large and another is refused by the system, and the last block takes
the place of one that is given back. -/
theorem runAll_statistics_cached :
    let system : System := { grants := fun i _ => i != 2 }
    let build : PoolStep := .build 0 ⟨"cached", some 4, .cached 1, 1⟩ 8
    let after : List PoolStep := [.alloc 0 0 8 4 false, .alloc 0 1 8 2 false, .release 0,
      .alloc 0 2 8 9 false, .release 1, .alloc 0 3 8 1 true, .alloc 0 4 8 1 false,
      .alloc 0 3 8 1 false]
    let s₁ := Outcome.state (PoolState.step build { allocators := { system }, registry := 1 })
    ∃ t, (s₁.runAll after).allocators.pools.get? 0 = some t ∧
      t.pool.counters.statistics = ⟨4, 3, 2, 1, 2⟩ ∧ t.pool.outstanding = 1 ∧
      t.pool.free.length = 1 := by
  intro system build after s₁
  have done : PoolState.step build { allocators := { system }, registry := 1 } = .ok .done s₁ := rfl
  have measures : ∃ t ∈ (s₁.runAll after).allocators.pools.get? 0,
      t.pool.counters.statistics.totalReleases = 3 ∧
        t.pool.counters.statistics.evictions = 1 ∧ t.pool.outstanding = 1 := by
    decide +kernel
  have asked : (s₁.trace after).countP (refuses 0) = 2 ∧ (s₁.trace after).countP (draws 0) = 2 ∧
      ((s₁.trace after).flatMap (levels 0)).foldl max 0 = 2 := by
    decide +kernel
  have books := runAll_statistics system 1 [] after build 1 s₁ done rfl
  have first : (PoolState.runAll { allocators := { system }, registry := 1 }
      []).allocators.built = 0 := rfl
  rw [first] at books
  -- The run has been computed, and is not to be computed again.
  clear_value s₁ after
  obtain ⟨t, found, releases, evictions, out⟩ := measures
  obtain ⟨refused, drawn, high⟩ := asked
  obtain ⟨allocations, peak, failures, blocks⟩ := books t found
  refine ⟨t, found, ?_, out, by omega⟩
  calc t.pool.counters.statistics
      = ⟨t.pool.counters.statistics.totalAllocations, t.pool.counters.statistics.totalReleases,
          t.pool.counters.statistics.allocationFailures, t.pool.counters.statistics.evictions,
          t.pool.counters.statistics.peakOutstanding⟩ := rfl
    _ = ⟨4, 3, 2, 1, 2⟩ := by
      rw [allocations, failures, peak, releases, evictions, out, refused, high]

end ArrayStore.Session.PoolState
