import ArrayStore.Proofs.Memory.HighWater
import ArrayStore.Proofs.Session.PoolSafety
import Mathlib.Order.Interval.Finset.Nat

/-! High-water marks of pools over runs of requests and releases.
Main statement: a pool that never has to give a block back to the system has as
many blocks as it was stocked with or as were ever out at one time, and takes a
new one only when all that it ever had are out. A capped pool never has to,
since it keeps as many as it may hand out. A pool without a limit never has to
either, since the system places each block at an address of its own, of which
there are fewer than the pool may keep; this is assumed of the system. -/

namespace ArrayStore.Session

def PoolStep.stock? : PoolStep → Option Nat
  | .build _ config _ => config.blockElements.map fun _ => config.initialCount
  | .freelist _ _ _ _ _ initial _ => some initial
  | _ => none

def PoolStep.moves : PoolStep → Bool
  | .alloc .. | .release _ => true
  | _ => false

namespace PoolState

def held (s : PoolState) (id : Nat) : List BlockId :=
  ((s.allocators.pools.get? id).elim [] fun t => t.pool.spares) ++ (s.lent id).map Block.id

/-- The blocks of a pool have addresses of their own, and none is null. -/
def Placed (address : BlockId → Nat) (id : Nat) (s : PoolState) : Prop :=
  ((s.held id).map address).Nodup ∧ ∀ i ∈ s.held id, 0 < address i ∧ address i < addressBound

instance (address : BlockId → Nat) (id : Nat) (s : PoolState) : Decidable (s.Placed address id) :=
  inferInstanceAs (Decidable (_ ∧ _))

/-- What a step does to a pool: at most one request and then at most one release. No block of the
pool is lost, unless one is given away. -/
def Passes (id : Nat) (s s' : PoolState) : Prop :=
  ∀ t', s'.allocators.pools.get? id = some t' →
    ∃ t q, s.allocators.pools.get? id = some t ∧ t.pool.Asked q ∧ q.Returned t'.pool ∧
      (t'.pool.counters.statistics.evictions = q.counters.statistics.evictions →
        ∀ i ∈ s.held id, i ∈ s'.held id)

variable {s s' : PoolState} {m : Allocators} {id : Nat} {t t' : Tenant} {i : BlockId}

theorem mem_lent (sorted : s.blocks.Sorted) :
    i ∈ (s.lent id).map Block.id ↔
      ∃ slot b, s.blocks.get? slot = some b ∧ b.owner = .pool id ∧ b.id = i := by
  constructor
  · intro member
    obtain ⟨b, out, rfl⟩ := List.mem_map.1 member
    obtain ⟨there, own⟩ := List.mem_filter.1 out
    obtain ⟨slot, found⟩ := (Table.mem_values_iff sorted).1 there
    exact ⟨slot, b, found, Block.isOf_iff.1 own, rfl⟩
  · rintro ⟨slot, b, found, own, rfl⟩
    exact List.mem_map_of_mem (List.mem_filter.2
      ⟨(Table.mem_values_iff sorted).2 ⟨slot, found⟩, Block.isOf_iff.2 own⟩)

theorem held_of_get? (found : s.allocators.pools.get? id = some t) :
    s.held id = t.pool.spares ++ (s.lent id).map Block.id := by
  rw [held, found, Option.elim_some]

theorem length_held (h : s.Sound) (found : s.allocators.pools.get? id = some t) :
    (s.held id).length = t.pool.outstanding + t.pool.free.length := by
  have lent : t.pool.outstanding = (s.lent id).length :=
    (h.lends.tallies id t found).lent.trans List.countP_eq_length_filter
  rw [held_of_get? found, List.length_append, List.length_map, ← lent, Pool.spares,
    List.length_map, Nat.add_comm]

theorem Placed.few {address : BlockId → Nat} (placed : s.Placed address id) :
    (s.held id).length ≤ Policy.noLimit := by
  have inside : ((s.held id).map address).toFinset ⊆ Finset.Ioo 0 addressBound := by
    intro n member
    obtain ⟨i, held, rfl⟩ := List.mem_map.1 (List.mem_toFinset.1 member)
    exact Finset.mem_Ioo.2 (placed.2 i held)
  have card := Finset.card_le_card inside
  rwa [List.toFinset_card_of_nodup placed.1, List.length_map, Nat.card_Ioo, Nat.sub_zero] at card

theorem passes_idle
    (pools : ∀ t', s'.allocators.pools.get? id = some t' →
      ∃ t, s.allocators.pools.get? id = some t ∧ t'.pool = t.pool)
    (blocks : ∀ i ∈ (s.lent id).map Block.id, i ∈ (s'.lent id).map Block.id) :
    Passes id s s' := by
  intro t' found'
  obtain ⟨t, found, same⟩ := pools t' found'
  refine ⟨t, t.pool, found, .inl rfl, .inl same, fun _ i member => ?_⟩
  rw [held_of_get? found] at member
  rw [held_of_get? found', same]
  exact List.mem_append.2 ((List.mem_append.1 member).imp_right (blocks i))

theorem put_pool {slot : Nat} {a : PoolSlot}
    (found : (s.put slot a m).allocators.pools.get? id = some t') :
    ∃ t, m.pools.get? id = some t ∧ t'.pool = t.pool := by
  unfold put at found
  split at found
  · exact ⟨t', found, rfl⟩
  · exact Allocators.letGo_pool found

theorem giveBack_pool {handles : List Allocator} {out : List Block} {old : Option Block}
    (lends : m.Lends handles out) (there : ∀ c ∈ old, c ∈ out)
    (found : (giveBack m old).1.pools.get? id = some t') :
    ∃ t, m.pools.get? id = some t ∧ t.pool.Returned t'.pool ∧
      (t'.pool.counters.statistics.evictions = t.pool.counters.statistics.evictions →
        (∀ i ∈ t.pool.spares, i ∈ t'.pool.spares) ∧
          ∀ c ∈ old, c.owner = .pool id → c.id ∈ t'.pool.spares) := by
  cases old with
  | none =>
    exact ⟨t', found, .inl rfl, fun _ => ⟨fun _ member => member, fun c none => by cases none⟩⟩
  | some b =>
    obtain ⟨t, found, ⟨apart, same⟩ | ⟨own, same⟩⟩ := Allocators.release_pool found
    · refine ⟨t, found, .inl same, fun _ => ⟨fun i member => same ▸ member, fun c is own => ?_⟩⟩
      cases is
      exact absurd own apart
    · have out : t.pool.outstanding ≠ 0 := by
        rw [(lends.tallies id t found).lent]
        exact Nat.pos_iff_ne_zero.1
          (List.countP_pos_iff.2 ⟨b, there b rfl, Block.isOf_iff.2 own⟩)
      refine ⟨t, found, .inr ⟨b.id, out, same⟩, fun kept => ?_⟩
      rw [same] at kept ⊢
      rw [Pool.spares_release kept]
      refine ⟨fun i => List.mem_cons_of_mem _, fun c is own => ?_⟩
      cases is
      exact List.mem_cons_self

theorem alloc_passes (h : s.Sound) (slot block elementSize count : Nat) (zero : Bool) :
    Passes id s (Outcome.state (PoolState.step (.alloc slot block elementSize count zero) s)) := by
  simp only [PoolState.step]
  cases s.slots.get? slot with
  | none => exact passes_idle (fun t found => ⟨t, found, rfl⟩) fun _ member => member
  | some a =>
    have served := h.lends.alloc a.allocator elementSize count zero
    have asked := Allocators.alloc_pool s.allocators a.allocator elementSize count zero id
    simp only
    cases run : Allocators.alloc a.allocator elementSize count zero s.allocators with
    | error e m =>
      rw [run] at asked
      intro t' found'
      obtain ⟨t, found, asked, spares⟩ := asked t' found'
      refine ⟨t, t'.pool, found, asked, .inl rfl, fun _ i member => ?_⟩
      rw [held_of_get? found, ← spares] at member
      rw [held_of_get? found']
      exact member
    | ok b m =>
      rw [run] at asked served
      simp only at asked served
      suffices passes : Passes id s { s with
          allocators := (giveBack m (s.blocks.get? block)).1
          blocks := s.blocks.insert block b } by
        simp only
        split
        · exact passes
        · exact passes
      intro t' found'
      obtain ⟨u, between, returned, kept⟩ := giveBack_pool served.1
        (fun c there => List.mem_cons_of_mem _
          ((Table.mem_values_iff h.blocks_sorted).2 ⟨block, there⟩)) found'
      obtain ⟨t, found, asked, spares⟩ := asked u between
      refine ⟨t, u.pool, found, asked, returned, fun same i member => ?_⟩
      obtain ⟨stays, back⟩ := kept same
      have sorted := Table.insert_sorted h.blocks_sorted block b
      rw [held_of_get? found] at member
      rw [held_of_get? found']
      obtain spare | out := List.mem_append.1 member
      · obtain spare | ⟨own, same⟩ := spares i spare
        · exact List.mem_append_left _ (stays i spare)
        · refine List.mem_append_right _ ((mem_lent sorted).2 ⟨block, b, ?_, own, same⟩)
          rw [Table.get?_insert, if_pos rfl]
      · obtain ⟨place, c, there, own, same⟩ := (mem_lent h.blocks_sorted).1 out
        by_cases taken : place = block
        · exact List.mem_append_left _ (same ▸ back c (taken ▸ there) own)
        · refine List.mem_append_right _ ((mem_lent sorted).2 ⟨place, c, ?_, own, same⟩)
          rw [Table.get?_insert, if_neg taken, there]

theorem release_passes (h : s.Sound) (block : Nat) :
    Passes id s (Outcome.state (PoolState.step (.release block) s)) := by
  simp only [PoolState.step]
  cases there : s.blocks.get? block with
  | none => exact passes_idle (fun t found => ⟨t, found, rfl⟩) fun _ member => member
  | some b =>
    simp only [Outcome.state_ok]
    intro t' found'
    have member : ∀ c ∈ some b, c ∈ s.blocks.values := fun c is =>
      (Table.mem_values_iff h.blocks_sorted).2 ⟨block, there.trans is⟩
    obtain ⟨t, found, returned, kept⟩ := giveBack_pool h.lends member found'
    refine ⟨t, t.pool, found, .inl rfl, returned, fun same i held => ?_⟩
    obtain ⟨stays, back⟩ := kept same
    rw [held_of_get? found] at held
    rw [held_of_get? found']
    obtain spare | out := List.mem_append.1 held
    · exact List.mem_append_left _ (stays i spare)
    · obtain ⟨place, c, there', own, same⟩ := (mem_lent h.blocks_sorted).1 out
      by_cases taken : place = block
      · exact List.mem_append_left _ (same ▸ back c (there.symm.trans (taken ▸ there')) own)
      · refine List.mem_append_right _
          ((mem_lent (Table.erase_sorted h.blocks_sorted block)).2 ⟨place, c, ?_, own, same⟩)
        rw [Table.get?_erase, if_neg taken, there']

theorem step_stands (old : id < s.allocators.built) {step : PoolStep} (still : step.moves = false)
    (found' : (Outcome.state (PoolState.step step s)).allocators.pools.get? id = some t') :
    ∃ t, s.allocators.pools.get? id = some t ∧ t'.pool = t.pool := by
  cases step with
  | build slot config elementSize =>
    have stood {t : Tenant} (found : (Outcome.state (Allocators.build s.registry config elementSize
        s.allocators)).pools.get? id = some t) : s.allocators.pools.get? id = some t :=
      Allocators.build_pool old found
    simp only [PoolState.step] at found'
    cases run : Allocators.build s.registry config elementSize s.allocators with
    | error e m =>
      rw [run] at stood found'
      exact ⟨t', stood found', rfl⟩
    | ok a m =>
      rw [run] at stood found'
      obtain ⟨t, found, same⟩ := put_pool found'
      exact ⟨t, stood found, same⟩
  | freelist slot name elementSize blockElements limit initial capped =>
    have stood {t : Tenant} (found : (Outcome.state (Allocators.buildPool s.registry name
        elementSize blockElements limit initial capped s.allocators)).pools.get? id = some t) :
        s.allocators.pools.get? id = some t :=
      Allocators.buildPool_pool old found
    simp only [PoolState.step] at found'
    cases run : Allocators.buildPool s.registry name elementSize blockElements limit initial capped
        s.allocators with
    | error e m =>
      rw [run] at stood found'
      exact ⟨t', stood found', rfl⟩
    | ok a m =>
      rw [run] at stood found'
      obtain ⟨t, found, same⟩ := put_pool found'
      exact ⟨t, stood found, same⟩
  | shared slot => exact put_pool found'
  | write block byte =>
    simp only [PoolState.step] at found'
    split at found' <;> exact ⟨t', found', rfl⟩
  | drop slot =>
    simp only [PoolState.step] at found'
    split at found'
    · exact ⟨t', found', rfl⟩
    · exact Allocators.letGo_pool found'
  | alloc | release => cases still

/-- A step makes at most one request of a pool that stands, and then at most one release. -/
theorem step_passes (h : s.Sound) (old : id < s.allocators.built) (step : PoolStep) :
    Passes id s (Outcome.state (PoolState.step step s)) := by
  cases step with
  | build slot config elementSize =>
    refine passes_idle (fun t' => step_stands old rfl) ?_
    simp only [PoolState.step]
    split <;> exact fun _ member => member
  | freelist slot name elementSize blockElements limit initial capped =>
    refine passes_idle (fun t' => step_stands old rfl) ?_
    simp only [PoolState.step]
    split <;> exact fun _ member => member
  | shared slot => exact passes_idle (fun t' => step_stands old rfl) fun _ member => member
  | alloc slot block elementSize count zero =>
    exact alloc_passes h slot block elementSize count zero
  | write block byte =>
    refine passes_idle (fun t' => step_stands old rfl) fun i member => ?_
    simp only [PoolState.step]
    cases there : s.blocks.get? block with
    | none => exact member
    | some b =>
      simp only [Outcome.state_ok]
      obtain ⟨place, c, there', own, same⟩ := (mem_lent h.blocks_sorted).1 member
      refine (mem_lent (Table.insert_sorted h.blocks_sorted block _)).2 ?_
      by_cases taken : place = block
      · cases there.symm.trans (taken ▸ there')
        exact ⟨block, { b with fill := some byte }, by rw [Table.get?_insert, if_pos rfl],
          own, same⟩
      · exact ⟨place, c, by rw [Table.get?_insert, if_neg taken, there'], own, same⟩
  | release block => exact release_passes h block
  | drop slot =>
    refine passes_idle (fun t' => step_stands old rfl) ?_
    simp only [PoolState.step]
    split <;> exact fun _ member => member

theorem built_put (s : PoolState) (slot : Nat) (a : PoolSlot) (m : Allocators) :
    (s.put slot a m).allocators.built = m.built := by
  unfold put
  split
  · rfl
  · exact Allocators.built_letGo ..

theorem built_step (s : PoolState) (step : PoolStep) :
    s.allocators.built ≤ (Outcome.state (PoolState.step step s)).allocators.built := by
  cases step with
  | build slot config elementSize =>
    have more := Allocators.built_build s.allocators s.registry config elementSize
    simp only [PoolState.step]
    cases run : Allocators.build s.registry config elementSize s.allocators with
    | error e m =>
      rw [run] at more
      exact more
    | ok a m =>
      rw [run] at more
      exact (built_put ..).symm ▸ more
  | freelist slot name elementSize blockElements limit initial capped =>
    have more := Allocators.built_buildPool s.allocators s.registry name elementSize blockElements
      limit initial capped
    simp only [PoolState.step]
    cases run : Allocators.buildPool s.registry name elementSize blockElements limit initial capped
        s.allocators with
    | error e m =>
      rw [run] at more
      exact more
    | ok a m =>
      rw [run] at more
      exact (built_put ..).symm ▸ more
  | shared slot => exact (built_put ..).symm ▸ Nat.le_refl _
  | alloc slot block elementSize count zero =>
    simp only [PoolState.step]
    split
    · exact Nat.le_refl _
    · next a _ =>
      have same := Allocators.built_alloc s.allocators a.allocator elementSize count zero
      split
      · next run =>
        rw [run] at same
        exact Nat.le_of_eq same.symm
      · next b m run =>
        rw [run] at same
        have back : (giveBack m (s.blocks.get? block)).1.built = m.built := by
          cases s.blocks.get? block with
          | none => rfl
          | some old => exact Allocators.built_release ..
        have less := Nat.le_of_eq (back.trans same).symm
        split
        · exact less
        · exact less
  | write block byte =>
    simp only [PoolState.step]
    split <;> exact Nat.le_refl _
  | release block =>
    simp only [PoolState.step]
    split
    · exact Nat.le_refl _
    · exact Nat.le_of_eq (Allocators.built_release ..).symm
  | drop slot =>
    simp only [PoolState.step]
    split
    · exact Nat.le_refl _
    · exact Nat.le_of_eq (Allocators.built_letGo ..).symm

theorem built_runAll (s : PoolState) (steps : List PoolStep) :
    s.allocators.built ≤ (s.runAll steps).allocators.built := by
  induction steps generalizing s with
  | nil => exact Nat.le_refl _
  | cons step steps ih => exact Nat.le_trans (built_step s step) (ih _)

/-- A run that starts at the high-water mark of a pool stays at it, and loses none of the blocks
that the pool has at any moment. -/
theorem runAll_atPeak {initial : Nat} {address : BlockId → Nat} (h : s.Sound)
    (old : id < s.allocators.built)
    (start : ∀ t, s.allocators.pools.get? id = some t → t.pool.AtPeak initial)
    (steps : List PoolStep) (found : (s.runAll steps).allocators.pools.get? id = some t)
    (retains : t.pool.capped = true ∨ t.pool.limit = Policy.noLimit ∧
      ∀ earlier, earlier <+: steps → (s.runAll earlier).Placed address id) :
    t.pool.AtPeak initial ∧ ∀ earlier, earlier <+: steps →
      ∀ i ∈ (s.runAll earlier).held id, i ∈ (s.runAll steps).held id := by
  induction steps using List.reverseRecOn generalizing t with
  | nil =>
    refine ⟨start t found, fun earlier moment i member => ?_⟩
    rwa [List.prefix_nil.1 moment] at member
  | append_singleton steps step ih =>
    have last : s.runAll (steps ++ [step]) = Outcome.state (PoolState.step step (s.runAll steps)) :=
      List.foldl_concat ..
    have sound := runAll_sound h steps
    have standing := Nat.lt_of_lt_of_le old (built_runAll s steps)
    rw [last] at found ⊢
    obtain ⟨u, q, before, asked, returned, keeps⟩ := step_passes sound standing step t found
    have limit : t.pool.limit = u.pool.limit := returned.measures.1.trans asked.measures.1
    have capped : t.pool.capped = u.pool.capped := returned.measures.2.trans asked.measures.2
    rw [limit, capped] at retains
    obtain ⟨peak, earlier⟩ := ih before (retains.imp_right fun ⟨unlimited, placed⟩ =>
      ⟨unlimited, fun e moment => placed e (moment.trans (List.prefix_append ..))⟩)
    have room : q.outstanding ≠ 0 → q.free.length < q.limit := by
      obtain full | ⟨unlimited, placed⟩ := retains
      · have balanced := (sound.lends.tallies id u before).balanced.asked asked
        exact balanced.room (asked.measures.2.trans full)
      · have few := (placed steps (List.prefix_append ..)).few
        rw [length_held sound before] at few
        exact asked.room (unlimited ▸ few) (unlimited ▸ by decide)
    have peak' := (peak.asked asked).returned returned room
    refine ⟨peak', fun e moment i member => ?_⟩
    obtain rfl | moment := List.prefix_concat_iff.1 moment
    · rwa [← last]
    · exact keeps (peak'.kept.trans (peak.asked asked).kept.symm) i (earlier e moment i member)

theorem build_stocked {build : PoolStep} {initial : Nat} {reply : PoolReply}
    (done : PoolState.step build s = .ok reply s') (stocked : build.stock? = some initial) :
    s.allocators.built < s'.allocators.built ∧
      ∀ t, s'.allocators.pools.get? s.allocators.built = some t → t.pool.Stocked initial := by
  have stands : ∀ {name elementSize blockElements limit capped a m slot typed},
      Allocators.buildPool s.registry name elementSize blockElements limit initial capped
        s.allocators = .ok a m →
      s.allocators.built < (s.put slot ⟨a, typed⟩ m).allocators.built ∧
        ∀ t, (s.put slot ⟨a, typed⟩ m).allocators.pools.get? s.allocators.built = some t →
          t.pool.Stocked initial := by
    intro name elementSize blockElements limit capped a m slot typed run
    unfold Allocators.buildPool at run
    split at run
    · cases run
    · next pool system made =>
      cases run
      refine ⟨(built_put ..).symm ▸ Nat.lt_succ_self _, fun t found => ?_⟩
      obtain ⟨u, there, same⟩ := put_pool found
      rw [Table.get?_insert, if_pos rfl] at there
      cases there
      exact same ▸ Pool.create_stocked made
  cases build with
  | freelist slot name elementSize blockElements limit initial capped =>
    cases stocked
    simp only [PoolState.step] at done
    split at done
    · cases done
    · next run =>
      cases done
      exact stands run
  | build slot config elementSize =>
    obtain ⟨elements, fixed, rfl⟩ := Option.map_eq_some_iff.1 stocked
    simp only [PoolState.step] at done
    split at done
    · cases done
    · next a m run =>
      cases done
      unfold Allocators.build at run
      split at run
      · cases run
      · split at run
        · cases run
        · simp only [fixed] at run
          exact stands run
  | _ => cases stocked

theorem build_atPeak {build : PoolStep} {initial : Nat} {reply : PoolReply}
    (done : PoolState.step build s = .ok reply s') (stocked : build.stock? = some initial) :
    s.allocators.built < s'.allocators.built ∧
      ∀ t, s'.allocators.pools.get? s.allocators.built = some t → t.pool.AtPeak initial :=
  (build_stocked done stocked).imp_right fun start t found => (start t found).atPeak

/-- Whatever is requested, refused and released: a pool that is capped, or that has no limit and
blocks at addresses of their own, has as many blocks as it was stocked with or as were ever out at
one time, and it has given none away. A request of it gets to the system only if every block that
the pool had at any moment is out. -/
theorem runAll_high_water (system : System) (registry : RegistryId) (before after : List PoolStep)
    (build : PoolStep) (initial : Nat) (address : BlockId → Nat) :
    let s₀ := PoolState.runAll { allocators := { system }, registry } before
    let id := s₀.allocators.built
    ∀ s₁, PoolState.step build s₀ = .ok .done s₁ → build.stock? = some initial →
      let s := s₁.runAll after
      ∀ t, s.allocators.pools.get? id = some t →
        (t.pool.capped = true ∨ t.pool.limit = Policy.noLimit ∧
          ∀ earlier, earlier <+: after → (s₁.runAll earlier).Placed address id) →
        t.pool.outstanding + t.pool.free.length =
            max initial t.pool.counters.statistics.peakOutstanding ∧
          t.pool.counters.statistics.evictions = 0 ∧
          ∀ elementSize count zero,
            (Outcome.state (Allocators.alloc (.pool id) elementSize count zero
              s.allocators)).system.requests ≠ s.allocators.system.requests →
            t.pool.outstanding = max initial t.pool.counters.statistics.peakOutstanding ∧
              ∀ earlier, earlier <+: after →
                ∀ i ∈ (s₁.runAll earlier).held id, i ∈ (s.lent id).map Block.id := by
  intro s₀ id s₁ done stocked s t found retains
  have sound : s₁.Sound := by
    have next := step_sound (runAll_sound (sound_start system registry) before) build
    rwa [done] at next
  obtain ⟨stands, start⟩ := build_atPeak done stocked
  obtain ⟨peak, earlier⟩ := runAll_atPeak sound stands start after found retains
  refine ⟨peak.total, peak.kept, fun elementSize count zero asked => ?_⟩
  have reached : (Outcome.state (Pool.alloc elementSize count zero
      (t.pool, s.allocators.system))).2.requests ≠ s.allocators.system.requests := by
    intro same
    refine asked ?_
    simp only [Allocators.alloc, found]
    cases run : Pool.alloc elementSize count zero (t.pool, s.allocators.system) with
    | error e u => exact (congrArg (fun r => (Outcome.state r).2.requests) run).symm.trans same
    | ok spare u => exact (congrArg (fun r => (Outcome.state r).2.requests) run).symm.trans same
  obtain ⟨empty, all⟩ := peak.exhausted reached
  refine ⟨all, fun e moment i member => ?_⟩
  have still := earlier e moment i member
  rwa [held_of_get? found, Pool.spares, empty, List.map_nil, List.nil_append] at still

/-- A pool without a limit, stocked with one block: two are out at a time, one comes back and goes
out again, one request is too large and another is refused by the system. -/
theorem runAll_high_water_unlimited :
    let system : System := { grants := fun i _ => i != 2 }
    let build : PoolStep := .build 0 ⟨"open", some 4, .unbounded, 1⟩ 8
    let after : List PoolStep := [.alloc 0 0 8 4 false, .alloc 0 1 8 2 false, .release 0,
      .alloc 0 2 8 9 false, .alloc 0 3 8 1 true, .alloc 0 4 8 1 false]
    let s₁ := Outcome.state (PoolState.step build { allocators := { system }, registry := 1 })
    ∃ t, (s₁.runAll after).allocators.pools.get? 0 = some t ∧ t.pool.limit = Policy.noLimit ∧
      t.pool.outstanding + t.pool.free.length = 2 ∧ t.pool.counters.statistics.evictions = 0 ∧
      t.pool.counters.statistics.allocationFailures = 2 ∧
      ∀ i ∈ s₁.held 0, i ∈ ((s₁.runAll after).lent 0).map Block.id := by
  intro system build after s₁
  have done : PoolState.step build { allocators := { system }, registry := 1 } = .ok .done s₁ := rfl
  have placed : ∀ earlier ∈ after.inits, (s₁.runAll earlier).Placed (fun i => 4096 + 64 * i) 0 := by
    decide +kernel
  have measures : ∃ t ∈ (s₁.runAll after).allocators.pools.get? 0, t.pool.limit = Policy.noLimit ∧
      max 1 t.pool.counters.statistics.peakOutstanding = 2 ∧
      t.pool.counters.statistics.allocationFailures = 2 := by
    decide +kernel
  have asked : (Outcome.state (Allocators.alloc (.pool 0) 8 1 false
      (s₁.runAll after).allocators)).system.requests ≠
      (s₁.runAll after).allocators.system.requests := by
    decide +kernel
  have marked := runAll_high_water system 1 [] after build 1 (fun i => 4096 + 64 * i) s₁ done rfl
  have first : (PoolState.runAll { allocators := { system }, registry := 1 }
      []).allocators.built = 0 := rfl
  rw [first] at marked
  -- The run has been computed, and is not to be computed again.
  clear_value s₁ after
  obtain ⟨t, found, unlimited, peak, failures⟩ := measures
  obtain ⟨total, kept, exhausted⟩ := marked t found
    (.inr ⟨unlimited, fun earlier moment => placed earlier ((List.mem_inits _ _).2 moment)⟩)
  exact ⟨t, found, unlimited, total.trans peak, kept, failures,
    (exhausted 8 1 false asked).2 [] List.nil_prefix⟩

end PoolState

end ArrayStore.Session
