import ArrayStore.Proofs.Session.Plates
import Mathlib.Data.List.Sort

/-! What a registry lists.
Pools are built in registries of choice, or refused; handles on them are copied
and let go of; vectors and arrays grow from them, share their blocks and are
dropped, in any order. A roll has all pools that were ever built. Main
statement: after any run a registry lists those of the roll that stand in it and
that a handle, a vector or a block still refers to, in the order in which they
were built, each with the counts of the blocks that are out and in wait. -/

namespace ArrayStore

structure Enrolment where
  id : Nat
  plate : Plate
  deriving DecidableEq, Repr

def PoolOrder.enrols (registry : RegistryId) (order : PoolOrder) (m : Allocators) :
    List Enrolment :=
  match order.build registry m with
  | .ok (.pool id) _ => [⟨id, order.plate registry⟩]
  | _ => []

/-- What a registry says of a pool that has some blocks out and others in wait. -/
def Plate.entry (p : Plate) (lent waiting : Nat) : Snapshot where
  name := p.name
  numAllocs := lent
  sizeAllocs := lent * p.blockBytes
  numFree := waiting
  sizeFree := waiting * p.blockBytes
  allocSize := p.blockBytes
  fixedSize := true
  hasStats := true

namespace Allocators

def waiting (m : Allocators) (id : Nat) : Nat :=
  (m.pool? (.pool id)).elim 0 fun p => p.free.length

/-- The pools that have been built stand on a roll, by their numbers. -/
structure Enrolled (roll : List Enrolment) (m : Allocators) : Prop where
  ascending : roll.Pairwise fun d e => d.id < e.id
  numbered : ∀ e ∈ roll, e.id < m.built
  plates : ∀ id p, m.plate? id = some p → ⟨id, p⟩ ∈ roll

variable {m n : Allocators} {roll : List Enrolment} {registry : RegistryId} {e : Enrolment}
  {id : Nat} {p : Plate}

theorem enrolled_nil (system : System) : Enrolled [] { system } :=
  ⟨.nil, fun _ member => absurd member List.not_mem_nil, fun _ _ found => by cases found⟩

theorem Enrolled.since (h : m.Enrolled roll) (since : n.Since m) : n.Enrolled roll := by
  refine ⟨h.ascending, since.built ▸ h.numbered, fun id p found => h.plates id p ?_⟩
  obtain gone | same := since.plates id
  · rw [gone] at found
    cases found
  · rw [← same, found]

theorem Enrolled.build (h : m.Enrolled roll) (registry : RegistryId) (order : PoolOrder) :
    (Outcome.state (order.build registry m)).Enrolled (roll ++ order.enrols registry m) := by
  unfold PoolOrder.enrols
  cases run : order.build registry m with
  | error e n =>
    obtain ⟨pools, built⟩ := PoolOrder.build_error run
    have since : n.Since m := ⟨built, fun id => .inr (by rw [plate?, plate?, pools])⟩
    simp only [List.append_nil]
    exact h.since since
  | ok a n =>
    obtain ⟨rfl, rfl⟩ | ⟨rfl, built, plates⟩ := PoolOrder.build_ok run
    · simp only [List.append_nil]
      exact h
    · refine ⟨List.pairwise_append.2 ⟨h.ascending, List.pairwise_singleton _ _, ?_⟩, ?_, ?_⟩
      · intro d old e new
        rw [List.mem_singleton.1 new]
        exact h.numbered d old
      · intro e member
        rw [Outcome.state_ok, built]
        obtain old | new := List.mem_append.1 member
        · exact Nat.lt_succ_of_lt (h.numbered e old)
        · rw [List.mem_singleton.1 new]
          exact Nat.lt_succ_self _
      · intro id p found
        rw [Outcome.state_ok, plates] at found
        split at found
        · next same =>
          cases found
          rw [same]
          exact List.mem_append_right _ List.mem_cons_self
        · exact List.mem_append_left _ (h.plates id p found)

theorem Enrolled.plate_eq (h : m.Enrolled roll) (member : e ∈ roll)
    (found : m.plate? e.id = some p) : p = e.plate := by
  have distinct : (roll.map Enrolment.id).Nodup :=
    List.pairwise_map.2 (h.ascending.imp fun less => Nat.ne_of_lt less)
  have same : (⟨e.id, p⟩ : Enrolment) = e :=
    List.inj_on_of_nodup_map distinct (h.plates e.id p found) member rfl
  exact congrArg Enrolment.plate same

/-- A registry lists the pools of the roll that stand in it. -/
theorem Enrolled.listed (h : m.Enrolled roll) (sorted : m.pools.Sorted)
    (own : registry ≠ RegistryId.process) :
    m.listed registry =
      (roll.filter fun e => e.plate.registry == registry && (m.pools.get? e.id).isSome).map
        fun e => m.snapshot (.pool e.id) := by
  let standing := m.pools.entries.filter fun t => t.2.registry == registry
  have shown : m.listed registry =
      (standing.map Prod.fst).map fun id => m.snapshot (.pool id) := by
    have pools : m.poolsOf registry = standing.map fun t => t.2.pool := by
      simp only [poolsOf, Table.values, List.filter_map, List.map_map]
      rfl
    rw [Allocators.listed, if_neg own, List.nil_append, pools, List.map_map, List.map_map]
    refine List.map_congr_left fun t member => ?_
    have found := Table.get?_of_mem_entries sorted (List.mem_of_mem_filter member)
    simp only [Function.comp_apply, snapshot, pool?, found, Option.map_some, Option.elim_some]
  -- Both lists of numbers ascend, so it is enough that they have the same members.
  have numbers : standing.map Prod.fst =
      (roll.filter fun e =>
        e.plate.registry == registry && (m.pools.get? e.id).isSome).map Enrolment.id := by
    refine List.Pairwise.eq_of_mem_iff (r := (· < ·))
      (List.pairwise_map.2 (sorted.filter _)) (List.pairwise_map.2 (h.ascending.filter _))
      fun id => ?_
    simp only [standing, List.mem_map, List.mem_filter, Bool.and_eq_true, beq_iff_eq]
    constructor
    · rintro ⟨⟨id, t⟩, ⟨member, at_registry⟩, rfl⟩
      have found := Table.get?_of_mem_entries sorted member
      exact ⟨⟨id, t.plate⟩, ⟨h.plates id _ (by rw [plate?, found, Option.map_some]),
        at_registry, by rw [found, Option.isSome_some]⟩, rfl⟩
    · rintro ⟨e, ⟨member, at_registry, stands⟩, rfl⟩
      obtain ⟨t, found⟩ := Option.isSome_iff_exists.1 stands
      have plate : t.plate = e.plate :=
        h.plate_eq member (by rw [plate?, found, Option.map_some])
      exact ⟨⟨e.id, t⟩, ⟨Table.mem_entries_of_get? found,
        (congrArg Plate.registry plate).trans at_registry⟩, rfl⟩
  rw [shown, numbers, List.map_map]
  rfl

theorem snapshot_of_plate (found : m.plate? id = some p) :
    m.snapshot (.pool id) =
      p.entry (m.snapshot (.pool id)).numAllocs (m.waiting id) := by
  obtain ⟨t, there, rfl⟩ := Option.map_eq_some_iff.1 found
  simp only [snapshot, waiting, pool?, there, Option.map_some, Option.elim_some]
  rfl

end Allocators

/-- Whether a holding keeps a pool: as a handle on it, by growing from it or by a block of it. -/
def Holding.keeps (s : Store) (id : Nat) : Holding → Bool
  | handle a => a == .pool id
  | writable w => w.allocator == .pool id || ((writable w).block? s).any (Block.isOf id)
  | frozen f => ((frozen f).block? s).any (Block.isOf id)

theorem Holding.keeps_iff {s : Store} {id : Nat} {x : Holding} :
    x.keeps s id = true ↔
      x.handle? = some (.pool id) ∨ ∃ b, x.block? s = some b ∧ b.owner = .pool id := by
  cases x <;>
    simp [keeps, handle?, block?, Option.any_eq_true, Block.isOf_iff]

theorem Store.Owns.stands {s : Store} {l : List Holding} (h : s.Owns l) (id : Nat) :
    (s.allocators.pools.get? id).isSome = l.any (Holding.keeps s id) := by
  rw [Bool.eq_iff_iff, Option.isSome_iff_exists, List.any_eq_true]
  constructor
  · rintro ⟨t, found⟩
    have tallies := h.lends.tallies id t found
    obtain held | out := h.lends.needed id t found
    · rw [tallies.handled] at held
      obtain ⟨x, member, same⟩ :=
        List.mem_filterMap.1 (List.count_pos_iff.1 (Nat.pos_of_ne_zero held))
      exact ⟨x, member, Holding.keeps_iff.2 (.inl same)⟩
    · rw [tallies.lent] at out
      obtain ⟨b, there, own⟩ := List.countP_pos_iff.1 (Nat.pos_of_ne_zero out)
      obtain ⟨x, member, on⟩ := List.mem_filterMap.1 (h.mem_blocks.2 there)
      exact ⟨x, member, Holding.keeps_iff.2 (.inr ⟨b, on, Block.isOf_iff.1 own⟩)⟩
  · rintro ⟨x, member, keeps⟩
    obtain handle | ⟨b, on, own⟩ := Holding.keeps_iff.1 keeps
    · exact h.lends.handled _ (List.mem_filterMap.2 ⟨x, member, handle⟩)
    · have alive := h.lends.housed b (h.mem_blocks.1 (List.mem_filterMap.2 ⟨x, member, on⟩))
      rwa [own] at alive

namespace Session

namespace MixedState

def build (registry : RegistryId) (order : PoolOrder) (s : MixedState) : MixedState :=
  match order.build registry s.allocators with
  | .error _ m => { s with arrays := { s.arrays with world.store.allocators := m } }
  | .ok a m =>
    { s with
      arrays :=
        { s.arrays with world.store.allocators := m, pools := s.arrays.pools ++ [a] } }

def copy (pool : Nat) (s : MixedState) : MixedState :=
  match s.arrays.pools[pool]? with
  | none => s
  | some a =>
    { s with
      arrays :=
        { s.arrays with
          world.store := s.arrays.world.store.retain a
          pools := s.arrays.pools ++ [a] } }

variable {s : MixedState}

def enrols (s : MixedState) (t : MixedMove) : List Enrolment :=
  t.order?.elim [] fun order => order.enrols ArrayState.registry s.allocators

theorem move_of_order {t : MixedMove} {order : PoolOrder} (asks : t.order? = some order)
    (s : MixedState) : s.move t = s.build ArrayState.registry order := by
  cases t with
  | vector | lend | keep => cases asks
  | array t =>
    cases t with
    | step | forget | decode | pass => cases asks
    | build config elementSize =>
      cases asks
      simp only [move, ArrayState.move, build, allocators, PoolOrder.build]
      cases Allocators.build ArrayState.registry config elementSize
        s.arrays.world.store.allocators <;> rfl

theorem allocators_build (registry : RegistryId) (order : PoolOrder) (s : MixedState) :
    (s.build registry order).allocators = Outcome.state (order.build registry s.allocators) := by
  unfold build
  split
  · next run => rw [run]; rfl
  · next run => rw [run]; rfl

theorem Sound.handed {a : Allocator} {store : Store} (h : s.Sound)
    (owns : store.Owns (.handle a :: s.holdings)) :
    Sound { s with
      arrays := { s.arrays with world.store := store, pools := s.arrays.pools ++ [a] } } := by
  have order := ArrayState.holdings_pools (s := s.arrays)
    (List.perm_append_singleton a s.arrays.pools)
  exact ⟨h.sorted, h.arrays.values_sorted, h.arrays.views_sorted, h.arrays.fits,
    owns.perm ((order.append_left _).trans List.perm_middle).symm⟩

theorem build_sound (h : s.Sound) (registry : RegistryId) (order : PoolOrder) :
    (s.build registry order).Sound := by
  have owns := h.owns.handed (order.build_lends h.owns.lends registry)
  unfold build
  split
  · next run =>
    rw [show order.build registry s.arrays.world.store.allocators = _ from run] at owns
    exact ⟨h.sorted, h.arrays.values_sorted, h.arrays.views_sorted, h.arrays.fits, owns⟩
  · next run =>
    rw [show order.build registry s.arrays.world.store.allocators = _ from run] at owns
    exact h.handed owns

theorem copy_sound (h : s.Sound) (pool : Nat) : (s.copy pool).Sound := by
  unfold copy
  split
  · exact h
  · next a named =>
    have member : .handle a ∈ s.holdings := List.mem_append_right _
      (List.mem_append_left _ (List.mem_map_of_mem (List.mem_of_getElem? named)))
    exact h.handed (h.owns.retain (h.owns.alive member))

theorem move_enrolled {roll : List Enrolment} (h : s.allocators.Enrolled roll) (t : MixedMove) :
    (s.move t).allocators.Enrolled (roll ++ s.enrols t) := by
  unfold enrols
  cases asks : t.order? with
  | none =>
    rw [Option.elim_none, List.append_nil]
    exact h.since (s.move_since asks)
  | some order =>
    rw [move_of_order asks, allocators_build, Option.elim_some]
    exact h.build ArrayState.registry order

theorem copy_since (s : MixedState) (pool : Nat) : (s.copy pool).allocators.Since s.allocators := by
  unfold copy
  split
  · exact .refl _
  · next a _ => exact s.allocators.retain_since a

end MixedState

structure RosterState where
  mixed : MixedState := {}
  roll : List Enrolment := []

inductive RosterMove where
  | mixed (move : MixedMove)
  /-- Build a pool in a registry of choice. -/
  | build (registry : RegistryId) (order : PoolOrder)
  /-- Copy a handle. -/
  | copy (pool : Nat)

namespace RosterState

def allocators (s : RosterState) : Allocators := s.mixed.allocators

def move (s : RosterState) : RosterMove → RosterState
  | .mixed t => ⟨s.mixed.move t, s.roll ++ s.mixed.enrols t⟩
  | .build registry order =>
    ⟨s.mixed.build registry order, s.roll ++ order.enrols registry s.allocators⟩
  | .copy pool => { s with mixed := s.mixed.copy pool }

def runAll (s : RosterState) (moves : List RosterMove) : RosterState := moves.foldl move s

def start (system : System) : RosterState := { mixed := .start system }

/-- Whether a handle, a vector or a block refers to a pool. -/
def refersTo (s : RosterState) (id : Nat) : Bool :=
  s.mixed.holdings.any (Holding.keeps s.mixed.arrays.world.store id)

def lent (s : RosterState) (id : Nat) : Nat :=
  (Holding.blocksOf s.mixed.arrays.world.store s.mixed.holdings id).length

structure Sound (s : RosterState) : Prop where
  mixed : s.mixed.Sound
  enrolled : s.allocators.Enrolled s.roll

variable {s : RosterState}

theorem sound_start (system : System) : (start system).Sound :=
  ⟨MixedState.sound_start system, Allocators.enrolled_nil system⟩

theorem move_sound (h : s.Sound) (t : RosterMove) : (s.move t).Sound := by
  cases t with
  | mixed t => exact ⟨MixedState.move_sound h.mixed t, MixedState.move_enrolled h.enrolled t⟩
  | copy pool =>
    exact ⟨MixedState.copy_sound h.mixed pool, h.enrolled.since (s.mixed.copy_since pool)⟩
  | build registry order =>
    refine ⟨MixedState.build_sound h.mixed registry order, ?_⟩
    rw [allocators, move, MixedState.allocators_build]
    exact h.enrolled.build registry order

theorem runAll_sound (h : s.Sound) (moves : List RosterMove) : (s.runAll moves).Sound := by
  induction moves generalizing s with
  | nil => exact h
  | cons t moves ih => exact ih (move_sound h t)

def entry (s : RosterState) (e : Enrolment) : Snapshot :=
  e.plate.entry (s.lent e.id) (s.allocators.waiting e.id)

theorem Sound.entry_eq (h : s.Sound) {e : Enrolment} (member : e ∈ s.roll)
    (stands : (s.allocators.pools.get? e.id).isSome = true) :
    s.allocators.snapshot (.pool e.id) = s.entry e := by
  obtain ⟨t, found⟩ := Option.isSome_iff_exists.1 stands
  have there : s.allocators.plate? e.id = some t.plate := by
    rw [Allocators.plate?, found, Option.map_some]
  have lent : (s.allocators.snapshot (.pool e.id)).numAllocs = s.lent e.id :=
    h.mixed.owns.numAllocs e.id
  rw [Allocators.snapshot_of_plate there, lent, h.enrolled.plate_eq member there, entry]

/-- Whatever was built, refused, copied, grown, shared and dropped before: a private registry lists
the pools that were built in it and that something still refers to, and nothing else. They stand in
the order in which they were built, each once. What is said of a pool are its plate, the number of
its blocks that are referred to, the number of those that wait, and the bytes of both. An order that
is refused changes no registry. -/
theorem runAll_listed (system : System) (moves : List RosterMove) (registry : RegistryId)
    (own : registry ≠ RegistryId.process) :
    let s := (start system).runAll moves
    s.allocators.listed registry =
        (s.roll.filter fun e => e.plate.registry == registry && s.refersTo e.id).map s.entry ∧
      (s.roll.map Enrolment.id).Pairwise (· < ·) ∧
      ∀ other order e m, PoolOrder.build other order s.allocators = .error e m →
        m.listed registry = s.allocators.listed registry := by
  intro s
  have sound : s.Sound := runAll_sound (sound_start system) moves
  refine ⟨?_, List.pairwise_map.2 sound.enrolled.ascending, fun other order e m refused => ?_⟩
  · have stands (id : Nat) : (s.allocators.pools.get? id).isSome = s.refersTo id :=
      sound.mixed.owns.stands id
    rw [sound.enrolled.listed sound.mixed.owns.lends.sorted own]
    simp only [stands]
    refine List.map_congr_left fun e member => ?_
    obtain ⟨there, kept⟩ := List.mem_filter.1 member
    exact sound.entry_eq there ((stands e.id).trans (Bool.and_eq_true_iff.1 kept).2)
  · rw [Allocators.listed, Allocators.listed, Allocators.poolsOf, Allocators.poolsOf,
      (PoolOrder.build_error refused).1]

/-- Two pools in a registry, one elsewhere and one refused. All handles on the first are let go of,
but two frozen vectors share a block of it; it is taken down with the second of them. The last pool
is kept by the array that grows from it. -/
theorem runAll_listed_outliving :
    let before : List RosterMove := [
      .build 1 (.pool "left" 4 4 2 1 true), .build 2 (.pool "apart" 8 1 1 0 true),
      .build 1 (.described ⟨"refused", some 4, .capped 1, 2⟩ 4),
      .build 1 (.described ⟨"right", some 2, .cached 1, 1⟩ 4), .copy 0,
      .mixed (.vector .int (.ofList 0 [.int 1, .int 2] (some 0))),
      .mixed (.vector .int (.freeze 0)), .mixed (.vector .int (.clone 0 1)),
      .mixed (.array (.step (.create 0 ⟨"x", .int⟩ (some 2)))), .mixed (.array (.forget 2)),
      .mixed (.array (.forget 2)), .mixed (.array (.forget 0))]
    let drops : List RosterMove :=
      [.mixed (.vector .int (.drop 0)), .mixed (.vector .int (.drop 1))]
    let large : PoolOrder := .pool "large" 0x1000000000000 1 1 1 true
    let right : Snapshot := ⟨"right", 0, 0, 1, 8, 8, true, true⟩
    let s := (start .machine).runAll before
    s.mixed.arrays.pools = [.pool 1] ∧
      s.allocators.listed 1 = [⟨"left", 1, 16, 0, 0, 16, true, true⟩, right] ∧
      (∃ e m, large.build 1 s.allocators = .error e m ∧
        m.listed 1 = s.allocators.listed 1 ∧ m.system.requests ≠ s.allocators.system.requests) ∧
      ((start .machine).runAll (before ++ drops)).allocators.listed 1 = [right] := by
  intro before drops large right s
  have apart : 1 ≠ RegistryId.process := by decide
  obtain ⟨listed, -, refused⟩ := runAll_listed .machine before 1 apart
  obtain ⟨listed', -, -⟩ := runAll_listed .machine (before ++ drops) 1 apart
  have asked : ∃ e m, large.build 1 s.allocators = .error e m ∧
      m.system.requests ≠ s.allocators.system.requests := ⟨_, _, rfl, by decide +kernel⟩
  obtain ⟨e, m, failed, later⟩ := asked
  exact ⟨by decide +kernel, listed.trans (by decide +kernel),
    ⟨e, m, failed, refused 1 large e m failed, later⟩, listed'.trans (by decide +kernel)⟩

end RosterState

end Session

end ArrayStore
