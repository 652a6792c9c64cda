import ArrayStore.Proofs.Session.ArrayLists
import ArrayStore.Proofs.Session.VectorBooks

/-! Arrays, views and vectors in one store.
The moves of arrays and the steps of vectors are taken in any order, on the same
pools, and frozen vectors pass between views and slots of vectors. Main
statement: after any run each pool counts just the blocks that something refers
to, and each block the frozen vectors on it. -/

namespace ArrayStore.Session

structure MixedState where
  arrays : ArrayState := {}
  slots : Table VectorSlot := {}

inductive MixedMove where
  | array (move : ArrayMove)
  /-- A step on the vectors, where new ones are of a kind. -/
  | vector (kind : Kind) (step : VectorStep)
  /-- Put a copy of a view into a slot of vectors. -/
  | lend (view slot : Nat)
  /-- Put a copy of a frozen vector among the views. -/
  | keep (slot view : Nat)

namespace MixedState

def vectors (s : MixedState) (kind : Kind) : VectorState :=
  ⟨kind, s.arrays.world.store, s.arrays.pools, s.slots⟩

def withVectors (s : MixedState) (t : VectorState) : MixedState :=
  { arrays := { s.arrays with world.store := t.store }, slots := t.slots }

def move (s : MixedState) : MixedMove → MixedState
  | .array t => { s with arrays := Outcome.state (ArrayState.move t s.arrays) }
  | .vector kind t => s.withVectors (Outcome.state (VectorState.step t (s.vectors kind)))
  | .lend view slot =>
    match s.arrays.views.get? view with
    | none => s
    | some f =>
      s.withVectors ((s.vectors f.kind).put slot (.frozen f) (s.arrays.world.store.clone f))
  | .keep slot view =>
    match s.slots.get? slot with
    | some (.frozen f) =>
      { s with
        arrays := s.arrays.putView view f
          { s.arrays.world with store := s.arrays.world.store.clone f } }
    | _ => s

def runAll (s : MixedState) (moves : List MixedMove) : MixedState := moves.foldl move s

def start (system : System) : MixedState := { arrays := .start system }

def holdings (s : MixedState) : List Holding := VectorState.holdings s.slots ++ s.arrays.holdings

/-- The arrays are sound beside the vectors. -/
structure Sound (s : MixedState) : Prop where
  sorted : s.slots.Sorted
  arrays : s.arrays.Sound (VectorState.holdings s.slots)

variable {s : MixedState}

theorem Sound.owns (h : s.Sound) : s.arrays.world.store.Owns s.holdings := h.arrays.owns

theorem sound_start (system : System) : (start system).Sound :=
  ⟨.nil, ArrayState.sound_start system⟩

theorem Sound.vectors (h : s.Sound) (kind : Kind) : (s.vectors kind).Owned s.arrays.holdings :=
  ⟨h.sorted, h.owns, fun _ member => List.mem_append_left _ (List.mem_map_of_mem member)⟩

theorem Sound.withVectors {t : VectorState} (h : s.Sound) (owned : t.Owned s.arrays.holdings) :
    (s.withVectors t).Sound :=
  ⟨owned.sorted, h.arrays.values_sorted, h.arrays.views_sorted, h.arrays.fits, owned.owns⟩

theorem move_sound (h : s.Sound) (t : MixedMove) : (s.move t).Sound := by
  cases t with
  | array t => exact ⟨h.sorted, (ArrayState.move_follows h.arrays t).1⟩
  | vector kind t => exact h.withVectors (VectorState.step_owned (h.vectors kind) t)
  | lend view slot =>
    simp only [move]
    split
    · exact h
    · next f found =>
      have live : .frozen f ∈ s.holdings :=
        List.mem_append_right _ (ArrayState.mem_holdings_view found)
      exact h.withVectors ((h.vectors f.kind).put (x := .frozen f) slot (h.owns.clone_live live).1)
  | keep slot view =>
    simp only [move]
    split
    · next f found =>
      have live : .frozen f ∈ s.holdings := List.mem_append_left _
        (List.mem_map.2 ⟨.frozen f, (Table.mem_values_iff h.sorted).2 ⟨slot, found⟩, rfl⟩)
      exact ⟨h.sorted, (h.arrays.copyView live view).1⟩
    · exact h

theorem runAll_sound (h : s.Sound) (moves : List MixedMove) : (s.runAll moves).Sound := by
  induction moves generalizing s with
  | nil => exact h
  | cons t moves ih => exact ih (move_sound h t)

/-- Whatever was frozen, thawed, copied, dropped, grown and refused before: as many blocks of a
pool are counted as out as are held, those that are held do not wait in the pool, and each
block is counted as often as frozen vectors refer to it. -/
theorem runAll_counts (system : System) (moves : List MixedMove) :
    let s := (start system).runAll moves
    let store := s.arrays.world.store
    (∀ id, (store.allocators.snapshot (.pool id)).numAllocs =
      (Holding.blocksOf store s.holdings id).length) ∧
    (∀ id t, store.allocators.pools.get? id = some t →
      (t.pool.spares ++ Holding.blocksOf store s.holdings id).Nodup) ∧
    ∀ f ∈ Holding.frozens s.holdings, f.cell.isSome = true →
      ∃ b, (Holding.frozen f).block? store = some b ∧
        store.holders f = (Holding.frozens s.holdings).countP fun g =>
          ((Holding.frozen g).block? store).map Block.id = some b.id := by
  intro s store
  have sound : s.Sound := runAll_sound (sound_start system) moves
  refine ⟨fun id => sound.owns.numAllocs id, fun id t found => sound.owns.spares found,
    fun f live refers => ?_⟩
  obtain ⟨b, on⟩ := sound.owns.on_block live refers
  exact ⟨b, on, sound.owns.holders on⟩

/-- A pool of two blocks: an array leaves its block to a view and takes the other; new elements
and the thawing of a shared vector are refused a third one, and then the view is dropped. -/
theorem runAll_counts_capped :
    let moves : List MixedMove := [.array (.build ⟨"pair", some 4, .capped 2, 0⟩ 4),
      .array (.step (.create 0 ⟨"x", .int⟩ (some 0))),
      .array (.step (.put 0 [.int 1, .int 2, .int 3])), .array (.step (.view 0 0)),
      .array (.step (.setLength 0 4)), .array (.step (.view 0 1)),
      .array (.step (.put 0 [.int 5])), .lend 1 7, .vector .int (.thaw 7 none),
      .array (.step (.dropView 0))]
    let s := (start .machine).runAll moves
    let store := s.arrays.world.store
    (store.allocators.snapshot (.pool 0)).numAllocs = 1 ∧
      (Holding.blocksOf store s.holdings 0).length = 1 ∧
      ∃ t, store.allocators.pools.get? 0 = some t ∧ t.pool.spares.Nodup ∧
        ∃ f ∈ Holding.frozens s.holdings, ∃ b, (Holding.frozen f).block? store = some b ∧
          (Holding.frozens s.holdings).countP (fun g =>
            ((Holding.frozen g).block? store).map Block.id = some b.id) = 2 := by
  intro moves s store
  obtain ⟨counts, spares, holders⟩ := runAll_counts .machine moves
  have one : (store.allocators.snapshot (.pool 0)).numAllocs = 1 := by decide +kernel
  obtain ⟨t, found⟩ : ∃ t, store.allocators.pools.get? 0 = some t :=
    Option.isSome_iff_exists.1 (by decide +kernel)
  have shared : ∃ f ∈ Holding.frozens s.holdings, f.cell.isSome = true ∧ store.holders f = 2 := by
    decide +kernel
  obtain ⟨f, live, refers, two⟩ := shared
  obtain ⟨b, on, count⟩ := holders f live refers
  exact ⟨one, (counts 0).symm.trans one, t, found, (spares 0 t found).sublist
    (List.sublist_append_left _ _), f, live, b, on, count.symm.trans two⟩

end MixedState

end ArrayStore.Session
