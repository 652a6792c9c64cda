import ArrayStore.Proofs.Memory.Passage
import ArrayStore.Proofs.Session.Mixed
import ArrayStore.Proofs.Value.Calls

/-! Arrays that may not change.
Main statement: in whatever state of the session an array is immutable, no call
on it does anything. Those that write say so, and the only trace that is left is
that a vector that was passed in is gone. -/

namespace ArrayStore

theorem Store.drop_undrawn (s : Store) (f : Frozen) :
    s.allocators.Undrawn (s.drop f).allocators := by
  unfold Store.drop
  split
  · exact .refl _
  · split
    · exact .refl _
    · split
      · exact s.allocators.release_undrawn _
      · exact .refl _

namespace FieldValue

/-- A value that may not change before and after a call, of which nothing can be told apart but
whether it has locked its capacity itself. -/
structure Inert (v : FieldValue) (w : World) (v' : FieldValue) (w' : World) : Prop where
  values : v'.values w' = v.values w
  length : v'.length = v.length
  capacity : v'.capacity w' = v.capacity w
  block : (Holding.frozen v'.value).block? w'.store = (Holding.frozen v.value).block? w.store
  address : w'.store.address v'.value = w.store.address v.value
  /-- The field, the allocator, the token and the owner. -/
  marks : v' = { v with capacityMutable := v'.capacityMutable }
  isImmutable : v'.isImmutable w' = true
  isCapacityMutable : v'.isCapacityMutable w' = false
  trackers : w'.trackers = w.trackers ∧ w'.tracked = w.tracked
  allocators : w.store.allocators.Undrawn w'.store.allocators

variable {v v' : FieldValue} {w w' : World} {l : List Holding}

theorem inert_of_storage (marks : v' = { v with capacityMutable := v'.capacityMutable })
    (storage : w'.store.storage? v.value = w.store.storage? v.value)
    (immutable : w'.flags.isImmutable v.token = true)
    (trackers : w'.trackers = w.trackers ∧ w'.tracked = w.tracked)
    (undrawn : w.store.allocators.Undrawn w'.store.allocators) : Inert v w v' w' := by
  have content : v'.value = v.value := by rw [marks]
  have fixed : v'.isImmutable w' = true := by rw [FieldValue.isImmutable, marks]; exact immutable
  have same : w'.store.storage? v'.value = w.store.storage? v.value := content ▸ storage
  refine {
    values := ?_
    length := congrArg Frozen.length content
    capacity := ?_
    block := congrArg (Option.map Storage.block) same
    address := ?_
    marks := marks
    isImmutable := fixed
    isCapacityMutable := by rw [FieldValue.isCapacityMutable, fixed]; rfl
    trackers := trackers
    allocators := undrawn }
  · rw [FieldValue.values, FieldValue.values, Store.values, Store.values, same, content]
  · rw [FieldValue.capacity, FieldValue.capacity, Store.capacity, Store.capacity, same, content]
  · rw [Store.address, Store.address, same, content]

/-- A call on a value that may not change, which does not lie on a vector that only the call
has. -/
theorem Call.run_inert (immutable : v.isImmutable w = true) (c : Call)
    (owns : ∀ next, c = .replace next →
      ∃ l, w.store.Owns (.frozen next :: l) ∧ v.value ∈ Holding.frozens l) :
    ∃ v' w', c.run v w =
        (if c.writes then .error (.immutable v.field.name) (c, v', w') else .ok () (c, v', w')) ∧
      w'.store = c.spent w.store ∧ Inert v w v' w' := by
  obtain ⟨v', marks, run⟩ := c.run_of_immutable immutable
  cases writes : c.writes with
  | true =>
    rw [writes, if_pos rfl] at run
    refine ⟨v', _, run, rfl, inert_of_storage marks ?_ immutable ⟨rfl, rfl⟩ ?_⟩
    · cases c with
      | replace next =>
        obtain ⟨l, owned, live⟩ := owns next rfl
        exact owned.storage_dropped live
      | _ => rfl
    · cases c with
      | replace next => exact w.store.drop_undrawn next
      | _ => exact .refl _
  | false =>
    rw [writes] at run
    refine ⟨v', _, run, ?_, inert_of_storage marks rfl ?_ ⟨rfl, rfl⟩ (.refl _)⟩
    · cases c with
      | replace next => cases writes
      | _ => rfl
    · cases c with
      | setImmutable => exact Flags.isImmutable_freeze immutable _
      | _ => exact immutable

end FieldValue

namespace Session.MixedState

open FieldValue (Call Inert)

/-- However an array has become immutable and whatever shares its block: a call on it changes
nothing that can be told of it and takes no block, no one is told of a change, and what was given
to the call comes back as it was. Only a vector that was to replace the content is dropped. -/
theorem immutable_inert (system : System) (moves : List MixedMove) :
    let s := (start system).runAll moves
    let w := s.arrays.world
    ∀ slot v, s.arrays.values.get? slot = some v → v.isImmutable w = true →
      ∀ c : Call, (∀ next, c = .replace next → ∃ view, s.arrays.views.get? view = some next) →
        ∃ v' w', c.run v w =
            (if c.writes then .error (.immutable v.field.name) (c, v', w')
              else .ok () (c, v', w')) ∧
          Inert v w v' w' ∧
          ∀ other, c = .swap other → w'.store.values other = w.store.values other := by
  intro s w slot v found immutable c given
  have sound : s.Sound := runAll_sound (sound_start system) moves
  obtain ⟨v', w', run, store, inert⟩ := c.run_inert immutable fun next passed => by
    obtain ⟨view, viewed⟩ := given next passed
    have both := ((sound.arrays.takeValue found).1.takeView viewed).1.owns
    exact ⟨_, both, Holding.mem_frozens.2 (by simp [FieldValue.holdings])⟩
  refine ⟨v', w', run, inert, fun other swaps => ?_⟩
  rw [store, swaps]
  rfl

/-- A field of a frozen record and two vectors: one on the only block of a pool, with which the
content is to be replaced, and one on the block of the field itself, which is to be swapped in. -/
theorem immutable_inert_frozen_record :
    let moves : List MixedMove := [.array (.build ⟨"single", some 4, .capped 1, 0⟩ 4),
      .array (.step (.record 0 "r")), .array (.step (.add 0 0 ⟨"x", .int⟩)),
      .array (.step (.put 0 [.int 1, .int 2])), .array (.step (.view 0 1)),
      .array (.step (.create 1 ⟨"y", .int⟩ (some 0))), .array (.step (.put 1 [.int 3])),
      .array (.step (.view 1 0)), .array (.step (.drop 1)), .array (.step (.freezeRecord 0))]
    let s := (start .machine).runAll moves
    let w := s.arrays.world
    ∃ v f g, s.arrays.values.get? 0 = some v ∧ s.arrays.views.get? 0 = some f ∧
      s.arrays.views.get? 1 = some g ∧ w.store.holders v.value = 2 ∧
      (w.store.allocators.snapshot (.pool 0)).numAllocs = 1 ∧
      (∃ v' w', (Call.replace f).run v w = .error (.immutable "x") (.replace f, v', w') ∧
        v'.values w' = [.int 1, .int 2] ∧ w'.trackers = w.trackers) ∧
      ∃ v' w', (Call.swap g).run v w = .error (.immutable "x") (.swap g, v', w') ∧
        v'.values w' = [.int 1, .int 2] ∧ w'.store.values g = [.int 1, .int 2] := by
  intro moves s w
  have there : ∃ v ∈ s.arrays.values.get? 0, ∃ f ∈ s.arrays.views.get? 0,
      ∃ g ∈ s.arrays.views.get? 1, v.isImmutable w = true ∧ v.field.name = "x" ∧
        v.values w = [.int 1, .int 2] ∧ w.store.values g = [.int 1, .int 2] ∧
        w.store.holders v.value = 2 ∧
        (w.store.allocators.snapshot (.pool 0)).numAllocs = 1 := by decide +kernel
  obtain ⟨v, found, f, first, g, second, immutable, name, values, shown, shared, out⟩ := there
  have inert := immutable_inert .machine moves 0 v found immutable
  obtain ⟨v₁, w₁, replaced, kept, -⟩ := inert (.replace f) fun next same => by
    cases same
    exact ⟨0, first⟩
  obtain ⟨v₂, w₂, swapped, kept', other⟩ := inert (.swap g) fun next same => by cases same
  rw [name] at replaced swapped
  exact ⟨v, f, g, found, first, second, shared, out,
    ⟨v₁, w₁, replaced, kept.values.trans values, kept.trackers.1⟩,
    v₂, w₂, swapped, kept'.values.trans values, (other g rfl).trans shown⟩

end Session.MixedState

end ArrayStore
