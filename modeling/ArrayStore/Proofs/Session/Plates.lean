import ArrayStore.Proofs.Session.Mixed
import ArrayStore.Proofs.Value.Plates

/-! Sessions put up pools by orders only.
A step on vectors or arrays, whatever it makes, grows, shares or drops and
whether or not it succeeds, leaves each pool under its plate or takes it down.
Main statement: so does every move of a mixed session but the one that builds. -/

namespace ArrayStore.Session

def ArrayMove.order? : ArrayMove → Option PoolOrder
  | .build config elementSize => some (.described config elementSize)
  | _ => none

def MixedMove.order? : MixedMove → Option PoolOrder
  | .array t => t.order?
  | _ => none

namespace VectorState

variable {s : VectorState}

theorem discard_since (store : Store) (x : Option VectorSlot) : (discard store x).Since store := by
  cases x with
  | none => exact .refl _
  | some x =>
    cases x with
    | writable w => exact store.dropWritable_since w
    | frozen f => exact store.drop_since f

theorem put_since (s : VectorState) (slot : Nat) (x : VectorSlot) {store : Store}
    (since : store.Since s.store) : (s.put slot x store).store.Since s.store :=
  (discard_since store (s.slots.get? slot)).trans since

theorem make_since (slot : Nat) {r : Outcome Store VectorSlot}
    (since : (Outcome.state r).Since s.store) :
    (Outcome.state (s.make slot r)).store.Since s.store := by
  cases r with
  | ok x store => exact s.put_since slot x since
  | error e store => exact since

theorem state_asWritable (r : Outcome Store Writable) :
    Outcome.state (asWritable r) = Outcome.state r := by
  cases r <;> rfl

theorem state_asFrozen (r : Outcome Store Frozen) :
    Outcome.state (asFrozen r) = Outcome.state r := by
  cases r <;> rfl

theorem change_since {change : Change (Writable × Allocators) Unit} (slot : Nat) (w : Writable)
    (since : (Outcome.state (change (w, s.store.allocators))).2.Since s.store.allocators) :
    (Outcome.state (s.change slot w change)).store.Since s.store := by
  have since := Store.onWritable_since w s.store since
  unfold VectorState.change
  cases run : Store.onWritable change (w, s.store) with
  | ok _ p | error e p =>
    rw [run] at since
    exact since

theorem thaw_since (s : VectorState) (slot : Nat) (pool : Option Nat) :
    (Outcome.state (step (.thaw slot pool) s)).store.Since s.store := by
  simp only [step]
  split
  · next f _ =>
    have since := Store.thaw_since f (s.allocator pool) s.store
    cases run : Store.thaw f (s.allocator pool) s.store with
    | ok w store | error e store =>
      rw [run] at since
      exact since
  · exact .refl _

theorem step_since (s : VectorState) (t : VectorStep) :
    (Outcome.state (step t s)).store.Since s.store := by
  cases t with
  | create slot pool =>
    exact s.put_since slot _ (s.store.emptyWritable_since s.kind (s.allocator pool))
  | ofList slot values pool =>
    refine make_since slot ?_
    rw [state_asWritable]
    exact s.store.onAllocators_since (Writable.ofList_since ..)
  | frozenOfList slot values =>
    refine make_since slot ?_
    rw [state_asFrozen]
    exact s.store.ofList_since s.kind .shared values
  | emptyFrozen slot => exact s.put_since slot _ (.refl _)
  | blank slot length zero pool =>
    refine make_since slot ?_
    rw [state_asWritable]
    exact s.store.onAllocators_since (Writable.blank_since ..)
  | freeze slot =>
    simp only [step]
    split
    · next w _ => exact s.store.freeze_since w
    · exact .refl _
  | thaw slot pool => exact s.thaw_since slot pool
  | clone slot other =>
    simp only [step]
    split
    · next f _ => exact s.put_since other _ (s.store.clone_since f)
    · exact .refl _
  | drop slot =>
    simp only [step]
    split
    · next x _ => exact discard_since s.store (some x)
    · exact .refl _
  | slice slot offset count =>
    simp only [step]
    split <;> exact .refl _
  | reserve slot capacity =>
    simp only [step]
    split
    · next w _ => exact change_since slot w (Writable.reserve_since capacity w s.store.allocators)
    · exact .refl _
  | resize slot length =>
    simp only [step]
    split
    · next w _ => exact change_since slot w (Writable.resize_since length w s.store.allocators)
    · exact .refl _
  | set slot index value =>
    simp only [step]
    split
    · split <;> exact .refl _
    · exact .refl _
  | swap slot other =>
    simp only [step]
    split
    · exact .refl _
    · exact .refl _
    · next a _ _ => exact discard_since s.store (some a)
    · exact .refl _

end VectorState

namespace ArrayState

variable {s : ArrayState} {w : World}

theorem putValue_since (s : ArrayState) (slot : Nat) (v : FieldValue)
    (since : w.store.Since s.world.store) :
    (s.putValue slot v w).world.store.Since s.world.store := by
  unfold putValue
  cases s.values.get? slot with
  | none => exact since
  | some old => exact (old.drop_since w).trans since

theorem putView_since (s : ArrayState) (slot : Nat) (f : Frozen)
    (since : w.store.Since s.world.store) :
    (s.putView slot f w).world.store.Since s.world.store := by
  unfold putView
  cases s.views.get? slot with
  | none => exact since
  | some old => exact (w.store.drop_since old).trans since

theorem onValue_since {change : Change (FieldValue × World) Unit} (slot : Nat)
    (since : ∀ v, (Outcome.state (change (v, s.world))).2.store.Since s.world.store) :
    (Outcome.state (s.onValue slot change)).world.store.Since s.world.store := by
  unfold onValue
  cases s.values.get? slot with
  | none => exact .refl _
  | some v =>
    have since := since v
    simp only
    cases run : change (v, s.world) with
    | ok _ p | error e p =>
      rw [run] at since
      exact since

theorem install_since {make : Change Store Frozen} (v : FieldValue) (w : World)
    (since : (Outcome.state (make w.store)).Since w.store) :
    (Outcome.state (install make (v, w))).2.store.Since w.store := by
  have since := FieldValue.replace_made_since v w since
  simp only [install]
  cases run : World.onStore make w with
  | error e u | ok next u =>
    rw [run] at since
    exact since

theorem onDecode_since (s : ArrayState) (slot : Nat) (input : Incoming) :
    (Outcome.state (s.onDecode slot input)).world.store.Since s.world.store := by
  unfold onDecode
  cases s.values.get? slot with
  | none => exact .refl _
  | some v =>
    have since := v.deserialize_since s.world input
    simp only
    cases run : FieldValue.deserialize (v, s.world, input) with
    | ok _ p | error e p =>
      rw [run] at since
      exact since

theorem makeView_since (s : ArrayState) (view : Nat) (k : Kind) (elements : List Scalar) :
    (Outcome.state (step (.makeView view k elements) s)).world.store.Since s.world.store := by
  have since := s.world.store.ofList_since k .shared elements
  simp only [step, World.onStore]
  cases run : Store.ofList k .shared elements s.world.store with
  | error e t =>
    rw [run] at since
    exact since
  | ok f t =>
    rw [run] at since
    exact s.putView_since view f since

theorem swap_since (s : ArrayState) (value view : Nat) :
    (Outcome.state (step (.swap value view) s)).world.store.Since s.world.store := by
  simp only [step]
  split
  · next v f _ _ =>
    split
    · exact .refl _
    · cases run : FieldValue.swap (v, f, s.world) with
      | error e p =>
        obtain ⟨v', f', w'⟩ := p
        obtain ⟨-, -, rfl⟩ := FieldValue.swap_error run
        exact .refl _
      | ok _ p =>
        obtain ⟨v', f', w'⟩ := p
        obtain ⟨-, -, rfl⟩ := FieldValue.swap_ok run
        exact .refl _
  · exact .refl _

theorem step_since (s : ArrayState) (t : ArrayStep) :
    (Outcome.state (step t s)).world.store.Since s.world.store := by
  cases t with
  | record | tracker => exact .refl _
  | freezeRecord | freezeToken | post | clear | setImmutable | sliceView =>
    simp only [step]
    split <;> exact .refl _
  | token slot source =>
    cases source with
    | fresh | bare => exact .refl _
    | childOf other | copyOf other =>
      simp only [step]
      cases s.tokens.get? other <;> exact .refl _
  | add slot value field =>
    simp only [step]
    split
    · exact .refl _
    · next r _ =>
      refine ArrayState.putValue_since
        { s with records := s.records.insert slot (r.add field s.world).1 } value _ ?_
      simp only [Record.add, FieldValue.store_attach]
      exact FieldValue.create_since field .shared s.world
  | attach value token watch offset =>
    simp only [step]
    split
    · next v t id _ _ _ =>
      rw [Outcome.state_ok, FieldValue.store_attach]
      exact .refl _
    · exact .refl _
  | create value field pool =>
    exact s.putValue_since value _ (FieldValue.create_since field (s.allocator pool) s.world)
  | growFrom value pool =>
    simp only [step]
    split
    · exact .refl _
    · next v _ => exact v.growFrom_since (s.allocator pool) s.world
  | drop value =>
    simp only [step]
    split
    · exact .refl _
    · next v _ => exact v.drop_since s.world
  | put value elements =>
    exact onValue_since value fun v => v.putFrom_since elements s.world
  | replace value elements =>
    simp only [step]
    split
    · exact .refl _
    · exact onValue_since value fun v => install_since v s.world (Store.ofList_since ..)
  | setLength value length => exact onValue_since value fun v => v.setLength_since length s.world
  | setCapacity value capacity =>
    exact onValue_since value fun v => v.setCapacity_since capacity s.world
  | setCapacityMutable value on =>
    refine onValue_since value fun v => ?_
    simp only [FieldValue.setCapacityMutable]
    split <;> exact .refl _
  | view value view =>
    simp only [step]
    split
    · exact .refl _
    · next v _ => exact s.putView_since view _ (s.world.store.clone_since v.value)
  | makeView view k elements => exact s.makeView_since view k elements
  | dropView view =>
    simp only [step]
    split
    · exact .refl _
    · next f _ => exact s.world.store.drop_since f
  | swap value view => exact s.swap_since value view
  | install value view =>
    simp only [step]
    split
    · next f _ _ =>
      split
      · exact .refl _
      · exact onValue_since value fun v => install_since v s.world (s.world.store.clone_since f)
    · exact .refl _
  | serialize value capacity order direct range =>
    rw [s.state_serialize]
    exact .refl _
  | deserialize value bytes order =>
    exact s.onDecode_since value ⟨.holding bytes order, .closed⟩

theorem move_since (s : ArrayState) {t : ArrayMove} (plain : t.order? = none) :
    (Outcome.state (move t s)).world.store.Since s.world.store := by
  cases t with
  | build config elementSize => cases plain
  | step t => exact s.step_since t
  | forget pool =>
    simp only [move]
    split
    · exact .refl _
    · next a _ => exact s.world.store.allocators.letGo_since a
  | decode value input valid => exact s.onDecode_since value input
  | pass value view =>
    simp only [move]
    split
    · next f _ _ =>
      split
      · exact .refl _
      · exact onValue_since (s := { s with views := s.views.erase view }) value fun v =>
          v.replace_since f s.world
    · exact .refl _

end ArrayState

namespace MixedState

def allocators (s : MixedState) : Allocators := s.arrays.world.store.allocators

theorem move_since (s : MixedState) {t : MixedMove} (plain : t.order? = none) :
    (s.move t).allocators.Since s.allocators := by
  cases t with
  | array t => exact s.arrays.move_since plain
  | vector kind t => exact (s.vectors kind).step_since t
  | lend view slot =>
    simp only [move]
    split
    · exact .refl _
    · next f _ =>
      exact (s.vectors f.kind).put_since slot (.frozen f) (s.arrays.world.store.clone_since f)
  | keep slot view =>
    simp only [move]
    split
    · next f _ => exact s.arrays.putView_since view f (s.arrays.world.store.clone_since f)
    · exact .refl _

end MixedState

end ArrayStore.Session
