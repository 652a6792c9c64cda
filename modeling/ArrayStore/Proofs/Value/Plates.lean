import ArrayStore.Proofs.Value.Operations
import ArrayStore.Proofs.Vector.Plates

/-! Array values build no pools.
An operation on a value works on its content and on vectors that it makes and
gives back, so that the pools that are left stood before, under the same plates.
This includes reading from any stream, wherever it stops. -/

namespace ArrayStore

namespace Intake

variable {k : Kind}

theorem onNext_since {change : Change (Writable × Allocators) Unit} (s : Intake)
    (since : (Outcome.state (change (s.next, s.store.allocators))).2.Since s.store.allocators) :
    (Outcome.state (onNext change s)).store.Since s.store := by
  obtain ⟨next, input, store⟩ := s
  have since := Store.onWritable_since next store since
  simp only [onNext]
  cases run : Store.onWritable change (next, store) with
  | ok _ p | error e p =>
    rw [run] at since
    exact since

theorem growTo_since (length count : Nat) (s : Intake) :
    (Outcome.state (growTo length count s)).store.Since s.store := by
  by_cases tight : s.next.capacity < length
  · rw [growTo_of_tight tight]
    exact onNext_since s (Writable.grow_since _ length s.next s.store.allocators)
  · rw [growTo_of_roomy tight]
    exact onNext_since s (Writable.resize_since length s.next s.store.allocators)

theorem readFixed_since {width : Nat} (width_pos : 0 < width) (count done : Nat) (s : Intake) :
    (Outcome.state (readFixed k width width_pos count done s)).store.Since s.store := by
  fun_induction readFixed k width width_pos count done s with
  | case1 done s all => exact .refl _
  | case2 done s more stop e t failed =>
    have since := growTo_since stop count s
    rw [failed] at since
    exact since
  | case3 done s more stop next input store ran e input' failed =>
    have since := growTo_since stop count s
    rw [ran] at since
    exact since
  | case4 done s more stop next input store ran bytes input' bulk values ih =>
    have since := growTo_since stop count s
    rw [ran] at since
    exact ih.trans since
  | case5 done s more stop next input store ran input' declined e t failed =>
    have since := growTo_since stop count s
    have same := store_readElements (k := k) width_pos count stop done ⟨next, input', store⟩
    rw [ran] at since
    rw [failed] at same
    rw [Outcome.state_error, show t.store = store from same]
    exact since
  | case6 done s more stop next input store ran input' declined t elements ih =>
    have since := growTo_since stop count s
    have same := store_readElements (k := k) width_pos count stop done ⟨next, input', store⟩
    rw [ran] at since
    rw [elements] at same
    rw [show t.store = store from same] at ih
    exact ih.trans since

theorem readTexts_since (count missing : Nat) (s : Intake) :
    (Outcome.state (readTexts count missing s)).store.Since s.store := by
  induction missing generalizing s with
  | zero => exact .refl _
  | succ missing ih =>
    obtain ⟨next, input, store⟩ := s
    simp only [readTexts]
    cases Wire.readText input with
    | error e input' => exact .refl _
    | ok text input' =>
      have since := growTo_since (count - (missing + 1) + 1) count ⟨next, input', store⟩
      simp only
      cases run : growTo (count - (missing + 1) + 1) count ⟨next, input', store⟩ with
      | error e t =>
        rw [run] at since
        exact since
      | ok _ t =>
        rw [run] at since
        exact (ih _).trans since

theorem readAll_since (count : Nat) (s : Intake) :
    (Outcome.state (readAll k count s)).store.Since s.store := by
  unfold readAll
  split
  · exact readTexts_since count count s
  · next width exact => exact readFixed_since (Kind.width?_pos exact) count 0 s

end Intake

theorem Wire.readArray_since (k : Kind) (a : Allocator) (input : Incoming) (s : Store) :
    (Outcome.state (readArray k a (input, s))).2.Since s := by
  simp only [readArray]
  cases readSize input with
  | error e input' => exact .refl _
  | ok count input' =>
    have since := (Intake.readAll_since (k := k) count
      ⟨(s.emptyWritable k a).1, input', (s.emptyWritable k a).2⟩).trans (s.emptyWritable_since k a)
    simp only
    cases run : Intake.readAll k count
        ⟨(s.emptyWritable k a).1, input', (s.emptyWritable k a).2⟩ with
    | error e u =>
      rw [run] at since
      exact (u.store.dropWritable_since u.next).trans since
    | ok _ u =>
      rw [run] at since
      exact (u.store.freeze_since u.next).trans since

namespace FieldValue

theorem create_since (field : Field) (a : Allocator) (w : World) :
    (create field a w).2.store.Since w.store := w.store.allocators.retain_since a

theorem growFrom_since (a : Allocator) (v : FieldValue) (w : World) :
    (v.growFrom a w).2.store.Since w.store :=
  (Allocators.letGo_since _ v.allocator).trans (w.store.allocators.retain_since a)

theorem drop_since (v : FieldValue) (w : World) : (v.drop w).store.Since w.store :=
  (Allocators.letGo_since _ v.allocator).trans (w.store.drop_since v.value)

theorem store_attach (v : FieldValue) (token : Token) (owner : Owner) (w : World) :
    (v.attach token owner w).2.store = w.store := by
  simp only [attach]
  split <;> rfl

theorem modify_since (change : Change (Writable × Allocators) Unit)
    (since : ∀ w m, (Outcome.state (change (w, m))).2.Since m) (v : FieldValue) (w : World) :
    (Outcome.state (modify change (v, w))).2.store.Since w.store := by
  let store := if w.store.unique v.value then w.store else w.store.clone v.value
  have start : store.Since w.store := by
    unfold store
    split
    · exact .refl _
    · exact w.store.clone_since v.value
  have thawed := (Store.thaw_since v.value v.allocator store).trans start
  simp only [modify]
  cases run : Store.thaw v.value v.allocator store with
  | error e t =>
    rw [run] at thawed
    exact thawed
  | ok next t =>
    rw [run] at thawed
    have changed := (Store.onWritable_since next t (since next t.allocators)).trans thawed
    simp only
    cases run' : Store.onWritable change (next, t) with
    | ok _ p =>
      rw [run'] at changed
      have frozen := (p.2.freeze_since p.1).trans changed
      simp only [Outcome.state_ok]
      split
      · exact frozen
      · exact (Store.drop_since _ v.value).trans frozen
    | error e p =>
      rw [run'] at changed
      simp only
      split
      · exact (p.2.freeze_since p.1).trans changed
      · exact (p.2.dropWritable_since p.1).trans changed

theorem setCapacity_since (capacity : Nat) (v : FieldValue) (w : World) :
    (Outcome.state (setCapacity capacity (v, w))).2.store.Since w.store := by
  simp only [setCapacity]
  split
  · exact .refl _
  · split
    · exact .refl _
    · exact modify_since _ (Writable.reserve_since capacity) v w

theorem setLength_since (length : Nat) (v : FieldValue) (w : World) :
    (Outcome.state (setLength length (v, w))).2.store.Since w.store := by
  simp only [setLength]
  split
  · exact .refl _
  · split
    · exact .refl _
    · split
      · exact .refl _
      · exact modify_since _ (Writable.resize_since length) v w

theorem replace_since (next : Frozen) (v : FieldValue) (w : World) :
    (Outcome.state (replace next (v, w))).2.store.Since w.store := by
  simp only [replace]
  split
  · exact w.store.drop_since next
  · rw [Outcome.state_ok, store_post]
    exact w.store.drop_since v.value

theorem replace_made_since {make : Change Store Frozen} (v : FieldValue) (w : World)
    (since : (Outcome.state (make w.store)).Since w.store) :
    match World.onStore make w with
    | .ok next u => (Outcome.state (replace next (v, u))).2.store.Since w.store
    | .error _ u => u.store.Since w.store := by
  simp only [World.onStore]
  cases run : make w.store with
  | error e t =>
    rw [run] at since
    exact since
  | ok next t =>
    rw [run] at since
    exact (replace_since next v _).trans since

theorem putFrom_since (elements : List Scalar) (v : FieldValue) (w : World) :
    (Outcome.state (putFrom elements (v, w))).2.store.Since w.store := by
  have since := replace_made_since v w (Store.ofList_since v.kind v.allocator elements w.store)
  simp only [putFrom]
  split
  · exact .refl _
  · cases run : World.onStore (Store.ofList v.kind v.allocator elements) w with
    | error e u | ok next u =>
      rw [run] at since
      exact since

theorem deserialize_since (v : FieldValue) (w : World) (input : Incoming) :
    (Outcome.state (deserialize (v, w, input))).2.1.store.Since w.store := by
  have since := Wire.readArray_since v.kind v.allocator input w.store
  simp only [deserialize]
  split
  · exact .refl _
  · cases run : Wire.readArray v.kind v.allocator (input, w.store) with
    | error e p =>
      rw [run] at since
      exact since
    | ok next p =>
      rw [run] at since
      simp only [Outcome.state_ok, store_post]
      exact (p.2.drop_since v.value).trans since

end FieldValue

end ArrayStore
