import ArrayStore.Proofs.Value.Acceptance
import ArrayStore.Proofs.Value.Changes
import ArrayStore.Proofs.Value.Storing

/-! The operations on array values, one lemma each.
An operation that succeeds shows what it should, and an operation that fails
leaves the value, its marks and everything else as they were; the one exception
is a failed replacement, which uses up the vector that was passed in. -/

namespace ArrayStore

namespace FieldValue

open Holding (frozens)

variable {v : FieldValue} {w : World} {l : List Holding}

theorem create_owns (h : w.store.Owns l) (field : Field) {a : Allocator}
    (alive : w.store.allocators.Alive a) :
    (create field a w).2.store.Owns ((create field a w).1.holdings ++ l) :=
  ((h.retain alive).bare field.kind).perm (.swap ..)

theorem growFrom_owns (h : w.store.Owns (v.holdings ++ l)) {a : Allocator}
    (alive : w.store.allocators.Alive a) :
    (v.growFrom a w).2.store.Owns ((v.growFrom a w).1.holdings ++ l) :=
  Store.Owns.letGo ((h.retain alive).perm (.swap ..))

theorem setCapacity_spec (h : w.store.Owns (v.holdings ++ l)) (capacity : Nat) :
    match setCapacity capacity (v, w) with
    | .ok () (v', w') =>
      Renewed v w l (v.values w) v' w' ∧ (v.isCapacityMutable w = true → capacity ≤ v'.capacity w')
    | .error _ (v', w') => Untouched v w l v' w' := by
  have same := (Untouched.refl h).toRenewed
  by_cases mutable : v.isCapacityMutable w = true
  · by_cases room : capacity ≤ v.capacity w
    · simp only [setCapacity, mutable, Bool.not_true, Bool.false_eq_true, if_false, if_pos room]
      exact ⟨same, fun _ => room⟩
    · have made := modify_makes h (Writable.reserve_makes capacity)
      simp only [setCapacity, mutable, Bool.not_true, Bool.false_eq_true, if_false, if_neg room]
      cases run : modify (Writable.reserve capacity) (v, w) with
      | error e t =>
        rw [run] at made
        exact made
      | ok _ t =>
        rw [run] at made
        obtain ⟨u, u', -, -, shown, ⟨kept, large⟩, exact, renewed⟩ := made
        rw [kept, shown] at renewed
        exact ⟨renewed, fun _ => exact ▸ large⟩
  · simp only [setCapacity, mutable, Bool.not_false, if_true]
    exact ⟨same, fun eq => absurd eq (by decide)⟩

theorem setLength_spec (h : w.store.Owns (v.holdings ++ l)) (length : Nat) :
    match setLength length (v, w) with
    | .ok () (v', w') =>
      Renewed v w l ((v.values w).take length ++
        List.replicate (length - v.length) v.value.kind.blank) v' w'
    | .error _ (v', w') => Untouched v w l v' w' := by
  have size : (v.values w).length = v.length := h.length_values (by simp [holdings])
  by_cases immutable : v.isImmutable w = true
  · simp only [setLength, if_pos immutable]
    exact .refl h
  · simp only [setLength, if_neg immutable]
    by_cases equal : length = v.length
    · simp only [if_pos equal]
      have same := (Untouched.refl h).toRenewed
      rwa [equal, Nat.sub_self, List.replicate_zero, List.append_nil,
        List.take_of_length_le (Nat.le_of_eq size)]
    · simp only [if_neg equal]
      by_cases shorter : length < v.length
      · simp only [if_pos shorter]
        have start := h.perm (v.holdings_perm l)
        obtain ⟨-, values⟩ := start.frozen.slice 0 length
        refine ⟨rfl, rfl, ((start.slice 0 length).perm (.swap ..)), fun _ _ => rfl, ?_⟩
        rw [Nat.sub_eq_zero_of_le (Nat.le_of_lt shorter), List.replicate_zero, List.append_nil]
        exact values
      · have made := modify_makes h (Writable.resize_makes length)
        simp only [if_neg shorter]
        cases run : modify (Writable.resize length) (v, w) with
        | error e t =>
          rw [run] at made
          exact made
        | ok _ t =>
          rw [run] at made
          obtain ⟨u, u', sound, kind, shown, grown, -, renewed⟩ := made
          have before : u.length = v.length := by
            rw [← Writable.length_values sound, shown, size]
          rwa [grown, shown, kind, before] at renewed

theorem store_post (v : FieldValue) (w : World) : (v.post w).store = w.store := by
  unfold post
  split <;> rfl

theorem replace_spec {next : Frozen} (h : w.store.Owns (.frozen next :: (v.holdings ++ l)))
    (kind : next.kind = v.value.kind) :
    match replace next (v, w) with
    | .ok () (v', w') => Renewed v w l (w.store.values next) v' w'
    | .error _ (v', w') =>
      v.isImmutable w = true ∧ v' = v ∧ w' = { w with store := w.store.drop next } := by
  by_cases immutable : v.isImmutable w = true
  · have refused : replace next (v, w) =
        .error (.immutable v.field.name) (v, { w with store := w.store.drop next }) := by
      simp only [replace, if_pos immutable]
    rw [refused]
    exact ⟨immutable, rfl, rfl⟩
  · have order : (Holding.frozen next :: (v.holdings ++ l)).Perm
        (.frozen v.value :: (holdings { v with value := next } ++ l)) :=
      ((v.holdings_perm l).cons _).trans ((List.Perm.swap ..).trans ((List.Perm.swap ..).cons _))
    have start := h.perm order
    have kept := start.frozen.drop.2
    simp only [replace, if_neg immutable]
    refine ⟨rfl, kind, ?_, fun g member => ?_, ?_⟩
    · rw [store_post]
      exact start.drop
    · rw [store_post]
      exact kept g (List.mem_cons_of_mem _ member)
    · simp only [values, store_post]
      exact kept next List.mem_cons_self

theorem replace_error {next : Frozen} {v' : FieldValue} {w' : World} {e : Error}
    (failed : replace next (v, w) = .error e (v', w')) :
    v' = v ∧ w' = { w with store := w.store.drop next } := by
  simp only [replace] at failed
  split at failed
  · cases failed
    exact ⟨rfl, rfl⟩
  · cases failed

theorem replace_made {t : Store} {next : Frozen} {shown : List Scalar}
    (owns : t.Owns (.frozen next :: (v.holdings ++ l))) (kind : next.kind = v.value.kind)
    (shows : t.values next = shown) (keeps : w.store.Keeps t (frozens l))
    (mutable : v.isImmutable w = false) :
    ∃ v' w', replace next (v, { w with store := t }) = .ok () (v', w') ∧
      Renewed v w l shown v' w' := by
  have replaced := replace_spec (w := { w with store := t }) owns kind
  cases run : replace next (v, { w with store := t }) with
  | error e p =>
    obtain ⟨v', w'⟩ := p
    rw [run] at replaced
    have fixed : v.isImmutable w = true := replaced.1
    rw [mutable] at fixed
    cases fixed
  | ok _ p =>
    obtain ⟨v', w'⟩ := p
    rw [run] at replaced
    obtain ⟨value, kind', owns', keeps', values⟩ := replaced
    exact ⟨v', w', rfl, value, kind', owns', keeps.trans keeps', values.trans shows⟩

theorem putFrom_spec (h : w.store.Owns (v.holdings ++ l)) (kind : v.value.kind = v.kind)
    (elements : List Scalar) :
    match putFrom elements (v, w) with
    | .ok () (v', w') => Renewed v w l elements v' w'
    | .error _ (v', w') => Untouched v w l v' w' := by
  cases immutable : v.isImmutable w with
  | true =>
    simp only [putFrom, immutable, if_true]
    exact .refl h
  | false =>
    obtain ⟨store, flags, trackers, tracked⟩ := w
    have alive := h.alive (a := v.allocator) (by simp [holdings])
    have owns := h.ofList alive v.kind elements
    have made := h.holds.ofList v.kind v.allocator elements
    simp only [putFrom, immutable, Bool.false_eq_true, if_false, World.onStore]
    cases run : Store.ofList v.kind v.allocator elements store with
    | error e t =>
      rw [run] at owns
      exact untouched_of_cells owns rfl (Store.cells_ofList run)
    | ok next t =>
      rw [run] at owns made
      obtain ⟨-, keeps, same, shown⟩ := made
      obtain ⟨v', w', done, renewed⟩ := replace_made (w := ⟨store, flags, trackers, tracked⟩) owns
        (same.trans kind.symm) shown keeps.of_append immutable
      simp only at done
      simp only [done]
      exact renewed

theorem swap_error {other other' : Frozen} {v' : FieldValue} {w' : World} {e : Error}
    (failed : swap (v, other, w) = .error e (v', other', w')) :
    v' = v ∧ other' = other ∧ w' = w := by
  simp only [swap] at failed
  split at failed
  · cases failed
    exact ⟨rfl, rfl, rfl⟩
  · cases failed

theorem swap_ok {other other' : Frozen} {v' : FieldValue} {w' : World}
    (done : swap (v, other, w) = .ok () (v', other', w')) :
    v' = { v with value := other } ∧ other' = v.value ∧ w' = w := by
  simp only [swap] at done
  split at done
  · cases done
  · cases done
    exact ⟨rfl, rfl, rfl⟩

theorem deserialize_spec (h : w.store.Owns (v.holdings ++ l)) (kind : v.value.kind = v.kind)
    (input : Incoming) :
    match deserialize (v, w, input) with
    | .ok () (v', w', input') =>
      ∃ shown, Renewed v w l shown v' w' ∧ (input.buffer.Valid →
        Wire.parseArray v.kind input.buffer.order input.ahead = .ok (shown, input'.ahead))
    | .error _ (v', w', _) => Untouched v w l v' w' := by
  cases immutable : v.isImmutable w with
  | true =>
    simp only [deserialize, immutable, if_true]
    exact .refl h
  | false =>
    obtain ⟨store, flags, trackers, tracked⟩ := w
    have alive := h.alive (a := v.allocator) (by simp [holdings])
    have read := h.readArray alive v.kind input
    simp only [deserialize, immutable, Bool.false_eq_true, if_false]
    cases run : Wire.readArray v.kind v.allocator (input, store) with
    | error e p =>
      obtain ⟨input', t⟩ := p
      rw [run] at read
      exact untouched_of_cells (w := ⟨store, flags, trackers, tracked⟩) read.1 rfl read.2
    | ok next p =>
      obtain ⟨input', t⟩ := p
      rw [run] at read
      obtain ⟨owns, same, alike⟩ := read
      obtain ⟨v', w', done, renewed⟩ := replace_made (w := ⟨store, flags, trackers, tracked⟩) owns
        (same.trans kind.symm) rfl alike.keeps.of_append immutable
      have mutable : isImmutable v ⟨t, flags, trackers, tracked⟩ = false := immutable
      simp only [replace, mutable, Bool.false_eq_true, if_false] at done
      cases done
      exact ⟨t.values next, renewed, fun valid => Wire.readArray_accepts valid run⟩

end FieldValue

end ArrayStore
