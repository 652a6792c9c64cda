import ArrayStore.Proofs.Memory.Plates
import ArrayStore.Proofs.Vector.Accounting
import ArrayStore.Vector.Frozen

/-! Vectors build no pools.
Whatever is made, grown, frozen, thawed, shared or given back: the pools that
are left stood before, under the same plates. One lemma for each operation,
whatever the vectors are and whether or not it succeeds. -/

namespace ArrayStore

namespace Storage

theorem allocate_since (a : Allocator) (k : Kind) (count : Nat) (zero : Bool) (m : Allocators) :
    (Outcome.state (allocate a k count zero m)).Since m := by
  have since := m.alloc_since a k.footprint count zero
  simp only [allocate]
  cases run : Allocators.alloc a k.footprint count zero m with
  | ok block n | error e n =>
    rw [run] at since
    exact since

end Storage

namespace Writable

variable {w : Writable} {m : Allocators}

theorem ofList_since (k : Kind) (a : Allocator) (values : List Scalar) (m : Allocators) :
    (Outcome.state (ofList k a values m)).Since m := by
  have since := Storage.allocate_since a k values.toArray.size false m
  simp only [ofList]
  split
  · exact m.retain_since a
  · cases run : Storage.allocate a k values.toArray.size false m with
    | error e n =>
      rw [run] at since
      exact since
    | ok s n =>
      rw [run] at since
      exact (n.retain_since s.block.owner).trans since

theorem blank_since (k : Kind) (a : Allocator) (length : Nat) (zero : Bool) (m : Allocators) :
    (Outcome.state (blank k a length zero m)).Since m := by
  have since := Storage.allocate_since a k length zero m
  simp only [blank]
  split
  · exact m.retain_since a
  · cases run : Storage.allocate a k length zero m with
    | error e n =>
      rw [run] at since
      exact since
    | ok s n =>
      rw [run] at since
      exact (n.retain_since (s.fillBlank k 0 length).block.owner).trans since

theorem reserve_since (capacity : Nat) (w : Writable) (m : Allocators) :
    (Outcome.state (reserve capacity (w, m))).2.Since m := by
  have since := Storage.allocate_since w.allocator w.kind capacity false m
  simp only [reserve]
  split
  · exact .refl m
  · cases run : Storage.allocate w.allocator w.kind capacity false m with
    | error e n =>
      rw [run] at since
      exact since
    | ok next n =>
      rw [run] at since
      cases w.storage with
      | none => exact since
      | some s => exact (n.release_since s.block).trans since

theorem resize_since (length : Nat) (w : Writable) (m : Allocators) :
    (Outcome.state (resize length (w, m))).2.Since m := by
  have since := reserve_since length w m
  simp only [resize]
  split
  · exact .refl m
  · cases run : reserve length (w, m) with
    | error e s | ok _ s =>
      rw [run] at since
      exact since

theorem grow_since (capacity length : Nat) (w : Writable) (m : Allocators) :
    (Outcome.state (grow capacity length (w, m))).2.Since m := by
  have since := reserve_since capacity w m
  simp only [grow]
  cases run : reserve capacity (w, m) with
  | error e s =>
    rw [run] at since
    exact since
  | ok _ s =>
    rw [run] at since
    exact (resize_since length s.1 s.2).trans since

theorem drop_since (w : Writable) (m : Allocators) : (w.drop m).Since m := by
  refine (Allocators.letGo_since _ w.allocator).trans ?_
  cases w.storage with
  | none => exact .refl m
  | some s => exact m.release_since s.block

end Writable

namespace Store

abbrev Since (t s : Store) : Prop := t.allocators.Since s.allocators

variable {α : Type}

theorem onAllocators_since {change : Change Allocators α} (s : Store)
    (since : (Outcome.state (change s.allocators)).Since s.allocators) :
    (Outcome.state (onAllocators change s)).Since s := by
  simp only [onAllocators]
  cases run : change s.allocators with
  | ok a m | error e m =>
    rw [run] at since
    exact since

theorem onWritable_since {change : Change (Writable × Allocators) α} (w : Writable) (s : Store)
    (since : (Outcome.state (change (w, s.allocators))).2.Since s.allocators) :
    (Outcome.state (onWritable change (w, s))).2.Since s := by
  simp only [onWritable]
  cases run : change (w, s.allocators) with
  | ok a p | error e p =>
    rw [run] at since
    exact since

theorem clone_since (s : Store) (f : Frozen) : (s.clone f).Since s := by
  unfold clone
  split <;> exact .refl _

theorem drop_since (s : Store) (f : Frozen) : (s.drop f).Since s := by
  unfold drop
  split
  · exact .refl _
  · split
    · exact .refl _
    · next c _ =>
      split
      · exact s.allocators.release_since c.storage.block
      · exact .refl _

theorem dropWritable_since (s : Store) (w : Writable) : (s.dropWritable w).Since s :=
  w.drop_since s.allocators

theorem freeze_since (s : Store) (w : Writable) : (s.freeze w).2.Since s := by
  unfold freeze
  split <;> exact s.allocators.letGo_since w.allocator

theorem emptyWritable_since (s : Store) (k : Kind) (a : Allocator) :
    (s.emptyWritable k a).2.Since s := s.allocators.retain_since a

theorem copyOut_since (f : Frozen) (c : Cell) (s : Store) :
    (Outcome.state (copyOut f c s)).Since s := by
  simp only [copyOut]
  split
  · exact s.emptyWritable_since f.kind c.storage.block.owner
  · have since := onAllocators_since s
      (Storage.allocate_since c.storage.block.owner f.kind f.length false s.allocators)
    cases run : onAllocators (Storage.allocate c.storage.block.owner f.kind f.length false) s with
    | error e t =>
      rw [run] at since
      exact since
    | ok storage t =>
      rw [run] at since
      exact (t.allocators.retain_since storage.block.owner).trans since

theorem thaw_since (f : Frozen) (fallback : Allocator) (s : Store) :
    (Outcome.state (thaw f fallback s)).Since s := by
  unfold thaw
  split
  · exact s.emptyWritable_since f.kind fallback
  · next id c _ =>
    split
    · exact s.allocators.retain_since c.storage.block.owner
    · have since := copyOut_since f c s
      cases run : copyOut f c s with
      | error e t | ok w t =>
        rw [run] at since
        exact (t.drop_since f).trans since

theorem ofList_since (k : Kind) (a : Allocator) (values : List Scalar) (s : Store) :
    (Outcome.state (ofList k a values s)).Since s := by
  have since := onAllocators_since s (Writable.ofList_since k a values s.allocators)
  simp only [ofList]
  cases run : onAllocators (Writable.ofList k a values) s with
  | error e t =>
    rw [run] at since
    exact since
  | ok w t =>
    rw [run] at since
    exact (t.freeze_since w).trans since

end Store

end ArrayStore
