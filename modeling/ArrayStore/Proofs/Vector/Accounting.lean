import ArrayStore.Proofs.Memory.Books
import ArrayStore.Proofs.Vector.Room

/-! Writable vectors in the books.
A writable vector has a handle on its allocator and holds at most one block. It
leaves an operation with the same handle, with one block in exchange for the
other that is large enough too, and with the books right, whether the operation
succeeds or not. -/

namespace ArrayStore

open Allocators (Lends)

variable {handles : List Allocator} {out : List Block} {m : Allocators} {a : Allocator}
  {w : Writable}

theorem Storage.allocate_lends (h : m.Lends handles out) (a : Allocator) (k : Kind) (count : Nat)
    (zero : Bool) :
    match allocate a k count zero m with
    | .ok s n => n.Lends handles (s.block :: out) ∧ s.block.owner = a ∧ count ≤ s.capacity
    | .error _ n => n.Lends handles out := by
  have served := h.alloc a k.footprint count zero
  unfold allocate
  cases run : Allocators.alloc a k.footprint count zero m with
  | error e n =>
    rw [run] at served
    exact served
  | ok b n =>
    rw [run] at served
    obtain ⟨lends, own, size⟩ := served
    refine ⟨lends, own, ?_⟩
    rw [Nat.le_div_iff_mul_le k.footprint_pos, Nat.mul_comm]
    exact size

namespace Writable

def held (w : Writable) : List Block := (w.storage.map Storage.block).toList

theorem held_of_storage {s : Storage} (stored : w.storage = some s) : w.held = [s.block] := by
  rw [held, stored]
  rfl

theorem held_of_none (bare : w.storage = none) : w.held = [] := by
  rw [held, bare]
  rfl

theorem held_store (w : Writable) (index : Nat) (values : List Scalar) :
    (w.store index values).held = w.held ∧ (w.store index values).allocator = w.allocator ∧
      (w.store index values).kind = w.kind := by
  obtain ⟨kind, storage, offset, length, allocator⟩ := w
  cases storage <;> exact ⟨rfl, rfl, rfl⟩

theorem held_lengthen (w : Writable) (length : Nat) :
    (w.lengthen length).held = w.held ∧ (w.lengthen length).allocator = w.allocator := by
  obtain ⟨kind, storage, offset, old, allocator⟩ := w
  cases storage <;> exact ⟨rfl, rfl⟩

theorem ofStorage_lends {s : Storage} (h : m.Lends handles (s.block :: out)) (k : Kind)
    (offset length : Nat) :
    (ofStorage k s offset length m).2.Lends ((ofStorage k s offset length m).1.allocator :: handles)
      ((ofStorage k s offset length m).1.held ++ out) :=
  h.retain (h.housed _ List.mem_cons_self)

theorem ofList_lends (h : m.Lends handles out) (alive : m.Alive a) (k : Kind)
    (values : List Scalar) :
    match ofList k a values m with
    | .ok w n => n.Lends (w.allocator :: handles) (w.held ++ out)
    | .error _ n => n.Lends handles out := by
  by_cases nothing : values.isEmpty = true
  · simp only [ofList, if_pos nothing]
    exact h.retain alive
  · have allocated := Storage.allocate_lends h a k values.toArray.size false
    simp only [ofList, if_neg nothing]
    cases run : Storage.allocate a k values.toArray.size false m with
    | error e n =>
      rw [run] at allocated
      exact allocated
    | ok s n =>
      rw [run] at allocated
      exact ofStorage_lends (s := { s with items := values.toArray }) allocated.1 k 0 _

theorem blank_lends (h : m.Lends handles out) (alive : m.Alive a) (k : Kind) (length : Nat)
    (zero : Bool) :
    match blank k a length zero m with
    | .ok w n => n.Lends (w.allocator :: handles) (w.held ++ out)
    | .error _ n => n.Lends handles out := by
  by_cases nothing : length = 0
  · simp only [blank, if_pos nothing]
    exact h.retain alive
  · have allocated := Storage.allocate_lends h a k length zero
    simp only [blank, if_neg nothing]
    cases run : Storage.allocate a k length zero m with
    | error e n =>
      rw [run] at allocated
      exact allocated
    | ok s n =>
      rw [run] at allocated
      exact ofStorage_lends (s := s.fillBlank k 0 length) allocated.1 k 0 length

theorem ofList_roomy (h : m.Lends handles out) {k : Kind} {values : List Scalar}
    {n : Allocators} (run : ofList k a values m = .ok w n) : w.Roomy := by
  have allocated := Storage.allocate_lends h a k values.toArray.size false
  simp only [ofList] at run
  split at run
  · cases run
    exact empty_roomy k a m
  · split at run
    · cases run
    · next s _ given =>
      rw [given] at allocated
      cases run
      exact ofStorage_roomy ((Storage.allocate_fits h given).withItems allocated.2.2) 0 _ _

theorem blank_roomy (h : m.Lends handles out) {k : Kind} {length : Nat} {zero : Bool}
    {n : Allocators} (run : blank k a length zero m = .ok w n) : w.Roomy := by
  have allocated := Storage.allocate_lends h a k length zero
  simp only [blank] at run
  split at run
  · cases run
    exact empty_roomy k a m
  · split at run
    · cases run
    · next s _ given =>
      rw [given] at allocated
      cases run
      have fits := Storage.allocate_fits h given
      refine ofStorage_roomy (fits.withItems ?_) 0 _ _
      exact Nat.le_trans (Nat.le_of_eq (Storage.size_fillBlank s k 0 length))
        (Nat.max_le.2 ⟨fits.set_le, allocated.2.2⟩)

/-- What an operation leaves of a vector: a sound one of the same kind with the same handle, in a
block with room for it, and right books. -/
structure Settled (handles : List Allocator) (out : List Block) (w : Writable)
    (s : Writable × Allocators) : Prop where
  sound : s.1.Sound
  roomy : w.Roomy → s.1.Roomy
  kind_eq : s.1.kind = w.kind
  handle_eq : s.1.allocator = w.allocator
  lends : s.2.Lends handles (s.1.held ++ out)

theorem Settled.trans {s t : Writable × Allocators} (first : Settled handles out w s)
    (second : Settled handles out s.1 t) : Settled handles out w t :=
  ⟨second.sound, fun roomy => second.roomy (first.roomy roomy),
    second.kind_eq.trans first.kind_eq, second.handle_eq.trans first.handle_eq, second.lends⟩

theorem reserve_settled (h : m.Lends handles (w.held ++ out)) (sound : w.Sound) (capacity : Nat) :
    Settled handles out w (Outcome.state (reserve capacity (w, m))) ∧
      ∀ t, reserve capacity (w, m) = .ok () t → capacity ≤ t.1.capacity := by
  have allocated := Storage.allocate_lends h w.allocator w.kind capacity false
  cases run : reserve capacity (w, m) with
  | error e t =>
    refine ⟨?_, fun _ eq => by cases eq⟩
    simp only [reserve] at run
    split at run
    · cases run
    · split at run
      · next refused =>
        cases run
        rw [refused] at allocated
        exact ⟨sound, fun roomy => roomy, rfl, rfl, allocated⟩
      · split at run <;> cases run
  | ok _ t =>
    obtain ⟨sound', -, kind, -⟩ := reserve_ok sound run
    suffices t.1.allocator = w.allocator ∧ t.2.Lends handles (t.1.held ++ out) ∧
        capacity ≤ t.1.capacity ∧ (w.Roomy → t.1.Roomy) by
      refine ⟨⟨sound', this.2.2.2, kind, this.1, this.2.1⟩, fun u eq => ?_⟩
      cases eq
      exact this.2.2.1
    simp only [reserve] at run
    split at run
    · next room =>
      cases run
      exact ⟨rfl, h, room, fun roomy => roomy⟩
    · next tight =>
      split at run
      · cases run
      · next next n given =>
        rw [given] at allocated
        obtain ⟨lends, -, large⟩ := allocated
        have fits := Storage.allocate_fits h given
        split at run
        · next bare =>
          cases run
          rw [held_of_none bare] at lends
          exact ⟨rfl, lends, large, fun _ _ eq => by cases eq; exact fits⟩
        · next s stored =>
          cases run
          rw [held_of_storage stored] at lends
          refine ⟨rfl, (lends.perm (.refl _) (.swap ..)).release, large, fun roomy _ eq => ?_⟩
          cases eq
          -- More is asked for than there was, so what was visible fits.
          have old := roomy s stored
          have less : s.capacity - w.offset < capacity := by
            simpa only [Writable.capacity, stored, Option.elim_some, Nat.not_le] using tight
          refine fits.withItems ?_
          have set := old.set_le
          rw [Array.size_extract]
          omega

theorem resize_settled (h : m.Lends handles (w.held ++ out)) (sound : w.Sound) (length : Nat) :
    Settled handles out w (Outcome.state (resize length (w, m))) := by
  obtain ⟨reserved, large⟩ := reserve_settled h sound length
  cases run : resize length (w, m) with
  | error e t =>
    simp only [resize] at run
    split at run
    · cases run
    · split at run
      · next refused =>
        cases run
        rw [refused] at reserved
        exact reserved
      · cases run
  | ok _ t =>
    obtain ⟨sound', kind, -⟩ := resize_ok sound run
    simp only [resize] at run
    split at run
    · cases run
      exact ⟨sound', fun roomy => roomy, rfl, rfl, h⟩
    · split at run
      · cases run
      · next v n grown =>
        cases run
        rw [grown] at reserved
        obtain ⟨held, handle⟩ := v.held_lengthen length
        refine ⟨sound', fun roomy => lengthen_roomy (reserved.roomy roomy) reserved.sound
          (large _ grown), kind, handle.trans reserved.handle_eq, ?_⟩
        simp only [Outcome.state_ok, held]
        exact reserved.lends

def grow (capacity length : Nat) : Change (Writable × Allocators) Unit := fun t =>
  match reserve capacity t with
  | .error e t => .error e t
  | .ok () t => resize length t

theorem grow_settled (h : m.Lends handles (w.held ++ out)) (sound : w.Sound)
    (capacity length : Nat) :
    Settled handles out w (Outcome.state (grow capacity length (w, m))) := by
  have reserved := (reserve_settled h sound capacity).1
  simp only [grow]
  cases run : reserve capacity (w, m) with
  | error e t =>
    rw [run] at reserved
    exact reserved
  | ok _ t =>
    rw [run] at reserved
    exact reserved.trans (resize_settled reserved.lends reserved.sound length)

theorem drop_lends (h : m.Lends (w.allocator :: handles) (w.held ++ out)) :
    (w.drop m).Lends handles out := by
  unfold drop
  cases stored : w.storage with
  | none =>
    rw [held_of_none stored] at h
    exact h.letGo
  | some s =>
    rw [held_of_storage stored] at h
    exact h.release.letGo

end Writable

end ArrayStore
