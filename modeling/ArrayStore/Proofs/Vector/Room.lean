import ArrayStore.Proofs.Memory.Books
import ArrayStore.Proofs.Vector.Sharing

/-! Room in the blocks of vectors.
The elements of a storage that are set lie within its capacity, and its capacity
within its block, whatever elements the pool of the block was built for. Main
statements: this is so for a block that was asked for the elements put into it,
and whatever is done to a vector beside growth leaves it so. -/

namespace ArrayStore

namespace Storage

/-- The elements that are set lie within the capacity, which lies within the block. The block is
one that a system can grant, so that no place in it is out of the range of numbers. -/
structure Fits (k : Kind) (s : Storage) : Prop where
  set_le : s.items.size ≤ s.capacity
  room_le : s.capacity * k.footprint ≤ s.block.size
  size_le : s.block.size ≤ System.sizeBound

variable {s : Storage} {k : Kind}

theorem Fits.withItems (h : s.Fits k) {items : Array Scalar} (room : items.size ≤ s.capacity) :
    Fits k { s with items } := ⟨room, h.room_le, h.size_le⟩

theorem allocate_fits {handles : List Allocator} {out : List Block} {a : Allocator} {count : Nat}
    {zero : Bool} {m n : Allocators} (h : m.Lends handles out)
    (run : allocate a k count zero m = .ok s n) : s.Fits k := by
  unfold allocate at run
  split at run
  · next b n' served =>
    cases run
    exact ⟨Nat.zero_le _, Nat.div_mul_le_self .., h.alloc_le served⟩
  · cases run

end Storage

namespace Writable

def Roomy (w : Writable) : Prop := ∀ s, w.storage = some s → s.Fits w.kind

variable {w : Writable}

theorem empty_roomy (k : Kind) (a : Allocator) (m : Allocators) : (empty k a m).1.Roomy :=
  fun _ eq => by cases eq

theorem slice_roomy (h : w.Roomy) (skip count : Nat) : (w.slice skip count).Roomy := h

theorem store_roomy (h : w.Roomy) (index : Nat) (values : List Scalar) :
    (w.store index values).Roomy := by
  obtain ⟨kind, storage, offset, length, allocator⟩ := w
  cases storage with
  | none => exact h
  | some s =>
    intro t eq
    cases eq
    have fits : s.Fits kind := h s rfl
    exact fits.withItems (by rw [size_splice]; exact fits.set_le)

theorem ofStorage_roomy {s : Storage} {k : Kind} (fits : s.Fits k) (offset length : Nat)
    (m : Allocators) : (ofStorage k s offset length m).1.Roomy :=
  fun _ eq => by cases eq; exact fits

theorem lengthen_roomy {length : Nat} (h : w.Roomy) (sound : w.Sound) (room : length ≤ w.capacity) :
    (w.lengthen length).Roomy := by
  obtain ⟨kind, storage, offset, old, allocator⟩ := w
  cases storage with
  | none => exact fun _ eq => by cases eq
  | some s =>
    intro t eq
    cases eq
    have fits : s.Fits kind := h s rfl
    have view : offset + old ≤ s.items.size := sound
    have room : length ≤ s.capacity - offset := room
    have set := fits.set_le
    refine ⟨?_, fits.room_le, fits.size_le⟩
    rw [Storage.size_fillBlank]
    exact Nat.max_le.2 ⟨set, show offset + length ≤ s.capacity by omega⟩

end Writable

namespace Store

def Roomy (s : Store) (f : Frozen) : Prop := ∀ b, s.storage? f = some b → b.Fits f.kind

variable {s t : Store} {f g : Frozen}

theorem storage?_some {id : CellId} (refers : f.cell = some id) :
    s.storage? f = (s.cells.get? id).map Cell.storage := by
  simp only [storage?, cell?, refers, Option.bind_some]

theorem roomy_none (bare : f.cell = none) : s.Roomy f := by
  intro b eq
  simp only [storage?, cell?, bare, Option.bind_none, Option.map_none] at eq
  cases eq

theorem Roomy.of_cells (h : s.Roomy f)
    (kept : ∀ id b, f.cell = some id → (t.cells.get? id).map Cell.storage = some b →
      (s.cells.get? id).map Cell.storage = some b) : t.Roomy f := by
  intro b eq
  cases refers : f.cell with
  | none =>
    simp only [storage?, cell?, refers, Option.bind_none, Option.map_none] at eq
    cases eq
  | some id =>
    rw [storage?_some refers] at eq
    exact h b ((storage?_some refers).trans (kept id b refers eq))

theorem Roomy.congr (h : s.Roomy f) (same : t.cells = s.cells) : t.Roomy f :=
  h.of_cells fun _ _ _ eq => same ▸ eq

theorem Roomy.clone (h : s.Roomy g) (f : Frozen) : (s.clone f).Roomy g := by
  refine h.of_cells fun id b _ eq => ?_
  unfold Store.clone at eq
  split at eq
  · exact eq
  · simp only [Table.get?_modify] at eq
    split at eq
    · rw [Option.map_map] at eq
      exact eq
    · exact eq

theorem Roomy.erase {id : CellId} (h : s.Roomy g) (cells : t.cells = s.cells.erase id) :
    t.Roomy g := by
  refine h.of_cells fun other b _ eq => ?_
  rw [cells, Table.get?_erase] at eq
  split at eq
  · cases eq
  · exact eq

theorem Roomy.drop (h : s.Roomy g) (f : Frozen) : (s.drop f).Roomy g := by
  unfold Store.drop
  split
  · exact h
  · split
    · exact h
    · next id c found =>
      split
      · exact h.erase rfl
      · refine h.of_cells fun other b _ eq => ?_
        simp only [Table.get?_insert] at eq
        split at eq
        · next same => rwa [same, found]
        · exact eq

theorem Roomy.freeze {live : List Frozen} (h : s.Roomy g) (holds : s.Holds live)
    (member : g ∈ live) (w : Writable) : (s.freeze w).2.Roomy g := by
  refine h.of_cells fun id b refers eq => ?_
  have apart : id ≠ s.made := fun same => holds.cell_ne_made member (same ▸ refers)
  unfold Store.freeze at eq
  split at eq
  · exact eq
  · simp only at eq
    rwa [Table.get?_insert, if_neg apart] at eq

theorem freeze_roomy {w : Writable} (h : w.Roomy) (s : Store) :
    (s.freeze w).2.Roomy (s.freeze w).1 := by
  cases stored : w.storage with
  | none =>
    simp only [Store.freeze, stored]
    exact roomy_none rfl
  | some storage =>
    simp only [Store.freeze, stored]
    intro b eq
    rw [storage?_some rfl, Table.get?_insert, if_pos rfl] at eq
    cases eq
    exact h storage stored

end Store

end ArrayStore
