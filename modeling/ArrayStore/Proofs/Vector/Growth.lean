import ArrayStore.Proofs.Memory.Supply
import ArrayStore.Proofs.Vector.Contents

/-! Writable vectors that grow from a supply.
Such a vector holds at most one block, and while it trades it for a larger one
it holds two. Growth within the supplied size always succeeds. -/

namespace ArrayStore

namespace Writable

open Allocators (Supplies)

def blocks (w : Writable) : Nat := w.storage.elim 0 fun _ => 1

theorem blocks_le_one (w : Writable) : w.blocks ≤ 1 := by
  cases stored : w.storage <;> simp [blocks, stored]

/-- A sound vector on a supply, from which its block comes too. -/
structure Growing (k : Kind) (a : Allocator) (bytes handles : Nat) (w : Writable)
    (m : Allocators) : Prop where
  sound : w.Sound
  kind_eq : w.kind = k
  source : w.allocator = a
  own : ∀ s, w.storage = some s → s.block.owner = a
  supplies : Supplies a bytes w.blocks handles m

variable {k : Kind} {a : Allocator} {bytes handles : Nat} {w : Writable} {m : Allocators}

theorem Growing.store {index : Nat} {run : List Scalar} (h : Growing k a bytes handles w m) :
    Growing k a bytes handles (w.store index run) m := by
  have sound := store_sound h.sound index run
  obtain ⟨kind, storage, offset, length, allocator⟩ := w
  cases storage with
  | none => exact h
  | some s =>
    refine ⟨sound, h.kind_eq, h.source, fun t eq => ?_, h.supplies⟩
    cases eq
    exact h.own s rfl

theorem Growing.lengthen {length : Nat} (h : Growing k a bytes handles w m)
    (sound : (w.lengthen length).Sound) :
    Growing k a bytes handles (w.lengthen length) m ∧ (w.lengthen length).length = length := by
  obtain ⟨kind, storage, offset, old, allocator⟩ := w
  cases storage with
  | none => exact ⟨⟨sound, h.kind_eq, h.source, fun _ eq => (by cases eq), h.supplies⟩, rfl⟩
  | some s =>
    refine ⟨⟨sound, h.kind_eq, h.source, fun t eq => ?_, h.supplies⟩, rfl⟩
    cases eq
    exact h.own s rfl

theorem allocate_supplied {count blocks : Nat} (h : Supplies a bytes blocks handles m)
    (few : blocks ≤ 1) (fits : k.footprint * count ≤ bytes) :
    ∃ s n, Storage.allocate a k count false m = .ok s n ∧ s.block.owner = a ∧
      count ≤ s.capacity ∧ Supplies a bytes (blocks + 1) handles n := by
  obtain ⟨b, n, run, own, large, supplies⟩ := h.alloc false few fits
  refine ⟨⟨b, b.size / k.footprint, #[]⟩, n, by simp only [Storage.allocate, run], own, ?_,
    supplies⟩
  rw [Nat.le_div_iff_mul_le k.footprint_pos, Nat.mul_comm]
  exact large

theorem Growing.reserve {capacity : Nat} (h : Growing k a bytes handles w m)
    (fits : k.footprint * capacity ≤ bytes) :
    ∃ v n, Writable.reserve capacity (w, m) = .ok () (v, n) ∧ Growing k a bytes handles v n ∧
      v.values = w.values ∧ v.length = w.length ∧ capacity ≤ v.capacity := by
  by_cases room : capacity ≤ w.capacity
  · exact ⟨w, m, by simp only [Writable.reserve, if_pos room], h, rfl, rfl, room⟩
  · obtain ⟨s, n, run, own, large, supplies⟩ :=
      allocate_supplied h.supplies w.blocks_le_one fits
    have kind := h.kind_eq
    have source := h.source
    cases stored : w.storage with
    | none =>
      have grown : Writable.reserve capacity (w, m) =
          .ok () ({ w with storage := some s, offset := 0 }, n) := by
        simp only [Writable.reserve, if_neg room, kind, source, run, stored]
      obtain ⟨sound, values, -⟩ := reserve_ok h.sound grown
      have one : w.blocks + 1 = 1 := by simp [blocks, stored]
      rw [one] at supplies
      exact ⟨_, _, grown, ⟨sound, kind, source, fun t eq => by cases eq; exact own, supplies⟩,
        values, rfl, large⟩
    | some old =>
      have grown : Writable.reserve capacity (w, m) =
          .ok () ({ w with
            storage := some { s with
              items := old.items.extract w.offset (w.offset + w.length) }
            offset := 0 }, (n.release old.block).1) := by
        simp only [Writable.reserve, if_neg room, kind, source, run, stored]
      obtain ⟨sound, values, -⟩ := reserve_ok h.sound grown
      have one : w.blocks = 1 := by simp [blocks, stored]
      rw [one] at supplies
      exact ⟨_, _, grown, ⟨sound, kind, source, fun t eq => by cases eq; exact own,
        supplies.release (h.own old stored)⟩, values, rfl, large⟩

theorem Growing.resize {length : Nat} (h : Growing k a bytes handles w m)
    (fits : k.footprint * length ≤ bytes) :
    ∃ v n, Writable.resize length (w, m) = .ok () (v, n) ∧ Growing k a bytes handles v n ∧
      v.values = w.values.take length ++ List.replicate (length - w.length) k.blank ∧
      v.length = length := by
  have kind := h.kind_eq
  by_cases shorter : length ≤ w.length
  · have narrowed : Writable.resize length (w, m) = .ok () ({ w with length }, m) := by
      simp only [Writable.resize, if_pos shorter]
    obtain ⟨sound, -, values⟩ := resize_ok h.sound narrowed
    exact ⟨_, _, narrowed, ⟨sound, kind, h.source, h.own, h.supplies⟩, kind ▸ values, rfl⟩
  · obtain ⟨v, n, run, growing, -⟩ := h.reserve fits
    have grown : Writable.resize length (w, m) = .ok () (v.lengthen length, n) := by
      simp only [Writable.resize, if_neg shorter, run]
    obtain ⟨sound, -, values⟩ := resize_ok h.sound grown
    obtain ⟨growing', size⟩ := growing.lengthen sound
    exact ⟨_, _, grown, growing', kind ▸ values, size⟩

end Writable

end ArrayStore
