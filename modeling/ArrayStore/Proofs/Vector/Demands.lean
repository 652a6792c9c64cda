import ArrayStore.Proofs.Memory.Passage
import ArrayStore.Proofs.Vector.Accounting

/-! What a growing vector asks its allocator for.
The requests of an operation are listed beside it. From the allocator that is
shared by all a vector gets just the room it asks for, each request is one
request to the system, and room that is there is not asked for again. -/

namespace ArrayStore

namespace System

/-- Requests of some sizes, one after another: whether all are granted, and the system then. -/
def requestAll (s : System) : List Nat → Bool × System
  | [] => (true, s)
  | size :: sizes =>
    let (block, s) := s.request size
    let (granted, s) := s.requestAll sizes
    (block.isSome && granted, s)

theorem requestAll_append (s : System) (xs ys : List Nat) :
    s.requestAll (xs ++ ys) =
      ((s.requestAll xs).1 && ((s.requestAll xs).2.requestAll ys).1,
        ((s.requestAll xs).2.requestAll ys).2) := by
  induction xs generalizing s with
  | nil => rfl
  | cons size xs ih => simp only [List.cons_append, requestAll, ih, Bool.and_assoc]

theorem asked_requestAll (s : System) (sizes : List Nat) :
    (s.requestAll sizes).2.asked = sizes.reverse ++ s.asked := by
  induction sizes generalizing s with
  | nil => rfl
  | cons size sizes ih =>
    simp only [requestAll, ih, request_snd, asks, List.reverse_cons, List.append_assoc,
      List.singleton_append]

end System

namespace Storage

theorem allocate_shared {k : Kind} {count : Nat} (small : k.footprint * count < addressBound)
    (zero : Bool) (m : Allocators) :
    match allocate .shared k count zero m with
    | .ok s n => s.capacity = count ∧ m.system.requestAll [k.footprint * count] = (true, n.system)
    | .error _ n => (m.system.requestAll [k.footprint * count]).2 = n.system := by
  have within : ¬addressBound ≤ k.footprint * count := Nat.not_le.2 small
  cases asked : m.system.request (k.footprint * count) with
  | mk answer system =>
    simp only [allocate, Allocators.alloc, Allocators.allocShared, if_neg within, asked,
      System.requestAll]
    cases answer with
    | none => rfl
    | some id => exact ⟨Nat.mul_div_cancel_left count k.footprint_pos, rfl⟩

end Storage

namespace Writable

def reserveAsks (capacity : Nat) (w : Writable) : List Nat :=
  if capacity ≤ w.capacity then [] else [capacity]

def resizeAsks (length : Nat) (w : Writable) : List Nat :=
  if length ≤ w.length then [] else reserveAsks length w

def growAsks (capacity length : Nat) : Writable × Allocators → List Nat
  | (w, m) =>
    reserveAsks capacity w ++
      match reserve capacity (w, m) with
      | .error _ _ => []
      | .ok () (w, _) => resizeAsks length w

variable {w : Writable} {m : Allocators} {capacity length : Nat}

@[simp] theorem capacity_store (w : Writable) (index : Nat) (values : List Scalar) :
    (w.store index values).capacity = w.capacity := by
  obtain ⟨kind, storage, offset, length, allocator⟩ := w
  cases storage <;> rfl

theorem capacity_lengthen (w : Writable) (length : Nat) :
    (w.lengthen length).capacity = w.capacity ∧ (w.lengthen length).length = length := by
  obtain ⟨kind, storage, offset, old, allocator⟩ := w
  cases storage <;> exact ⟨rfl, rfl⟩

theorem resize_within (room : length ≤ w.capacity) (m : Allocators) :
    resizeAsks length w = [] ∧
      ∃ v, resize length (w, m) = .ok () (v, m) ∧ v.capacity = w.capacity ∧
        v.allocator = w.allocator ∧ v.length = length := by
  by_cases shorter : length ≤ w.length
  · exact ⟨if_pos shorter, { w with length }, by simp only [resize, if_pos shorter], rfl, rfl, rfl⟩
  · have reserved : reserve length (w, m) = .ok () (w, m) := by simp only [reserve, if_pos room]
    obtain ⟨capacity, size⟩ := w.capacity_lengthen length
    refine ⟨by rw [resizeAsks, if_neg shorter, reserveAsks, if_pos room], w.lengthen length, ?_,
      capacity, (w.held_lengthen length).2, size⟩
    simp only [resize, if_neg shorter, reserved]

theorem reserve_shared (shared : w.allocator = .shared) (tight : w.capacity < capacity)
    (small : w.kind.footprint * capacity < addressBound) :
    match reserve capacity (w, m) with
    | .ok () (v, n) => v.capacity = capacity ∧ v.allocator = w.allocator ∧
        m.system.requestAll [w.kind.footprint * capacity] = (true, n.system)
    | .error _ (v, n) =>
      v = w ∧ (m.system.requestAll [w.kind.footprint * capacity]).2 = n.system := by
  have served := Storage.allocate_shared small false m
  simp only [reserve, if_neg (Nat.not_le.2 tight), shared]
  cases run : Storage.allocate .shared w.kind capacity false m with
  | error e n =>
    rw [run] at served
    exact ⟨rfl, served⟩
  | ok next n =>
    rw [run] at served
    obtain ⟨large, asked⟩ := served
    cases w.storage with
    | none => exact ⟨large, rfl, asked⟩
    | some s =>
      refine ⟨large, rfl, ?_⟩
      rw [asked, (Allocators.release_undrawn n s.block).system]

theorem grow_shared (shared : w.allocator = .shared) (tight : w.capacity < capacity)
    (small : w.kind.footprint * capacity < addressBound) (low : length ≤ capacity) :
    growAsks capacity length (w, m) = [capacity] ∧
      match grow capacity length (w, m) with
      | .ok () (v, n) => v.capacity = capacity ∧ v.allocator = w.allocator ∧ v.length = length ∧
          m.system.requestAll [w.kind.footprint * capacity] = (true, n.system)
      | .error _ (v, n) =>
        v = w ∧ (m.system.requestAll [w.kind.footprint * capacity]).2 = n.system := by
  have reserved := reserve_shared (m := m) shared tight small
  have asks : reserveAsks capacity w = [capacity] := if_neg (Nat.not_le.2 tight)
  simp only [growAsks, grow, asks]
  cases run : reserve capacity (w, m) with
  | error e t =>
    rw [run] at reserved
    exact ⟨rfl, reserved⟩
  | ok _ t =>
    obtain ⟨v, n⟩ := t
    rw [run] at reserved
    obtain ⟨room, handle, asked⟩ := reserved
    obtain ⟨none, u, resized, capacity', handle', size⟩ :=
      resize_within (show length ≤ v.capacity by omega) n
    simp only [none, resized]
    exact ⟨rfl, capacity'.trans room, handle'.trans handle, size, asked⟩

end Writable

/-! Giving back asks the system for nothing. -/

namespace Store

theorem system_dropWritable (s : Store) (w : Writable) :
    (s.dropWritable w).allocators.system = s.allocators.system := by
  simp only [dropWritable, Writable.drop]
  cases w.storage with
  | none => exact s.allocators.system_letGo w.allocator
  | some storage =>
    exact (Allocators.system_letGo ..).trans
      (s.allocators.release_undrawn storage.block).system

theorem system_freeze (s : Store) (w : Writable) :
    (s.freeze w).2.allocators.system = s.allocators.system := by
  unfold freeze
  split <;> exact s.allocators.system_letGo w.allocator

theorem system_drop (s : Store) (f : Frozen) :
    (s.drop f).allocators.system = s.allocators.system := by
  unfold drop
  split
  · rfl
  · split
    · rfl
    · next c _ =>
      split
      · exact (s.allocators.release_undrawn c.storage.block).system
      · rfl

end Store

end ArrayStore
