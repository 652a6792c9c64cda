import ArrayStore.Buffer

/-! A buffer seen as two lists: what was written before the position and what
is unread between the position and the limit.
Each operation that fits appends to the one or takes from the front of the
other; a refill appends to the unread bytes. The rest of the buffer is not
described, since no reader of a valid buffer can see it. -/

namespace ArrayStore

namespace Buffer

theorem written_eq (b : Buffer) : b.written = b.data.toList.take b.position := by
  simp [written, List.extract_eq_take_drop]

theorem unread_eq (b : Buffer) : b.unread = (b.data.toList.drop b.position).take b.remaining := by
  simp [unread, remaining, List.extract_eq_take_drop]

theorem length_written {b : Buffer} (h : b.Valid) : b.written.length = b.position := by
  have bounds : b.position ≤ b.data.size := Nat.le_trans h.1 h.2
  simp [written_eq, bounds]

theorem hasRemaining_iff (b : Buffer) : b.hasRemaining = true ↔ 0 < b.remaining := by
  simp only [hasRemaining, remaining, decide_eq_true_eq]
  omega

theorem remaining_le_capacity {b : Buffer} (h : b.Valid) : b.remaining ≤ b.capacity :=
  Nat.le_trans (Nat.sub_le _ _) h.2

@[simp] theorem capacity_store (b : Buffer) (bytes : List UInt8) :
    (b.store bytes).capacity = b.capacity := by
  simp [store, capacity]

@[simp] theorem order_store (b : Buffer) (bytes : List UInt8) : (b.store bytes).order = b.order :=
  rfl

theorem remaining_store (b : Buffer) (bytes : List UInt8) :
    (b.store bytes).remaining = b.remaining - bytes.length := by
  simp only [store, remaining]
  omega

theorem valid_store {b : Buffer} {bytes : List UInt8} (h : b.Valid)
    (fits : bytes.length ≤ b.remaining) : (b.store bytes).Valid := by
  obtain ⟨low, high⟩ := h
  refine ⟨?_, by rwa [capacity_store]⟩
  simp only [store, remaining] at fits ⊢
  omega

theorem written_store {b : Buffer} {bytes : List UInt8} (h : b.Valid)
    (fits : bytes.length ≤ b.remaining) : (b.store bytes).written = b.written ++ bytes := by
  have before : b.written.length = b.position := length_written h
  have room : b.position + bytes.length ≤ b.data.size := by
    have high : b.limit ≤ b.data.size := h.2
    simp only [remaining] at fits
    have low := h.1
    omega
  rw [written_eq] at before
  rw [written_eq, written_eq]
  simp only [store, toList_splice _ _ _ room]
  rw [List.take_left' (by rw [List.length_append, before])]

@[simp] theorem store_nil (b : Buffer) : b.store [] = b := rfl

theorem store_store (b : Buffer) (xs ys : List UInt8) :
    (b.store xs).store ys = b.store (xs ++ ys) := by
  simp [store, splice_append, Nat.add_assoc]

@[simp] theorem written_clear (b : Buffer) : b.clear.written = [] := by
  simp [written_eq, clear]

@[simp] theorem capacity_clear (b : Buffer) : b.clear.capacity = b.capacity := rfl

@[simp] theorem remaining_clear (b : Buffer) : b.clear.remaining = b.capacity := rfl

theorem valid_clear (b : Buffer) : b.clear.Valid := ⟨Nat.zero_le _, Nat.le_refl _⟩

theorem putBytes_of_le {b : Buffer} {bytes : List UInt8} (fits : bytes.length ≤ b.remaining) :
    putBytes bytes b = .ok () (b.store bytes) := by
  rw [putBytes, if_neg (by omega)]

theorem putBytes_of_lt {b : Buffer} {bytes : List UInt8} (short : b.remaining < bytes.length) :
    putBytes bytes b = .error (.insufficientSpace bytes.length b.remaining) b := by
  rw [putBytes, if_pos short]

def skip (b : Buffer) (count : Nat) : Buffer := { b with position := b.position + count }

theorem extract_skip {b : Buffer} {count : Nat} (enough : count ≤ b.remaining) :
    (b.data.extract b.position (b.skip count).position).toList = b.unread.take count := by
  rw [unread_eq, List.take_take, Nat.min_eq_left enough]
  simp [List.extract_eq_take_drop, skip]

theorem getBytes_of_le {b : Buffer} {count : Nat} (enough : count ≤ b.remaining) :
    getBytes count b = .ok (b.unread.take count) (b.skip count) := by
  rw [getBytes, if_neg (by omega), ← extract_skip enough]
  rfl

theorem getBytes_of_lt {b : Buffer} {count : Nat} (short : b.remaining < count) :
    getBytes count b = .error (.insufficientSpace count b.remaining) b := by
  rw [getBytes, if_pos short]

@[simp] theorem order_skip (b : Buffer) (count : Nat) : (b.skip count).order = b.order := rfl

theorem remaining_skip (b : Buffer) (count : Nat) :
    (b.skip count).remaining = b.remaining - count := by
  simp only [skip, remaining]
  omega

theorem unread_skip (b : Buffer) (count : Nat) : (b.skip count).unread = b.unread.drop count := by
  rw [unread_eq, unread_eq, remaining_skip, List.drop_take, List.drop_drop]
  rfl

theorem valid_skip {b : Buffer} {count : Nat} (h : b.Valid) (enough : count ≤ b.remaining) :
    (b.skip count).Valid := by
  obtain ⟨low, high⟩ := h
  refine ⟨?_, high⟩
  simp only [skip, remaining] at enough ⊢
  omega

theorem unread_flip (b : Buffer) : b.flip.unread = b.written := by
  simp [unread_eq, written_eq, flip, remaining]

theorem valid_flip {b : Buffer} (h : b.Valid) : b.flip.Valid :=
  ⟨Nat.zero_le _, Nat.le_trans h.1 h.2⟩

def topUp (b : Buffer) (chunk : List UInt8) : Buffer := (b.compact.store chunk).flip

@[simp] theorem capacity_compact (b : Buffer) : b.compact.capacity = b.capacity := by
  unfold compact
  split <;> simp [capacity]

@[simp] theorem order_compact (b : Buffer) : b.compact.order = b.order := by
  unfold compact
  split <;> rfl

theorem limit_compact (b : Buffer) : b.compact.limit = b.capacity := by
  unfold compact
  split <;> rfl

theorem position_compact {b : Buffer} (h : b.Valid) : b.compact.position = b.remaining := by
  unfold compact
  split
  · next start => simp [remaining, start]
  · exact length_unread h

theorem remaining_compact {b : Buffer} (h : b.Valid) :
    b.compact.remaining = b.capacity - b.remaining := by
  rw [remaining, position_compact h, limit_compact]

theorem valid_compact {b : Buffer} (h : b.Valid) : b.compact.Valid := by
  refine ⟨?_, ?_⟩
  · rw [position_compact h, limit_compact]
    exact remaining_le_capacity h
  · exact Nat.le_of_eq (by rw [limit_compact, capacity_compact])

theorem written_compact {b : Buffer} (h : b.Valid) : b.compact.written = b.unread := by
  rw [written_eq, position_compact h]
  unfold compact
  split
  · next start => simp [unread_eq, start]
  · have room : 0 + b.unread.length ≤ b.data.size := by
      rw [length_unread h]
      have := remaining_le_capacity h
      simp only [capacity] at this
      omega
    simp only [toList_splice _ _ _ room, List.take_zero, List.nil_append]
    rw [← length_unread h, List.take_left]

@[simp] theorem capacity_topUp (b : Buffer) (chunk : List UInt8) :
    (b.topUp chunk).capacity = b.capacity := by
  change (b.compact.store chunk).capacity = b.capacity
  simp

@[simp] theorem order_topUp (b : Buffer) (chunk : List UInt8) :
    (b.topUp chunk).order = b.order := by
  change (b.compact.store chunk).order = b.order
  simp

variable {b : Buffer} {chunk : List UInt8} (h : b.Valid)
  (fits : chunk.length ≤ b.capacity - b.remaining)

include h in
theorem remaining_topUp : (b.topUp chunk).remaining = b.remaining + chunk.length := by
  simp only [topUp, flip, remaining, store, position_compact h]
  omega

include h fits

theorem valid_topUp : (b.topUp chunk).Valid :=
  valid_flip (valid_store (valid_compact h) (by rwa [remaining_compact h]))

theorem unread_topUp : (b.topUp chunk).unread = b.unread ++ chunk := by
  rw [← written_compact h, ← written_store (valid_compact h) (by rwa [remaining_compact h])]
  exact unread_flip _

end Buffer

end ArrayStore
