import ArrayStore.Proofs.Buffer.Window
import ArrayStore.Proofs.Scalar.Runs
import ArrayStore.Stream.Incoming

/-! What arrives in a buffer that is read through, from a source that never
fails and delivers something whenever it has something.
The view is the bytes ahead: the unread ones and those not yet delivered.
Filling the buffer keeps them, taking bytes takes them from the front, and a
request fails exactly if it reaches past the last of them. How the source cuts
its bytes, and which reads it interrupts, cannot be seen. -/

namespace ArrayStore

namespace Source

/-- A source without faults and without empty portions. -/
structure Steady (s : Source) : Prop where
  faultless : s.failure = none
  portions : ∀ i n, s.portion i = some n → 0 < n

theorem Steady.deliver {s : Source} (h : s.Steady) (asked : Nat) :
    ∃ n, s.deliver asked = .ok (s.rest.take n) ∧ n ≤ asked ∧ (0 < asked → 0 < n) := by
  simp only [Source.deliver, h.faultless]
  refine ⟨_, rfl, ?_, ?_⟩
  · cases s.portion s.reads with
    | none => exact Nat.le_refl _
    | some n => exact Nat.min_le_left _ _
  · intro positive
    cases found : s.portion s.reads with
    | none => exact positive
    | some n =>
      have nonempty := h.portions _ n found
      simp only [Option.elim]
      omega

theorem Steady.read {s : Source} (h : s.Steady) (asked : Nat) :
    ∃ chunk t, s.read asked = (.ok chunk, t) ∧ t.Steady ∧ chunk ++ t.rest = s.rest ∧
      chunk.length ≤ asked ∧ (0 < asked → s.rest ≠ [] → chunk ≠ []) := by
  fun_induction Source.read asked s with
  | case1 s _ ih => exact ih ⟨h.faultless, h.portions⟩
  | case2 s _ fault refused =>
    obtain ⟨n, delivered, -⟩ := h.deliver asked
    rw [delivered] at refused
    cases refused
  | case3 s _ chunk given size =>
    obtain ⟨n, delivered, small, grows⟩ := h.deliver asked
    rw [delivered] at given
    cases given
    refine ⟨_, _, rfl, ⟨h.faultless, h.portions⟩, s.deliver_isPrefix asked _ delivered, ?_, ?_⟩
    · exact Nat.le_trans (List.length_take_le _ _) small
    · intro positive more nothing
      have count := grows positive
      rw [List.take_eq_nil_iff] at nothing
      exact more (nothing.resolve_left (by omega))

theorem Steady.readExact {s : Source} (h : s.Steady) (count : Nat) (front : Array UInt8) :
    (count ≤ s.rest.length →
      ∃ t, s.readExact count front = (.ok (front ++ s.rest.take count), t) ∧ t.Steady ∧
        t.rest = s.rest.drop count) ∧
    (s.rest.length < count → ∃ t, s.readExact count front = (.error ended, t)) := by
  fun_induction Source.readExact count front s with
  | case1 front s => exact ⟨fun _ => ⟨s, by simp, h, rfl⟩, fun short => absurd short (by omega)⟩
  | case2 count front s _ fault t refused =>
    obtain ⟨chunk, u, given, -⟩ := h.read count
    rw [given] at refused
    cases refused
  | case3 count front s positive t given =>
    obtain ⟨chunk, u, given', -, -, -, progress⟩ := h.read count
    rw [given] at given'
    cases given'
    have nothing : s.rest = [] :=
      Decidable.byContradiction fun more => progress (by omega) more rfl
    refine ⟨fun enough => ?_, fun _ => ⟨t, rfl⟩⟩
    simp only [nothing, List.length_nil] at enough
    omega
  | case4 count front s positive b chunk t given ih =>
    obtain ⟨chunk', u, given', steady, whole, small, -⟩ := h.read count
    rw [given] at given'
    cases given'
    obtain ⟨enough, short⟩ := ih steady
    have size : (b :: chunk).length = chunk.length + 1 := rfl
    rw [← whole]
    simp only [List.length_append, size]
    rw [size] at small
    refine ⟨fun fits => ?_, fun tight => short (by omega)⟩
    obtain ⟨v, read, steady', rest⟩ := enough (by omega)
    have kept : (b :: chunk).take count = b :: chunk := List.take_of_length_le small
    have gone : (b :: chunk).drop count = [] := List.drop_of_length_le small
    refine ⟨v, ?_, steady', ?_⟩
    · rw [read, List.take_append, kept, size]
      exact congrArg (fun bytes => (Except.ok bytes, v)) (Array.ext' (by simp))
    · rw [rest, List.drop_append, gone, size, List.nil_append]

end Source

namespace Incoming

/-- The bytes ahead: those unread in the buffer, then those the source has not delivered. -/
def ahead (s : Incoming) : List UInt8 :=
  s.buffer.unread ++
    match s.inlet with
    | .stream r => r.source.rest
    | _ => []

structure Flowing (capacity : Nat) (order : ByteOrder) (direct : Bool) (s : Incoming) : Prop where
  valid : s.buffer.Valid
  capacity_eq : s.buffer.capacity = capacity
  order_eq : s.buffer.order = order
  inlet : ∃ r : Reader, s.inlet = .stream r ∧ r.source.Steady ∧ 0 < r.fragment ∧ r.direct = direct

variable {capacity : Nat} {order : ByteOrder} {direct : Bool} {s : Incoming} {b : Buffer}
  {r : Reader}

theorem Flowing.length_ahead (h : Flowing capacity order direct ⟨b, .stream r⟩) :
    (ahead ⟨b, .stream r⟩).length = b.remaining + r.source.rest.length := by
  rw [ahead, List.length_append, Buffer.length_unread h.valid]

theorem Flowing.remaining_le_ahead (h : Flowing capacity order direct s) :
    s.buffer.remaining ≤ s.ahead.length := by
  rw [ahead, List.length_append, Buffer.length_unread h.valid]
  exact Nat.le_add_right _ _

theorem Flowing.refill (h : Flowing capacity order direct ⟨b, .stream r⟩) :
    ∃ (c : Buffer) (q : Reader) (n : Nat), Incoming.refill b r = .ok n (c, q) ∧
      Flowing capacity order direct ⟨c, .stream q⟩ ∧
      ahead ⟨c, .stream q⟩ = ahead ⟨b, .stream r⟩ ∧ c.remaining = b.remaining + n ∧
      (b.remaining < capacity → r.source.rest ≠ [] → n ≠ 0) := by
  have valid : b.Valid := h.valid
  have cap : b.capacity = capacity := h.capacity_eq
  obtain ⟨r', eq, steady, positive, hd⟩ := h.inlet
  cases eq
  obtain ⟨chunk, source, read, steady', whole, small, progress⟩ :=
    steady.read (min b.compact.remaining r.fragment)
  have space : b.compact.remaining = capacity - b.remaining := by
    rw [Buffer.remaining_compact valid, cap]
  have fits : chunk.length ≤ b.capacity - b.remaining := by omega
  let q : Reader :=
    { r with source, bytesRead := r.bytesRead + chunk.length, refills := r.refills + 1 }
  refine ⟨b.topUp chunk, q, chunk.length, by simp only [Incoming.refill, read]; rfl,
    ⟨Buffer.valid_topUp valid fits, ?_, ?_, q, rfl, steady', positive, hd⟩, ?_, ?_, ?_⟩
  · simpa using cap
  · simpa using h.order_eq
  · simp only [ahead, Buffer.unread_topUp valid fits, List.append_assoc, q, whole]
  · exact Buffer.remaining_topUp valid
  · intro room more nothing
    exact progress (by omega) more (List.length_eq_zero_iff.1 nothing)

theorem Flowing.fillTo {target : Nat} (h : Flowing capacity order direct ⟨b, .stream r⟩)
    (low : target ≤ capacity) :
    (target ≤ (ahead ⟨b, .stream r⟩).length →
      ∃ (c : Buffer) (q : Reader), Incoming.fillTo target b r = .ok () (c, q) ∧
        Flowing capacity order direct ⟨c, .stream q⟩ ∧
        ahead ⟨c, .stream q⟩ = ahead ⟨b, .stream r⟩ ∧ target ≤ c.remaining) ∧
    ((ahead ⟨b, .stream r⟩).length < target →
      ∃ s, Incoming.fillTo target b r = .error (.stream "reading stream" ended) s) := by
  fun_induction Incoming.fillTo target b r with
  | case1 b r _ e s failed =>
    obtain ⟨c, q, n, run, -⟩ := h.refill
    rw [run] at failed
    cases failed
  | case2 b r missing s stopped =>
    obtain ⟨c, q, n, run, -, -, -, progress⟩ := h.refill
    rw [run] at stopped
    cases stopped
    have size := h.length_ahead
    have nothing : r.source.rest = [] :=
      Decidable.byContradiction fun more => progress (by omega) more rfl
    rw [nothing, List.length_nil] at size
    exact ⟨fun enough => absurd enough (by omega), fun _ => ⟨_, rfl⟩⟩
  | case3 b r missing n c q ran ih =>
    obtain ⟨c', q', n', run, flow, same, -⟩ := h.refill
    rw [run] at ran
    cases ran
    rw [← same]
    exact ih flow
  | case4 b r held =>
    have size := h.length_ahead
    exact ⟨fun _ => ⟨b, r, rfl, h, rfl, by omega⟩, fun short => absurd short (by omega)⟩

theorem Flowing.ensureData (size : Nat) (h : Flowing capacity order direct s)
    (room : s.buffer.remaining < capacity) (positive : 0 < size) :
    (min (s.buffer.remaining + size) capacity ≤ s.ahead.length →
      ∃ t, Incoming.ensureData size s = .ok () t ∧ Flowing capacity order direct t ∧
        t.ahead = s.ahead ∧ min (s.buffer.remaining + size) capacity ≤ t.buffer.remaining) ∧
    (s.ahead.length < min (s.buffer.remaining + size) capacity →
      ∃ t, Incoming.ensureData size s = .error (.stream "reading stream" ended) t) := by
  obtain ⟨b, inlet⟩ := s
  obtain ⟨r, rfl, -⟩ := h.inlet
  have cap : b.capacity = capacity := h.capacity_eq
  obtain ⟨enough, short⟩ := h.fillTo (Nat.min_le_right (b.remaining + size) capacity)
  simp only at room
  refine ⟨fun fits => ?_, fun tight => ?_⟩
  · obtain ⟨c, q, run, flow, same, held⟩ := enough fits
    refine ⟨⟨c, .stream q⟩, ?_, flow, same, held⟩
    simp only [Incoming.ensureData, cap]
    rw [if_neg (by omega)]
    simp only [run]
  · obtain ⟨⟨c, q⟩, run⟩ := short tight
    refine ⟨⟨c, .stream q⟩, ?_⟩
    simp only [Incoming.ensureData, cap]
    rw [if_neg (by omega)]
    simp only [run]

theorem Flowing.ensureRemaining {size : Nat} (h : Flowing capacity order direct s)
    (low : size ≤ capacity) :
    (size ≤ s.ahead.length →
      ∃ t, Incoming.ensureRemaining size s = .ok () t ∧ Flowing capacity order direct t ∧
        t.ahead = s.ahead ∧ size ≤ t.buffer.remaining) ∧
    (s.ahead.length < size →
      ∃ t, Incoming.ensureRemaining size s = .error (.stream "reading stream" ended) t) := by
  have held := h.remaining_le_ahead
  unfold Incoming.ensureRemaining
  by_cases done : size ≤ s.buffer.remaining
  · rw [if_pos done]
    exact ⟨fun _ => ⟨s, rfl, h, rfl, done⟩, fun short => absurd short (by omega)⟩
  · have target : min (s.buffer.remaining + (size - s.buffer.remaining)) capacity = size := by
      omega
    obtain ⟨enough, short⟩ := h.ensureData (size - s.buffer.remaining) (by omega) (by omega)
    rw [target] at enough short
    rw [if_neg done]
    refine ⟨fun fits => ?_, fun tight => ?_⟩
    · obtain ⟨t, run, flow, same, there⟩ := enough fits
      simp only [run]
      rw [if_neg (by omega)]
      exact ⟨t, rfl, flow, same, there⟩
    · obtain ⟨t, run⟩ := short tight
      simp only [run]
      exact ⟨t, rfl⟩

theorem Flowing.getBytes {count : Nat} (h : Flowing capacity order direct s)
    (held : count ≤ s.buffer.remaining) :
    ∃ t, onBuffer (Buffer.getBytes count) s = .ok (s.ahead.take count) t ∧
      Flowing capacity order direct t ∧ t.ahead = s.ahead.drop count ∧
      t.buffer.remaining = s.buffer.remaining - count := by
  obtain ⟨b, inlet⟩ := s
  have size : b.unread.length = b.remaining := Buffer.length_unread h.valid
  have enough : count ≤ b.remaining := held
  have front : b.unread.take count = (ahead ⟨b, inlet⟩).take count := by
    exact (List.take_append_of_le_length (by omega)).symm
  refine ⟨⟨b.skip count, inlet⟩, ?_, ⟨Buffer.valid_skip h.valid held, ?_, ?_, h.inlet⟩, ?_,
    Buffer.remaining_skip b count⟩
  · simp only [onBuffer, Buffer.getBytes_of_le enough, front]
  · exact h.capacity_eq
  · exact h.order_eq
  · simp only [ahead, Buffer.unread_skip]
    rw [List.drop_append_of_le_length (by omega)]

theorem Flowing.getAll {k : Kind} {count : Nat} (h : Flowing capacity order direct s)
    (held : count * k.width ≤ s.buffer.remaining) :
    ∃ t, onBuffer (Buffer.getAll k count) s = .ok (k.decodeAll order count s.ahead) t ∧
      Flowing capacity order direct t ∧ t.ahead = s.ahead.drop (count * k.width) ∧
      t.buffer.remaining = s.buffer.remaining - count * k.width := by
  obtain ⟨t, got, flow, rest, left⟩ := h.getBytes held
  refine ⟨t, ?_, flow, rest, left⟩
  obtain ⟨b, inlet⟩ := s
  have order_eq : b.order = order := h.order_eq
  simp only [onBuffer, Buffer.getBytes_of_le held] at got
  obtain ⟨front, rfl⟩ := EStateM.Result.ok.inj got
  simp only [onBuffer, Buffer.getAll, Buffer.getBytes_of_le held, front, Buffer.order_skip,
    order_eq, Kind.decodeAll_take]

theorem readDirect_declined (count : Nat) (h : Flowing capacity order false s) :
    readDirect count s = .ok none s := by
  obtain ⟨b, inlet⟩ := s
  obtain ⟨r, rfl, -, -, hd⟩ := h.inlet
  simp [readDirect, hd]

theorem Flowing.readDirect (count : Nat) (h : Flowing capacity order true s) :
    (count ≤ s.ahead.length →
      ∃ t, Incoming.readDirect count s = .ok (some (s.ahead.take count)) t ∧
        Flowing capacity order true t ∧ t.ahead = s.ahead.drop count) ∧
    (s.ahead.length < count →
      ∃ t, Incoming.readDirect count s =
        .error (.stream "reading stream" Source.ended) t) := by
  obtain ⟨b, inlet⟩ := s
  obtain ⟨r, rfl, steady, positive, hd⟩ := h.inlet
  have held : min b.remaining count ≤ b.remaining := Nat.min_le_left _ _
  obtain ⟨enough, short⟩ := steady.readExact (count - min b.remaining count)
    (b.unread.take (min b.remaining count)).toArray
  have size : b.unread.length = b.remaining := Buffer.length_unread h.valid
  have total := h.length_ahead
  simp only [Incoming.readDirect, hd, if_true, Buffer.getBytes_of_le held]
  refine ⟨fun fits => ?_, fun tight => ?_⟩
  · obtain ⟨source, read, steady', left⟩ := enough (by omega)
    have taken : b.unread.take (min b.remaining count) ++
        r.source.rest.take (count - min b.remaining count) = (ahead ⟨b, .stream r⟩).take count := by
      rw [ahead, List.take_append, size]
      congr 1
      · rw [← size, Nat.min_comm, List.take_eq_take_iff]
        omega
      · congr 1
        omega
    have left' : b.unread.drop (min b.remaining count) ++ source.rest =
        (ahead ⟨b, .stream r⟩).drop count := by
      rw [ahead, List.drop_append, size, left]
      congr 1
      · rw [← size, List.drop_eq_drop_iff]
        omega
      · congr 1
        omega
    let q : Reader :=
      { r with source, bytesRead := r.bytesRead + (count - min b.remaining count) }
    refine ⟨⟨b.skip (min b.remaining count), .stream q⟩, ?_,
      ⟨Buffer.valid_skip h.valid held, h.capacity_eq, h.order_eq, q, rfl, steady', positive, hd⟩,
      ?_⟩
    · simp only [read, Array.toList_appendList, taken, q, ← hd]
    · rw [← left', ahead, Buffer.unread_skip]
  · obtain ⟨source, read⟩ := short (by omega)
    simp only [read]
    exact ⟨_, rfl⟩

end Incoming

end ArrayStore
