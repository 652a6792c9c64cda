import ArrayStore.Proofs.Buffer.Window
import ArrayStore.Stream.Outgoing

/-! What leaves a buffer that is written through.
Behind an open outlet the view is the stored bytes followed by the pending
ones: an operation either appends a known run to it or fails for want of
capacity, which is decided by the capacity alone. Behind a closed outlet the
run has to fit the remaining space. -/

namespace ArrayStore

theorem Writer.write_of_unlimited {w : Writer} (bytes : List UInt8) (free : w.sink.limit = none) :
    Writer.write bytes w =
      .ok () { w with
        sink := w.sink.write bytes
        bytesWritten := w.bytesWritten + bytes.length } := by
  rw [Writer.write, if_pos (by simp [Sink.fits, free])]

theorem Sink.stored_write_of_unlimited {s : Sink} (bytes : List UInt8) (free : s.limit = none) :
    (s.write bytes).stored.toList = s.stored.toList ++ bytes := by
  rw [stored_write, fitting_of_fits _ _ (by simp [fits, free])]

namespace Outgoing

/-- The bytes handed over so far: those behind the buffer, then those waiting in it. -/
def emitted (s : Outgoing) : List UInt8 := s.delivered ++ s.buffer.written

/-- A valid buffer before a stream whose sink takes everything. What the sink
says when it is flushed itself does not change. -/
structure Streaming (capacity : Nat) (order : ByteOrder) (direct : Bool)
    (fault : Option StreamFault) (s : Outgoing) : Prop where
  valid : s.buffer.Valid
  capacity_eq : s.buffer.capacity = capacity
  order_eq : s.buffer.order = order
  outlet : ∃ w : Writer, s.outlet = .stream w ∧ w.sink.limit = none ∧ w.direct = direct ∧
    w.sink.flushFault = fault

/-- What an operation does before an open stream: where it is `possible` it
appends a run to the emitted bytes and keeps the stream open, else it fails. -/
structure Emits (capacity : Nat) (order : ByteOrder) (direct : Bool) (fault : Option StreamFault)
    (op : Change Outgoing Unit) (possible : Prop) (run : List UInt8) (after : Outgoing → Prop) :
    Prop where
  success : ∀ s, Streaming capacity order direct fault s → possible →
    ∃ t, op s = .ok () t ∧ Streaming capacity order direct fault t ∧ t.emitted = s.emitted ++ run ∧
      after t
  failure : ∀ s, Streaming capacity order direct fault s → ¬possible → ∃ e t, op s = .error e t

/-- What an operation does before a closed outlet: it puts a run at the
position if the run fits, else it fails. -/
structure Fills (order : ByteOrder) (op : Change Outgoing Unit) (run : List UInt8) : Prop where
  success : ∀ b : Buffer, b.Valid → b.order = order → run.length ≤ b.remaining →
    op ⟨b, .closed⟩ = .ok () ⟨b.store run, .closed⟩
  failure : ∀ b : Buffer, b.Valid → b.order = order → b.remaining < run.length →
    ∃ e t, op ⟨b, .closed⟩ = .error e t

variable {capacity : Nat} {order : ByteOrder} {direct : Bool} {fault : Option StreamFault}
  {s : Outgoing}

theorem Streaming.remaining_le (h : Streaming capacity order direct fault s) :
    s.buffer.remaining ≤ capacity := by
  have bound := Buffer.remaining_le_capacity h.valid
  rwa [h.capacity_eq] at bound

theorem onBuffer_putBytes {bytes : List UInt8} (s : Outgoing)
    (fits : bytes.length ≤ s.buffer.remaining) :
    onBuffer (Buffer.putBytes bytes) s = .ok () ⟨s.buffer.store bytes, s.outlet⟩ := by
  obtain ⟨b, outlet⟩ := s
  simp only [onBuffer, Buffer.putBytes_of_le fits]

theorem Streaming.store {bytes : List UInt8} (h : Streaming capacity order direct fault s)
    (fits : bytes.length ≤ s.buffer.remaining) :
    Streaming capacity order direct fault ⟨s.buffer.store bytes, s.outlet⟩ ∧
      emitted ⟨s.buffer.store bytes, s.outlet⟩ = s.emitted ++ bytes := by
  refine ⟨⟨Buffer.valid_store h.valid fits, ?_, h.order_eq, h.outlet⟩, ?_⟩
  · simpa using h.capacity_eq
  · simp only [emitted, Buffer.written_store h.valid fits, ← List.append_assoc]
    rfl

theorem flush_emits : Emits capacity order direct fault flush True []
    fun t => t.buffer.remaining = capacity ∧ t.buffer.position = 0 where
  success s h _ := by
    obtain ⟨b, outlet⟩ := s
    obtain ⟨w, rfl, free, hd, quiet⟩ := h.outlet
    have stored := Sink.stored_write_of_unlimited b.written free
    simp only [flush, Writer.write_of_unlimited b.written free]
    refine ⟨_, rfl, ⟨Buffer.valid_clear b, ?_, h.order_eq, _, rfl, free, hd, quiet⟩, ?_, ?_, rfl⟩
    · simpa using h.capacity_eq
    · simp [emitted, delivered, stored]
    · simpa using h.capacity_eq
  failure _ _ impossible := absurd trivial impossible

theorem ensureRoom_emits (size : Nat) : Emits capacity order direct fault (ensureRoom size)
    (size ≤ capacity) [] fun t => size ≤ t.buffer.remaining where
  success s h possible := by
    rw [ensureRoom]
    by_cases room : size ≤ s.buffer.remaining
    · rw [if_pos room]
      exact ⟨s, rfl, h, (List.append_nil _).symm, room⟩
    · obtain ⟨t, run, ready, emitted, rem, -⟩ := flush_emits.success s h trivial
      rw [if_neg room]
      simp only [run]
      rw [if_neg (by omega)]
      exact ⟨t, rfl, ready, emitted, by omega⟩
  failure s h impossible := by
    obtain ⟨t, run, ready, -, rem, -⟩ := flush_emits.success s h trivial
    have small := h.remaining_le
    rw [ensureRoom, if_neg (by omega)]
    simp only [run]
    rw [if_pos (by omega)]
    exact ⟨_, _, rfl⟩

theorem ensureRoom_closed (size : Nat) (b : Buffer) :
    ensureRoom size ⟨b, .closed⟩ =
      if size ≤ b.remaining then .ok () ⟨b, .closed⟩
      else .error (.insufficientSpace size b.remaining) ⟨b, .closed⟩ := by
  rw [ensureRoom]
  by_cases room : size ≤ b.remaining
  · rw [if_pos room, if_pos room]
  · simp only [flush]
    rw [if_neg room, if_neg room, if_pos (by omega)]

theorem writeDirect_taken (bytes : List UInt8) (h : Streaming capacity order true fault s) :
    ∃ t, writeDirect bytes s = .ok true t ∧ Streaming capacity order true fault t ∧
      t.emitted = s.emitted ++ bytes ∧ t.buffer.position = 0 := by
  obtain ⟨t, run, ready, emitted, -, start⟩ := flush_emits.success s h trivial
  obtain ⟨b, outlet⟩ := s
  obtain ⟨w, rfl, -, hd, -⟩ := h.outlet
  obtain ⟨c, outlet⟩ := t
  obtain ⟨w', rfl, free, hd', quiet⟩ := ready.outlet
  have stored := Sink.stored_write_of_unlimited bytes free
  simp only [writeDirect, hd, if_true, run, Writer.write_of_unlimited bytes free]
  refine ⟨_, rfl, ⟨ready.valid, ready.capacity_eq, ready.order_eq, _, rfl, free, hd', quiet⟩, ?_,
    start⟩
  have nothing : c.written = [] := by
    rw [Buffer.written_eq, show c.position = 0 from start, List.take_zero]
  simp only [Outgoing.emitted, delivered, nothing, stored, List.append_nil] at emitted ⊢
  rw [emitted]

theorem writeDirect_declined (bytes : List UInt8) (h : Streaming capacity order false fault s) :
    writeDirect bytes s = .ok false s := by
  obtain ⟨b, outlet⟩ := s
  obtain ⟨w, rfl, -, hd, -⟩ := h.outlet
  simp [writeDirect, hd]

/-! Operations in sequence: the second runs only if the first succeeds. -/

theorem Emits.seq {first second op : Change Outgoing Unit} {p q : Prop} {xs ys : List UInt8}
    {between after : Outgoing → Prop}
    (unfolds : ∀ s, op s = match first s with
      | .error e s => .error e s
      | .ok () s => second s)
    (h : Emits capacity order direct fault first p xs between)
    (k : Emits capacity order direct fault second q ys after) :
    Emits capacity order direct fault op (p ∧ q) (xs ++ ys) after where
  success s ready possible := by
    obtain ⟨t, run, open_, emitted, -⟩ := h.success s ready possible.1
    obtain ⟨u, next, ready', whole, done⟩ := k.success t open_ possible.2
    rw [unfolds, run]
    exact ⟨u, next, ready', by rw [whole, emitted, List.append_assoc], done⟩
  failure s ready impossible := by
    rw [unfolds]
    by_cases possible : p
    · obtain ⟨t, run, open_, -⟩ := h.success s ready possible
      rw [run]
      exact k.failure t open_ fun next => impossible ⟨possible, next⟩
    · obtain ⟨e, t, run⟩ := h.failure s ready possible
      rw [run]
      exact ⟨e, t, rfl⟩

theorem Fills.seq {first second op : Change Outgoing Unit} {xs ys : List UInt8}
    (unfolds : ∀ s, op s = match first s with
      | .error e s => .error e s
      | .ok () s => second s)
    (h : Fills order first xs) (k : Fills order second ys) : Fills order op (xs ++ ys) where
  success b valid ordered fits := by
    rw [List.length_append] at fits
    have some : xs.length ≤ b.remaining := by omega
    have left : ys.length ≤ (b.store xs).remaining := by
      rw [Buffer.remaining_store]
      omega
    rw [unfolds, h.success b valid ordered some]
    simp only
    rw [k.success _ (Buffer.valid_store valid some) ordered left, Buffer.store_store]
  failure b valid ordered tight := by
    rw [List.length_append] at tight
    rw [unfolds]
    by_cases some : xs.length ≤ b.remaining
    · have left : (b.store xs).remaining < ys.length := by
        rw [Buffer.remaining_store]
        omega
      rw [h.success b valid ordered some]
      exact k.failure _ (Buffer.valid_store valid some) ordered left
    · obtain ⟨e, t, run⟩ := h.failure b valid ordered (by omega)
      rw [run]
      exact ⟨e, t, rfl⟩

theorem Emits.congr {op : Change Outgoing Unit} {p q : Prop} {run : List UInt8}
    {after : Outgoing → Prop} (h : Emits capacity order direct fault op p run after)
    (same : p ↔ q) :
    Emits capacity order direct fault op q run after where
  success s ready possible := h.success s ready (same.2 possible)
  failure s ready impossible := h.failure s ready (impossible ∘ same.1)

theorem Emits.mono {op : Change Outgoing Unit} {p : Prop} {run : List UInt8}
    {after after' : Outgoing → Prop} (h : Emits capacity order direct fault op p run after)
    (weaker : ∀ t, after t → after' t) : Emits capacity order direct fault op p run after' where
  success s ready possible := by
    obtain ⟨t, ran, ready', emitted, done⟩ := h.success s ready possible
    exact ⟨t, ran, ready', emitted, weaker t done⟩
  failure := h.failure

theorem Emits.ok_iff {op : Change Outgoing Unit} {p : Prop} {run : List UInt8}
    {after : Outgoing → Prop} (h : Emits capacity order direct fault op p run after)
    (ready : Streaming capacity order direct fault s) : (∃ t, op s = .ok () t) ↔ p := by
  refine ⟨fun ⟨t, ran⟩ => Classical.byContradiction fun impossible => ?_, fun possible => ?_⟩
  · obtain ⟨e, u, failed⟩ := h.failure s ready impossible
    rw [ran] at failed
    cases failed
  · obtain ⟨t, ran, -⟩ := h.success s ready possible
    exact ⟨t, ran⟩

theorem Emits.of_ok {op : Change Outgoing Unit} {p : Prop} {run : List UInt8}
    {after : Outgoing → Prop} {t : Outgoing} (h : Emits capacity order direct fault op p run after)
    (ready : Streaming capacity order direct fault s) (ran : op s = .ok () t) :
    Streaming capacity order direct fault t ∧ t.emitted = s.emitted ++ run ∧ after t := by
  obtain ⟨u, ran', rest⟩ := h.success s ready ((h.ok_iff ready).1 ⟨t, ran⟩)
  rw [ran] at ran'
  cases ran'
  exact rest

theorem Fills.of_ok {op : Change Outgoing Unit} {run : List UInt8} {b : Buffer} {t : Outgoing}
    (h : Fills order op run) (valid : b.Valid) (ordered : b.order = order)
    (ran : op ⟨b, .closed⟩ = .ok () t) : t = ⟨b.store run, .closed⟩ := by
  by_cases fits : run.length ≤ b.remaining
  · rw [h.success b valid ordered fits] at ran
    cases ran
    rfl
  · obtain ⟨e, u, failed⟩ := h.failure b valid ordered (by omega)
    rw [ran] at failed
    cases failed

theorem Fills.ok_iff {op : Change Outgoing Unit} {run : List UInt8} {b : Buffer}
    (h : Fills order op run) (valid : b.Valid) (ordered : b.order = order) :
    (∃ t, op ⟨b, .closed⟩ = .ok () t) ↔ run.length ≤ b.remaining := by
  refine ⟨fun ⟨t, ran⟩ => Nat.le_of_not_lt fun tight => ?_, fun fits => ?_⟩
  · obtain ⟨e, u, failed⟩ := h.failure b valid ordered tight
    rw [ran] at failed
    cases failed
  · exact ⟨_, h.success b valid ordered fits⟩

end Outgoing

end ArrayStore
