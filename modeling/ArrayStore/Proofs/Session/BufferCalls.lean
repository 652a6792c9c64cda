import ArrayStore.Proofs.Buffer.Transfers
import ArrayStore.Session.Stream

/-! Any calls on one buffer.
Beside the buffer lie two destinations, one of elements and one of bytes, that
bulk reads fill. Main statement: whatever is called with whatever arguments,
position, limit and capacity keep their order and the capacity is the first
one; a call that fails leaves buffer and destinations as they were; and bytes
that are put change nothing but themselves and the position. -/

namespace ArrayStore.Session

inductive Opening where
  | blank (capacity : Nat) (order : ByteOrder)
  | holding (bytes : List UInt8) (order : ByteOrder)

def Opening.buffer : Opening → Buffer
  | .blank capacity order => .empty capacity order
  | .holding bytes order => .holding bytes order

theorem Opening.valid (o : Opening) : o.buffer.Valid := by
  cases o with
  | blank capacity order => exact Buffer.valid_empty capacity order
  | holding bytes order => exact Buffer.valid_holding bytes order

structure Desk where
  buffer : Buffer
  scalars : List Scalar := []
  bytes : List UInt8 := []
  deriving DecidableEq

inductive BufferCall where
  | step (step : BufferStep)
  /-- Write through the view of the bytes between position and limit. -/
  | overwrite (bytes : List UInt8)
  /-- Lay out other destinations. -/
  | lay (scalars : List Scalar) (bytes : List UInt8)
  /-- Fill the destination of elements. -/
  | fillScalars (k : Kind)
  /-- Fill the destination of bytes. -/
  | fillBytes

namespace BufferCall

def run : BufferCall → Change Desk Unit
  | .step t => fun d =>
    match t.run d.buffer with
    | .ok _ b => .ok () { d with buffer := b }
    | .error e b => .error e { d with buffer := b }
  | .overwrite bytes => fun d =>
    .ok () { d with
      buffer.data := splice d.buffer.data d.buffer.position (bytes.take d.buffer.remaining) }
  | .lay scalars bytes => fun d => .ok () { d with scalars, bytes }
  | .fillScalars k => fun d =>
    match Buffer.getArrayInto k (d.buffer, d.scalars) with
    | .ok _ (b, scalars) => .ok () { d with buffer := b, scalars }
    | .error e (b, scalars) => .error e { d with buffer := b, scalars }
  | .fillBytes => fun d =>
    match Buffer.getBytesInto (d.buffer, d.bytes) with
    | .ok _ (b, bytes) => .ok () { d with buffer := b, bytes }
    | .error e (b, bytes) => .error e { d with buffer := b, bytes }

def puts? (order : ByteOrder) : BufferCall → Option (List UInt8)
  | .step (.put value) => some (value.encode order)
  | .step (.putAll values) => some (Scalar.encodeAll order values)
  | .step (.putBytes bytes) => some bytes
  | _ => none

def runAll (d : Desk) (calls : List BufferCall) : Desk :=
  calls.foldl (fun d t => Outcome.state (t.run d)) d

end BufferCall

/-- An operation that keeps a buffer within its bounds, and leaves it alone where it fails. -/
def Bounded {α : Type} (op : Change Buffer α) : Prop :=
  ∀ b, b.Valid → match op b with
    | .ok _ t => t.Valid ∧ t.capacity = b.capacity
    | .error _ t => t = b

section Bounded

theorem setPosition_bounded (n : Nat) : Bounded (Buffer.setPosition n) := by
  intro b ⟨low, high⟩
  by_cases past : b.limit < n
  · simp only [Buffer.setPosition, if_pos past]
  · simp only [Buffer.setPosition, if_neg past]
    exact ⟨⟨Nat.le_of_not_lt past, high⟩, rfl⟩

theorem setLimit_bounded (n : Nat) : Bounded (Buffer.setLimit n) := by
  intro b ⟨low, high⟩
  by_cases past : b.capacity < n
  · simp only [Buffer.setLimit, if_pos past]
  · simp only [Buffer.setLimit, if_neg past]
    exact ⟨⟨Nat.min_le_right _ _, Nat.le_of_not_lt past⟩, rfl⟩

theorem advance_bounded (n : Nat) : Bounded (Buffer.advance n) := by
  intro b valid
  by_cases short : b.remaining < n
  · simp only [Buffer.advance, if_pos short]
  · simp only [Buffer.advance, if_neg short]
    exact ⟨Buffer.valid_skip valid (Nat.le_of_not_lt short), rfl⟩

theorem putBytes_bounded (bytes : List UInt8) : Bounded (Buffer.putBytes bytes) := by
  intro b valid
  by_cases short : b.remaining < bytes.length
  · rw [Buffer.putBytes_of_lt short]
  · rw [Buffer.putBytes_of_le (Nat.le_of_not_lt short)]
    exact ⟨Buffer.valid_store valid (Nat.le_of_not_lt short), Buffer.capacity_store b bytes⟩

theorem getBytes_bounded (n : Nat) : Bounded (Buffer.getBytes n) := by
  intro b valid
  by_cases short : b.remaining < n
  · rw [Buffer.getBytes_of_lt short]
  · rw [Buffer.getBytes_of_le (Nat.le_of_not_lt short)]
    exact ⟨Buffer.valid_skip valid (Nat.le_of_not_lt short), rfl⟩

theorem getAll_bounded (k : Kind) (n : Nat) : Bounded (Buffer.getAll k n) := by
  intro b valid
  have bytes := getBytes_bounded (n * k.width) b valid
  simp only [Buffer.getAll]
  cases got : Buffer.getBytes (n * k.width) b with
  | ok _ t | error _ t => rwa [got] at bytes

theorem get_bounded (k : Kind) : Bounded (Buffer.get k) := by
  intro b valid
  have bytes := getBytes_bounded k.width b valid
  simp only [Buffer.get]
  cases got : Buffer.getBytes k.width b with
  | ok _ t | error _ t => rwa [got] at bytes

theorem Bounded.replying {α : Type} {op : Change Buffer α} (h : Bounded op)
    (reply : α → StreamReply) : Bounded fun b => replying reply (op b) := by
  intro b valid
  have kept := h b valid
  dsimp only
  cases ran : op b with
  | ok _ t | error _ t => rwa [ran] at kept

theorem BufferStep.run_bounded (t : BufferStep) : Bounded t.run := by
  cases t with
  | put value => exact Bounded.replying (fun b => putBytes_bounded (value.encode b.order) b) _
  | get k => exact (get_bounded k).replying _
  | putAll values =>
    exact Bounded.replying (fun b => putBytes_bounded (Scalar.encodeAll b.order values) b) _
  | getAll k count => exact (getAll_bounded k count).replying _
  | putBytes bytes => exact (putBytes_bounded bytes).replying _
  | getBytes count => exact (getBytes_bounded count).replying _
  | clear => exact fun b _ => ⟨Buffer.valid_clear b, rfl⟩
  | flip => exact fun b valid => ⟨Buffer.valid_flip valid, rfl⟩
  | compact => exact fun b valid => ⟨Buffer.valid_compact valid, Buffer.capacity_compact b⟩
  | position n => exact (setPosition_bounded n).replying _
  | limit n => exact (setLimit_bounded n).replying _
  | advance n => exact (advance_bounded n).replying _
  | order o => exact fun b valid => ⟨valid, rfl⟩
  | fill byte =>
    intro b ⟨low, high⟩
    have size : (b.fill byte).capacity = b.capacity := size_splice _ _ _
    exact ⟨⟨low, Nat.le_trans high (Nat.le_of_eq size.symm)⟩, size⟩

end Bounded

namespace BufferCall

variable {d : Desk}

/-- What a call does: buffers stay within their bounds, and a failure leaves buffer and
destinations alone. -/
theorem run_spec (t : BufferCall) (valid : d.buffer.Valid) :
    match t.run d with
    | .ok _ d' => d'.buffer.Valid ∧ d'.buffer.capacity = d.buffer.capacity
    | .error _ d' => d' = d := by
  cases t with
  | step t =>
    have kept := t.run_bounded d.buffer valid
    simp only [run]
    cases ran : t.run d.buffer with
    | ok _ b => rwa [ran] at kept
    | error e b =>
      rw [ran] at kept
      rw [kept]
  | overwrite bytes =>
    have size := size_splice d.buffer.data d.buffer.position (bytes.take d.buffer.remaining)
    exact ⟨⟨valid.1, Nat.le_trans valid.2 (Nat.le_of_eq size.symm)⟩, size⟩
  | lay scalars bytes => exact ⟨valid, rfl⟩
  | fillScalars k =>
    have kept := getAll_bounded k d.scalars.length d.buffer valid
    simp only [run, Buffer.getArrayInto_eq]
    cases ran : Buffer.getAll k d.scalars.length d.buffer with
    | ok values b => rwa [ran] at kept
    | error e b =>
      rw [ran] at kept
      rw [kept]
  | fillBytes =>
    have kept := getBytes_bounded d.bytes.length d.buffer valid
    simp only [run, Buffer.getBytesInto_eq]
    cases ran : Buffer.getBytes d.bytes.length d.buffer with
    | ok bytes b => rwa [ran] at kept
    | error e b =>
      rw [ran] at kept
      rw [kept]

theorem run_puts {t : BufferCall} {bytes : List UInt8} (valid : d.buffer.Valid)
    (puts : t.puts? d.buffer.order = some bytes) :
    match t.run d with
    | .ok _ d' => d.buffer.Stored bytes d'.buffer
    | .error _ _ => d.buffer.remaining < bytes.length := by
  -- all three ways to put come down to the bytes they put
  have same : t.run d = (step (.putBytes bytes)).run d := by
    unfold puts? at puts
    split at puts <;> cases puts <;> rfl
  rw [same]
  by_cases short : d.buffer.remaining < bytes.length
  · simp only [run, BufferStep.run, silent, replying, Buffer.putBytes_of_lt short]
    exact short
  · have fits := Nat.le_of_not_lt short
    simp only [run, BufferStep.run, silent, replying, Buffer.putBytes_of_le fits]
    exact Buffer.stored_store valid fits

theorem runAll_valid (valid : d.buffer.Valid) (calls : List BufferCall) :
    (runAll d calls).buffer.Valid ∧ (runAll d calls).buffer.capacity = d.buffer.capacity := by
  induction calls generalizing d with
  | nil => exact ⟨valid, rfl⟩
  | cons t calls ih =>
    have first : (Outcome.state (t.run d)).buffer.Valid ∧
        (Outcome.state (t.run d)).buffer.capacity = d.buffer.capacity := by
      have kept := run_spec t valid
      cases ran : t.run d with
      | ok _ d' => rwa [ran] at kept
      | error e d' =>
        rw [ran] at kept
        rw [kept]
        exact ⟨valid, rfl⟩
    obtain ⟨valid', same⟩ := ih first.1
    exact ⟨valid', same.trans first.2⟩

/-- Wherever calls have brought a buffer: its position is within its limit and its limit within the
capacity it was made with. A further call that fails leaves the buffer and both destinations
as they were; putting fails exactly if the bytes do not fit below the limit, and otherwise changes
just these bytes, none of them at the limit or past it. -/
theorem runAll_bounded (opening : Opening) (scalars : List Scalar) (bytes : List UInt8)
    (calls : List BufferCall) :
    let d := runAll ⟨opening.buffer, scalars, bytes⟩ calls
    (d.buffer.position ≤ d.buffer.limit ∧ d.buffer.limit ≤ d.buffer.capacity) ∧
    d.buffer.capacity = opening.buffer.capacity ∧
    ∀ t : BufferCall,
      (match t.run d with
        | .ok _ d' => d'.buffer.Valid ∧ d'.buffer.capacity = opening.buffer.capacity
        | .error _ d' => d' = d) ∧
      ∀ run ∈ t.puts? d.buffer.order, match t.run d with
        | .ok _ d' => d.buffer.Stored run d'.buffer
        | .error _ _ => d.buffer.remaining < run.length := by
  intro d
  obtain ⟨valid, capacity⟩ := runAll_valid (d := ⟨opening.buffer, scalars, bytes⟩)
    opening.valid calls
  refine ⟨valid, capacity, fun t => ⟨?_, fun run puts => run_puts valid puts⟩⟩
  have kept := run_spec t valid
  cases ran : t.run d with
  | ok _ d' =>
    rw [ran] at kept
    exact ⟨kept.1, kept.2.trans capacity⟩
  | error e d' => rwa [ran] at kept

end BufferCall

end ArrayStore.Session
