import ArrayStore.Proofs.Buffer.Bulk
import ArrayStore.Proofs.Scalar.Mixed

/-! A buffer as a queue.
A blank buffer is filled, flipped, emptied and compacted, again and again. What is put and what is
got at a time is up to the caller, and may be refused: it does not fit, or is not there yet. Two
ledgers stand beside the buffer, of bytes and of elements. Main statement: `Run.queue_fifo`, by
which at every moment the bytes put are the bytes got and then the bytes held. -/

namespace ArrayStore

/-- A buffer with all that was put into it and got from it, the oldest first. -/
structure Queue where
  buffer : Buffer
  /-- The bytes of what was put. -/
  accepted : List UInt8 := []
  /-- The bytes that the position moved over in reading. -/
  consumed : List UInt8 := []
  sent : List Scalar := []
  received : List Scalar := []

namespace Queue

inductive Entry where
  | one (value : Scalar) (fixed : value.kind ≠ .text)
  | run (k : Kind) (values : List Scalar) (fixed : k ≠ .text) (typed : ∀ v ∈ values, v.kind = k)
  | plain (bytes : List UInt8)

inductive Request where
  | one (k : Kind)
  | run (k : Kind) (count : Nat)
  | plain (count : Nat)

namespace Entry

/-- The elements of an entry, with plain bytes as elements of one byte. -/
def values : Entry → List Scalar
  | one v _ => [v]
  | run _ values _ _ => values
  | plain bytes => bytes.map .ubyte

def encoded (order : ByteOrder) : Entry → List UInt8
  | one v _ => v.encode order
  | run _ values _ _ => Scalar.encodeAll order values
  | plain bytes => bytes

def put : Entry → Change Buffer Unit
  | one v _ => Buffer.put v
  | run _ values _ _ => Buffer.putAll values
  | plain bytes => Buffer.putBytes bytes

theorem put_eq (e : Entry) (b : Buffer) : e.put b = Buffer.putBytes (e.encoded b.order) b := by
  cases e <;> rfl

theorem encodeAll_values (e : Entry) (order : ByteOrder) :
    Scalar.encodeAll order e.values = e.encoded order := by
  cases e with
  | one v _ => exact List.append_nil _
  | run => rfl
  | plain bytes => exact Scalar.encodeAll_ubytes order bytes

theorem values_fixed (e : Entry) : ∀ v ∈ e.values, v.kind ≠ .text := by
  intro v member
  cases e with
  | one u fixed => rwa [List.mem_singleton.1 member]
  | run k values fixed typed => rwa [typed v member]
  | plain bytes =>
    obtain ⟨x, -, rfl⟩ := List.mem_map.1 member
    exact Kind.noConfusion

end Entry

namespace Request

def kinds : Request → List Kind
  | one k => [k]
  | run k count => List.replicate count k
  | plain count => List.replicate count .ubyte

def get : Request → Change Buffer (List Scalar)
  | one k => do
    let v ← Buffer.get k
    pure [v]
  | run k count => Buffer.getAll k count
  | plain count => do
    let bytes ← Buffer.getBytes count
    pure (bytes.map .ubyte)

variable {b : Buffer}

theorem get_of_le (r : Request) (valid : b.Valid) (enough : Kind.widthAll r.kinds ≤ b.remaining) :
    r.get b = .ok (Kind.decodeEach b.order r.kinds b.unread) (b.skip (Kind.widthAll r.kinds)) := by
  cases r with
  | one k =>
    simp only [kinds, Kind.widthAll_cons] at enough ⊢
    simp only [get, bind, EStateM.bind, Buffer.get_of_le enough]
    rfl
  | run k count =>
    simp only [kinds, Kind.widthAll_replicate, Kind.decodeEach_replicate] at enough ⊢
    exact Buffer.getAll_of_le enough
  | plain count =>
    have width : count * Kind.ubyte.width = count := Nat.mul_one count
    simp only [kinds, Kind.widthAll_replicate, Kind.decodeEach_replicate, width] at enough ⊢
    have decoded : Kind.decodeAll .ubyte b.order count b.unread =
        (b.unread.take count).map .ubyte := by
      rw [Kind.decodeAll_narrow rfl (Buffer.length_unread valid ▸ enough)]
      simp only [Kind.ofPattern, UInt8.ofNat_toNat]
    simp only [get, bind, EStateM.bind, Buffer.getBytes_of_le enough, decoded]
    rfl

theorem get_of_lt (r : Request) (short : b.remaining < Kind.widthAll r.kinds) :
    r.get b = .error (.insufficientSpace (Kind.widthAll r.kinds) b.remaining) b := by
  cases r with
  | one k =>
    simp only [kinds, Kind.widthAll_cons] at short ⊢
    simp only [get, bind, EStateM.bind, Buffer.get_of_lt short]
    rfl
  | run k count =>
    simp only [kinds, Kind.widthAll_replicate] at short ⊢
    exact Buffer.getAll_of_lt short
  | plain count =>
    have width : count * Kind.ubyte.width = count := Nat.mul_one count
    simp only [kinds, Kind.widthAll_replicate, width] at short ⊢
    simp only [get, bind, EStateM.bind, Buffer.getBytes_of_lt short]

end Request

inductive Phase where
  | filling | emptying

/-- The bytes that were put and not yet got. -/
def held (q : Queue) : Phase → List UInt8
  | .filling => q.buffer.written
  | .emptying => q.buffer.unread

/-- Put an entry; what is refused is in no ledger. -/
def put (q : Queue) (e : Entry) : Queue :=
  match e.put q.buffer with
  | .ok _ b =>
    { q with
      buffer := b
      accepted := q.accepted ++ e.encoded q.buffer.order
      sent := q.sent ++ e.values }
  | .error _ b => { q with buffer := b }

def get (q : Queue) (r : Request) : Queue :=
  match r.get q.buffer with
  | .ok values b =>
    { q with
      buffer := b
      consumed := q.consumed ++ (q.buffer.data.extract q.buffer.position b.position).toList
      received := q.received ++ values }
  | .error _ b => { q with buffer := b }

/-- The runs of a queue up to some moment, with the phase that it is in then. -/
inductive Run : Phase → Type where
  | start : Run .filling
  | put (run : Run .filling) (e : Entry) : Run .filling
  | flip (run : Run .filling) : Run .emptying
  | get (run : Run .emptying) (r : Request) : Run .emptying
  | compact (run : Run .emptying) : Run .filling

def Run.queue (capacity : Nat) (order : ByteOrder) {phase : Phase} : Run phase → Queue
  | start => { buffer := .empty capacity order }
  | put run e => (run.queue capacity order).put e
  | flip run =>
    let q := run.queue capacity order
    { q with buffer := q.buffer.flip }
  | get run r => (run.queue capacity order).get r
  | compact run =>
    let q := run.queue capacity order
    { q with buffer := q.buffer.compact }

/-- What every step of a queue keeps. -/
structure Sound (capacity : Nat) (order : ByteOrder) (phase : Phase) (q : Queue) : Prop where
  valid : q.buffer.Valid
  sized : q.buffer.capacity = capacity
  ordered : q.buffer.order = order
  /-- A buffer that is being filled can be filled to its end. -/
  roomy : phase = .filling → q.buffer.limit = capacity
  balance : q.accepted = q.consumed ++ q.held phase
  fixed : ∀ v ∈ q.sent, v.kind ≠ .text
  accepts : q.accepted = Scalar.encodeAll order q.sent
  consumes : q.consumed.length = Kind.widthAll (q.received.map Scalar.kind)
  receives : q.received = Kind.decodeEach order (q.received.map Scalar.kind) q.consumed

variable {capacity : Nat} {order : ByteOrder} {phase : Phase} {q : Queue}

theorem sound_start (capacity : Nat) (order : ByteOrder) :
    Sound capacity order .filling { buffer := .empty capacity order } where
  valid := Buffer.valid_empty capacity order
  sized := Array.size_replicate
  ordered := rfl
  roomy _ := rfl
  balance := by simp [held, Buffer.written_eq, Buffer.empty]
  fixed _ member := absurd member List.not_mem_nil
  accepts := rfl
  consumes := rfl
  receives := rfl

theorem Sound.put (h : Sound capacity order .filling q) (e : Entry) :
    Sound capacity order .filling (q.put e) := by
  rw [Queue.put, Entry.put_eq]
  by_cases fits : (e.encoded q.buffer.order).length ≤ q.buffer.remaining
  · rw [Buffer.putBytes_of_le fits]
    have written := Buffer.written_store h.valid fits
    exact
      { valid := Buffer.valid_store h.valid fits
        sized := (Buffer.capacity_store _ _).trans h.sized
        ordered := h.ordered
        roomy := h.roomy
        balance := by rw [h.balance, List.append_assoc]; exact congrArg _ written.symm
        fixed := fun v member => (List.mem_append.1 member).elim (h.fixed v) (e.values_fixed v)
        accepts := by rw [Scalar.encodeAll_append, e.encodeAll_values, ← h.accepts, h.ordered]
        consumes := h.consumes
        receives := h.receives }
  · rw [Buffer.putBytes_of_lt (Nat.lt_of_not_le fits)]
    exact h

theorem Sound.flip (h : Sound capacity order .filling q) :
    Sound capacity order .emptying { q with buffer := q.buffer.flip } :=
  { h with
    valid := Buffer.valid_flip h.valid
    roomy := Phase.noConfusion
    balance := h.balance.trans (congrArg _ (Buffer.unread_flip _).symm) }

theorem Sound.get (h : Sound capacity order .emptying q) (r : Request) :
    Sound capacity order .emptying (q.get r) := by
  rw [Queue.get]
  by_cases enough : Kind.widthAll r.kinds ≤ q.buffer.remaining
  · let taken := q.buffer.unread.take (Kind.widthAll r.kinds)
    have size : taken.length = Kind.widthAll r.kinds := by
      rw [List.length_take, Buffer.length_unread h.valid, Nat.min_eq_left enough]
    have whole : taken ++ q.buffer.unread.drop (Kind.widthAll r.kinds) = q.buffer.unread :=
      List.take_append_drop _ _
    have moved : (q.buffer.data.extract q.buffer.position
        (q.buffer.skip (Kind.widthAll r.kinds)).position).toList = taken :=
      Buffer.extract_skip enough
    rw [r.get_of_le h.valid enough]
    dsimp only
    rw [moved, h.ordered]
    exact
      { valid := Buffer.valid_skip h.valid enough
        sized := h.sized
        ordered := h.ordered
        roomy := Phase.noConfusion
        balance := by
          rw [h.balance, List.append_assoc, held, held, Buffer.unread_skip, whole]
        fixed := h.fixed
        accepts := h.accepts
        consumes := by
          rw [List.length_append, h.consumes, size, List.map_append, Kind.kinds_decodeEach,
            Kind.widthAll_append]
        receives := by
          rw [List.map_append, Kind.kinds_decodeEach, Kind.decodeEach_append h.consumes,
            ← h.receives, ← whole, Kind.decodeEach_of_append size] }
  · rw [r.get_of_lt (Nat.lt_of_not_le enough)]
    exact h

theorem Sound.compact (h : Sound capacity order .emptying q) :
    Sound capacity order .filling { q with buffer := q.buffer.compact } :=
  { h with
    valid := Buffer.valid_compact h.valid
    sized := (Buffer.capacity_compact _).trans h.sized
    ordered := (Buffer.order_compact _).trans h.ordered
    roomy := fun _ => (Buffer.limit_compact _).trans h.sized
    balance := h.balance.trans (congrArg _ (Buffer.written_compact h.valid).symm) }

theorem Run.sound (capacity : Nat) (order : ByteOrder) (run : Run phase) :
    Sound capacity order phase (run.queue capacity order) := by
  induction run with
  | start => exact sound_start capacity order
  | put run e ih => exact ih.put e
  | flip run ih => exact ih.flip
  | get run r ih => exact ih.get r
  | compact run ih => exact ih.compact

theorem Sound.received_isPrefix (h : Sound capacity order phase q)
    (same : q.received.map Scalar.kind <+: q.sent.map Scalar.kind) : q.received <+: q.sent := by
  have read : q.received =
      Kind.decodeEach order (q.received.map Scalar.kind) (Scalar.encodeAll order q.sent) := by
    rw [← h.accepts, h.balance, Kind.decodeEach_of_append h.consumes, ← h.receives]
  rw [read]
  exact Scalar.decodeEach_isPrefix h.fixed same

theorem Sound.put_ok_iff (h : Sound capacity order .filling q) (e : Entry) :
    (∃ b, e.put q.buffer = .ok () b) ↔
      (q.held .filling).length + (e.encoded order).length ≤ capacity := by
  have place : (q.held .filling).length = q.buffer.position := Buffer.length_written h.valid
  have room : q.buffer.remaining = capacity - q.buffer.position := by
    rw [Buffer.remaining, h.roomy rfl]
  have low : q.buffer.position ≤ capacity := h.roomy rfl ▸ h.valid.1
  rw [Entry.put_eq, h.ordered, place]
  by_cases fits : (e.encoded order).length ≤ q.buffer.remaining
  · rw [Buffer.putBytes_of_le fits]
    exact ⟨fun _ => by omega, fun _ => ⟨_, rfl⟩⟩
  · rw [Buffer.putBytes_of_lt (Nat.lt_of_not_le fits)]
    refine ⟨fun met => ?_, fun _ => by omega⟩
    obtain ⟨_, same⟩ := met
    cases same

theorem Sound.get_ok_iff (h : Sound capacity order .emptying q) (r : Request) :
    (∃ values b, r.get q.buffer = .ok values b) ↔
      Kind.widthAll r.kinds ≤ (q.held .emptying).length := by
  have there : (q.held .emptying).length = q.buffer.remaining := Buffer.length_unread h.valid
  rw [there]
  by_cases enough : Kind.widthAll r.kinds ≤ q.buffer.remaining
  · rw [r.get_of_le h.valid enough]
    exact ⟨fun _ => enough, fun _ => ⟨_, _, rfl⟩⟩
  · rw [r.get_of_lt (Nat.lt_of_not_le enough)]
    refine ⟨fun met => ?_, fun more => absurd more enough⟩
    obtain ⟨_, _, same⟩ := met
    cases same

theorem Sound.next_there (h : Sound capacity order .emptying q) {kinds : List Kind}
    (next : q.received.map Scalar.kind ++ kinds <+: q.sent.map Scalar.kind) :
    Kind.widthAll kinds ≤ (q.held .emptying).length := by
  obtain ⟨later, all⟩ := next
  have bytes := congrArg List.length (h.accepts.symm.trans h.balance)
  rw [Scalar.length_encodeAll_mixed, List.length_append, h.consumes, ← all,
    Kind.widthAll_append, Kind.widthAll_append] at bytes
  omega

theorem Sound.get_next (h : Sound capacity order .emptying q) (r : Request)
    (next : q.received.map Scalar.kind ++ r.kinds <+: q.sent.map Scalar.kind) :
    ∃ values b, r.get q.buffer = .ok values b ∧ q.received ++ values <+: q.sent := by
  have enough : Kind.widthAll r.kinds ≤ q.buffer.remaining :=
    Buffer.length_unread h.valid ▸ h.next_there next
  have met := r.get_of_le h.valid enough
  have kept := (h.get r).received_isPrefix
  rw [Queue.get, met] at kept
  refine ⟨_, _, met, kept ?_⟩
  rwa [List.map_append, Kind.kinds_decodeEach]

/-- A buffer is a queue, at every moment of every run of puts, flips, gets and compactions, those
that are refused included. The bytes put so far are the bytes got so far and then the bytes held;
they spell the elements that were put, as the bytes got spell the elements that were got. An entry
is put exactly if it fits beside what is held, and a request is met exactly if what is held has as
many bytes. Whoever gets elements by the kinds of those that were put, in whatever portions, is
never refused one that was put, and gets just the elements that were put. -/
theorem Run.queue_fifo (capacity : Nat) (order : ByteOrder) (run : Run phase) :
    let q := run.queue capacity order
    q.accepted = q.consumed ++ q.held phase ∧
    q.accepted = Scalar.encodeAll order q.sent ∧
    q.received = Kind.decodeEach order (q.received.map Scalar.kind) q.consumed ∧
    (q.received.map Scalar.kind <+: q.sent.map Scalar.kind → q.received <+: q.sent) ∧
    (phase = .filling → ∀ e : Entry, (∃ b, e.put q.buffer = .ok () b) ↔
      (q.held phase).length + (e.encoded order).length ≤ capacity) ∧
    (phase = .emptying → ∀ r : Request,
      ((∃ values b, r.get q.buffer = .ok values b) ↔
        Kind.widthAll r.kinds ≤ (q.held phase).length) ∧
      (q.received.map Scalar.kind ++ r.kinds <+: q.sent.map Scalar.kind →
        ∃ values b, r.get q.buffer = .ok values b ∧ q.received ++ values <+: q.sent)) := by
  intro q
  have sound : Sound capacity order phase q := run.sound capacity order
  refine ⟨sound.balance, sound.accepts, sound.receives, sound.received_isPrefix, ?_, ?_⟩
  · rintro rfl
    exact sound.put_ok_iff
  · rintro rfl r
    exact ⟨sound.get_ok_iff r, sound.get_next r⟩

/-- Two rounds over eight bytes. A double does not fit behind an int and two bytes, and a long is
not there to be got; a short that is put in the second round is the next to be got. -/
theorem Run.queue_fifo_two_rounds :
    let filled : Run .filling :=
      ((Run.start.put (.one (.int 7) (by decide))).put (.plain [9, 8])).put
        (.one (.double 1) (by decide))
    let again : Run .filling :=
      ((filled.flip.get (.one .int)).get (.one .long)).compact.put
        (.run .short [.short (-2)] (by decide) (by decide))
    let q := ((again.flip.get (.one .ubyte)).get (.plain 1)).queue 8 .big
    q.received.map Scalar.kind ++ [.short] <+: q.sent.map Scalar.kind ∧
      q.sent = [.int 7, .ubyte 9, .ubyte 8, .short (-2)] ∧ q.received <+: q.sent ∧
      q.accepted = q.consumed ++ [255, 254] ∧
      ¬(∃ b, Entry.put (.one (.double 1) (by decide)) (filled.queue 8 .big).buffer = .ok () b) ∧
      ∃ values b, Request.get (.run .short 1) q.buffer = .ok values b ∧
        q.received ++ values <+: q.sent := by
  intro filled again q
  obtain ⟨-, -, -, -, puts, -⟩ := filled.queue_fifo 8 .big
  obtain ⟨balance, -, -, received, -, gets⟩ :=
    ((again.flip.get (.one .ubyte)).get (.plain 1)).queue_fifo 8 .big
  have next : q.received.map Scalar.kind ++ [.short] <+: q.sent.map Scalar.kind := by decide
  have held : q.held .emptying = [255, 254] := by decide
  refine ⟨next, by decide, received (by decide), held ▸ balance, ?_, (gets rfl _).2 next⟩
  rw [puts rfl]
  decide

end Queue

end ArrayStore
