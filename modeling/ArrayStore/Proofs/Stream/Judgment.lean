import ArrayStore.Proofs.Stream.Emission

/-! How a judgment about writing is made of its parts.
A writing operation changes its buffer and hands bytes to the sink, and is made of such parts by
running one after another. A judgment on operations that holds of these parts and passes from two of
them to their sequence holds of all operations. The rules say what a part does before sinks of every
bound, because the operations do not look at the bound: only the sink does, where bytes are handed
to it. -/

namespace ArrayStore

def Writer.bounded (bound : Option Nat) (w : Writer) : Writer :=
  { w with sink := { w.sink with limit := bound } }

namespace Outgoing

def bounded (bound : Option Nat) : Outgoing → Outgoing
  | ⟨b, .closed⟩ => ⟨b, .closed⟩
  | ⟨b, .stream w⟩ => ⟨b, .stream (w.bounded bound)⟩

def bound : Outgoing → Option Nat
  | ⟨_, .closed⟩ => none
  | ⟨_, .stream w⟩ => w.sink.limit

@[simp] theorem buffer_bounded (bound : Option Nat) (s : Outgoing) :
    (s.bounded bound).buffer = s.buffer := by
  obtain ⟨b, outlet⟩ := s
  cases outlet <;> rfl

@[simp] theorem delivered_bounded (bound : Option Nat) (s : Outgoing) :
    (s.bounded bound).delivered = s.delivered := by
  obtain ⟨b, outlet⟩ := s
  cases outlet <;> rfl

theorem bounded_bound (s : Outgoing) : s.bounded s.bound = s := by
  obtain ⟨b, outlet⟩ := s
  cases outlet <;> rfl

/-- The rules by which a judgment on the parts of an operation becomes one on the whole. -/
structure Judgment (J : ∀ {α : Type}, Change Outgoing α → Outgoing → Prop) : Prop where
  /-- The operation gives the same answer and leaves the same buffer before every sink, and the sink
  alone. -/
  quiet {α : Type} {op : Change Outgoing α} {s : Outgoing} (r : Except Error α) (c : Buffer)
    (same : ∀ bound, Outcome.answer (op (s.bounded bound)) = r ∧
      Outcome.state (op (s.bounded bound)) = ⟨c, (s.bounded bound).outlet⟩) : J op s
  congr {α : Type} {op op' : Change Outgoing α} {s : Outgoing}
    (same : ∀ bound, op (s.bounded bound) = op' (s.bounded bound)) (h : J op' s) : J op s
  bind {α β : Type} {first : Change Outgoing α} {op : Change Outgoing β} {s : Outgoing}
    (second : α → Change Outgoing β)
    (unfolds : ∀ bound, op (s.bounded bound) = match first (s.bounded bound) with
      | .error e t => .error e t
      | .ok a t => second a t)
    (h : J first s) (k : ∀ bound a t, first (s.bounded bound) = .ok a t → J (second a) t) :
    J op s
  /-- Bytes are handed to the sink, and the buffer is then `c`, whether they were all stored or
  not. -/
  hand {α : Type} {op : Change Outgoing α} {a : α} {b c : Buffer} {w : Writer}
    (bytes : List UInt8) (more : Nat)
    (hands : ∀ limit, op ⟨b, .stream (w.bounded limit)⟩ =
      match Writer.write bytes (w.bounded limit) with
      | .error e v => .error e ⟨c, .stream v⟩
      | .ok () v => .ok a ⟨c, .stream { v with flushes := v.flushes + more }⟩) :
    J op ⟨b, .stream w⟩

def hand (bytes : List UInt8) : Change Outgoing Bool
  | ⟨b, .closed⟩ => .ok false ⟨b, .closed⟩
  | ⟨b, .stream w⟩ =>
    match Writer.write bytes w with
    | .error e w => .error e ⟨b, .stream w⟩
    | .ok () w => .ok true ⟨b, .stream w⟩

def flushSink : Change Outgoing Unit := fun s =>
  match s.outlet with
  | .closed => .ok () s
  | .stream w =>
    match w.sink.flushFault with
    | none => .ok () s
    | some fault => .error (.stream "flushing stream" fault) s

namespace Judgment

variable {J : ∀ {α : Type}, Change Outgoing α → Outgoing → Prop} (rules : Judgment J)
  {α : Type} {s : Outgoing}

include rules

theorem ok {op : Change Outgoing α} {a : α}
    (same : ∀ bound, op (s.bounded bound) = .ok a (s.bounded bound)) : J op s :=
  rules.quiet (.ok a) s.buffer fun bound => by
    rw [same, ← buffer_bounded bound s]
    exact ⟨rfl, rfl⟩

theorem error {op : Change Outgoing α} {e : Error}
    (same : ∀ bound, op (s.bounded bound) = .error e (s.bounded bound)) : J op s :=
  rules.quiet (.error e) s.buffer fun bound => by
    rw [same, ← buffer_bounded bound s]
    exact ⟨rfl, rfl⟩

theorem seq {first : Change Outgoing Unit} {op : Change Outgoing α}
    (second : Change Outgoing α)
    (unfolds : ∀ bound, op (s.bounded bound) = match first (s.bounded bound) with
      | .error e t => .error e t
      | .ok () t => second t)
    (h : J first s) (k : ∀ bound t, first (s.bounded bound) = .ok () t → J second t) :
    J op s := by
  refine rules.bind (fun _ => second) (fun bound => ?_) h fun bound _ t run => k bound t run
  rw [unfolds]
  cases first (s.bounded bound) <;> rfl

/-! The operations of a buffer before a stream. -/

theorem flush (s : Outgoing) : J Outgoing.flush s := by
  obtain ⟨b, outlet⟩ := s
  cases outlet with
  | closed => exact rules.ok fun _ => rfl
  | stream w => exact rules.hand b.written 1 fun _ => rfl

theorem onBuffer (change : Change Buffer α) (s : Outgoing) : J (Outgoing.onBuffer change) s := by
  refine rules.quiet (Outcome.answer (change s.buffer)) (Outcome.state (change s.buffer))
    fun bound => ?_
  rw [← buffer_bounded bound s]
  obtain ⟨b, outlet⟩ := s.bounded bound
  simp only [Outgoing.onBuffer]
  cases change b <;> exact ⟨rfl, rfl⟩

/-- What is asked after a flush is asked of the buffer, which the bound does not reach. -/
theorem ensureRoom (size : Nat) (s : Outgoing) : J (Outgoing.ensureRoom size) s := by
  by_cases room : size ≤ s.buffer.remaining
  · refine rules.ok (a := ()) fun bound => ?_
    rw [Outgoing.ensureRoom, buffer_bounded, if_pos room]
  · refine rules.seq (fun t =>
      if t.buffer.remaining < size then .error (.insufficientSpace size t.buffer.remaining) t
      else .ok () t) (fun bound => ?_) (rules.flush s) fun _ t _ => ?_
    · rewrite [Outgoing.ensureRoom, buffer_bounded, if_neg room]
      rfl
    · by_cases tight : t.buffer.remaining < size
      · exact rules.error fun bound => by rw [buffer_bounded, if_pos tight]
      · exact rules.ok fun bound => by rw [buffer_bounded, if_neg tight]

theorem handOver (bytes : List UInt8) (s : Outgoing) : J (Outgoing.hand bytes) s := by
  obtain ⟨b, outlet⟩ := s
  cases outlet with
  | closed => exact rules.ok fun _ => rfl
  | stream w => exact rules.hand bytes 0 fun _ => rfl

theorem writeDirect (bytes : List UInt8) (s : Outgoing) : J (Outgoing.writeDirect bytes) s := by
  obtain ⟨b, outlet⟩ := s
  cases outlet with
  | closed => exact rules.ok fun _ => rfl
  | stream w =>
    cases direct : w.direct with
    | false =>
      refine rules.ok (a := false) fun bound => ?_
      have declined : (w.bounded bound).direct = false := direct
      simp only [bounded, Outgoing.writeDirect, declined]
      rfl
    | true =>
      refine rules.seq (Outgoing.hand bytes) (fun bound => ?_) (rules.flush _)
        fun _ t _ => rules.handOver bytes t
      have taken : (w.bounded bound).direct = true := direct
      simp only [bounded, Outgoing.writeDirect, taken, if_true]
      cases Outgoing.flush ⟨b, .stream (w.bounded bound)⟩ with
      | error e t => rfl
      | ok _ t =>
        obtain ⟨c, outlet⟩ := t
        cases outlet <;> rfl

theorem flushSink (s : Outgoing) : J Outgoing.flushSink s := by
  obtain ⟨b, outlet⟩ := s
  cases outlet with
  | closed => exact rules.ok fun _ => rfl
  | stream w =>
    cases report : w.sink.flushFault with
    | none =>
      refine rules.ok (a := ()) fun bound => ?_
      have report : (w.bounded bound).sink.flushFault = none := report
      simp only [Outgoing.flushSink, bounded, report]
    | some fault =>
      refine rules.error (e := .stream "flushing stream" fault) fun bound => ?_
      have report : (w.bounded bound).sink.flushFault = some fault := report
      simp only [Outgoing.flushSink, bounded, report]

theorem finish (s : Outgoing) : J Outgoing.finish s :=
  rules.seq Outgoing.flushSink (fun _ => rfl) (rules.flush s) fun _ t _ => rules.flushSink t

end Judgment

end Outgoing

end ArrayStore
