import ArrayStore.Proofs.Stream.Progress

/-! What a reading operation does, move by move.
A buffer before a stream can be touched in three ways: bytes are taken from the buffer, a fragment
is read behind them, or a run of bytes is read past them. A trail strings such moves together, and
ends at the first one that fails or with a report of its own. What every move keeps, every trail
keeps; so a property of reading is proved for the moves, and the operations only have to be seen to
leave trails. -/

namespace ArrayStore

namespace Outcome

variable {σ α : Type}

def failure : Outcome σ α → Option Error
  | .ok _ _ => none
  | .error e _ => some e

end Outcome

namespace Incoming

/-- One touch of a buffer or of the stream behind it, with what it reports. -/
inductive Move : Incoming → Option Error → Incoming → Prop where
  | take {s t : Incoming} {count : Nat} {bytes : List UInt8}
      (run : onBuffer (Buffer.getBytes count) s = .ok bytes t) : Move s none t
  | refill {b c : Buffer} {r q : Reader} {count : Nat}
      (run : Incoming.refill b r = .ok count (c, q)) : Move ⟨b, .stream r⟩ none ⟨c, .stream q⟩
  | fault {b c : Buffer} {r q : Reader} {e : Error}
      (run : Incoming.refill b r = .error e (c, q)) :
      Move ⟨b, .stream r⟩ (some e) ⟨c, .stream q⟩
  | direct {s t : Incoming} {count : Nat} {bytes : List UInt8}
      (run : readDirect count s = .ok (some bytes) t) : Move s none t
  | cut {s t : Incoming} {count : Nat} {e : Error}
      (run : readDirect count s = .error e t) : Move s (some e) t

/-- Moves in a row. The report at the end is that of the last move, or of the operation itself. -/
inductive Trail : Incoming → Option Error → Incoming → Prop where
  | stop (s : Incoming) (e : Option Error) : Trail s e s
  | halt {s t : Incoming} {e : Error} (move : Move s (some e) t) : Trail s (some e) t
  | next {s t u : Incoming} {e : Option Error} (move : Move s none t) (rest : Trail t e u) :
      Trail s e u

/-- An operation that does nothing to a buffer and its stream but leave a trail. -/
def Trails {α : Type} (op : Change Incoming α) : Prop :=
  ∀ s, Trail s (Outcome.failure (op s)) (Outcome.state (op s))

variable {α : Type} {s t u : Incoming} {e : Option Error}

theorem Trail.trans (first : Trail s none t) (second : Trail t e u) : Trail s e u := by
  generalize quiet : (none : Option Error) = none' at first
  induction first with
  | stop => exact second
  | halt move => cases quiet
  | next move rest ih => exact .next move (ih second quiet)

theorem Trails.ok {op : Change Incoming α} {a : α} (h : Trails op) (run : op s = .ok a t) :
    Trail s none t := by
  have left := h s
  rwa [run] at left

theorem Trails.error {op : Change Incoming α} {e : Error} (h : Trails op)
    (run : op s = .error e t) : Trail s (some e) t := by
  have left := h s
  rwa [run] at left

/-! The operations of a buffer before a stream. -/

theorem fillTo_trail (target : Nat) (b : Buffer) (r : Reader) :
    let u := Outcome.state (fillTo target b r)
    Trail ⟨b, .stream r⟩ (Outcome.failure (fillTo target b r)) ⟨u.1, .stream u.2⟩ := by
  fun_induction fillTo target b r with
  | case1 b r missing e u failed => exact .halt (.fault failed)
  | case2 b r missing u failed => exact .next (.refill failed) (.stop _ _)
  | case3 b r missing n c q filled ih => exact .next (.refill filled) ih
  | case4 b r held => exact .stop _ _

theorem ensureData_trails (size : Nat) : Trails (ensureData size) := by
  intro s
  obtain ⟨b, inlet⟩ := s
  cases inlet with
  | closed | idle => exact .stop _ _
  | stream r =>
    have filled := fillTo_trail (min (b.remaining + size) b.capacity) b r
    simp only [ensureData]
    split
    · exact .stop _ _
    · split
      · next run =>
        rw [run] at filled
        exact filled
      · next run =>
        rw [run] at filled
        exact filled

theorem ensureRemaining_trails (size : Nat) : Trails (ensureRemaining size) := by
  intro s
  simp only [ensureRemaining]
  split
  · exact .stop _ _
  · split
    · next failed => exact (ensureData_trails _).error failed
    · next ready =>
      have tried := (ensureData_trails _).ok ready
      split
      · exact tried.trans (.stop _ _)
      · exact tried

theorem getBytes_trails (count : Nat) : Trails (onBuffer (Buffer.getBytes count)) := by
  intro s
  cases run : onBuffer (Buffer.getBytes count) s with
  | ok bytes t => exact .next (.take run) (.stop _ _)
  | error e t =>
    obtain ⟨b, inlet⟩ := s
    simp only [onBuffer, Buffer.getBytes] at run
    by_cases short : b.remaining < count
    · rw [if_pos short] at run
      cases run
      exact .stop _ _
    · rw [if_neg short] at run
      cases run

theorem trails_of_getBytes (count : Nat) {change : Change Buffer α}
    (same : ∀ b, Outcome.failure (change b) = Outcome.failure (Buffer.getBytes count b) ∧
      Outcome.state (change b) = Outcome.state (Buffer.getBytes count b)) :
    Trails (onBuffer change) := by
  intro s
  obtain ⟨b, inlet⟩ := s
  have taken := getBytes_trails count ⟨b, inlet⟩
  obtain ⟨report, left⟩ := same b
  simp only [onBuffer] at taken ⊢
  cases ran : change b <;> cases got : Buffer.getBytes count b <;>
    rw [ran, got] at report left <;> rw [got] at taken <;> cases report <;> cases left <;>
    exact taken

theorem get_trails (k : Kind) : Trails (onBuffer (Buffer.get k)) :=
  trails_of_getBytes k.width fun b => by
    simp only [Buffer.get]
    cases Buffer.getBytes k.width b <;> exact ⟨rfl, rfl⟩

theorem getAll_trails (k : Kind) (count : Nat) : Trails (onBuffer (Buffer.getAll k count)) :=
  trails_of_getBytes (count * k.width) fun b => by
    simp only [Buffer.getAll]
    cases Buffer.getBytes (count * k.width) b <;> exact ⟨rfl, rfl⟩

theorem readDirect_trails (count : Nat) : Trails (readDirect count) := by
  intro s
  cases run : readDirect count s with
  | error e t => exact .halt (.cut run)
  | ok taken t =>
    cases taken with
    | none => exact readDirect_none run ▸ .stop _ _
    | some bytes => exact .next (.direct run) (.stop _ _)

end Incoming

end ArrayStore
