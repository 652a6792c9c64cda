import ArrayStore.Proofs.Stream.Retention

/-! What a reader is told when the bytes it asks for do not fit.
The target of a refill is bounded by the capacity and so by the machine's words; the report of a
shortage adds the same two numbers once more, and nothing bounds that sum. Both inlets that refuse
do so with the same report: the closed one always, a stream only when its buffer is full. Main
statement: `ensureData_reports`, by which the sum overflows in just these two places, every report
that comes about is exact, and making sure of bytes in all, which never asks for more than it was
asked itself, always reports its own argument. -/

namespace ArrayStore

namespace Incoming

variable {b : Buffer} {r : Reader} {s t : Incoming} {e : Error} {size available : Nat}

theorem shortage_overflows :
    shortage b size available = .overflow ↔ UInt64.size ≤ b.remaining + size := by
  rw [shortage]
  split
  · next fits => exact ⟨fun same => (by cases same), fun large => absurd fits (Nat.not_lt.2 large)⟩
  · next large => exact ⟨fun _ => Nat.le_of_not_lt large, fun _ => rfl⟩

theorem shortage_exact {requested given : Nat}
    (same : shortage b size available = .insufficientSpace requested given) :
    requested = b.remaining + size ∧ requested < UInt64.size := by
  rw [shortage] at same
  split at same
  · next fits =>
    cases same
    exact ⟨rfl, fits⟩
  · cases same

theorem fillTo_error {target : Nat} {p : Buffer × Reader} (run : fillTo target b r = .error e p) :
    ∃ fault, e = .stream "reading stream" fault := by
  fun_induction fillTo target b r with
  | case1 b r missing e' q failed =>
    cases run
    simp only [refill] at failed
    split at failed
    · next fault source _ =>
      cases failed
      exact ⟨fault, rfl⟩
    · cases failed
  | case2 b r missing q failed =>
    cases run
    exact ⟨ended, rfl⟩
  | case3 b r missing n c q filled ih => exact ih run
  | case4 b r held => cases run

/-- Whether a request is refused before anything is read for it. -/
def Refuses (size : Nat) (s : Incoming) : Prop :=
  s.inlet = .closed ∨
    (s.inlet.flows = true ∧ 0 < size ∧ s.buffer.remaining = s.buffer.capacity)

theorem target_le_remaining_iff (valid : b.Valid) (size : Nat) :
    0 < size ∧ min (b.remaining + size) b.capacity ≤ b.remaining ↔
      0 < size ∧ b.remaining = b.capacity := by
  have within := Buffer.remaining_le_capacity valid
  omega

theorem ensureData_of_refuses (valid : s.buffer.Valid) (refuses : Refuses size s) :
    ∃ available, ensureData size s = .error (shortage s.buffer size available) s := by
  obtain ⟨b, inlet⟩ := s
  rcases refuses with closed | ⟨flows, positive, full⟩
  · cases closed
    exact ⟨b.remaining, rfl⟩
  · obtain ⟨r, rfl⟩ := Inlet.flows_iff.1 flows
    refine ⟨b.capacity, ?_⟩
    simp only [ensureData]
    rw [if_pos ((target_le_remaining_iff valid size).2 ⟨positive, full⟩)]

theorem ensureData_error_of_not_refuses (valid : s.buffer.Valid) (accepts : ¬ Refuses size s)
    (run : ensureData size s = .error e t) : ∃ fault, e = .stream "reading stream" fault := by
  obtain ⟨b, inlet⟩ := s
  cases inlet with
  | closed => exact absurd (.inl rfl) accepts
  | idle => cases run
  | stream r =>
    have room : ¬ (0 < size ∧ min (b.remaining + size) b.capacity ≤ b.remaining) := fun full =>
      accepts (.inr ⟨rfl, (target_le_remaining_iff valid size).1 full⟩)
    simp only [ensureData] at run
    rw [if_neg room] at run
    split at run
    · cases run
    · next stopped =>
      cases run
      exact fillTo_error stopped

theorem ensureData_overflows (valid : s.buffer.Valid) :
    (∃ t, ensureData size s = .error .overflow t) ↔
      UInt64.size ≤ s.buffer.remaining + size ∧ Refuses size s := by
  constructor
  · rintro ⟨t, run⟩
    by_cases refuses : Refuses size s
    · obtain ⟨available, report⟩ := ensureData_of_refuses valid refuses
      rw [report] at run
      injection run with same
      exact ⟨shortage_overflows.1 same, refuses⟩
    · obtain ⟨fault, other⟩ := ensureData_error_of_not_refuses valid refuses run
      cases other
  · rintro ⟨large, refuses⟩
    obtain ⟨available, report⟩ := ensureData_of_refuses valid refuses
    exact ⟨s, report.trans (by rw [shortage_overflows.2 large])⟩

theorem ensureData_exact {requested : Nat} (valid : s.buffer.Valid)
    (run : ensureData size s = .error (.insufficientSpace requested available) t) :
    requested = s.buffer.remaining + size ∧ requested < UInt64.size := by
  by_cases refuses : Refuses size s
  · obtain ⟨given, report⟩ := ensureData_of_refuses valid refuses
    rw [report] at run
    injection run with same
    exact shortage_exact same
  · obtain ⟨fault, other⟩ := ensureData_error_of_not_refuses valid refuses run
    cases other

theorem ensureRemaining_error (run : ensureRemaining size s = .error e t) :
    (∃ available, e = .insufficientSpace size available) ∨
      (s.buffer.remaining < size ∧
        ensureData (size - s.buffer.remaining) s = .error e t) := by
  simp only [ensureRemaining] at run
  split at run
  · cases run
  · next short =>
    split at run
    · next failed =>
      cases run
      exact .inr ⟨Nat.lt_of_not_le short, failed⟩
    · split at run
      · cases run
        exact .inl ⟨_, rfl⟩
      · cases run

/-- Where a reader is told of a shortage. The sum in the report of `ensureData` overflows just
where the request is refused outright and the bytes that wait, together with those that are asked
for, are more than a word counts: with nothing behind the buffer, or with a stream behind a buffer
that is full. Every report that comes about adds them up exactly; and `ensureRemaining`, which
asks for no more than is missing, always reports what it was asked for. -/
theorem ensureData_reports (s : Incoming) (valid : s.buffer.Valid)
    (small : s.buffer.capacity < UInt64.size) (size : Nat) (word : size < UInt64.size) :
    ((∃ t, ensureData size s = .error .overflow t) ↔
      UInt64.size ≤ s.buffer.unread.length + size ∧
        (s.inlet = .closed ∨
          (s.inlet.flows = true ∧ s.buffer.unread.length = s.buffer.capacity))) ∧
    (∀ requested available t,
      ensureData size s = .error (.insufficientSpace requested available) t →
        requested = s.buffer.unread.length + size ∧ requested < UInt64.size) ∧
    (∀ t, ensureRemaining size s ≠ .error .overflow t) ∧
    ∀ requested available t,
      ensureRemaining size s = .error (.insufficientSpace requested available) t →
        requested = size := by
  have within := Buffer.remaining_le_capacity valid
  rw [Buffer.length_unread valid]
  refine ⟨?_, fun requested available t run => ensureData_exact valid run, fun t run => ?_,
    fun requested available t run => ?_⟩
  · rw [ensureData_overflows valid]
    refine and_congr_right fun large => or_congr_right (and_congr_right fun _ => ?_)
    exact and_iff_right (by omega)
  · rcases ensureRemaining_error run with ⟨available, other⟩ | ⟨short, asked⟩
    · cases other
    · have large := ((ensureData_overflows valid).1 ⟨t, asked⟩).1
      omega
  · rcases ensureRemaining_error run with ⟨given, same⟩ | ⟨short, asked⟩
    · cases same
      rfl
    · have sum := (ensureData_exact valid asked).1
      omega

/-- Two bytes that wait, and as many more asked for as a word counts but two, or but three. -/
theorem ensureData_reports_two_waiting :
    let s : Incoming := ⟨.holding [1, 2] .big, .closed⟩
    s.buffer.Valid ∧ s.buffer.capacity < UInt64.size ∧ UInt64.size - 2 < UInt64.size ∧
      (∃ t, ensureData (UInt64.size - 2) s = .error .overflow t) ∧
      Outcome.answer (ensureData (UInt64.size - 3) s) =
        .error (.insufficientSpace (UInt64.size - 1) 2) ∧
      ∀ t, ensureRemaining (UInt64.size - 2) s ≠ .error .overflow t := by
  intro s
  have valid : s.buffer.Valid := by decide
  have small : s.buffer.capacity < UInt64.size := by decide
  obtain ⟨overflows, -, -, -⟩ := ensureData_reports s valid small (UInt64.size - 2) (by decide)
  obtain ⟨-, -, returns, -⟩ := ensureData_reports s valid small (UInt64.size - 2) (by decide)
  exact ⟨valid, small, by decide, overflows.2 ⟨by decide, .inl rfl⟩, by decide, returns⟩

/-- A full buffer before a stream that has a byte, and a closed one: the target is kept within the
words, and the report of it is not. -/
theorem ensureData_overflows_full_buffer :
    let b : Buffer := .holding [1, 2] .big
    let r : Reader := { source := { rest := [3] } }
    b.Valid ∧ Outcome.answer (ensureData (UInt64.size - 1) ⟨b, .stream r⟩) = .error .overflow ∧
      Outcome.answer (ensureData (UInt64.size - 1) ⟨b, .closed⟩) = .error .overflow := by
  decide +kernel

end Incoming

end ArrayStore
