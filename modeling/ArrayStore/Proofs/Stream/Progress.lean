import ArrayStore.Proofs.Stream.Delivery

/-! What a stream has handed over, whatever its source and its buffer do.
The source may fail, deliver nothing or end anywhere, and the buffer may be of
any size: where an operation succeeds, the bytes ahead of it are those that it
took, followed by those that are ahead now. When it succeeds is not said. -/

namespace ArrayStore

namespace Source

variable {s t : Source}

theorem length_deliver {asked : Nat} {chunk : List UInt8} (given : s.deliver asked = .ok chunk) :
    chunk.length ≤ asked := by
  have portion : (s.portion s.reads).elim asked (min asked) ≤ asked := by
    cases s.portion s.reads with
    | none => exact Nat.le_refl _
    | some n => exact Nat.min_le_left _ _
  simp only [Source.deliver] at given
  split at given
  · cases given
    exact Nat.le_trans (List.length_take_le _ _) portion
  · split at given
    · cases given
    · cases given
      exact Nat.le_trans (List.length_take_le _ _) (Nat.le_trans (Nat.min_le_left _ _) portion)

theorem read_ok {asked : Nat} {chunk : List UInt8} (run : s.read asked = (.ok chunk, t)) :
    chunk.length ≤ asked ∧ chunk ++ t.rest = s.rest := by
  have kept := s.read_rest asked chunk (by rw [run])
  rw [run] at kept
  refine ⟨?_, kept⟩
  clear kept
  fun_induction Source.read asked s with
  | case1 s interrupted ih => exact ih run
  | case2 s ready fault refused => cases run
  | case3 s ready given delivered size =>
    cases run
    exact length_deliver delivered

theorem readExact_ok {count : Nat} {front all : Array UInt8}
    (run : s.readExact count front = (.ok all, t)) :
    ∃ taken : List UInt8,
      all = front ++ taken ∧ taken.length = count ∧ s.rest = taken ++ t.rest := by
  fun_induction Source.readExact count front s with
  | case1 front s =>
    cases run
    exact ⟨[], by simp, rfl, rfl⟩
  | case2 | case3 => cases run
  | case4 count front s positive b chunk u given ih =>
    obtain ⟨small, whole⟩ := read_ok given
    obtain ⟨taken, same, size, rest⟩ := ih run
    have length : (b :: chunk).length = chunk.length + 1 := rfl
    refine ⟨b :: chunk ++ taken, ?_, ?_, ?_⟩
    · rw [same]
      exact Array.ext' (by simp)
    · rw [List.length_append, length, size]
      omega
    · rw [← whole, rest, List.append_assoc]

end Source

namespace Incoming

/-- The bytes were taken from the front, and the buffer can still be read. -/
structure Onward (s t : Incoming) (bytes : List UInt8) : Prop where
  valid : t.buffer.Valid
  order_eq : t.buffer.order = s.buffer.order
  ahead_eq : s.ahead = bytes ++ t.ahead

variable {s t u : Incoming} {xs ys : List UInt8}

theorem Onward.refl (valid : s.buffer.Valid) : Onward s s [] := ⟨valid, rfl, rfl⟩

theorem Onward.trans (first : Onward s t xs) (second : Onward t u ys) : Onward s u (xs ++ ys) :=
  ⟨second.valid, second.order_eq.trans first.order_eq,
    by rw [first.ahead_eq, second.ahead_eq, List.append_assoc]⟩

theorem refill_onward {b c : Buffer} {r q : Reader} {count : Nat} (valid : b.Valid)
    (run : refill b r = .ok count (c, q)) : Onward ⟨b, .stream r⟩ ⟨c, .stream q⟩ [] := by
  cases read : r.source.read (min b.compact.remaining r.fragment) with
  | mk delivered source =>
    cases delivered with
    | error fault =>
      simp only [refill, read] at run
      cases run
    | ok chunk =>
      simp only [refill, read] at run
      cases run
      obtain ⟨small, whole⟩ := Source.read_ok read
      have fits : chunk.length ≤ b.capacity - b.remaining := by
        rw [← Buffer.remaining_compact valid]
        omega
      refine ⟨Buffer.valid_topUp valid fits, Buffer.order_topUp b chunk, ?_⟩
      change b.unread ++ r.source.rest = (b.topUp chunk).unread ++ source.rest
      rw [Buffer.unread_topUp valid fits, List.append_assoc, whole]

theorem fillTo_onward {target : Nat} {b c : Buffer} {r q : Reader} (valid : b.Valid)
    (run : fillTo target b r = .ok () (c, q)) : Onward ⟨b, .stream r⟩ ⟨c, .stream q⟩ [] := by
  fun_induction fillTo target b r with
  | case1 | case2 => cases run
  | case3 b r missing n d p filled ih =>
    have first := refill_onward valid filled
    exact first.trans (ih first.valid run)
  | case4 b r held =>
    cases run
    exact .refl valid

theorem ensureData_onward {size : Nat} (valid : s.buffer.Valid)
    (run : ensureData size s = .ok () t) : Onward s t [] := by
  obtain ⟨b, inlet⟩ := s
  cases inlet with
  | closed => cases run
  | idle =>
    cases run
    exact .refl valid
  | stream r =>
    simp only [ensureData] at run
    split at run
    · cases run
    · split at run
      · next filled =>
        cases run
        exact fillTo_onward valid filled
      · cases run

theorem ensureRemaining_onward {size : Nat} (valid : s.buffer.Valid)
    (run : ensureRemaining size s = .ok () t) : Onward s t [] := by
  simp only [ensureRemaining] at run
  split at run
  · cases run
    exact .refl valid
  · split at run
    · cases run
    · next ready =>
      split at run
      · cases run
      · cases run
        exact ensureData_onward valid ready

theorem getBytes_onward {count : Nat} {bytes : List UInt8} (valid : s.buffer.Valid)
    (run : onBuffer (Buffer.getBytes count) s = .ok bytes t) :
    Onward s t bytes ∧ bytes.length = count := by
  obtain ⟨b, inlet⟩ := s
  have size : b.unread.length = b.remaining := Buffer.length_unread valid
  by_cases held : count ≤ b.remaining
  · simp only [onBuffer, Buffer.getBytes_of_le held] at run
    cases run
    refine ⟨⟨Buffer.valid_skip valid held, rfl, ?_⟩, ?_⟩
    · rw [ahead, ahead, Buffer.unread_skip, ← List.append_assoc, List.take_append_drop]
    · rw [List.length_take, size]
      omega
  · simp only [onBuffer, Buffer.getBytes, if_pos (Nat.lt_of_not_le held)] at run
    cases run

theorem getAll_onward {k : Kind} {count : Nat} {values : List Scalar} (valid : s.buffer.Valid)
    (run : onBuffer (Buffer.getAll k count) s = .ok values t) :
    ∃ bytes, Onward s t bytes ∧ bytes.length = count * k.width ∧
      values = k.decodeAll s.buffer.order count bytes := by
  obtain ⟨b, inlet⟩ := s
  cases got : Buffer.getBytes (count * k.width) b with
  | error e c =>
    simp only [onBuffer, Buffer.getAll, got] at run
    cases run
  | ok bytes c =>
    have taken :
        onBuffer (Buffer.getBytes (count * k.width)) ⟨b, inlet⟩ = .ok bytes ⟨c, inlet⟩ := by
      simp only [onBuffer, got]
    simp only [onBuffer, Buffer.getAll, got] at run
    cases run
    obtain ⟨onward, size⟩ := getBytes_onward valid taken
    exact ⟨bytes, onward, size, by rw [← onward.order_eq]⟩

theorem readDirect_onward {count : Nat} {bytes : List UInt8} (valid : s.buffer.Valid)
    (run : readDirect count s = .ok (some bytes) t) : Onward s t bytes ∧ bytes.length = count := by
  obtain ⟨b, inlet⟩ := s
  cases inlet with
  | closed => cases run
  | idle => cases run
  | stream r =>
    have held : min b.remaining count ≤ b.remaining := Nat.min_le_left _ _
    have size : b.unread.length = b.remaining := Buffer.length_unread valid
    simp only [readDirect, Buffer.getBytes_of_le held] at run
    split at run
    · split at run
      · cases run
      · next all source read =>
        cases run
        obtain ⟨taken, rfl, length, rest⟩ := Source.readExact_ok read
        have front : (b.unread.take (min b.remaining count)).length = min b.remaining count := by
          rw [List.length_take, size]
          omega
        have together : ((b.unread.take (min b.remaining count)).toArray ++ taken).toList =
            b.unread.take (min b.remaining count) ++ taken := by simp
        rw [together]
        refine ⟨⟨Buffer.valid_skip valid held, rfl, ?_⟩, by rw [List.length_append]; omega⟩
        simp only [ahead, Buffer.unread_skip, rest]
        -- Either the buffer is emptied or nothing more is taken.
        by_cases short : b.remaining ≤ count
        · rw [Nat.min_eq_left short, ← size, List.take_length, List.drop_length, List.nil_append,
            List.append_assoc]
        · have nothing : taken = [] := List.length_eq_zero_iff.1 (by omega)
          rw [nothing, List.append_nil, List.nil_append, ← List.append_assoc, List.take_append_drop]
    · cases run

theorem readDirect_none {count : Nat} (run : readDirect count s = .ok none t) : t = s := by
  obtain ⟨b, inlet⟩ := s
  cases inlet with
  | closed | idle =>
    cases run
    rfl
  | stream r =>
    simp only [readDirect] at run
    split at run
    · split at run
      · cases run
      · split at run <;> cases run
    · cases run
      rfl

end Incoming

end ArrayStore
