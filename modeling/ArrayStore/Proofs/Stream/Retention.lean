import ArrayStore.Proofs.Stream.Trails
import Mathlib.Data.List.Infix

/-! What a reading operation leaves of a stream, also when it fails.
A refill that meets a fault or the end keeps the bytes that were pending, and a
transfer past the buffer that stops midway has only taken bytes from the front.
So whatever a source does and however small the buffer is, nothing ahead is
lost from the middle, doubled or moved: an operation drops some of the first
bytes, and making sure of bytes drops none. Which bytes it drops is said where it
succeeds, not here. -/

namespace ArrayStore

namespace Source

variable {s t : Source}

/-- A transfer that stops midway leaves the bytes behind those that came. -/
theorem readExact_rest (count : Nat) (front : Array UInt8) (s : Source) :
    ∃ gone, s.rest = gone ++ (s.readExact count front).2.rest := by
  fun_induction Source.readExact count front s with
  | case1 front s => exact ⟨[], rfl⟩
  | case2 count front s positive fault t refused =>
    have kept := s.read_error_rest count fault (by rw [refused])
    rw [refused] at kept
    exact ⟨[], kept.symm⟩
  | case3 count front s positive t given => exact ⟨[], (read_ok given).2.symm⟩
  | case4 count front s positive b chunk t given ih =>
    obtain ⟨gone, rest⟩ := ih
    exact ⟨b :: chunk ++ gone, by rw [← (read_ok given).2, rest, List.append_assoc]⟩

end Source

def Inlet.flows : Inlet → Bool
  | .stream _ => true
  | _ => false

theorem Inlet.flows_iff {inlet : Inlet} : inlet.flows = true ↔ ∃ r, inlet = .stream r := by
  cases inlet <;> simp [flows]

namespace Incoming

/-- Some of the first bytes are gone, and what fed the buffer still does. -/
structure Sheds (s t : Incoming) (gone : List UInt8) : Prop where
  onward : Onward s t gone
  flows_eq : t.inlet.flows = s.inlet.flows

variable {s t u : Incoming} {e : Option Error} {xs ys : List UInt8}

theorem Sheds.refl (valid : s.buffer.Valid) : Sheds s s [] := ⟨.refl valid, rfl⟩

theorem Sheds.trans (first : Sheds s t xs) (second : Sheds t u ys) : Sheds s u (xs ++ ys) :=
  ⟨first.onward.trans second.onward, second.flows_eq.trans first.flows_eq⟩

theorem Sheds.valid (h : Sheds s t xs) : t.buffer.Valid := h.onward.valid

theorem Sheds.suffix (h : Sheds s t xs) : t.ahead <:+ s.ahead := ⟨xs, h.onward.ahead_eq.symm⟩

theorem Sheds.ahead_eq (h : Sheds s t []) : t.ahead = s.ahead := h.onward.ahead_eq.symm

theorem refill_sheds {b : Buffer} (r : Reader) (valid : b.Valid) :
    let u := Outcome.state (refill b r)
    Sheds ⟨b, .stream r⟩ ⟨u.1, .stream u.2⟩ [] := by
  cases run : refill b r with
  | ok count p => exact ⟨refill_onward valid run, rfl⟩
  | error e p =>
    cases read : r.source.read (min b.compact.remaining r.fragment) with
    | mk delivered source =>
      cases delivered with
      | ok chunk =>
        simp only [refill, read] at run
        cases run
      | error fault =>
        simp only [refill, read] at run
        cases run
        have kept := r.source.read_error_rest _ fault (by rw [read])
        rw [read] at kept
        have room : ([] : List UInt8).length ≤ b.capacity - b.remaining := Nat.zero_le _
        have unread := Buffer.unread_topUp valid room
        rw [Buffer.topUp, Buffer.store_nil, List.append_nil] at unread
        have valid' := Buffer.valid_topUp valid room
        rw [Buffer.topUp, Buffer.store_nil] at valid'
        refine ⟨⟨valid', Buffer.order_topUp b [], ?_⟩, rfl⟩
        have kept : source.rest = r.source.rest := kept
        simp only [ahead, Outcome.state_error, unread, kept, List.nil_append]

theorem fillTo_sheds (target : Nat) {b : Buffer} (r : Reader) (valid : b.Valid) :
    let u := Outcome.state (fillTo target b r)
    Sheds ⟨b, .stream r⟩ ⟨u.1, .stream u.2⟩ [] := by
  fun_induction fillTo target b r with
  | case1 b r missing e u failed | case2 b r missing u failed =>
    have once := refill_sheds r valid
    rw [failed] at once
    exact once
  | case3 b r missing n c q filled ih =>
    have once := refill_sheds r valid
    rw [filled] at once
    exact once.trans (ih once.valid)
  | case4 b r held => exact .refl valid

theorem ensureData_sheds (size : Nat) (valid : s.buffer.Valid) :
    Sheds s (Outcome.state (ensureData size s)) [] := by
  obtain ⟨b, inlet⟩ := s
  cases inlet with
  | closed | idle => exact .refl valid
  | stream r =>
    simp only [ensureData]
    split
    · exact .refl valid
    · have filled := fillTo_sheds (min (b.remaining + size) b.capacity) r valid
      split
      · next run =>
        rw [run] at filled
        exact filled
      · next run =>
        rw [run] at filled
        exact filled

theorem fillTo_ok {target : Nat} {b c : Buffer} {r q : Reader}
    (run : fillTo target b r = .ok () (c, q)) : target ≤ c.remaining := by
  fun_induction fillTo target b r with
  | case1 | case2 => cases run
  | case3 b r missing n d p filled ih => exact ih run
  | case4 b r held =>
    cases run
    exact Nat.le_of_not_lt held

theorem ensureData_ok {size : Nat} (flows : s.inlet.flows = true)
    (run : ensureData size s = .ok () t) :
    min (s.buffer.remaining + size) s.buffer.capacity ≤ t.buffer.remaining := by
  obtain ⟨b, inlet⟩ := s
  obtain ⟨r, rfl⟩ := Inlet.flows_iff.1 flows
  simp only [ensureData] at run
  split at run
  · cases run
  · split at run
    · next filled =>
      cases run
      exact fillTo_ok filled
    · cases run

theorem ensureRemaining_sheds (size : Nat) (valid : s.buffer.Valid) :
    Sheds s (Outcome.state (ensureRemaining size s)) [] := by
  simp only [ensureRemaining]
  split
  · exact .refl valid
  · have tried := ensureData_sheds (size - s.buffer.remaining) valid
    split
    · next run =>
      rw [run] at tried
      exact tried
    · next run =>
      rw [run] at tried
      split <;> exact tried

theorem ensureRemaining_ok {size : Nat} (run : ensureRemaining size s = .ok () t) :
    size ≤ t.buffer.remaining := by
  simp only [ensureRemaining] at run
  split at run
  · next held =>
    cases run
    exact held
  · split at run
    · cases run
    · split at run
      · cases run
      · next enough =>
        cases run
        exact Nat.le_of_not_lt enough

theorem readDirect_sheds {count : Nat} {bytes : List UInt8} (valid : s.buffer.Valid)
    (run : readDirect count s = .ok (some bytes) t) : Sheds s t bytes := by
  refine ⟨(readDirect_onward valid run).1, ?_⟩
  obtain ⟨b, inlet⟩ := s
  cases inlet with
  | closed | idle => cases run
  | stream r =>
    simp only [readDirect, Buffer.getBytes_of_le (Nat.min_le_left b.remaining count)] at run
    split at run
    · split at run <;> cases run
      rfl
    · cases run

theorem readDirect_error_sheds {count : Nat} {e : Error} (valid : s.buffer.Valid)
    (run : readDirect count s = .error e t) : ∃ gone, Sheds s t gone := by
  obtain ⟨b, inlet⟩ := s
  cases inlet with
  | closed | idle => cases run
  | stream r =>
    have held : min b.remaining count ≤ b.remaining := Nat.min_le_left _ _
    have size : b.unread.length = b.remaining := Buffer.length_unread valid
    simp only [readDirect, Buffer.getBytes_of_le held] at run
    split at run
    · split at run
      · next fault source stopped =>
        cases run
        obtain ⟨gone, rest⟩ := r.source.readExact_rest (count - min b.remaining count)
          (b.unread.take (min b.remaining count)).toArray
        rw [stopped] at rest
        -- A transfer can only fail once the buffer is empty.
        have short : b.remaining ≤ count := by
          refine Nat.le_of_not_lt fun more => ?_
          rw [Source.readExact, if_pos (by omega)] at stopped
          cases stopped
        refine ⟨b.unread ++ gone, ⟨Buffer.valid_skip valid held, rfl, ?_⟩, rfl⟩
        simp only [ahead, Buffer.unread_skip, Nat.min_eq_left short]
        rw [← size, List.drop_length, List.nil_append, rest, List.append_assoc]
      · cases run
    · cases run

theorem Move.sheds (move : Move s e t) (valid : s.buffer.Valid) : ∃ gone, Sheds s t gone := by
  cases move with
  | take run =>
    refine ⟨_, (getBytes_onward valid run).1, ?_⟩
    simp only [onBuffer] at run
    split at run <;> cases run
    rfl
  | @refill b _ r _ _ run | @fault b _ r _ _ run =>
    have once := refill_sheds r valid
    rw [run] at once
    exact ⟨[], once⟩
  | direct run => exact ⟨_, readDirect_sheds valid run⟩
  | cut run => exact readDirect_error_sheds valid run

/-- A trail leaves a stream readable, some of the first bytes apart. -/
theorem Trail.sheds (trail : Trail s e t) (valid : s.buffer.Valid) : ∃ gone, Sheds s t gone := by
  induction trail with
  | stop => exact ⟨[], .refl valid⟩
  | halt move => exact move.sheds valid
  | next move rest ih =>
    obtain ⟨gone, first⟩ := move.sheds valid
    obtain ⟨more, second⟩ := ih first.valid
    exact ⟨gone ++ more, first.trans second⟩

end Incoming

end ArrayStore
