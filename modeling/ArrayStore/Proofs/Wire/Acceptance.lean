import ArrayStore.Proofs.Stream.Progress
import ArrayStore.Proofs.Wire.Recognition

/-! Sizes and strings that are accepted, against the grammar.
Through any buffer, however small, and from any source, what a reader accepts is
what the grammar says of the bytes ahead. When it does not accept, nothing is
said: a buffer may be too small and a source may fail. -/

namespace ArrayStore.Wire

open Incoming (Onward)

/-- What is accepted is what is expected, and the stream can be read on. -/
def Accepts {α : Type} (expected : Except Flaw (α × List UInt8)) (s : Incoming) :
    Outcome Incoming α → Prop
  | .ok a t => expected = .ok (a, t.ahead) ∧ t.buffer.Valid ∧ t.buffer.order = s.buffer.order
  | .error _ _ => True

variable {s t : Incoming}

theorem takeBytes_onward {count : Nat} {bytes : List UInt8} {u : Incoming} (valid : s.buffer.Valid)
    (ready : Incoming.ensureRemaining count s = .ok () t)
    (got : Incoming.onBuffer (Buffer.getBytes count) t = .ok bytes u) :
    Onward s u bytes ∧ parseBytes count s.ahead = .ok (bytes, u.ahead) := by
  have first := Incoming.ensureRemaining_onward valid ready
  obtain ⟨second, size⟩ := Incoming.getBytes_onward first.valid got
  have both := first.trans second
  exact ⟨both, by rw [both.ahead_eq, List.nil_append, parseBytes_append _ size]⟩

theorem readLongSize_accepts (valid : s.buffer.Valid) :
    Accepts (parseLongSize s.buffer.order s.ahead) s (readLongSize s) := by
  unfold readLongSize
  cases ready : Incoming.ensureRemaining 4 s with
  | error e t => trivial
  | ok _ t =>
    simp only
    cases got : Incoming.onBuffer (Buffer.getBytes 4) t with
    | error e u => trivial
    | ok bytes u =>
      obtain ⟨onward, parsed⟩ := takeBytes_onward valid ready got
      have four : bytes.length = 4 :=
        (Incoming.getBytes_onward (Incoming.ensureRemaining_onward valid ready).valid got).2
      have pattern : s.buffer.order.join bytes < 0x100000000 := by
        have bound := s.buffer.order.join_lt bytes
        rwa [four] at bound
      have sign := signed32_eq pattern
      simp only [onward.order_eq]
      by_cases small : s.buffer.order.join bytes < 0x80000000
      · rw [if_pos small] at sign
        rw [sign, if_neg (by omega)]
        refine ⟨?_, onward.valid, onward.order_eq⟩
        simp only [parseLongSize, parsed, if_pos small, Int.toNat_natCast]
      · rw [if_neg small] at sign
        rw [sign, if_pos (by omega)]
        trivial

theorem readSize_accepts (valid : s.buffer.Valid) :
    Accepts (parseSize s.buffer.order s.ahead) s (readSize s) := by
  unfold readSize
  cases ready : Incoming.ensureRemaining 1 s with
  | error e t => trivial
  | ok _ t =>
    simp only
    cases got : Incoming.onBuffer (Buffer.getBytes 1) t with
    | error e u => trivial
    | ok bytes u =>
      have onward := (takeBytes_onward valid ready got).1
      have one : bytes.length = 1 :=
        (Incoming.getBytes_onward (Incoming.ensureRemaining_onward valid ready).valid got).2
      obtain ⟨lead, single⟩ := List.length_eq_one_iff.1 one
      have head : bytes.headD 0 = lead := by rw [single, List.headD_cons]
      have ahead : s.ahead = lead :: u.ahead := by
        rw [onward.ahead_eq, single, List.singleton_append]
      simp only [ahead, parseSize, head, lead_tests]
      by_cases small : lead < 0xFE
      · rw [if_pos small, if_pos small]
        exact ⟨rfl, onward.valid, onward.order_eq⟩
      · rw [if_neg small, if_neg small]
        by_cases null : lead = 0xFF
        · rw [if_pos null, if_pos null]
          exact ⟨rfl, onward.valid, onward.order_eq⟩
        · rw [if_neg null, if_neg null]
          have long := readLongSize_accepts onward.valid
          rw [onward.order_eq] at long
          cases run : readLongSize u with
          | error e v => trivial
          | ok size v =>
            rw [run] at long
            exact ⟨long.1, long.2.1, long.2.2.trans onward.order_eq⟩

theorem ensureAny_onward {missing : Nat} (valid : s.buffer.Valid)
    (run : ensureAny missing s = .ok () t) : Onward s t [] := by
  simp only [ensureAny] at run
  split at run
  · cases run
    exact .refl valid
  · split at run
    · cases run
    · next ready =>
      split at run
      · cases run
        exact Incoming.ensureData_onward valid ready
      · cases run

theorem readBytes_onward {missing : Nat} {front all : Array UInt8} (valid : s.buffer.Valid)
    (run : readBytes missing front s = .ok all t) :
    ∃ bytes : List UInt8, all = front ++ bytes ∧ bytes.length = missing ∧ Onward s t bytes := by
  fun_induction readBytes missing front s with
  | case1 front s =>
    cases run
    exact ⟨[], by simp, rfl, .refl valid⟩
  | case2 | case3 => cases run
  | case4 missing front s more u ready count chunk v got ih =>
    have first := ensureAny_onward valid ready
    obtain ⟨second, size⟩ := Incoming.getBytes_onward first.valid got
    obtain ⟨bytes, same, length, third⟩ := ih second.valid run
    have small : count ≤ missing := Nat.min_le_left _ _
    clear_value count
    refine ⟨chunk ++ bytes, ?_, ?_, (first.trans second).trans third⟩
    · rw [same]
      exact Array.ext' (by simp)
    · rw [List.length_append, size, length]
      omega

theorem readText_accepts (valid : s.buffer.Valid) :
    Accepts (parseText s.buffer.order s.ahead) s (readText s) := by
  have sized := readSize_accepts valid
  unfold readText
  cases first : readSize s with
  | error e t => trivial
  | ok size t =>
    rw [first] at sized
    obtain ⟨parsed, valid', order⟩ := sized
    simp only
    cases second : readBytes size #[] t with
    | error e u => trivial
    | ok all u =>
      obtain ⟨bytes, same, length, onward⟩ := readBytes_onward valid' second
      have plain : all = bytes.toArray := same.trans (Array.ext' (Array.toList_appendList ..))
      simp only
      cases decoded : Utf8.decode all with
      | error fault => trivial
      | ok text =>
        refine ⟨?_, onward.valid, onward.order_eq.trans order⟩
        simp only [parseText, parsed, onward.ahead_eq, parseBytes_append _ length, ← plain, decoded]

end ArrayStore.Wire
