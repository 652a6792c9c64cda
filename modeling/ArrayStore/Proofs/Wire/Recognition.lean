import ArrayStore.Proofs.Stream.Delivery
import ArrayStore.Proofs.Wire.Grammar
import ArrayStore.Wire.Reading

/-! Reading sizes and strings through a buffer, against the grammar.
A buffer of eight bytes holds every size header, so that what a reader answers
is settled by the bytes ahead alone: the buffer, the fragments and the portions
of the source do not show. Nothing is said of the stream after a failure. -/

namespace ArrayStore.Wire

/-- The errors that report a flaw. An early end is noticed by a refill or by a
read past the buffer; the two differ in their text alone. -/
inductive Reports : Flaw → Error → Prop where
  | refill : Reports .ended (.stream "reading stream" Incoming.ended)
  | bypass : Reports .ended (.stream "reading stream" Source.ended)
  | malformed (problem : Malformation) : Reports (.malformed problem) (.malformed problem)

open Incoming (Flowing)

/-- An outcome is what the grammar says of the bytes ahead. -/
def Follows {α : Type} (capacity : Nat) (order : ByteOrder) (direct : Bool)
    (expected : Except Flaw (α × List UInt8)) : Outcome Incoming α → Prop
  | .ok a t => expected = .ok (a, t.ahead) ∧ Flowing capacity order direct t
  | .error e _ => ∃ flaw, expected = .error flaw ∧ Reports flaw e

variable {capacity : Nat} {order : ByteOrder} {direct : Bool} {s : Incoming}

theorem signed32_eq {n : Nat} (pattern : n < 0x100000000) :
    signed32 n = if n < 0x80000000 then (n : Int) else (n : Int) - 0x100000000 := by
  have two : signed32 n = (BitVec.ofNat 32 n).toInt := rfl
  have exact : (BitVec.ofNat 32 n).toNat = n := by
    rw [BitVec.toNat_ofNat, Nat.mod_eq_of_lt pattern]
  rw [two, BitVec.toInt_eq_toNat_cond, exact]
  by_cases small : n < 0x80000000
  · rw [if_pos small, if_pos (by omega)]
  · rw [if_neg small, if_neg (by omega)]
    rfl

theorem takeBytes_follows {count : Nat} (h : Flowing capacity order direct s)
    (low : count ≤ capacity) :
    (∃ t u, Incoming.ensureRemaining count s = .ok () t ∧
      Incoming.onBuffer (Buffer.getBytes count) t = .ok (s.ahead.take count) u ∧
      parseBytes count s.ahead = .ok (s.ahead.take count, u.ahead) ∧
      Flowing capacity order direct u) ∨
    ∃ e t, Incoming.ensureRemaining count s = .error e t ∧
      parseBytes count s.ahead = .error .ended ∧ Reports .ended e := by
  obtain ⟨enough, short⟩ := h.ensureRemaining low
  by_cases fits : count ≤ s.ahead.length
  · obtain ⟨t, run, flow, same, held⟩ := enough fits
    obtain ⟨u, got, flow', rest, -⟩ := flow.getBytes held
    rw [same] at got rest
    refine .inl ⟨t, u, run, got, ?_, flow'⟩
    rw [parseBytes, if_neg (by omega), rest]
  · obtain ⟨t, run⟩ := short (by omega)
    refine .inr ⟨_, t, run, ?_, .refill⟩
    rw [parseBytes, if_pos (by omega)]

theorem readLongSize_follows (wide : 8 ≤ capacity) (h : Flowing capacity order direct s) :
    Follows capacity order direct (parseLongSize order s.ahead) (readLongSize s) := by
  obtain ⟨t, u, ready, got, whole, flow⟩ | ⟨e, t, failed, short, reports⟩ :=
    takeBytes_follows h (show 4 ≤ capacity by omega)
  · have four : (s.ahead.take 4).length = 4 := by
      rw [parseBytes] at whole
      split at whole
      · cases whole
      · rw [List.length_take]
        omega
    have pattern : order.join (s.ahead.take 4) < 0x100000000 := by
      have bound := order.join_lt (s.ahead.take 4)
      rwa [four] at bound
    have sign := signed32_eq pattern
    simp only [readLongSize, ready, got, parseLongSize, whole, flow.order_eq]
    by_cases small : order.join (s.ahead.take 4) < 0x80000000
    · rw [if_pos small] at sign ⊢
      rw [sign, if_neg (by omega)]
      exact ⟨by rw [Int.toNat_natCast], flow⟩
    · rw [if_neg small] at sign ⊢
      rw [sign, if_pos (by omega)]
      exact ⟨_, rfl, .malformed _⟩
  · simp only [readLongSize, failed, parseLongSize, short]
    exact ⟨_, rfl, reports⟩

theorem readSize_follows (wide : 8 ≤ capacity) (h : Flowing capacity order direct s) :
    Follows capacity order direct (parseSize order s.ahead) (readSize s) := by
  obtain ⟨t, u, ready, got, whole, flow⟩ | ⟨e, t, failed, short, reports⟩ :=
    takeBytes_follows h (show 1 ≤ capacity by omega)
  · simp only [readSize, ready, got]
    cases ahead : s.ahead with
    | nil =>
      rw [ahead] at whole
      cases whole
    | cons lead rest =>
      simp only [ahead, parseBytes, List.length_cons, List.take_succ_cons, List.take_zero,
        List.drop_succ_cons, List.drop_zero] at whole
      rw [if_neg (by omega)] at whole
      have same : rest = u.ahead := congrArg Prod.snd (Except.ok.inj whole)
      simp only [List.take_succ_cons, List.take_zero, List.headD_cons, parseSize, same, lead_tests]
      by_cases small : lead < 0xFE
      · rw [if_pos small, if_pos small]
        exact ⟨rfl, flow⟩
      · rw [if_neg small, if_neg small]
        by_cases null : lead = 0xFF
        · rw [if_pos null, if_pos null]
          exact ⟨rfl, flow⟩
        · rw [if_neg null, if_neg null]
          exact readLongSize_follows wide flow
  · simp only [readSize, failed]
    have none : s.ahead = [] := by
      rw [parseBytes] at short
      split at short
      · exact List.length_eq_zero_iff.1 (by omega)
      · cases short
    rw [none]
    exact ⟨_, rfl, reports⟩

theorem ensureAny_follows {missing : Nat} (h : Flowing capacity order direct s)
    (room : 0 < capacity) (more : 0 < missing) :
    (∃ t, ensureAny missing s = .ok () t ∧ Flowing capacity order direct t ∧
      t.ahead = s.ahead) ∨
    ∃ e t, ensureAny missing s = .error e t ∧ s.ahead.length < missing ∧ Reports .ended e := by
  unfold ensureAny
  by_cases some : s.buffer.hasRemaining = true
  · rw [if_pos some]
    exact .inl ⟨s, rfl, h, rfl⟩
  · rw [Buffer.hasRemaining_iff] at some
    have none : s.buffer.remaining = 0 := by omega
    have none' : ¬s.buffer.hasRemaining = true := by
      rw [Buffer.hasRemaining_iff]
      exact some
    have target : min (s.buffer.remaining + min missing capacity) capacity =
        min missing capacity := by omega
    have asked : 0 < min missing capacity := by omega
    obtain ⟨enough, short⟩ := h.ensureData (min missing capacity) (by omega) asked
    rw [target] at enough short
    rw [if_neg none', h.capacity_eq]
    by_cases fits : min missing capacity ≤ s.ahead.length
    · obtain ⟨t, run, flow, same, held⟩ := enough fits
      have there : 0 < t.buffer.remaining := Nat.lt_of_lt_of_le asked held
      simp only [run]
      rw [if_pos ((Buffer.hasRemaining_iff _).2 there)]
      exact .inl ⟨t, rfl, flow, same⟩
    · have end_near : s.ahead.length < min missing capacity := by omega
      obtain ⟨t, run⟩ := short end_near
      simp only [run]
      exact .inr ⟨_, t, rfl, Nat.lt_of_lt_of_le end_near (Nat.min_le_left _ _), .refill⟩

theorem readBytes_follows (missing : Nat) (front : Array UInt8)
    (h : Flowing capacity order direct s) (room : 0 < capacity) :
    Follows capacity order direct
      ((parseBytes missing s.ahead).map fun (bytes, rest) => (front ++ bytes, rest))
      (readBytes missing front s) := by
  fun_induction readBytes missing front s with
  | case1 front s =>
    refine ⟨?_, h⟩
    simp [parseBytes, Except.map]
  | case2 missing front s more e t failed =>
    obtain ⟨u, ready, -⟩ | ⟨e', u, failed', short, reports⟩ :=
      ensureAny_follows h room (Nat.pos_of_ne_zero more)
    · rw [ready] at failed
      cases failed
    · rw [failed'] at failed
      cases failed
      refine ⟨_, ?_, reports⟩
      rw [parseBytes, if_pos short]
      rfl
  | case3 missing front s more t ready count e u failed =>
    obtain ⟨t', ready', flow, -⟩ | ⟨e', u', failed', -⟩ :=
      ensureAny_follows h room (Nat.pos_of_ne_zero more)
    · rw [ready'] at ready
      cases ready
      obtain ⟨v, got, -⟩ := flow.getBytes (Nat.min_le_right missing _)
      rw [got] at failed
      cases failed
    · rw [failed'] at ready
      cases ready
  | case4 missing front s more t ready count chunk u got ih =>
    obtain ⟨t', ready', flow, same⟩ | ⟨e', u', failed', -⟩ :=
      ensureAny_follows h room (Nat.pos_of_ne_zero more)
    · rw [ready'] at ready
      cases ready
      have small : count ≤ missing := Nat.min_le_left _ _
      have within : count ≤ t.buffer.remaining := Nat.min_le_right _ _
      have held : count ≤ s.ahead.length := by
        rw [← same]
        exact Nat.le_trans within flow.remaining_le_ahead
      obtain ⟨v, got', flow', rest, -⟩ := flow.getBytes within
      clear_value count
      rw [got'] at got
      cases got
      have whole : (parseBytes missing s.ahead).map
            (fun (bytes, rest) => (front ++ bytes, rest)) =
          (parseBytes (missing - count) u.ahead).map
            fun (bytes, rest) => (front ++ t.ahead.take count ++ bytes, rest) := by
        simp only [parseBytes, rest, same, List.length_drop]
        by_cases short : s.ahead.length < missing
        · rw [if_pos short, if_pos (by omega)]
          rfl
        · have parts : s.ahead.take missing =
              s.ahead.take count ++ (s.ahead.drop count).take (missing - count) := by
            rw [← List.take_add, Nat.add_sub_cancel' small]
          rw [if_neg short, if_neg (by omega), parts]
          have whole : count + (missing - count) = missing := Nat.add_sub_cancel' small
          simp only [Except.map, List.drop_drop]
          rw [whole]
          refine congrArg (fun bytes => Except.ok (bytes, _)) (Array.ext' ?_)
          simp
      rw [whole]
      exact ih flow'
    · rw [failed'] at ready
      cases ready

theorem readText_follows (wide : 8 ≤ capacity) (h : Flowing capacity order direct s) :
    Follows capacity order direct (parseText order s.ahead) (readText s) := by
  have size := readSize_follows wide h
  simp only [readText, parseText]
  cases first : readSize s with
  | error e t =>
    rw [first] at size
    obtain ⟨flaw, expected, reports⟩ := size
    simp only [expected]
    exact ⟨flaw, rfl, reports⟩
  | ok count t =>
    rw [first] at size
    obtain ⟨expected, flow⟩ := size
    simp only [expected]
    have content := readBytes_follows count #[] flow (by omega)
    cases body : parseBytes count t.ahead with
    | error flaw =>
      rw [body] at content
      cases second : readBytes count #[] t with
      | error e u =>
        rw [second] at content
        obtain ⟨flaw', same, reports⟩ := content
        cases same
        exact ⟨flaw, rfl, reports⟩
      | ok bytes u =>
        rw [second] at content
        cases content.1
    | ok taken =>
      obtain ⟨chunk, rest⟩ := taken
      rw [body] at content
      cases second : readBytes count #[] t with
      | error e u =>
        rw [second] at content
        obtain ⟨flaw', same, -⟩ := content
        cases same
      | ok bytes u =>
        rw [second] at content
        obtain ⟨same, flow'⟩ := content
        cases same
        have plain : (#[] : Array UInt8) ++ chunk = chunk.toArray :=
          Array.ext' (Array.toList_appendList ..)
        rw [plain]
        cases decoded : Utf8.decode chunk.toArray with
        | error fault =>
          simp only [decoded]
          exact ⟨_, rfl, .malformed _⟩
        | ok text =>
          simp only [decoded]
          exact ⟨rfl, flow'⟩

end ArrayStore.Wire
