import ArrayStore.Proofs.Stream.Exhaustion
import ArrayStore.Proofs.Value.Operations
import ArrayStore.Proofs.Value.RoundTrip

/-! A decoder never asks for more than the payload.
Sizes, strings and arrays are read frugally: where they are read at all, every
read of the source was begun while it had bytes left. Main statement: an array
value whose encoding is all that a source delivers, some of it buffered before
or not, is read, whatever happens to a read behind the last byte; and no such
read is tried. -/

namespace ArrayStore

open Incoming (Frugal Drawn)

namespace Wire

theorem readLongSize_frugal : Frugal readLongSize := by
  intro fault s h size u run
  cases ready : Incoming.ensureRemaining 4 s with
  | error e t =>
    simp only [readLongSize, ready] at run
    cases run
  | ok _ t =>
    obtain ⟨first, same⟩ := Incoming.ensureRemaining_frugal 4 fault s h _ t ready
    cases got : Incoming.onBuffer (Buffer.getBytes 4) t with
    | error e v =>
      simp only [readLongSize, ready, got] at run
      cases run
    | ok bytes v =>
      obtain ⟨second, same'⟩ := Incoming.onBuffer_frugal _ fault t first.before _ v got
      simp only [readLongSize, ready, got] at run
      split at run
      · cases run
      · next small =>
        cases run
        refine ⟨first.trans second, ?_⟩
        simp only [readLongSize, same, same', Incoming.buffer_failing, if_neg small]

theorem readSize_frugal : Frugal readSize := by
  intro fault s h size u run
  cases ready : Incoming.ensureRemaining 1 s with
  | error e t =>
    simp only [readSize, ready] at run
    cases run
  | ok _ t =>
    obtain ⟨first, same⟩ := Incoming.ensureRemaining_frugal 1 fault s h _ t ready
    cases got : Incoming.onBuffer (Buffer.getBytes 1) t with
    | error e v =>
      simp only [readSize, ready, got] at run
      cases run
    | ok bytes v =>
      obtain ⟨second, same'⟩ := Incoming.onBuffer_frugal _ fault t first.before _ v got
      simp only [readSize, ready, got] at run
      simp only [readSize, same, same']
      split at run
      · next null =>
        cases run
        exact ⟨first.trans second, by rw [if_pos null]⟩
      · next plain =>
        rw [if_neg plain]
        split at run
        · next escape =>
          obtain ⟨third, same''⟩ := readLongSize_frugal fault v second.before size u run
          exact ⟨(first.trans second).trans third, by rw [if_pos escape, same'']⟩
        · next short =>
          cases run
          exact ⟨first.trans second, by rw [if_neg short]⟩

theorem ensureAny_frugal (missing : Nat) : Frugal (ensureAny missing) := by
  intro fault s h _ u run
  by_cases held : s.buffer.hasRemaining = true
  · simp only [ensureAny, if_pos held] at run
    cases run
    refine ⟨.refl h, ?_⟩
    simp only [ensureAny, Incoming.buffer_failing, if_pos held]
  · cases ready : Incoming.ensureData (min missing s.buffer.capacity) s with
    | error e t =>
      simp only [ensureAny, if_neg held, ready] at run
      cases run
    | ok _ t =>
      obtain ⟨drawn, same⟩ := Incoming.ensureData_frugal _ fault s h _ t ready
      simp only [ensureAny, if_neg held, ready] at run
      split at run
      · next there =>
        cases run
        refine ⟨drawn, ?_⟩
        simp only [ensureAny, Incoming.buffer_failing, if_neg held, same, if_pos there]
      · cases run

theorem readBytes_frugal (missing : Nat) (front : Array UInt8) :
    Frugal (readBytes missing front) := by
  intro fault s h all u run
  fun_induction readBytes missing front s with
  | case1 front s =>
    cases run
    exact ⟨.refl h, by rw [readBytes, dif_pos rfl]⟩
  | case2 | case3 => cases run
  | case4 missing front s more t ready count chunk v got ih =>
    obtain ⟨first, same⟩ := ensureAny_frugal missing fault s h _ t ready
    obtain ⟨second, same'⟩ := Incoming.onBuffer_frugal _ fault t first.before _ v got
    obtain ⟨third, same''⟩ := ih second.before run
    refine ⟨(first.trans second).trans third, ?_⟩
    rw [readBytes, dif_neg more]
    split
    · next again =>
      rw [same] at again
      cases again
    · next again =>
      rw [same] at again
      cases again
      simp only [Incoming.buffer_failing]
      simp only [count] at same'
      simp only [same']
      exact same''

theorem readText_frugal : Frugal readText := by
  intro fault s h text u run
  cases sized : readSize s with
  | error e t =>
    simp only [readText, sized] at run
    cases run
  | ok size t =>
    obtain ⟨first, same⟩ := readSize_frugal fault s h _ t sized
    cases got : readBytes size #[] t with
    | error e v =>
      simp only [readText, sized, got] at run
      cases run
    | ok bytes v =>
      obtain ⟨second, same'⟩ := readBytes_frugal size #[] fault t first.before _ v got
      cases decoded : Utf8.decode bytes with
      | error e =>
        simp only [readText, sized, got, decoded] at run
        cases run
      | ok text' =>
        simp only [readText, sized, got, decoded] at run
        cases run
        refine ⟨first.trans second, ?_⟩
        simp only [readText, same, same', decoded]

end Wire

namespace Intake

def failing (fault : Nat × StreamFault) (s : Intake) : Intake :=
  { s with input := s.input.failing fault }

def Frugal (op : Change Intake Unit) : Prop :=
  ∀ fault s, s.input.Before fault → ∀ t, op s = .ok () t →
    Drawn fault s.input t.input ∧ op (s.failing fault) = .ok () (t.failing fault)

theorem growTo_frugal (length count : Nat) : Frugal (growTo length count) := by
  intro fault s h t run
  obtain ⟨next, input, store⟩ := s
  simp only [growTo] at run
  split at run
  · next grown =>
    cases run
    refine ⟨.refl h, ?_⟩
    rw [failing, growTo, grown]
    rfl
  · cases run

theorem readElements_frugal (k : Kind) {width : Nat} (width_pos : 0 < width)
    (count stop done : Nat) : Frugal (readElements k width width_pos count stop done) := by
  intro fault s h u run
  fun_induction readElements k width width_pos count stop done s with
  | case1 done next input store all =>
    cases run
    exact ⟨.refl h, by rw [failing, readElements, if_pos all]⟩
  | case2 | case4 | case5 => cases run
  | case3 done next input store more held less t ready grown ih =>
    obtain ⟨first, same⟩ := Incoming.ensureData_frugal _ fault input h _ t ready
    obtain ⟨second, same'⟩ := ih first.before run
    refine ⟨first.trans second, ?_⟩
    simp only [held, dite_eq_ite] at less same grown
    rw [failing, readElements, if_neg more]
    simp only [Incoming.buffer_failing, dif_pos less, same, if_pos grown]
    exact same'
  | case6 done next input store more held whole part values t got ih =>
    obtain ⟨first, same⟩ := Incoming.onBuffer_frugal _ fault input h _ t got
    obtain ⟨second, same'⟩ := ih first.before run
    refine ⟨first.trans second, ?_⟩
    simp only [part, held] at whole same same' ⊢
    rw [failing, readElements, if_neg more]
    simp only [Incoming.buffer_failing, dif_neg whole, same]
    exact same'

theorem readChunk?_frugal (k : Kind) (width size : Nat) :
    Incoming.Frugal (readChunk? k width size) := by
  intro fault s h bytes t run
  by_cases bulk : (k.anyPattern && !s.buffer.reverses k) = true
  · simp only [readChunk?, if_pos bulk] at run
    obtain ⟨drawn, same⟩ := Incoming.readDirect_frugal _ fault s h _ t run
    refine ⟨drawn, ?_⟩
    simp only [readChunk?, Incoming.buffer_failing, if_pos bulk, same]
  · simp only [readChunk?, if_neg bulk] at run
    cases run
    refine ⟨.refl h, ?_⟩
    simp only [readChunk?, Incoming.buffer_failing, if_neg bulk]

theorem readFixed_frugal (k : Kind) {width : Nat} (width_pos : 0 < width) (count done : Nat) :
    Frugal (readFixed k width width_pos count done) := by
  intro fault s h u run
  fun_induction readFixed k width width_pos count done s with
  | case1 done s all =>
    cases run
    exact ⟨.refl h, by rw [readFixed, if_pos all]⟩
  | case2 | case3 | case5 => cases run
  | case4 done s more stop next input store ran bytes t bulk values ih =>
    obtain ⟨first, same⟩ := growTo_frugal stop count fault s h _ ran
    obtain ⟨second, same'⟩ := readChunk?_frugal k width _ fault input first.before _ t bulk
    obtain ⟨third, same''⟩ := ih second.before run
    refine ⟨(first.trans second).trans third, ?_⟩
    rw [readFixed, if_neg more]
    simp only [failing, stop] at same same' same'' ⊢
    simp only [same, same']
    exact same''
  | case6 done s more stop next input store ran t declined v elements ih =>
    obtain ⟨first, same⟩ := growTo_frugal stop count fault s h _ ran
    obtain ⟨second, same'⟩ := readChunk?_frugal k width _ fault input first.before _ t declined
    obtain ⟨third, same''⟩ := readElements_frugal k width_pos count stop done fault
      ⟨next, t, store⟩ second.before v elements
    obtain ⟨fourth, same'''⟩ := ih third.before run
    refine ⟨((first.trans second).trans third).trans fourth, ?_⟩
    rw [readFixed, if_neg more]
    simp only [failing, stop] at same same' same'' same''' ⊢
    simp only [same, same', same'']
    exact same'''

theorem readTexts_frugal (count missing : Nat) : Frugal (readTexts count missing) := by
  induction missing with
  | zero =>
    intro fault s h t run
    cases run
    exact ⟨.refl h, rfl⟩
  | succ missing ih =>
    intro fault s h u run
    obtain ⟨next, input, store⟩ := s
    cases read : Wire.readText input with
    | error e t =>
      simp only [readTexts, read] at run
      cases run
    | ok text t =>
      obtain ⟨first, same⟩ := Wire.readText_frugal fault input h _ t read
      cases ran : growTo (count - (missing + 1) + 1) count ⟨next, t, store⟩ with
      | error e v =>
        simp only [readTexts, read, ran] at run
        cases run
      | ok _ v =>
        obtain ⟨second, same'⟩ := growTo_frugal _ count fault ⟨next, t, store⟩ first.before v ran
        obtain ⟨w, feed, kept⟩ := v
        simp only [readTexts, read, ran] at run
        obtain ⟨third, same''⟩ := ih fault
          ⟨w.store (count - (missing + 1)) [.text text], feed, kept⟩ second.before u run
        refine ⟨(first.trans second).trans third, ?_⟩
        simp only [failing] at same' same'' ⊢
        simp only [readTexts, same, same']
        exact same''

theorem readAll_frugal (k : Kind) (count : Nat) : Frugal (readAll k count) := by
  unfold Frugal readAll
  split
  · exact readTexts_frugal count count
  · exact readFixed_frugal k _ count 0

end Intake

/-- An array that is read before a source without a fault is read just so before one that faults
behind its last byte, and no read is begun there. -/
theorem Wire.readArray_frugal {k : Kind} {a : Allocator} {fault : Nat × StreamFault}
    {s t : Incoming} {store kept : Store} {f : Frozen} (h : s.Before fault)
    (run : readArray k a (s, store) = .ok f (t, kept)) :
    Drawn fault s t ∧ readArray k a (s.failing fault, store) = .ok f (t.failing fault, kept) := by
  cases sized : readSize s with
  | error e u =>
    simp only [readArray, sized] at run
    cases run
  | ok count u =>
    obtain ⟨first, same⟩ := readSize_frugal fault s h _ u sized
    cases ran : Intake.readAll k count
        ⟨(store.emptyWritable k a).1, u, (store.emptyWritable k a).2⟩ with
    | error e v =>
      simp only [readArray, sized, ran] at run
      cases run
    | ok _ v =>
      obtain ⟨second, same'⟩ := Intake.readAll_frugal k count fault _ first.before v ran
      simp only [readArray, sized, ran] at run
      cases run
      refine ⟨first.trans second, ?_⟩
      simp only [Intake.failing] at same'
      simp only [readArray, same, same']

namespace Wire

variable {p : Payload} {a : Allocator} {b : Buffer} {r : Reader} {store : Store}

theorem readArray_steady (wide : 8 ≤ b.capacity) (valid : b.Valid) (positive : 0 < r.fragment)
    (supplies : Allocators.Supplies a (p.kind.footprint * p.values.length) 0 0 store.allocators)
    (whole : b.unread ++ r.source.rest = encodeArray b.order p.values) (steady : r.source.Steady) :
    ∃ f c q kept, readArray p.kind a (⟨b, .stream r⟩, store) = .ok f (⟨c, .stream q⟩, kept) ∧
      c.unread = [] ∧ q.source.rest = [] := by
  have flowing : Incoming.Flowing b.capacity b.order r.direct ⟨b, .stream r⟩ :=
    ⟨valid, rfl, rfl, r, rfl, steady, positive, rfl⟩
  have ahead : Incoming.ahead ⟨b, .stream r⟩ = encodeArray b.order p.values := whole
  have room (count : Nat) (rest : List UInt8)
      (announced : parseSize b.order (Incoming.ahead ⟨b, .stream r⟩) = .ok (count, rest)) :
      p.kind.footprint * count ≤ p.kind.footprint * p.values.length ∧
        Allocators.Supplies a (p.kind.footprint * p.values.length) 0 0 store.allocators := by
    rw [ahead, encodeArray, parseSize_encodeSize p.countable] at announced
    cases announced
    exact ⟨Nat.le_refl _, supplies⟩
  have decodes := readArray_decodes wide flowing room
  have parsed := parseArray_encodeArray p b.order []
  rw [List.append_nil] at parsed
  rw [ahead, parsed] at decodes
  cases run : readArray p.kind a (⟨b, .stream r⟩, store) with
  | error e u =>
    rw [run] at decodes
    obtain ⟨flaw, impossible, -⟩ := decodes
    cases impossible
  | ok f u =>
    obtain ⟨⟨c, inlet⟩, kept⟩ := u
    rw [run] at decodes
    obtain ⟨taken, flow, -⟩ := decodes
    obtain ⟨q, rfl, -⟩ := flow.inlet
    have nothing : c.unread ++ q.source.rest = [] :=
      (congrArg Prod.snd (Except.ok.inj taken)).symm
    obtain ⟨unread, rest⟩ := List.append_eq_nil_iff.1 nothing
    exact ⟨f, c, q, kept, rfl, unread, rest⟩

/-- The encoding of an array is read from just its bytes, buffered or to come, with a fault or the
end behind them, and each read has delivered some of them. -/
theorem readArray_exhausts (wide : 8 ≤ b.capacity) (valid : b.Valid) (positive : 0 < r.fragment)
    (supplies : Allocators.Supplies a (p.kind.footprint * p.values.length) 0 0 store.allocators)
    (whole : b.unread ++ r.source.rest = encodeArray b.order p.values)
    (portions : ∀ i n, r.source.portion i = some n → 0 < n)
    (behind : ∀ fault, r.source.failure = some fault →
      r.source.position + r.source.rest.length ≤ fault.1) :
    ∃ f c q kept, readArray p.kind a (⟨b, .stream r⟩, store) = .ok f (⟨c, .stream q⟩, kept) ∧
      c.unread = [] ∧ q.source.rest = [] ∧ r.source.Draws q.source := by
  obtain ⟨⟨rest, position, reads, portion, interrupts, failure⟩, fragment, direct, bytesRead,
    refills⟩ := r
  let quiet : Reader :=
    ⟨⟨rest, position, reads, portion, interrupts, none⟩, fragment, direct, bytesRead, refills⟩
  obtain ⟨f, c, q, kept, run, unread, left⟩ := readArray_steady (r := quiet) wide valid positive
    supplies whole ⟨rfl, portions⟩
  have before : ∀ fault : Nat × StreamFault, position + rest.length ≤ fault.1 →
      Incoming.Before fault ⟨b, .stream quiet⟩ := fun fault within => ⟨quiet, rfl, rfl, within⟩
  cases failure with
  | none =>
    have atEnd := before (position + rest.length, ⟨.other, ""⟩) (Nat.le_refl _)
    exact ⟨f, c, q, kept, run, unread, left, (readArray_frugal atEnd run).1.source⟩
  | some fault =>
    have early := before fault (behind fault rfl)
    obtain ⟨drawn, again⟩ := readArray_frugal early run
    have draws := drawn.source.failing ⟨rfl, behind fault rfl⟩
    exact ⟨f, c, q.failing fault, kept, again, unread, left, draws⟩

end Wire

namespace FieldValue

/-- An array whose encoding is just what the buffer holds and the source delivers is read, be the
end of the data behind it or a fault: all that was there is used up, and each read has delivered
some of it, so that none was tried when everything was there. -/
theorem deserialize_exhausts {v : FieldValue} {w : World} {l : List Holding} (p : Wire.Payload)
    (b : Buffer) (r : Reader) (owns : w.store.Owns (v.holdings ++ l))
    (kind : v.value.kind = v.kind) (same : v.kind = p.kind) (mutable : v.isImmutable w = false)
    (supplies : Allocators.Supplies v.allocator (p.kind.footprint * p.values.length) 0 0
      w.store.allocators)
    (valid : b.Valid) (wide : 8 ≤ b.capacity) (positive : 0 < r.fragment)
    (portions : ∀ i n, r.source.portion i = some n → 0 < n)
    (whole : b.unread ++ r.source.rest = Wire.encodeArray b.order p.values)
    (behind : ∀ fault, r.source.failure = some fault →
      r.source.position + r.source.rest.length ≤ fault.1) :
    ∃ v' w' c q, deserialize (v, w, ⟨b, .stream r⟩) = .ok () (v', w', ⟨c, .stream q⟩) ∧
      v'.values w' = p.values ∧ c.unread = [] ∧ q.source.rest = [] ∧
      r.source.Draws q.source := by
  obtain ⟨f, c, q, kept, run, unread, rest, draws⟩ :=
    Wire.readArray_exhausts wide valid positive supplies whole portions behind
  have spec := deserialize_spec owns kind ⟨b, .stream r⟩
  obtain ⟨store, flags, trackers, tracked⟩ := w
  rw [← same] at run
  simp only [deserialize, mutable, Bool.false_eq_true, if_false, run] at spec ⊢
  obtain ⟨shown, renewed, parsed⟩ := spec
  have ahead : Incoming.ahead ⟨b, .stream r⟩ = Wire.encodeArray b.order p.values ++ [] :=
    whole.trans (List.append_nil _).symm
  have taken := parsed valid
  rw [ahead, same, Wire.parseArray_encodeArray] at taken
  have shown_eq : shown = p.values := (congrArg Prod.fst (Except.ok.inj taken)).symm
  exact ⟨_, _, c, q, rfl, renewed.values_eq.trans shown_eq, unread, rest, draws⟩

/-- Two shorts, of which the size and the first byte are buffered and the others come one by one,
from a source that fails behind the last one. -/
theorem deserialize_exhausts_failing :
    let (v, w) := create ⟨"x", .short⟩ .shared {}
    let b : Buffer := ⟨#[2, 0, 0, 0, 0, 0, 0, 0], 0, 2, .big⟩
    let r : Reader :=
      { source :=
          { rest := [1, 0xFF, 0xFE]
            portion := fun _ => some 1
            failure := some (3, ⟨.other, "hung up"⟩) } }
    ∃ v' w' c q, deserialize (v, w, ⟨b, .stream r⟩) = .ok () (v', w', ⟨c, .stream q⟩) ∧
      v'.values w' = [.short 1, .short (-2)] ∧ c.unread = [] ∧ q.source.rest = [] ∧
      r.source.Draws q.source := by
  let p : Wire.Payload :=
    ⟨.short, [.short 1, .short (-2)], by decide, by decide, by simp [Wire.TextsFit]⟩
  have owns := create_owns (w := {}) (Store.owns_nil .machine) ⟨"x", .short⟩ (a := .shared) trivial
  exact deserialize_exhausts p _ _ owns rfl rfl rfl
    (Allocators.machine_supplies (by decide) rfl) (by decide) (by decide) (by decide)
    (fun _ n eq => by cases eq; decide) (by decide) fun _ eq => by cases eq; decide

end FieldValue

end ArrayStore
