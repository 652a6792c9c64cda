import ArrayStore.Proofs.Value.Intake
import ArrayStore.Proofs.Vector.Sharing

/-! Reading arrays, against the grammar.
An array is a size and then an intake. On a supply the outcome is that of the
parser on the bytes ahead, and every other vector shows what it did. -/

namespace ArrayStore.Wire

open Incoming (Flowing)

variable {k : Kind} {a : Allocator} {bytes handles : Nat} {capacity : Nat} {order : ByteOrder}
  {direct : Bool}

/-- What reading an array makes of the bytes ahead: the new vector shows the
elements that the parser reads, or the error reports what the parser does. The
vectors that were there show what they did. -/
def Decodes (capacity : Nat) (order : ByteOrder) (direct : Bool) (a : Allocator)
    (bytes handles : Nat) (expected : Except Flaw (List Scalar × List UInt8)) (store : Store) :
    Outcome (Incoming × Store) Frozen → Prop
  | .ok f (t, kept) =>
    expected = .ok (kept.values f, t.ahead) ∧ Flowing capacity order direct t ∧
      Allocators.Supplies a bytes (f.cell.elim 0 fun _ => 1) handles kept.allocators ∧
      ∀ live, store.Holds live → kept.Holds (f :: live) ∧ store.Keeps kept live
  | .error e _ => ∃ flaw, expected = .error flaw ∧ Reports flaw e

theorem readArray_decodes (wide : 8 ≤ capacity) {s : Incoming} {store : Store}
    (h : Flowing capacity order direct s)
    (supplies : ∀ count rest, parseSize order s.ahead = .ok (count, rest) →
      k.footprint * count ≤ bytes ∧ Allocators.Supplies a bytes 0 handles store.allocators) :
    Decodes capacity order direct a bytes handles (parseArray k order s.ahead) store
      (readArray k a (s, store)) := by
  have size := readSize_follows wide h
  simp only [readArray, parseArray]
  cases first : readSize s with
  | error e t =>
    rw [first] at size
    obtain ⟨flaw, failed, reports⟩ := size
    exact ⟨flaw, by simp only [failed], reports⟩
  | ok count t =>
    rw [first] at size
    obtain ⟨parsed, flow⟩ := size
    obtain ⟨fits, supply⟩ := supplies _ _ parsed
    simp only [parsed]
    have ready : Intake.Ready capacity order direct k a bytes (handles + 1)
        ⟨(store.emptyWritable k a).1, t, (store.emptyWritable k a).2⟩ :=
      ⟨flow, rfl, rfl, rfl, fun _ eq => (by cases eq), supply.retain⟩
    have gathers := Intake.readAll_gathers wide fits ready rfl
    cases ran : Intake.readAll k count
        ⟨(store.emptyWritable k a).1, t, (store.emptyWritable k a).2⟩ with
    | error e u =>
      rw [ran] at gathers
      exact gathers
    | ok _ u =>
      obtain ⟨w, input, kept⟩ := u
      rw [ran] at gathers
      obtain ⟨⟨flow', growing⟩, ⟨vs, elements, values⟩, cells, made⟩ := gathers
      have shown : (kept.freeze w).2.values (kept.freeze w).1 = vs := by
        rw [Store.values_freeze]
        exact values
      refine ⟨?_, flow', ?_, fun live holds => ?_⟩
      · simp only [shown]
        exact elements
      · have frozen : (kept.freeze w).2.allocators = kept.allocators.letGo w.allocator ∧
            (kept.freeze w).1.cell.elim 0 (fun _ => 1) = w.blocks := by
          cases stored : w.storage <;>
            simp [Store.freeze, Store.letGo, Writable.blocks, stored]
        have source : w.allocator = a := growing.source
        simp only [frozen, source]
        exact growing.supplies.letGo
      · obtain ⟨holds', keeps⟩ := holds.congr (t := kept) cells made
        obtain ⟨holds'', keeps'⟩ := holds'.freeze growing.sound
        exact ⟨holds'', keeps.trans keeps'⟩

/-- Reading through a buffer, whatever it holds and however the source cuts its
bytes, has the outcome of the parser on the unread bytes followed by those to come. -/
theorem readArray_parses (k : Kind) (a : Allocator) (b : Buffer) (r : Reader) (store : Store)
    (valid : b.Valid) (wide : 8 ≤ b.capacity) (steady : r.source.Steady) (positive : 0 < r.fragment)
    (supplies : ∀ count rest, parseSize b.order (b.unread ++ r.source.rest) = .ok (count, rest) →
      Allocators.Supplies a (k.footprint * count) 0 0 store.allocators) :
    match parseArray k b.order (b.unread ++ r.source.rest) with
    | .ok (vs, rest) =>
      ∃ f c q kept, readArray k a (⟨b, .stream r⟩, store) = .ok f (⟨c, .stream q⟩, kept) ∧
        kept.values f = vs ∧ c.unread ++ q.source.rest = rest
    | .error flaw =>
      ∃ e t, readArray k a (⟨b, .stream r⟩, store) = .error e t ∧ Reports flaw e := by
  have flowing : Flowing b.capacity b.order r.direct ⟨b, .stream r⟩ :=
    ⟨valid, rfl, rfl, r, rfl, steady, positive, rfl⟩
  have decodes : ∃ bytes, Decodes b.capacity b.order r.direct a bytes 0
      (parseArray k b.order (b.unread ++ r.source.rest)) store
      (readArray k a (⟨b, .stream r⟩, store)) := by
    cases announced : parseSize b.order (b.unread ++ r.source.rest) with
    | error flaw =>
      refine ⟨0, readArray_decodes wide flowing fun count rest parsed => ?_⟩
      cases announced.symm.trans parsed
    | ok size =>
      refine ⟨k.footprint * size.1, readArray_decodes wide flowing fun count rest parsed => ?_⟩
      cases announced.symm.trans parsed
      exact ⟨Nat.le_refl _, supplies _ _ announced⟩
  obtain ⟨bytes, decodes⟩ := decodes
  cases run : readArray k a (⟨b, .stream r⟩, store) with
  | ok f u =>
    rw [run] at decodes
    obtain ⟨⟨c, inlet⟩, kept⟩ := u
    obtain ⟨parsed, flow, -⟩ := decodes
    obtain ⟨q, rfl, -⟩ := flow.inlet
    rw [parsed]
    exact ⟨f, c, q, kept, rfl, rfl, rfl⟩
  | error e u =>
    rw [run] at decodes
    obtain ⟨flaw, parsed, reports⟩ := decodes
    rw [parsed]
    exact ⟨e, u, rfl, reports⟩

/-- Two shorts and a byte behind them, in portions of three bytes after an
interrupted read, through a buffer that is empty. -/
theorem readArray_parses_shorts :
    ∃ f c q kept, readArray .short .shared
        (⟨(Buffer.empty 8 .big).flip, .stream { source :=
          { rest := [2, 0, 1, 0xFF, 0xFE, 9], portion := fun _ => some 3, interrupts := [0] } }⟩,
          {}) = .ok f (⟨c, .stream q⟩, kept) ∧
      kept.values f = [.short 1, .short (-2)] ∧ c.unread ++ q.source.rest = [9] := by
  have steady : Source.Steady
      { rest := [2, 0, 1, 0xFF, 0xFE, 9], portion := fun _ => some 3, interrupts := [0] } :=
    ⟨rfl, fun _ n eq => by cases eq; decide⟩
  refine readArray_parses .short .shared (Buffer.empty 8 .big).flip { source :=
    { rest := [2, 0, 1, 0xFF, 0xFE, 9], portion := fun _ => some 3, interrupts := [0] } } {}
    (by decide) (by decide) steady (by decide) fun count rest parsed => ?_
  have two : count = 2 := by
    cases parsed
    rfl
  exact Allocators.machine_supplies (by rw [two]; decide) rfl

end ArrayStore.Wire
