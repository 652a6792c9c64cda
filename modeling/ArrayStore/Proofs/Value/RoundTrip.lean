import ArrayStore.Proofs.Value.Decoding

/-! Whole streams of arrays, written and read back.
One buffer and one stream carry any number of arrays of any kinds. Main
statement: what was written and finished is read back as the same arrays, and
nothing is left over, whatever the buffers and the portions of the stream. -/

namespace ArrayStore.Wire

open Incoming (Flowing)
open Outgoing

def writeArrays : List Payload → Change Outgoing Unit
  | [] => fun s => .ok () s
  | p :: rest => fun s =>
    match writeArray p.kind p.values s with
    | .error e s => .error e s
    | .ok () s => writeArrays rest s

/-- Write arrays one after another and finish the stream. -/
def writeStream (payloads : List Payload) : Change Outgoing Unit := fun s =>
  match writeArrays payloads s with
  | .error e s => .error e s
  | .ok () s => finish s

def readArrays (a : Allocator) : List Kind → Change (Incoming × Store) (List Frozen)
  | [] => fun s => .ok [] s
  | k :: kinds => fun s =>
    match readArray k a s with
    | .error e s => .error e s
    | .ok f s =>
      match readArrays a kinds s with
      | .error e s => .error e s
      | .ok fs s => .ok (f :: fs) s

def encodeStream (order : ByteOrder) (payloads : List Payload) : List UInt8 :=
  payloads.flatMap fun p => encodeArray order p.values

variable {capacity : Nat} {order : ByteOrder} {direct : Bool} {fault : Option StreamFault}

theorem Payload.fitsCapacity_of_wide (p : Payload) (wide : 8 ≤ capacity) :
    p.FitsCapacity order direct capacity := by
  refine ⟨fun size _ => ?_, fun _ _ _ => ?_⟩
  · split <;> omega
  · exact Nat.le_trans p.kind.width_le_eight wide

theorem writeArrays_emits (payloads : List Payload) :
    Emits capacity order direct fault (writeArrays payloads)
      (∀ p ∈ payloads, p.FitsCapacity order direct capacity) (encodeStream order payloads)
      fun _ => True := by
  induction payloads with
  | nil =>
    refine ⟨fun s h _ => ⟨s, rfl, h, (List.append_nil _).symm, trivial⟩, fun s _ impossible => ?_⟩
    exact absurd (fun p member => absurd member List.not_mem_nil) impossible
  | cons p payloads ih =>
    refine (p.emits.seq (fun _ => rfl) ih).congr ?_
    simp only [List.mem_cons, forall_eq_or_imp]

theorem finish_delivers {s : Outgoing} (h : Streaming capacity order direct none s) :
    ∃ t, finish s = .ok () t ∧ t.delivered = s.emitted := by
  obtain ⟨t, run, ready, emitted, -, start⟩ := flush_emits.success s h trivial
  obtain ⟨w, outlet, -, -, quiet⟩ := ready.outlet
  refine ⟨t, by simp only [finish, run, outlet, quiet], ?_⟩
  have nothing : t.buffer.written = [] := by
    rw [Buffer.written_eq, start, List.take_zero]
  rw [← List.append_nil t.delivered, ← nothing]
  exact emitted.trans (List.append_nil _)

theorem writeStream_delivers (payloads : List Payload) (wide : 8 ≤ capacity) {s : Outgoing}
    (h : Streaming capacity order direct none s) :
    ∃ t, writeStream payloads s = .ok () t ∧
      t.delivered = s.emitted ++ encodeStream order payloads := by
  obtain ⟨t, run, ready, emitted, -⟩ :=
    (writeArrays_emits payloads).success s h fun p _ => p.fitsCapacity_of_wide wide
  obtain ⟨u, finished, delivered⟩ := finish_delivers ready
  exact ⟨u, by simp only [writeStream, run, finished], delivered.trans emitted⟩

theorem readArrays_decodes {bytes : Nat} (payloads : List Payload) (rest : List UInt8)
    (wide : 8 ≤ capacity)
    (low : ∀ p ∈ payloads, p.kind.footprint * p.values.length ≤ bytes) {s : Incoming}
    {store : Store} {live : List Frozen}
    (h : Flowing capacity order direct s) (ahead : s.ahead = encodeStream order payloads ++ rest)
    (supplies : Allocators.Supplies .shared bytes 0 0 store.allocators)
    (holds : store.Holds live) :
    ∃ fs t kept, readArrays .shared (payloads.map Payload.kind) (s, store) = .ok fs (t, kept) ∧
      fs.map kept.values = payloads.map Payload.values ∧ Flowing capacity order direct t ∧
      t.ahead = rest ∧ store.Keeps kept live := by
  -- Bytes of the next array may already be in the buffer, so the induction speaks of what
  -- is ahead and not of what the source still holds.
  induction payloads generalizing s store live with
  | nil => exact ⟨[], s, store, rfl, rfl, h, ahead, fun _ _ => rfl⟩
  | cons p payloads ih =>
    have first : s.ahead = encodeArray order p.values ++ (encodeStream order payloads ++ rest) := by
      rw [ahead, encodeStream, List.flatMap_cons, List.append_assoc]
      rfl
    have decodes := readArray_decodes (k := p.kind) wide h fun count left parsed => by
      rw [first, encodeArray, List.append_assoc, parseSize_encodeSize p.countable] at parsed
      cases parsed
      exact ⟨low p List.mem_cons_self, supplies⟩
    rw [first, parseArray_encodeArray] at decodes
    cases run : readArray p.kind .shared (s, store) with
    | error e u =>
      rw [run] at decodes
      obtain ⟨flaw, parsed, -⟩ := decodes
      cases parsed
    | ok f u =>
      obtain ⟨t, kept⟩ := u
      rw [run] at decodes
      obtain ⟨parsed, flow, supplies', held⟩ := decodes
      have values : kept.values f = p.values := (congrArg Prod.fst (Except.ok.inj parsed)).symm
      have left : t.ahead = encodeStream order payloads ++ rest :=
        (congrArg Prod.snd (Except.ok.inj parsed)).symm
      obtain ⟨holds', keeps⟩ := held live holds
      have supplies'' : Allocators.Supplies .shared bytes 0 0 kept.allocators := by
        cases supplies' with
        | shared low granted => exact .shared low granted
      obtain ⟨fs, u, kept', run', values', flow', rest', keeps'⟩ :=
        ih (fun q member => low q (List.mem_cons_of_mem _ member)) flow left supplies'' holds'
      refine ⟨f :: fs, u, kept', ?_, ?_, flow', rest', fun g member => ?_⟩
      · simp only [List.map_cons, readArrays, run, run']
      · rw [List.map_cons, List.map_cons, values', keeps' f List.mem_cons_self, values]
      · exact (keeps' g (List.mem_cons_of_mem _ member)).trans (keeps g member)

/-- What one writer puts on a stream, one reader takes off it. -/
theorem readArrays_writeStream (payloads : List Payload) (order : ByteOrder)
    (room room' fragment bytes : Nat) (direct direct' : Bool) (portion : Nat → Option Nat)
    (interrupts : List Nat) (m : Allocators) (wide : 8 ≤ room) (wide' : 8 ≤ room')
    (portions : ∀ i n, portion i = some n → 0 < n)
    (low : ∀ p ∈ payloads, p.kind.footprint * p.values.length ≤ bytes)
    (supplies : Allocators.Supplies .shared bytes 0 0 m) :
    ∃ sent, writeStream payloads ⟨Buffer.empty room order, .stream { direct }⟩ = .ok () sent ∧
      ∃ fs b r store,
        readArrays .shared (payloads.map Payload.kind)
          (⟨(Buffer.empty room' order).flip, .stream (Reader.withFragment
            { source := { rest := sent.delivered, portion, interrupts }, direct := direct' }
            fragment)⟩, { allocators := m }) = .ok fs (⟨b, .stream r⟩, store) ∧
        fs.map store.values = payloads.map Payload.values ∧
        b.remaining = 0 ∧ r.source.rest = [] := by
  have open_ : Streaming room order direct none
      ⟨Buffer.empty room order, .stream { direct }⟩ :=
    ⟨Buffer.valid_empty room order, by simp [Buffer.empty, Buffer.capacity], rfl,
      { direct }, rfl, rfl, rfl, rfl⟩
  obtain ⟨sent, written, delivered⟩ := writeStream_delivers payloads wide open_
  have nothing : emitted ⟨Buffer.empty room order, .stream { direct }⟩ = [] := by
    simp [emitted, Outgoing.delivered, Buffer.written, Buffer.empty]
  rw [nothing, List.nil_append] at delivered
  have flowing : Flowing room' order direct' ⟨(Buffer.empty room' order).flip,
      .stream (Reader.withFragment
        { source := { rest := sent.delivered, portion, interrupts }, direct := direct' }
        fragment)⟩ :=
    ⟨⟨Nat.le_refl _, Nat.zero_le _⟩, by simp [Buffer.empty, Buffer.flip, Buffer.capacity], rfl, _,
      rfl, ⟨rfl, portions⟩, Nat.le_max_right _ _, rfl⟩
  obtain ⟨fs, t, store, run, values, flow, ahead, -⟩ :=
    readArrays_decodes payloads [] wide' low flowing
      (by simp [Incoming.ahead, Buffer.unread, Buffer.empty, Buffer.flip, Reader.withFragment,
        delivered])
      supplies (Store.holds_nil m)
  obtain ⟨b, inlet⟩ := t
  obtain ⟨r, rfl, -⟩ := flow.inlet
  obtain ⟨unread, rest⟩ := List.append_eq_nil_iff.1 ahead
  refine ⟨sent, written, fs, b, r, store, run, values, ?_, rest⟩
  rw [← Buffer.length_unread flow.valid, unread, List.length_nil]

/-- Two shorts and a string, written through nine bytes and read through eleven,
byte by byte and with interrupts. -/
theorem readArrays_writeStream_shorts_text :
    ∃ payloads : List Payload,
      payloads.map Payload.values = [[.short 1, .short (-2)], [.text "é"]] ∧
      ∃ sent, writeStream payloads ⟨Buffer.empty 9 .big, .stream { direct := true }⟩ =
          .ok () sent ∧
        ∃ fs b r store,
          readArrays .shared (payloads.map Payload.kind)
            (⟨(Buffer.empty 11 .big).flip, .stream (Reader.withFragment
              { source :=
                  { rest := sent.delivered, portion := fun _ => some 3, interrupts := [1, 4] }
                direct := false } 1)⟩, {}) = .ok fs (⟨b, .stream r⟩, store) ∧
          fs.map store.values = payloads.map Payload.values ∧
          b.remaining = 0 ∧ r.source.rest = [] := by
  let shorts : Payload :=
    ⟨.short, [.short 1, .short (-2)], by decide, by decide, by simp [TextsFit]⟩
  let text : Payload := ⟨.text, [.text "é"], by decide, by decide, by simp [TextsFit]; decide⟩
  have low : ∀ p ∈ [shorts, text], p.kind.footprint * p.values.length ≤ 24 := by
    simp [shorts, text, Kind.footprint, Kind.width?]
  exact ⟨[shorts, text], rfl, readArrays_writeStream [shorts, text] .big 9 11 1 24 true false
    (fun _ => some 3) [1, 4] {} (by decide) (by decide) (fun _ n eq => by cases eq; decide) low
    (Allocators.machine_supplies (by decide) rfl)⟩

end ArrayStore.Wire
