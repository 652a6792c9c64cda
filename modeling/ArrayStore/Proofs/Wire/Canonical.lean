import ArrayStore.Proofs.Wire.Pieces

/-! Every way of writing an array emits its one encoding.
Through a stream the bytes stored and pending grow by the encoding, and whether
that succeeds is a matter of the capacity alone. Without a stream the encoding
has to fit the remaining space. A sink that fills up is not covered here. -/

namespace ArrayStore.Wire

open Outgoing

variable {capacity : Nat} {order : ByteOrder} {direct : Bool} {fault : Option StreamFault}

def writeFixed (k : Kind) (width : Nat) (pos : 0 < width) (values : List Scalar) :
    Change Outgoing Unit := fun s =>
  if s.buffer.reverses k then writeElements width pos values s
  else
    match writeDirect (Scalar.rawBytes values) s with
    | .error e s => .error e s
    | .ok true s => .ok () s
    | .ok false s => writeElements width pos values s

theorem writeArray_fixed {k : Kind} {width : Nat} (hw : k.width? = some width)
    (values : List Scalar) (s : Outgoing) :
    writeArray k values s =
      match writeSize values.length s with
      | .error e s => .error e s
      | .ok () s => writeFixed k width (Kind.width?_pos hw) values s := by
  cases k <;> cases hw <;> rfl

def bypasses (order : ByteOrder) (direct : Bool) (k : Kind) : Bool := direct && !order.reverses k

theorem writeFixed_emits {k : Kind} {width : Nat} (pos : 0 < width) (wide : k.width = width)
    {values : List Scalar} (typed : ∀ v ∈ values, v.kind = k) :
    Emits capacity order direct fault (writeFixed k width pos values)
      (values = [] ∨ bypasses order direct k = true ∨ width ≤ capacity)
      (Scalar.encodeAll order values) fun t => t.buffer.position = 0 := by
  have copied : Emits capacity order direct fault _ _ _ _ := writeElements_emits
    pos wide typed
  have turned : ∀ s, Streaming capacity order direct fault s →
      s.buffer.reverses k = order.reverses k := fun s h => by rw [Buffer.reverses, h.order_eq]
  by_cases path : bypasses order direct k = true
  · simp only [bypasses, Bool.and_eq_true, Bool.not_eq_true'] at path
    obtain ⟨rfl, straight⟩ := path
    refine ⟨fun s h _ => ?_, fun s _ impossible => ?_⟩
    · obtain ⟨t, run, ready, emitted, start⟩ := writeDirect_taken (Scalar.rawBytes values) h
      rw [Scalar.rawBytes_eq_encodeAll straight typed] at emitted
      refine ⟨t, ?_, ready, emitted, start⟩
      rw [writeFixed, turned s h, straight, run]
      rfl
    · exact absurd (.inr (.inl (by simp [bypasses, straight]))) impossible
  · have same : ∀ s, Streaming capacity order direct fault s →
        writeFixed k width pos values s = writeElements width pos values s := by
      intro s h
      rw [writeFixed, turned s h]
      cases reversed : order.reverses k with
      | true => rfl
      | false =>
        have buffered : direct = false := by simpa [bypasses, reversed] using path
        subst buffered
        simp only [Bool.false_eq_true, if_false, writeDirect_declined _ h]
    refine ⟨fun s h possible => ?_, fun s h impossible => ?_⟩
    · rw [same s h]
      exact copied.success s h (possible.imp_right fun either => either.resolve_left path)
    · rw [same s h]
      exact copied.failure s h fun possible => impossible (possible.imp_right .inr)

theorem writeFixed_fills {k : Kind} {width : Nat} (pos : 0 < width) (wide : k.width = width)
    {values : List Scalar} (typed : ∀ v ∈ values, v.kind = k) :
    Fills order (writeFixed k width pos values) (Scalar.encodeAll order values) := by
  have copied : Fills order _ _ := writeElements_fills pos wide typed
  have same : ∀ b : Buffer, writeFixed k width pos values ⟨b, .closed⟩ =
      writeElements width pos values ⟨b, .closed⟩ := by
    intro b
    simp only [writeFixed, writeDirect, ite_self]
  refine ⟨fun b valid ordered fits => ?_, fun b valid ordered tight => ?_⟩
  · rw [same]
    exact copied.success b valid ordered fits
  · rw [same]
    exact copied.failure b valid ordered tight

/-- An array that the layout can hold: elements of its kind, in sizes that can be announced. -/
structure Payload where
  kind : Kind
  values : List Scalar
  typed : ∀ v ∈ values, v.kind = kind
  countable : values.length < 0x80000000
  texts : TextsFit values

namespace Payload

/-- The sizes announced when an array is written: its count and the length of each string. -/
def sizes (p : Payload) : List Nat :=
  p.values.length :: p.values.filterMap fun
    | .text text => some (Utf8.encode text).length
    | _ => none

/-- What a buffer needs to write an array through a stream: room for every size
header, and for one element where elements are copied. -/
def FitsCapacity (p : Payload) (order : ByteOrder) (direct : Bool) (capacity : Nat) : Prop :=
  (∀ size ∈ p.sizes, (if size < 254 then 1 else 5) ≤ capacity) ∧
    (p.kind ≠ .text → p.values ≠ [] → bypasses order direct p.kind = false →
      p.kind.width ≤ capacity)

theorem forall_mem_sizes (p : Payload) (P : Nat → Prop) :
    (∀ size ∈ p.sizes, P size) ↔
      P p.values.length ∧ ∀ text, Scalar.text text ∈ p.values → P (Utf8.encode text).length := by
  simp only [sizes, List.mem_cons, List.mem_filterMap, forall_eq_or_imp]
  refine and_congr_right fun _ => ⟨fun all text member => ?_, fun all size found => ?_⟩
  · exact all _ ⟨.text text, member, rfl⟩
  · obtain ⟨v, member, eq⟩ := found
    cases v with
    | text text =>
      cases eq
      exact all text member
    | _ => cases eq

theorem flatMap_encodeElement {k : Kind} {values : List Scalar} (order : ByteOrder)
    (fixed : k ≠ .text) (typed : ∀ v ∈ values, v.kind = k) :
    values.flatMap (encodeElement order) = Scalar.encodeAll order values := by
  rw [Scalar.encodeAll, List.flatMap_def, List.flatMap_def]
  refine congrArg List.flatten (List.map_congr_left fun v member => ?_)
  exact encodeElement_fixed order (typed v member ▸ fixed)

theorem emits (p : Payload) : Emits capacity order direct fault (writeArray p.kind p.values)
    (p.FitsCapacity order direct capacity) (encodeArray order p.values)
    fun t => p.kind ≠ .text → t.buffer.position = 0 := by
  have headers := p.forall_mem_sizes fun size => (encodeSize order size).length ≤ capacity
  have count : Emits capacity order direct fault _ _ _ _ := writeSize_emits
    p.countable
  simp only [FitsCapacity, ← length_encodeSize order, headers]
  cases hw : p.kind.width? with
  | none =>
    have text := (Kind.width?_eq_none_iff _).1 hw
    have rest : Emits capacity order direct fault _ _ _ _ := writeTexts_emits
      (text ▸ p.typed) p.texts
    have whole : Emits capacity order direct fault (writeArray .text p.values) (_ ∧ _) _ _ :=
      count.seq (fun _ => rfl) rest
    rw [text]
    refine (whole.congr ?_).mono fun _ _ fixed => absurd rfl fixed
    simp
  | some width =>
    have fixed : p.kind ≠ .text := fun text => by simp [text, Kind.width?] at hw
    have wide := Kind.width_eq_of_width? hw
    have rest : Emits capacity order direct fault _ _ _ _ := writeFixed_emits
      (Kind.width?_pos hw) wide p.typed
    have untexted : ∀ text, Scalar.text text ∉ p.values := fun text member =>
      fixed (p.typed _ member).symm
    rw [encodeArray, flatMap_encodeElement order fixed p.typed]
    refine ((count.seq (writeArray_fixed hw p.values) rest).congr ?_).mono fun _ start _ => start
    rw [wide]
    cases bypasses order direct p.kind <;> simp [untexted, fixed, Decidable.or_iff_not_imp_left]

theorem fills (p : Payload) :
    Fills order (writeArray p.kind p.values) (encodeArray order p.values) := by
  have count : Fills order _ _ := writeSize_fills p.countable
  cases hw : p.kind.width? with
  | none =>
    have text := (Kind.width?_eq_none_iff _).1 hw
    rw [text]
    exact count.seq (fun _ => rfl) (writeTexts_fills (text ▸ p.typed) p.texts)
  | some width =>
    have fixed : p.kind ≠ .text := fun text => by simp [text, Kind.width?] at hw
    have wide := Kind.width_eq_of_width? hw
    rw [encodeArray, flatMap_encodeElement order fixed p.typed]
    exact count.seq (writeArray_fixed hw p.values) (writeFixed_fills _ wide p.typed)

end Payload

theorem writeArray_canonical (p : Payload) (b : Buffer) (valid : b.Valid) :
    (∀ w : Writer, w.sink.limit = none →
      ((∃ t, writeArray p.kind p.values ⟨b, .stream w⟩ = .ok () t) ↔
        p.FitsCapacity b.order w.direct b.capacity) ∧
      ∀ t, writeArray p.kind p.values ⟨b, .stream w⟩ = .ok () t →
        t.emitted = emitted ⟨b, .stream w⟩ ++ encodeArray b.order p.values ∧
          (p.kind ≠ .text → t.buffer.written = [])) ∧
    ((∃ t, writeArray p.kind p.values ⟨b, .closed⟩ = .ok () t) ↔
      (encodeArray b.order p.values).length ≤ b.remaining) ∧
    ∀ t, writeArray p.kind p.values ⟨b, .closed⟩ = .ok () t →
      t = ⟨b.store (encodeArray b.order p.values), .closed⟩ := by
  have closed : Fills b.order _ _ := p.fills
  refine ⟨fun w free => ?_, closed.ok_iff valid rfl, fun t run => closed.of_ok valid rfl run⟩
  have streaming : Emits b.capacity b.order w.direct w.sink.flushFault _ _ _ _ := p.emits
  have ready : Streaming b.capacity b.order w.direct w.sink.flushFault ⟨b, .stream w⟩ :=
    ⟨valid, rfl, rfl, w, rfl, free, rfl, rfl⟩
  refine ⟨streaming.ok_iff ready, fun t run => ?_⟩
  obtain ⟨-, emitted, start⟩ := streaming.of_ok ready run
  refine ⟨emitted, fun fixed => ?_⟩
  rw [Buffer.written_eq, start fixed, List.take_zero]

/-- Two shorts through three bytes, the first of which is pending: the buffer
takes one element at a time and is flushed twice on the way. -/
theorem writeArray_canonical_shorts :
    (⟨#[7, 0, 0], 1, 2, .big⟩ : Buffer).Valid ∧ ({} : Writer).sink.limit = none ∧
      ∃ t, writeArray .short [.short 1, .short (-2)] ⟨⟨#[7, 0, 0], 1, 2, .big⟩, .stream {}⟩ =
          .ok () t ∧
        t.emitted = [7, 2, 0, 1, 0xFF, 0xFE] ∧ t.buffer.written = [] := by
  have valid : (⟨#[7, 0, 0], 1, 2, .big⟩ : Buffer).Valid := by decide
  let p : Payload := ⟨.short, [.short 1, .short (-2)], by decide, by decide, by simp [TextsFit]⟩
  obtain ⟨succeeds, emitted⟩ := (writeArray_canonical p ⟨#[7, 0, 0], 1, 2, .big⟩ valid).1 {} rfl
  have fits : p.FitsCapacity .big false 3 := by
    simp [p, Payload.FitsCapacity, Payload.sizes, Kind.width, Kind.width?]
  obtain ⟨t, run⟩ := succeeds.2 fits
  obtain ⟨whole, nothing⟩ := emitted t run
  exact ⟨valid, rfl, t, run, whole, nothing (by decide)⟩

end ArrayStore.Wire
