import ArrayStore.Proofs.Scalar.Runs
import ArrayStore.Proofs.Stream.Emission
import ArrayStore.Wire.Writing

/-! The pieces of an array, as they are written: size headers, strings and runs
of elements.
Through a stream each emits its bytes if the capacity suffices for its headers
and for one element. Without a stream each has to fit the remaining space. -/

namespace ArrayStore.Wire

open Outgoing

variable {capacity : Nat} {order : ByteOrder} {direct : Bool} {fault : Option StreamFault}

def putHeader (size : Nat) : Change Buffer Unit := fun b =>
  Buffer.putBytes (encodeSize b.order size) b

theorem pattern_count {size : Nat} (small : size < sizeBound) :
    (Scalar.int (Int32.ofNat size)).pattern = size := by
  have word : size < 2 ^ 32 := Nat.lt_trans small (by decide)
  rw [Scalar.pattern, Int32.toUInt32_ofNat', UInt32.toNat_ofNat', Nat.mod_eq_of_lt word]

theorem onBuffer_put {v : Scalar} (s : Outgoing) (fits : v.kind.width ≤ s.buffer.remaining) :
    onBuffer (Buffer.put v) s = .ok () ⟨s.buffer.store (v.encode s.buffer.order), s.outlet⟩ :=
  onBuffer_putBytes s (by rwa [Scalar.length_encode])

theorem onBuffer_putHeader {size : Nat} (s : Outgoing)
    (fits : (encodeSize s.buffer.order size).length ≤ s.buffer.remaining) :
    onBuffer (putHeader size) s =
      .ok () ⟨s.buffer.store (encodeSize s.buffer.order size), s.outlet⟩ :=
  onBuffer_putBytes s fits

/-- What is put byte by byte and as a count comes to the header of the layout. -/
theorem writeSize_eq {size : Nat} (small : size < sizeBound) (s : Outgoing) :
    writeSize size s =
      match ensureRoom (if size < 254 then 1 else 5) s with
      | .error e t => .error e t
      | .ok () t => onBuffer (putHeader size) t := by
  by_cases short : size < sizeEscape.toNat
  · have same : Buffer.put (.ubyte (UInt8.ofNat size)) = putHeader size := by
      funext b
      rw [Buffer.put, Scalar.encode_ubyte, putHeader, encodeSize_short b.order short]
    have low : size < 254 := short
    rewrite [writeSize, if_pos short, if_pos low, same]
    rfl
  · have high : ¬size < 254 := short
    rw [writeSize, if_neg short, if_neg (Nat.not_le.2 small), if_neg high]
    cases run : ensureRoom 5 s with
    | error e t => rfl
    | ok _ t =>
      have room := le_remaining_of_ensureRoom run
      have header := encodeSize_long t.buffer.order short
      have fits : (encodeSize t.buffer.order size).length ≤ t.buffer.remaining := by
        rw [length_encodeSize, if_neg high]
        exact room
      let u : Outgoing := ⟨t.buffer.store [sizeEscape], t.outlet⟩
      have escape : onBuffer (Buffer.put (.ubyte sizeEscape)) t = .ok () u := by
        rw [onBuffer_put t (Nat.le_trans (by decide) room), Scalar.encode_ubyte]
      have left : (Scalar.int (Int32.ofNat size)).kind.width ≤ u.buffer.remaining := by
        rw [Buffer.remaining_store, List.length_singleton]
        exact Nat.le_sub_of_add_le room
      have count : Scalar.encode t.buffer.order (.int (Int32.ofNat size)) =
          t.buffer.order.split 4 size := by
        rw [Scalar.encode, pattern_count small]
        rfl
      simp only [escape]
      rw [onBuffer_put u left, onBuffer_putHeader t fits, header, Buffer.order_store, count,
        Buffer.store_store, List.singleton_append]

theorem writeSize_emits {size : Nat} (small : size < sizeBound) :
    Emits capacity order direct fault (writeSize size) ((encodeSize order size).length ≤ capacity)
      (encodeSize order size) fun _ => True where
  success s h possible := by
    obtain ⟨t, run, ready, emitted, room⟩ := (ensureRoom_emits _).success s h possible
    obtain ⟨stored, grown⟩ := ready.store room
    rw [length_encodeSize] at run
    rw [← ready.order_eq] at room stored grown ⊢
    simp only [writeSize_eq small, run, onBuffer_putHeader t room]
    exact ⟨_, rfl, stored, by rw [grown, emitted, List.append_nil], trivial⟩
  failure s h impossible := by
    obtain ⟨e, t, run⟩ := (ensureRoom_emits _).failure s h impossible
    rw [length_encodeSize] at run
    simp only [writeSize_eq small, run]
    exact ⟨_, _, rfl⟩

theorem writeSize_fills {size : Nat} (small : size < sizeBound) :
    Fills order (writeSize size) (encodeSize order size) where
  success b valid ordered fits := by
    subst ordered
    have room := fits
    rw [length_encodeSize] at room
    simp only [writeSize_eq small, ensureRoom_closed, if_pos room]
    exact onBuffer_putHeader ⟨b, .closed⟩ fits
  failure b valid ordered tight := by
    have full : ¬(if size < 254 then 1 else 5) ≤ b.remaining := by
      rw [← length_encodeSize order]
      omega
    simp only [writeSize_eq small, ensureRoom_closed, if_neg full]
    exact ⟨_, _, rfl⟩

theorem ensureSome_emits (missing : List UInt8) :
    Emits capacity order direct fault (ensureSome missing) (0 < capacity) []
      fun t => t.buffer.hasRemaining = true where
  success s h possible := by
    rw [ensureSome]
    by_cases room : s.buffer.hasRemaining = true
    · rw [if_pos room]
      exact ⟨s, rfl, h, (List.append_nil _).symm, room⟩
    · obtain ⟨t, run, ready, emitted, rem, -⟩ := flush_emits.success s h trivial
      have some : t.buffer.hasRemaining = true := by
        rw [Buffer.hasRemaining_iff, rem]
        exact possible
      rw [if_neg room]
      simp only [run, some, if_true]
      exact ⟨t, rfl, ready, emitted, some⟩
  failure s h impossible := by
    obtain ⟨t, run, -, -, rem, -⟩ := flush_emits.success s h trivial
    have none : ∀ u : Outgoing, u.buffer.remaining ≤ capacity → u.buffer.hasRemaining ≠ true := by
      intro u small
      rw [Ne, Buffer.hasRemaining_iff]
      omega
    rw [ensureSome, if_neg (none s h.remaining_le)]
    simp only [run]
    rw [if_neg (none t (Nat.le_of_eq rem))]
    exact ⟨_, _, rfl⟩

theorem writeBytes_emits (bytes : List UInt8) :
    Emits capacity order direct fault (writeBytes bytes) (bytes = [] ∨ 0 < capacity) bytes
      fun _ => True where
  success s h possible := by
    fun_induction writeBytes bytes s with
    | case1 s => exact ⟨s, rfl, h, (List.append_nil _).symm, trivial⟩
    | case2 bytes s nonempty e t failed =>
      obtain ⟨u, run, -⟩ := (ensureSome_emits bytes).success s h (possible.resolve_left nonempty)
      rw [run] at failed
      cases failed
    | case3 bytes s nonempty t _ room e u failed =>
      rw [onBuffer_putBytes t (List.length_take_le _ _)] at failed
      cases failed
    | case4 bytes s nonempty t ran room u put ih =>
      have filled := possible.resolve_left nonempty
      obtain ⟨t', run, ready, emitted, -⟩ := (ensureSome_emits bytes).success s h filled
      rw [run] at ran
      cases ran
      have fits : (bytes.take room).length ≤ t.buffer.remaining := List.length_take_le _ _
      obtain ⟨stored, grown⟩ := ready.store fits
      rw [onBuffer_putBytes t fits] at put
      cases put
      obtain ⟨v, rest, open_, whole, -⟩ := ih stored (.inr filled)
      refine ⟨v, rest, open_, ?_, trivial⟩
      rw [whole, grown, emitted, List.append_nil, List.append_assoc, List.take_append_drop]
  failure s h impossible := by
    obtain ⟨nonempty, empty⟩ := not_or.1 impossible
    obtain ⟨e, t, run⟩ := (ensureSome_emits bytes).failure s h empty
    rw [writeBytes, dif_neg nonempty]
    split
    · exact ⟨_, _, rfl⟩
    · next ran =>
      rw [run] at ran
      cases ran

theorem ensureSome_closed (missing : List UInt8) (b : Buffer) :
    ensureSome missing ⟨b, .closed⟩ =
      if b.hasRemaining then .ok () ⟨b, .closed⟩
      else .error (.insufficientSpace missing.length 0) ⟨b, .closed⟩ := by
  rw [ensureSome]
  by_cases room : b.hasRemaining = true
  · rw [if_pos room, if_pos room]
  · simp only [flush]
    rw [if_neg room, if_neg room]

theorem writeBytes_nil (s : Outgoing) : writeBytes [] s = .ok () s := by
  rw [writeBytes, dif_pos rfl]

theorem writeBytes_closed {bytes : List UInt8} {b : Buffer} (nonempty : bytes ≠ [])
    (room : 0 < b.remaining) :
    writeBytes bytes ⟨b, .closed⟩ =
      writeBytes (bytes.drop b.remaining) ⟨b.store (bytes.take b.remaining), .closed⟩ := by
  have some : b.hasRemaining = true := (Buffer.hasRemaining_iff b).2 room
  have fits : (bytes.take b.remaining).length ≤ b.remaining := List.length_take_le _ _
  rw [writeBytes, dif_neg nonempty]
  split
  · next ran =>
    rw [ensureSome_closed, if_pos some] at ran
    cases ran
  · next ran =>
    rw [ensureSome_closed, if_pos some] at ran
    cases ran
    simp only [onBuffer_putBytes ⟨b, .closed⟩ fits]

theorem writeBytes_closed_full {bytes : List UInt8} {b : Buffer} (nonempty : bytes ≠ [])
    (full : b.remaining = 0) : ∃ e t, writeBytes bytes ⟨b, .closed⟩ = .error e t := by
  have none : b.hasRemaining ≠ true := by
    rw [Ne, Buffer.hasRemaining_iff]
    omega
  rw [writeBytes, dif_neg nonempty]
  split
  · exact ⟨_, _, rfl⟩
  · next ran =>
    rw [ensureSome_closed, if_neg none] at ran
    cases ran

theorem writeBytes_fills (bytes : List UInt8) : Fills order (writeBytes bytes) bytes where
  success b _ _ fits := by
    by_cases nonempty : bytes = []
    · rw [nonempty, writeBytes_nil, Buffer.store_nil]
    · have some : 0 < bytes.length := List.length_pos_iff.2 nonempty
      rw [writeBytes_closed nonempty (by omega), List.drop_of_length_le fits,
        List.take_of_length_le fits, writeBytes_nil]
  failure b _ _ tight := by
    have nonempty : bytes ≠ [] := List.length_pos_iff.1 (by omega)
    by_cases room : 0 < b.remaining
    · have left : bytes.drop b.remaining ≠ [] :=
        List.length_pos_iff.1 (by rw [List.length_drop]; omega)
      have full : (b.store (bytes.take b.remaining)).remaining = 0 := by
        rw [Buffer.remaining_store, List.length_take]
        omega
      rw [writeBytes_closed nonempty room]
      exact writeBytes_closed_full left full
    · exact writeBytes_closed_full nonempty (by omega)

theorem one_le_length_encodeSize (order : ByteOrder) (size : Nat) :
    1 ≤ (encodeSize order size).length := by
  rw [length_encodeSize]
  split <;> omega

theorem writeText_emits {text : String} (small : (Utf8.encode text).length < sizeBound) :
    Emits capacity order direct fault (writeText text)
      ((encodeSize order (Utf8.encode text).length).length ≤ capacity) (encodeText order text)
      fun _ => True := by
  have header := one_le_length_encodeSize order (Utf8.encode text).length
  refine ((writeSize_emits small).seq (fun s => rfl) (writeBytes_emits _)).congr ?_
  exact ⟨And.left, fun room => ⟨room, .inr (by omega)⟩⟩

theorem writeText_fills {text : String} (small : (Utf8.encode text).length < sizeBound) :
    Fills order (writeText text) (encodeText order text) :=
  (writeSize_fills small).seq (fun _ => rfl) (writeBytes_fills _)

def TextsFit (values : List Scalar) : Prop :=
  ∀ text, Scalar.text text ∈ values → (Utf8.encode text).length < 0x80000000

theorem writeTexts_emits {values : List Scalar} (texts : ∀ v ∈ values, v.kind = .text)
    (small : TextsFit values) :
    Emits capacity order direct fault (writeTexts values)
      (∀ text, .text text ∈ values →
        (encodeSize order (Utf8.encode text).length).length ≤ capacity)
      (values.flatMap (encodeElement order)) fun _ => True := by
  induction values with
  | nil =>
    refine ⟨fun s h _ => ⟨s, rfl, h, (List.append_nil _).symm, trivial⟩, fun s _ impossible => ?_⟩
    exact absurd (fun text member => absurd member List.not_mem_nil) impossible
  | cons value values ih =>
    obtain ⟨text, rfl⟩ : ∃ text, value = .text text := by
      have kind := texts value List.mem_cons_self
      cases value <;> simp_all [Scalar.kind]
    have first : Emits capacity order direct fault (writeText text) _ _ _ :=
      writeText_emits (small text List.mem_cons_self)
    have rest := ih (fun v hv => texts v (List.mem_cons_of_mem _ hv))
      fun t ht => small t (List.mem_cons_of_mem _ ht)
    refine (first.seq (fun s => rfl) rest).congr ?_
    simp [List.mem_cons, or_imp, forall_and]

theorem writeTexts_fills {values : List Scalar} (texts : ∀ v ∈ values, v.kind = .text)
    (small : TextsFit values) :
    Fills order (writeTexts values) (values.flatMap (encodeElement order)) := by
  induction values with
  | nil =>
    refine ⟨fun b _ _ _ => rfl, fun b _ _ tight => ?_⟩
    exact absurd tight (Nat.not_lt_zero _)
  | cons value values ih =>
    obtain ⟨text, rfl⟩ : ∃ text, value = .text text := by
      have kind := texts value List.mem_cons_self
      cases value <;> simp_all [Scalar.kind]
    have first : Fills order (writeText text) _ := writeText_fills (small text List.mem_cons_self)
    have rest := ih (fun v hv => texts v (List.mem_cons_of_mem _ hv))
      fun t ht => small t (List.mem_cons_of_mem _ ht)
    exact first.seq (fun s => rfl) rest

theorem ensureElement_eq (width : Nat) : ensureElement width = ensureRoom width := rfl

theorem onBuffer_putAll {values : List Scalar} (s : Outgoing)
    (fits : (Scalar.encodeAll s.buffer.order values).length ≤ s.buffer.remaining) :
    onBuffer (Buffer.putAll values) s =
      .ok () ⟨s.buffer.store (Scalar.encodeAll s.buffer.order values), s.outlet⟩ :=
  onBuffer_putBytes s fits

theorem writeElements_emits {k : Kind} {width : Nat} (pos : 0 < width) (wide : k.width = width)
    {values : List Scalar} (typed : ∀ v ∈ values, v.kind = k) :
    Emits capacity order direct fault (writeElements width pos values)
      (values = [] ∨ width ≤ capacity) (Scalar.encodeAll order values)
      fun t => t.buffer.position = 0 where
  success s h possible := by
    -- A round that has no room for one element flushes first, so each takes at least one.
    fun_induction writeElements width pos values s with
    | case1 s =>
      obtain ⟨t, run, ready, emitted, -, start⟩ := flush_emits.success s h trivial
      exact ⟨t, run, ready, emitted, start⟩
    | case2 values s nonempty e t failed =>
      obtain ⟨u, run, -⟩ := (ensureRoom_emits width).success s h (possible.resolve_left nonempty)
      rw [ensureElement_eq, run] at failed
      cases failed
    | case3 values s nonempty t _ room e u failed =>
      have fits := Scalar.length_encodeAll_take t.buffer.order t.buffer.remaining typed
      rw [wide] at fits
      rw [onBuffer_putAll t fits] at failed
      cases failed
    | case4 values s nonempty t ran room u put ih =>
      have filled := possible.resolve_left nonempty
      obtain ⟨t', run, ready, emitted, -⟩ := (ensureRoom_emits width).success s h filled
      rw [ensureElement_eq, run] at ran
      cases ran
      have fits := Scalar.length_encodeAll_take t.buffer.order t.buffer.remaining typed
      rw [wide] at fits
      obtain ⟨stored, grown⟩ := ready.store fits
      rw [onBuffer_putAll t fits] at put
      cases put
      have typed' : ∀ v ∈ values.drop room, v.kind = k := fun v hv =>
        typed v (List.mem_of_mem_drop hv)
      obtain ⟨v, rest, open_, whole, start⟩ := ih typed' stored (.inr filled)
      refine ⟨v, rest, open_, ?_, start⟩
      rw [whole, grown, emitted, List.append_nil, ready.order_eq, List.append_assoc,
        ← Scalar.encodeAll_append, List.take_append_drop]
  failure s h impossible := by
    obtain ⟨nonempty, small⟩ := not_or.1 impossible
    obtain ⟨e, t, run⟩ := (ensureRoom_emits width).failure s h small
    rw [writeElements, dif_neg nonempty]
    split
    · exact ⟨_, _, rfl⟩
    · next ran =>
      rw [ensureElement_eq, run] at ran
      cases ran

theorem writeElements_nil {width : Nat} (pos : 0 < width) (b : Buffer) :
    writeElements width pos [] ⟨b, .closed⟩ = .ok () ⟨b, .closed⟩ := by
  rw [writeElements, dif_pos rfl, flush]

section Closed

variable {k : Kind} {width : Nat} (pos : 0 < width) (wide : k.width = width)
  {values : List Scalar} (typed : ∀ v ∈ values, v.kind = k) (nonempty : values ≠ []) {b : Buffer}

include wide typed nonempty in
theorem writeElements_closed (room : width ≤ b.remaining) :
    writeElements width pos values ⟨b, .closed⟩ =
      writeElements width pos (values.drop (b.remaining / width))
        ⟨b.store (Scalar.encodeAll b.order (values.take (b.remaining / width))), .closed⟩ := by
  have fits := Scalar.length_encodeAll_take b.order b.remaining typed
  rw [wide] at fits
  rw [writeElements, dif_neg nonempty]
  split
  · next ran =>
    rw [ensureElement_eq, ensureRoom_closed, if_pos room] at ran
    cases ran
  · next ran =>
    rw [ensureElement_eq, ensureRoom_closed, if_pos room] at ran
    cases ran
    simp only [onBuffer_putAll ⟨b, .closed⟩ fits]

include nonempty in
theorem writeElements_closed_full (full : b.remaining < width) :
    ∃ e t, writeElements width pos values ⟨b, .closed⟩ = .error e t := by
  rw [writeElements, dif_neg nonempty]
  split
  · exact ⟨_, _, rfl⟩
  · next ran =>
    rw [ensureElement_eq, ensureRoom_closed, if_neg (by omega)] at ran
    cases ran

end Closed

theorem writeElements_fills {k : Kind} {width : Nat} (pos : 0 < width) (wide : k.width = width)
    {values : List Scalar} (typed : ∀ v ∈ values, v.kind = k) :
    Fills order (writeElements width pos values) (Scalar.encodeAll order values) where
  success b _ ordered fits := by
    rw [Scalar.length_encodeAll typed, wide] at fits
    by_cases nonempty : values = []
    · rw [nonempty, writeElements_nil]
      rfl
    · have some : 0 < values.length := List.length_pos_iff.2 nonempty
      have one : width ≤ values.length * width := Nat.le_mul_of_pos_left _ some
      have whole : values.length ≤ b.remaining / width := (Nat.le_div_iff_mul_le pos).2 fits
      rw [writeElements_closed pos wide typed nonempty (by omega), List.drop_of_length_le whole,
        List.take_of_length_le whole, writeElements_nil, ordered]
  failure b _ _ tight := by
    rw [Scalar.length_encodeAll typed, wide] at tight
    have nonempty : values ≠ [] := by
      rintro rfl
      simp at tight
    by_cases room : width ≤ b.remaining
    · have part : b.remaining / width < values.length := (Nat.div_lt_iff_lt_mul pos).2 tight
      have left : values.drop (b.remaining / width) ≠ [] :=
        List.length_pos_iff.1 (by rw [List.length_drop]; omega)
      have typed' : ∀ v ∈ values.take (b.remaining / width), v.kind = k := fun v hv =>
        typed v (List.mem_of_mem_take hv)
      have full : (b.store (Scalar.encodeAll b.order
          (values.take (b.remaining / width)))).remaining < width := by
        rw [Buffer.remaining_store, Scalar.length_encodeAll typed', wide, List.length_take,
          Nat.min_eq_left (Nat.le_of_lt part), ← Nat.mod_eq_sub_div_mul]
        exact Nat.mod_lt _ pos
      rw [writeElements_closed pos wide typed nonempty room]
      exact writeElements_closed_full pos left full
    · exact writeElements_closed_full pos nonempty (by omega)

end ArrayStore.Wire
