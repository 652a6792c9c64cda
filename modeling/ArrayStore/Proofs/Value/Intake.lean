import ArrayStore.Proofs.Vector.Growth
import ArrayStore.Proofs.Wire.Recognition
import ArrayStore.Value.Decode

/-! Elements gathered into a growing vector, against the grammar.
On a supply the storage never gets in the way: what an intake gathers, and
whether it fails, is settled by the bytes ahead. The bulk path, the buffered
path and the loop over strings each follow the parser. -/

namespace ArrayStore

open Incoming (Flowing)
open Wire (Flaw Reports)
open Writable (Growing)

variable {k : Kind} {a : Allocator} {bytes handles : Nat} {capacity : Nat} {order : ByteOrder}
  {direct : Bool}

namespace Intake

/-- An intake on a stream that flows, with a vector on a supply. -/
structure Ready (capacity : Nat) (order : ByteOrder) (direct : Bool) (k : Kind) (a : Allocator)
    (bytes handles : Nat) (s : Intake) : Prop where
  flowing : Flowing capacity order direct s.input
  growing : Growing k a bytes handles s.next s.store.allocators

structure Grown (k : Kind) (length : Nat) (s t : Intake) : Prop where
  input : t.input = s.input
  cells : t.store.cells = s.store.cells
  made : t.store.made = s.store.made
  size : t.next.length = length
  values : t.next.values =
    s.next.values.take length ++ List.replicate (length - s.next.length) k.blank

theorem Ready.growTo (length : Nat) {count : Nat} {s : Intake}
    (h : Ready capacity order direct k a bytes handles s) (fits : k.footprint * count ≤ bytes)
    (low : length ≤ count) :
    ∃ t, Intake.growTo length count s = .ok () t ∧
      Ready capacity order direct k a bytes handles t ∧ Grown k length s t := by
  obtain ⟨w, input, m, cells, made⟩ := s
  have growing : Growing k a bytes handles w m := h.growing
  have within : ∀ n, n ≤ count → k.footprint * n ≤ bytes := fun n small =>
    Nat.le_trans (Nat.mul_le_mul_left _ small) fits
  by_cases tight : w.capacity < length
  · obtain ⟨u, l, reserved, growing', values, size, -⟩ :=
      growing.reserve (within (min (max length (2 * w.capacity)) count) (Nat.min_le_right _ _))
    obtain ⟨v, n, run, growing'', values', size'⟩ := growing'.resize (within length low)
    refine ⟨⟨v, input, n, cells, made⟩, ?_, ⟨h.flowing, growing''⟩, rfl, rfl, rfl, size', ?_⟩
    · simp only [Intake.growTo, Store.onWritable, if_pos tight, reserved, run]
    · rw [values', values, size]
  · obtain ⟨v, n, run, growing', values, size⟩ := growing.resize (within length low)
    refine ⟨⟨v, input, n, cells, made⟩, ?_, ⟨h.flowing, growing'⟩, rfl, rfl, rfl, size, values⟩
    simp only [Intake.growTo, Store.onWritable, if_neg tight, run]

theorem Ready.of_growTo {length count : Nat} {s t : Intake}
    (h : Ready capacity order direct k a bytes handles s) (fits : k.footprint * count ≤ bytes)
    (low : length ≤ count) (ran : Intake.growTo length count s = .ok () t) :
    Ready capacity order direct k a bytes handles t ∧ Grown k length s t := by
  obtain ⟨u, run, ready, grown⟩ := h.growTo length fits low
  rw [ran] at run
  cases run
  exact ⟨ready, grown⟩

/-- What a run of elements into places `done .. stop` does: they are the ones
spelled ahead, unless the bytes end before the last of the announced elements. -/
def TakesRun (capacity : Nat) (order : ByteOrder) (direct : Bool) (k : Kind) (count stop done : Nat)
    (s : Intake) : Outcome Intake Unit → Prop
  | .ok () t =>
    (stop - done) * k.width ≤ s.input.ahead.length ∧
      t.next = s.next.store done (k.decodeAll order (stop - done) s.input.ahead) ∧
      Flowing capacity order direct t.input ∧
      t.input.ahead = s.input.ahead.drop ((stop - done) * k.width) ∧ t.store = s.store
  | .error e _ => s.input.ahead.length < (count - done) * k.width ∧ Reports .ended e

/-- A request while not even one element is held: more arrives, or the bytes end
before the last of the announced elements. -/
theorem ensureElement {width count done : Nat} {s : Incoming} (h : Flowing capacity order direct s)
    (room : width ≤ capacity) (short : s.buffer.remaining < width) (more : done < count) :
    match Incoming.ensureData
      (if count - done = 1 then width - s.buffer.remaining else width) s with
    | .ok () t =>
      Flowing capacity order direct t ∧ t.ahead = s.ahead ∧
        s.buffer.remaining < t.buffer.remaining
    | .error e _ => s.ahead.length < (count - done) * width ∧ Reports .ended e := by
  have positive : 0 < if count - done = 1 then width - s.buffer.remaining else width := by
    split <;> omega
  -- With two elements to come a request for a whole one may reach into the second, so it
  -- stays within the announced bytes; for the last element it would not.
  have target : min (s.buffer.remaining +
      if count - done = 1 then width - s.buffer.remaining else width) capacity ≤
        (count - done) * width := by
    split
    · next last =>
      rw [last]
      omega
    · have two : 2 * width ≤ (count - done) * width := Nat.mul_le_mul_right _ (by omega)
      omega
  generalize (if count - done = 1 then width - s.buffer.remaining else width) = size at *
  have grows : s.buffer.remaining < min (s.buffer.remaining + size) capacity := by omega
  obtain ⟨enough, tight⟩ := h.ensureData size (by omega) positive
  by_cases fits : min (s.buffer.remaining + size) capacity ≤ s.ahead.length
  · obtain ⟨t, run, flow, same, held⟩ := enough fits
    rw [run]
    exact ⟨flow, same, Nat.lt_of_lt_of_le grows held⟩
  · have ends : s.ahead.length < min (s.buffer.remaining + size) capacity := by omega
    obtain ⟨t, run⟩ := tight ends
    rw [run]
    exact ⟨Nat.lt_of_lt_of_le ends target, .refill⟩

theorem run_fits (held width places : Nat) : min (held / width) places * width ≤ held :=
  Nat.le_trans (Nat.mul_le_mul_right _ (Nat.min_le_left _ _)) (Nat.div_mul_le_self _ _)

theorem readElements_takesRun {width : Nat} (width_pos : 0 < width) (wide : k.width = width)
    {count stop done : Nat} {s : Intake} (h : Flowing capacity order direct s.input)
    (room : width ≤ capacity) (low : done ≤ stop) (high : stop ≤ count) :
    TakesRun capacity order direct k count stop done s
      (readElements k width width_pos count stop done s) := by
  fun_induction readElements k width width_pos count stop done s with
  | case1 done next input store all =>
    have nothing : stop - done = 0 := by omega
    simp only [TakesRun, nothing, Nat.zero_mul, Kind.decodeAll_zero, List.drop_zero,
      Writable.store_nil]
    exact ⟨Nat.zero_le _, trivial, h, trivial, trivial⟩
  | case2 done next input store more held less e input' failed =>
    have flow : Flowing capacity order direct input := h
    have short : input.buffer.remaining < width := (Nat.div_eq_zero_iff_lt width_pos).1 less
    have asked := ensureElement flow room short (show done < count by omega)
    simp only [dite_eq_ite] at failed
    rw [failed] at asked
    obtain ⟨ends, reports⟩ := asked
    exact ⟨wide ▸ ends, reports⟩
  | case3 done next input store more held less input' grown progress ih =>
    have flow : Flowing capacity order direct input := h
    have short : input.buffer.remaining < width := (Nat.div_eq_zero_iff_lt width_pos).1 less
    have asked := ensureElement flow room short (show done < count by omega)
    simp only [dite_eq_ite] at grown
    rw [grown] at asked
    obtain ⟨flow', same, -⟩ := asked
    have rest := ih flow' low
    simp only [TakesRun, same] at rest ⊢
    exact rest
  | case4 done next input store more held less input' grown stuck =>
    have flow : Flowing capacity order direct input := h
    have short : input.buffer.remaining < width := (Nat.div_eq_zero_iff_lt width_pos).1 less
    -- A request that succeeds has added bytes, so the loop never stalls.
    have asked := ensureElement flow room short (show done < count by omega)
    simp only [dite_eq_ite] at grown
    rw [grown] at asked
    exact absurd asked.2.2 stuck
  | case5 done next input store more held whole run e input' failed =>
    have enough : run * k.width ≤ input.buffer.remaining := wide ▸ run_fits ..
    obtain ⟨t, got, -⟩ := Flowing.getAll h enough
    rw [got] at failed
    cases failed
  | case6 done next input store more held whole run values input' got ih =>
    have enough : run * k.width ≤ input.buffer.remaining := wide ▸ run_fits ..
    obtain ⟨t, got', flow, rest, -⟩ := Flowing.getAll h enough
    rw [got'] at got
    cases got
    have small : run ≤ stop - done := Nat.min_le_right _ _
    have tail := ih flow (by omega)
    have there : run * k.width ≤ input.ahead.length :=
      Nat.le_trans enough (Flowing.remaining_le_ahead h)
    clear_value run
    have parts : stop - done = run + (stop - (done + run)) := by omega
    have parts' : count - done = run + (count - (done + run)) := by omega
    generalize readElements k width width_pos count stop (done + run) _ = outcome at tail ⊢
    cases outcome with
    | error e u =>
      obtain ⟨ends, reports⟩ := tail
      simp only [rest, List.length_drop] at ends
      refine ⟨?_, reports⟩
      rw [parts', Nat.add_mul]
      simp only
      omega
    | ok _ u =>
      obtain ⟨enough', stored, flow', rest', kept⟩ := tail
      simp only [rest, List.length_drop] at enough' stored rest'
      refine ⟨?_, ?_, flow', ?_, kept⟩
      · rw [parts, Nat.add_mul]
        simp only
        omega
      · have size : (k.decodeAll order run input.ahead).length = run := k.length_decodeAll ..
        have joined := Writable.store_store next done (k.decodeAll order run input.ahead)
          (k.decodeAll order (stop - (done + run)) (input.ahead.drop (run * k.width)))
        rw [size] at joined
        rw [stored, joined, parts, Kind.decodeAll_add]
      · rw [rest', List.drop_drop, parts, Nat.add_mul]

theorem readChunk?_takesRun {width count stop : Nat} (done : Nat) {s : Intake}
    (wide : k.width = width)
    (h : Flowing capacity order direct s.input) (high : stop ≤ count) :
    match readChunk? k width (stop - done) s.input with
    | .ok (some run) input =>
      TakesRun capacity order direct k count stop done s
        (.ok () ⟨s.next.store done (k.decodeAll .native (stop - done) run), input, s.store⟩)
    | .ok none input => input = s.input
    | .error e input =>
      TakesRun capacity order direct k count stop done s (.error e ⟨s.next, input, s.store⟩) := by
  subst wide
  have turned : s.input.buffer.reverses k = order.reverses k := by
    rw [Buffer.reverses, h.order_eq]
  simp only [readChunk?, turned]
  by_cases bulk : (k.anyPattern && !order.reverses k) = true
  · rw [if_pos bulk]
    simp only [Bool.and_eq_true, Bool.not_eq_true'] at bulk
    cases direct with
    | false => rw [Incoming.readDirect_declined _ h]
    | true =>
      obtain ⟨enough, short⟩ := h.readDirect ((stop - done) * k.width)
      by_cases fits : (stop - done) * k.width ≤ s.input.ahead.length
      · obtain ⟨t, run, flow, rest⟩ := enough fits
        rw [run]
        refine ⟨fits, ?_, flow, rest, rfl⟩
        simp only [Kind.decodeAll_native bulk.2, Kind.decodeAll_take]
      · obtain ⟨t, run⟩ := short (by omega)
        have part : (stop - done) * k.width ≤ (count - done) * k.width :=
          Nat.mul_le_mul_right _ (by omega)
        rw [run]
        exact ⟨by omega, .bypass⟩
  · rw [if_neg bulk]

/-- What an intake makes of the bytes ahead: it appends the elements that the
parser reads and leaves the cells alone, or reports what the parser does. -/
def Gathers (capacity : Nat) (order : ByteOrder) (direct : Bool) (k : Kind) (a : Allocator)
    (bytes handles : Nat) (expected : Except Flaw (List Scalar × List UInt8)) (s : Intake) :
    Outcome Intake Unit → Prop
  | .ok () t =>
    Ready capacity order direct k a bytes handles t ∧
      (∃ vs, expected = .ok (vs, t.input.ahead) ∧ t.next.values = s.next.values ++ vs) ∧
      t.store.cells = s.store.cells ∧ t.store.made = s.store.made
  | .error e _ => ∃ flaw, expected = .error flaw ∧ Reports flaw e

theorem Gathers.after {item : Wire.Parser Scalar} {m n : Nat} {s t : Intake} {xs : List Scalar}
    {outcome : Outcome Intake Unit}
    (rest : Gathers capacity order direct k a bytes handles
      (Wire.parseMany item n t.input.ahead) t outcome)
    (first : Wire.parseMany item m s.input.ahead = .ok (xs, t.input.ahead))
    (values : t.next.values = s.next.values ++ xs) (cells : t.store.cells = s.store.cells)
    (made : t.store.made = s.store.made) :
    Gathers capacity order direct k a bytes handles
      (Wire.parseMany item (m + n) s.input.ahead) s outcome := by
  rw [Wire.parseMany_add, first]
  cases outcome with
  | error e u =>
    obtain ⟨flaw, failed, reports⟩ := rest
    exact ⟨flaw, by simp only [failed, Except.map], reports⟩
  | ok _ u =>
    obtain ⟨ready, ⟨ys, parsed, values'⟩, cells', made'⟩ := rest
    refine ⟨ready, ⟨xs ++ ys, by simp only [parsed, Except.map], ?_⟩, cells'.trans cells,
      made'.trans made⟩
    rw [values', values, List.append_assoc]

theorem TakesRun.reports {width count stop done : Nat} {s t u v : Intake} {e : Error}
    (wide : k.width? = some width) (same : t.input = s.input)
    (takes : TakesRun capacity order direct k count stop done t (.error e u)) :
    Gathers capacity order direct k a bytes handles
      (Wire.parseMany (Wire.parseElement k order) (count - done) s.input.ahead) s (.error e v) := by
  obtain ⟨ends, reports⟩ := takes
  rw [same, Kind.width_eq_of_width? wide] at ends
  exact ⟨.ended, by rw [Wire.parseMany_fixed wide, if_pos ends], reports⟩

/-- A run into fresh blanks, whichever way its bytes came, and then the other elements. -/
theorem TakesRun.gathers {width count stop done : Nat} {s t u : Intake}
    (wide : k.width? = some width) (ready : Ready capacity order direct k a bytes handles s)
    (ready' : Ready capacity order direct k a bytes handles t) (grown : Grown k stop s t)
    (size : s.next.length = done) (low : done ≤ stop) (high : stop ≤ count)
    (takes : TakesRun capacity order direct k count stop done t (.ok () u)) :
    Ready capacity order direct k a bytes handles u ∧ u.next.length = stop ∧
      ∀ outcome, Gathers capacity order direct k a bytes handles
          (Wire.parseMany (Wire.parseElement k order) (count - stop) u.input.ahead) u outcome →
        Gathers capacity order direct k a bytes handles
          (Wire.parseMany (Wire.parseElement k order) (count - done) s.input.ahead) s outcome := by
  obtain ⟨enough, stored, flow, rest, kept⟩ := takes
  rw [grown.input, Kind.width_eq_of_width? wide] at enough rest
  have filled : u.next.values =
      s.next.values ++ k.decodeAll order (stop - done) s.input.ahead := by
    subst size
    rw [stored, grown.input]
    exact Writable.values_store_grown ready.growing.sound ready'.growing.sound low grown.values
      (k.length_decodeAll ..)
  have growing : Growing k a bytes handles u.next u.store.allocators := by
    rw [stored, kept]
    exact ready'.growing.store
  have parts : count - done = (stop - done) + (count - stop) := by omega
  refine ⟨⟨flow, growing⟩, ?_, fun outcome tail => ?_⟩
  · rw [stored, Writable.length_store]
    exact grown.size
  · rw [parts]
    refine tail.after ?_ filled (kept ▸ grown.cells) (kept ▸ grown.made)
    rw [Wire.parseMany_fixed wide, if_neg (by omega), rest]

theorem readFixed_gathers {width : Nat} (width_pos : 0 < width) (wide : k.width? = some width)
    {count done : Nat} {s : Intake} (ready : Ready capacity order direct k a bytes handles s)
    (room : width ≤ capacity) (fits : k.footprint * count ≤ bytes) (low : done ≤ count)
    (size : s.next.length = done) :
    Gathers capacity order direct k a bytes handles
      (Wire.parseMany (Wire.parseElement k order) (count - done) s.input.ahead) s
      (readFixed k width width_pos count done s) := by
  have exact := Kind.width_eq_of_width? wide
  -- Between two chunks exactly `done` elements are gathered, whichever path they came by.
  fun_induction readFixed k width width_pos count done s with
  | case1 done s all =>
    have nothing : count - done = 0 := by omega
    rw [nothing]
    exact ⟨ready, ⟨[], rfl, (List.append_nil _).symm⟩, rfl, rfl⟩
  | case2 done s more stop e t failed =>
    obtain ⟨u, run, -⟩ := ready.growTo stop fits (Nat.min_le_left _ _)
    rw [failed] at run
    cases run
  | case3 done s more stop next input store ran e input' failed =>
    have high : stop ≤ count := Nat.min_le_left _ _
    obtain ⟨ready', grown⟩ := ready.of_growTo fits high ran
    have takes := readChunk?_takesRun done exact ready'.flowing high
    simp only [failed] at takes
    exact takes.reports wide grown.input
  | case4 done s more stop next input store ran run input' bulk values ih =>
    have high : stop ≤ count := Nat.min_le_left _ _
    obtain ⟨ready', grown⟩ := ready.of_growTo fits high ran
    have takes := readChunk?_takesRun done exact ready'.flowing high
    simp only [bulk] at takes
    obtain ⟨ready'', reached, after⟩ := takes.gathers wide ready ready' grown size (by omega) high
    exact after _ (ih ready'' high reached)
  | case5 done s more stop next input store ran input' declined e t failed =>
    have high : stop ≤ count := Nat.min_le_left _ _
    obtain ⟨ready', grown⟩ := ready.of_growTo fits high ran
    have untouched := readChunk?_takesRun done exact ready'.flowing high
    simp only [declined] at untouched
    subst untouched
    have takes := readElements_takesRun width_pos exact ready'.flowing room
      (show done ≤ stop by omega) high
    rw [failed] at takes
    exact takes.reports wide grown.input
  | case6 done s more stop next input store ran input' declined t elements ih =>
    have high : stop ≤ count := Nat.min_le_left _ _
    obtain ⟨ready', grown⟩ := ready.of_growTo fits high ran
    have untouched := readChunk?_takesRun done exact ready'.flowing high
    simp only [declined] at untouched
    subst untouched
    have takes := readElements_takesRun width_pos exact ready'.flowing room
      (show done ≤ stop by omega) high
    rw [elements] at takes
    obtain ⟨ready'', reached, after⟩ := takes.gathers wide ready ready' grown size (by omega) high
    exact after _ (ih ready'' high reached)

theorem readTexts_gathers (text : k.width? = none) (wide : 8 ≤ capacity) {count : Nat}
    (fits : k.footprint * count ≤ bytes) {missing : Nat} (low : missing ≤ count) {s : Intake}
    (ready : Ready capacity order direct k a bytes handles s)
    (size : s.next.length = count - missing) :
    Gathers capacity order direct k a bytes handles
      (Wire.parseMany (Wire.parseElement k order) missing s.input.ahead) s
      (readTexts count missing s) := by
  induction missing generalizing s with
  | zero => exact ⟨ready, ⟨[], rfl, (List.append_nil _).symm⟩, rfl, rfl⟩
  | succ missing ih =>
    obtain ⟨w, input, base⟩ := s
    have flowing : Flowing capacity order direct input := ready.flowing
    have string := Wire.readText_follows wide flowing
    have item : Wire.parseElement k order input.ahead =
        (Wire.parseText order input.ahead).map fun (text, rest) => (.text text, rest) := by
      simp only [Wire.parseElement, text]
      cases Wire.parseText order input.ahead <;> rfl
    simp only [readTexts]
    cases run : Wire.readText input with
    | error e t =>
      rw [run] at string
      obtain ⟨flaw, failed, reports⟩ := string
      refine ⟨flaw, ?_, reports⟩
      simp only [Wire.parseMany, item, failed, Except.map]
    | ok string' input' =>
      rw [run] at string
      obtain ⟨parsed, flow⟩ := string
      have index : count - (missing + 1) = w.length := size.symm
      have ready' : Ready capacity order direct k a bytes handles ⟨w, input', base⟩ :=
        ⟨flow, ready.growing⟩
      obtain ⟨⟨v, feed, store⟩, ran, ready'', grown⟩ :=
        ready'.growTo (w.length + 1) fits (by omega)
      have fed : feed = input' := grown.input
      subst fed
      simp only [index, ran]
      have filled : (v.store w.length [.text string']).values = w.values ++ [.text string'] :=
        Writable.values_store_grown ready.growing.sound ready''.growing.sound (Nat.le_succ _)
          grown.values (by simp only [List.length_singleton]; omega)
      have tail := ih (s := ⟨v.store w.length [.text string'], feed, store⟩) (by omega)
        ⟨flow, ready''.growing.store⟩
        (((Writable.length_store ..).trans grown.size).trans (by omega))
      rw [Nat.add_comm]
      refine tail.after (s := ⟨w, input, base⟩) ?_ filled grown.cells grown.made
      simp only [Wire.parseMany, item, parsed, Except.map]

theorem readAll_gathers (wide : 8 ≤ capacity) {count : Nat} (fits : k.footprint * count ≤ bytes)
    {s : Intake} (ready : Ready capacity order direct k a bytes handles s)
    (size : s.next.length = 0) :
    Gathers capacity order direct k a bytes handles
      (Wire.parseMany (Wire.parseElement k order) count s.input.ahead) s (readAll k count s) := by
  unfold readAll
  split
  · next text =>
    exact readTexts_gathers text wide fits (Nat.le_refl _) ready (by rw [size, Nat.sub_self])
  · next width exact =>
    have narrow : width ≤ 8 := Kind.width_eq_of_width? exact ▸ k.width_le_eight
    exact readFixed_gathers _ exact ready (Nat.le_trans narrow wide) fits (Nat.zero_le _) size

end Intake

end ArrayStore
