import ArrayStore.Proofs.Value.Intake
import ArrayStore.Proofs.Vector.Accounting
import ArrayStore.Proofs.Vector.Sharing
import ArrayStore.Proofs.Wire.Acceptance

/-! Arrays that are accepted, against the grammar.
Through any buffer, from any source and with any allocator, an array that is
read shows the elements that the grammar reads from the bytes ahead. When
reading succeeds is not said. -/

namespace ArrayStore

open Incoming (Onward)

namespace Intake

variable {k : Kind} {s t u : Intake}

/-- A run of elements, spelled by the bytes that were taken, lies in the places `done .. stop`. -/
def Ran (k : Kind) (stop done : Nat) (s t : Intake) : Prop :=
  ∃ bytes, Onward s.input t.input bytes ∧ bytes.length = (stop - done) * k.width ∧
    t.next = s.next.store done (k.decodeAll s.input.buffer.order (stop - done) bytes)

theorem readElements_ran {width : Nat} (width_pos : 0 < width) {count stop done : Nat}
    (valid : s.input.buffer.Valid)
    (run : readElements k width width_pos count stop done s = .ok () t) : Ran k stop done s t := by
  fun_induction readElements k width width_pos count stop done s with
  | case1 done next input store all =>
    cases run
    have nothing : stop - done = 0 := by omega
    exact ⟨[], .refl valid, by simp [nothing], by simp [nothing, Writable.store_nil]⟩
  | case2 | case4 | case5 => cases run
  | case3 done next input store more held less input' grown progress ih =>
    have first := Incoming.ensureData_onward valid grown
    obtain ⟨bytes, second, size, stored⟩ := ih first.valid run
    simp only [first.order_eq] at stored
    exact ⟨bytes, first.trans second, size, stored⟩
  | case6 done next input store more held whole part values input' got ih =>
    obtain ⟨front, first, size, rfl⟩ := Incoming.getAll_onward valid got
    obtain ⟨bytes, second, size', stored⟩ := ih first.valid run
    have small : part ≤ stop - done := Nat.min_le_right _ _
    clear_value part
    have parts : stop - done = part + (stop - (done + part)) := by omega
    have length : (k.decodeAll input.buffer.order part front).length = part :=
      k.length_decodeAll ..
    have joined := Writable.store_store next done (k.decodeAll input.buffer.order part front)
      (k.decodeAll input.buffer.order (stop - (done + part)) bytes)
    simp only [first.order_eq] at stored
    refine ⟨front ++ bytes, first.trans second, ?_, ?_⟩
    · rw [List.length_append, size, size', parts, Nat.add_mul]
    · rw [length] at joined
      rw [stored, joined, parts, Kind.decodeAll_append size]

theorem readChunk?_ran {width stop done : Nat} {bytes : List UInt8} {input : Incoming}
    (wide : k.width = width) (valid : s.input.buffer.Valid)
    (run : readChunk? k width (stop - done) s.input = .ok (some bytes) input) :
    Ran k stop done s
      ⟨s.next.store done (k.decodeAll .native (stop - done) bytes), input, s.store⟩ := by
  simp only [readChunk?] at run
  split at run
  · next bulk =>
    simp only [Bool.and_eq_true, Bool.not_eq_true'] at bulk
    obtain ⟨onward, size⟩ := Incoming.readDirect_onward valid run
    refine ⟨bytes, onward, wide ▸ size, ?_⟩
    rw [Kind.decodeAll_native bulk.2]
  · cases run

theorem readChunk?_none {width size : Nat} {input input' : Incoming}
    (run : readChunk? k width size input = .ok none input') : input' = input := by
  simp only [readChunk?] at run
  split at run
  · exact Incoming.readDirect_none run
  · cases run
    rfl

theorem growTo_grown {length count : Nat} (sound : s.next.Sound) (kind : s.next.kind = k)
    (run : growTo length count s = .ok () t) :
    t.next.Sound ∧ t.next.kind = k ∧ Grown k length s t := by
  obtain ⟨w, input, m, cells, made⟩ := s
  -- Whether room was made before or not, the last step was the one that sets the length.
  have resized : ∃ v l n, v.Sound ∧ v.kind = k ∧ v.values = w.values ∧ v.length = w.length ∧
      Writable.resize length (v, l) = .ok () (t.next, n) ∧
      t = ⟨t.next, input, n, cells, made⟩ := by
    simp only [growTo, Store.onWritable] at run
    by_cases tight : w.capacity < length
    · simp only [if_pos tight] at run
      cases reserved : Writable.reserve (min (max length (2 * w.capacity)) count) (w, m) with
      | error e p =>
        simp only [reserved] at run
        cases run
      | ok _ p =>
        obtain ⟨sound', values, kind', size, -⟩ := Writable.reserve_ok sound reserved
        simp only [reserved] at run
        cases step : Writable.resize length p with
        | error e q =>
          simp only [step] at run
          cases run
        | ok _ q =>
          simp only [step] at run
          cases run
          exact ⟨p.1, p.2, q.2, sound', kind'.trans kind, values, size, step, rfl⟩
    · simp only [if_neg tight] at run
      cases step : Writable.resize length (w, m) with
      | error e q =>
        simp only [step] at run
        cases run
      | ok _ q =>
        simp only [step] at run
        cases run
        exact ⟨w, m, q.2, sound, kind, rfl, rfl, step, rfl⟩
  obtain ⟨v, l, n, sound', kind', values, size, step, same⟩ := resized
  obtain ⟨sound'', kind'', values'⟩ := Writable.resize_ok sound' step
  simp only at sound'' kind'' values'
  refine ⟨sound'', kind''.trans kind', ?_⟩
  rw [values, size, kind'] at values'
  have whole := Writable.length_values sound''
  have start : w.values.length = w.length := Writable.length_values sound
  rw [values', List.length_append, List.length_take, List.length_replicate] at whole
  rw [same]
  exact ⟨rfl, rfl, rfl, by simp only; omega, values'⟩

/-- Elements that the grammar reads from the bytes ahead were appended to the vector. -/
structure Collects (k : Kind) (n : Nat) (s t : Intake) : Prop where
  sound : t.next.Sound
  kind_eq : t.next.kind = k
  size_eq : t.next.length = s.next.length + n
  valid : t.input.buffer.Valid
  order_eq : t.input.buffer.order = s.input.buffer.order
  elements : ∃ vs, Wire.parseMany (Wire.parseElement k s.input.buffer.order) n s.input.ahead =
    .ok (vs, t.input.ahead) ∧ t.next.values = s.next.values ++ vs

theorem Collects.none (sound : s.next.Sound) (kind : s.next.kind = k)
    (valid : s.input.buffer.Valid) : Collects k 0 s s :=
  ⟨sound, kind, rfl, valid, rfl, [], rfl, (List.append_nil _).symm⟩

theorem Collects.trans {m n : Nat} (first : Collects k m s t) (second : Collects k n t u) :
    Collects k (m + n) s u := by
  obtain ⟨xs, parsed, values⟩ := first.elements
  obtain ⟨ys, parsed', values'⟩ := second.elements
  rw [first.order_eq] at parsed'
  refine ⟨second.sound, second.kind_eq, ?_, second.valid, second.order_eq.trans first.order_eq,
    xs ++ ys, ?_, ?_⟩
  · rw [second.size_eq, first.size_eq, Nat.add_assoc]
  · rw [Wire.parseMany_add, parsed]
    simp only [parsed', Except.map]
  · rw [values', values, List.append_assoc]

theorem Ran.collects {width stop : Nat} (wide : k.width? = some width) (sound : s.next.Sound)
    (sound' : t.next.Sound) (kind : t.next.kind = k) (grown : Grown k stop s t)
    (low : s.next.length ≤ stop) (ran : Ran k stop s.next.length t u) :
    Collects k (stop - s.next.length) s u := by
  obtain ⟨bytes, onward, size, stored⟩ := ran
  rw [grown.input] at onward stored
  refine ⟨stored ▸ Writable.store_sound sound' _ _, ?_, ?_, onward.valid, onward.order_eq,
    k.decodeAll s.input.buffer.order (stop - s.next.length) bytes, ?_, ?_⟩
  · rw [stored, (Writable.held_store ..).2.2, kind]
  · rw [stored, Writable.length_store, grown.size]
    omega
  · rw [Wire.parseMany_fixed wide, onward.ahead_eq, ← Kind.width_eq_of_width? wide,
      if_neg (by rw [List.length_append]; omega), List.drop_left' size,
      ← Kind.decodeAll_take, List.take_left' size]
  · rw [stored]
    exact Writable.values_store_grown sound sound' low grown.values (k.length_decodeAll ..)

section Chunk

variable {width count stop done : Nat} {input input' : Incoming} {next : Writable} {store : Store}
  (wide : k.width? = some width) (sound : s.next.Sound) (kind : s.next.kind = k)
  (valid : s.input.buffer.Valid) (size : s.next.length = done) (low : done ≤ stop)
  (ran : growTo stop count s = .ok () ⟨next, input, store⟩)

include wide sound kind valid size low ran

theorem bulk_collects {bytes : List UInt8}
    (bulk : readChunk? k width (stop - done) input = .ok (some bytes) input') :
    Collects k (stop - done) s
      ⟨next.store done (k.decodeAll .native (stop - done) bytes), input', store⟩ := by
  subst size
  obtain ⟨sound', kind', grown⟩ := growTo_grown sound kind ran
  have fed : input = s.input := grown.input
  have valid' : input.buffer.Valid := fed ▸ valid
  exact (readChunk?_ran (s := ⟨next, input, store⟩) (Kind.width_eq_of_width? wide) valid'
    bulk).collects wide sound sound' kind' grown low

theorem elements_collects (width_pos : 0 < width)
    (elements : readElements k width width_pos count stop done ⟨next, input, store⟩ = .ok () u) :
    Collects k (stop - done) s u := by
  subst size
  obtain ⟨sound', kind', grown⟩ := growTo_grown sound kind ran
  have fed : input = s.input := grown.input
  have valid' : input.buffer.Valid := fed ▸ valid
  exact (readElements_ran width_pos valid' elements).collects wide sound sound' kind' grown low

end Chunk

theorem readFixed_collects {width : Nat} (width_pos : 0 < width) (wide : k.width? = some width)
    {count done : Nat} (sound : s.next.Sound) (kind : s.next.kind = k)
    (valid : s.input.buffer.Valid) (size : s.next.length = done)
    (run : readFixed k width width_pos count done s = .ok () u) :
    Collects k (count - done) s u := by
  fun_induction readFixed k width width_pos count done s with
  | case1 done s all =>
    cases run
    rw [Nat.sub_eq_zero_of_le all]
    exact .none sound kind valid
  | case2 | case3 | case5 => cases run
  | case4 done s more stop next input store ran bytes input' bulk values ih =>
    have first := bulk_collects wide sound kind valid size (by omega) ran bulk
    have parts : count - done = (stop - done) + (count - stop) := by omega
    rw [parts]
    exact first.trans (ih first.sound first.kind_eq first.valid (by rw [first.size_eq]; omega) run)
  | case6 done s more stop next input store ran input' declined t elements ih =>
    have same := readChunk?_none declined
    subst same
    have first := elements_collects wide sound kind valid size (by omega) ran width_pos elements
    have parts : count - done = (stop - done) + (count - stop) := by omega
    rw [parts]
    exact first.trans (ih first.sound first.kind_eq first.valid (by rw [first.size_eq]; omega) run)

theorem text_collects {w next : Writable} {input input' feed : Incoming} {base store : Store}
    {content : String} {count : Nat} (text : k.width? = none) (sound : w.Sound) (kind : w.kind = k)
    (valid : input.buffer.Valid) (string : Wire.readText input = .ok content input')
    (ran : growTo (w.length + 1) count ⟨w, input', base⟩ = .ok () ⟨next, feed, store⟩) :
    Collects k 1 ⟨w, input, base⟩ ⟨next.store w.length [.text content], feed, store⟩ := by
  have accepted := Wire.readText_accepts (s := input) valid
  rw [string] at accepted
  obtain ⟨parsed, valid', order⟩ := accepted
  obtain ⟨sound', kind', grown⟩ := growTo_grown (s := ⟨w, input', base⟩) sound kind ran
  have fed : feed = input' := grown.input
  have grew : next.length = w.length + 1 := grown.size
  subst fed
  refine ⟨Writable.store_sound sound' _ _, (Writable.held_store ..).2.2.trans kind', ?_,
    valid', order, [.text content], ?_, ?_⟩
  · exact (Writable.length_store ..).trans grew
  · simp only [Wire.parseMany, Wire.parseElement, text, parsed]
  · exact Writable.values_store_grown sound sound' (Nat.le_succ _) grown.values
      (by simp only [List.length_singleton]; omega)

theorem readTexts_collects (text : k.width? = none) {count missing : Nat} (sound : s.next.Sound)
    (kind : s.next.kind = k) (valid : s.input.buffer.Valid) (low : missing ≤ count)
    (size : s.next.length = count - missing) (run : readTexts count missing s = .ok () u) :
    Collects k missing s u := by
  induction missing generalizing s with
  | zero =>
    cases run
    exact .none sound kind valid
  | succ missing ih =>
    obtain ⟨w, input, base⟩ := s
    cases string : Wire.readText input with
    | error e input' =>
      simp only [readTexts, string] at run
      cases run
    | ok content input' =>
      have index : count - (missing + 1) = w.length := size.symm
      simp only [readTexts, string, index] at run
      cases ran : growTo (w.length + 1) count ⟨w, input', base⟩ with
      | error e t =>
        simp only [ran] at run
        cases run
      | ok _ t =>
        simp only [ran] at run
        have first := text_collects text sound kind valid string ran
        have second := ih first.sound first.kind_eq first.valid (by omega)
          (by rw [first.size_eq]; simp only; omega) run
        rw [Nat.add_comm]
        exact first.trans second

theorem readAll_collects {count : Nat} (sound : s.next.Sound) (kind : s.next.kind = k)
    (valid : s.input.buffer.Valid) (size : s.next.length = 0)
    (run : readAll k count s = .ok () u) : Collects k count s u := by
  unfold readAll at run
  split at run
  · next text =>
    exact readTexts_collects text sound kind valid (Nat.le_refl _) (by rw [size, Nat.sub_self]) run
  · next width exact =>
    exact readFixed_collects (Kind.width?_pos exact) exact sound kind valid size run

end Intake

namespace Wire

/-- An array that is read shows what the grammar reads from the bytes ahead, and leaves the rest
of them. -/
theorem readArray_accepts {k : Kind} {a : Allocator} {input input' : Incoming} {store kept : Store}
    {f : Frozen} (valid : input.buffer.Valid)
    (run : readArray k a (input, store) = .ok f (input', kept)) :
    parseArray k input.buffer.order input.ahead = .ok (kept.values f, input'.ahead) := by
  have sized := readSize_accepts valid
  simp only [readArray] at run
  cases first : readSize input with
  | error e t =>
    simp only [first] at run
    cases run
  | ok count t =>
    rw [first] at sized
    obtain ⟨parsed, valid', order⟩ := sized
    simp only [first] at run
    cases gathered : Intake.readAll k count
        ⟨(store.emptyWritable k a).1, t, (store.emptyWritable k a).2⟩ with
    | error e u =>
      simp only [gathered] at run
      cases run
    | ok _ u =>
      let start : Intake := ⟨(store.emptyWritable k a).1, t, (store.emptyWritable k a).2⟩
      have collects : Intake.Collects k count start u := Intake.readAll_collects
        (Writable.empty_sound k a store.allocators) rfl valid' rfl gathered
      obtain ⟨vs, elements, values⟩ := collects.elements
      simp only [gathered] at run
      cases run
      have elements : parseMany (parseElement k t.buffer.order) count t.ahead =
          .ok (vs, u.input.ahead) := elements
      have shown : u.next.values = vs := values
      rw [order] at elements
      simp only [parseArray, parsed, elements, Store.values_freeze, shown]

end Wire

end ArrayStore
